import RegexLens.Proofs.Markup.Spans
import RegexLens.Proofs.Pattern.ClassReading

/-! The styled hyphens of a closed class, by their byte offsets, are the hyphens of its ranges. -/

namespace RegexLens

/-- Items with the byte offsets at which they stand. -/
def ClassItem.placed (offset : Nat) : List ClassItem → List (Nat × ClassItem)
  | [] => []
  | item :: rest => (offset, item) :: placed (offset + byteSize item.text) rest

/-- The members of a class, read with ranges at the hyphens of some offsets and nowhere else. -/
def membersAt (ranges : List Nat) : List (Nat × ClassItem) → List ClassMember
  | low :: (place, middle) :: high :: rest =>
    if middle = .hyphen ∧ place ∈ ranges then .range low.2 high.2 :: membersAt ranges rest
    else .single low.2 :: membersAt ranges ((place, middle) :: high :: rest)
  | atom :: rest => .single atom.2 :: membersAt ranges rest
  | [] => []

/-- Whether an item that is shown in some way appears as a span of a style. -/
def ItemMark.shows (mark : ItemMark) (style : Style) : Bool :=
  match mark with
  | plain => false
  | styled own => own = style
  | flagged _ => style = .error

/-- Items with the ways in which they are shown and the byte offsets at which they stand. -/
def placedMarks (offset : Nat) : List (ClassItem × ItemMark) → List (Nat × ClassItem × ItemMark)
  | [] => []
  | shown :: rest => (offset, shown) :: placedMarks (offset + byteSize shown.1.text) rest

/-- The ways in which items are shown do not move them. -/
theorem placedMarks_items (offset : Nat) (shown : List (ClassItem × ItemMark)) :
    (placedMarks offset shown).map (fun entry => (entry.1, entry.2.1)) =
      ClassItem.placed offset (shown.map Prod.fst) := by
  induction shown generalizing offset with
  | nil => rfl
  | cons first rest ih => simp [placedMarks, ClassItem.placed, ih]

/-- The places of items do not change what is shown. -/
theorem placedMarks_shown (offset : Nat) (shown : List (ClassItem × ItemMark)) :
    (placedMarks offset shown).map Prod.snd = shown := by
  induction shown generalizing offset with
  | nil => rfl
  | cons first rest ih => simp [placedMarks, ih]

/-- Items stand one behind the other, so that their offsets grow. -/
theorem placedMarks_places (offset : Nat) (shown : List (ClassItem × ItemMark)) :
    (∀ entry ∈ placedMarks offset shown, offset ≤ entry.1) ∧
      (placedMarks offset shown).Pairwise fun first second => first.1 < second.1 := by
  induction shown generalizing offset with
  | nil => exact ⟨by simp [placedMarks], .nil⟩
  | cons first rest ih =>
    obtain ⟨bounded, ordered⟩ := ih (offset + byteSize first.1.text)
    -- Every item takes up at least one byte.
    have occupied : byteSize first.1.text ≠ 0 := fun empty =>
      first.1.text_ne_nil (byteSize_eq_zero.mp empty)
    constructor
    · intro entry member
      rcases List.mem_cons.mp member with rfl | member
      · exact Nat.le_refl _
      · have below := bounded entry member
        omega
    · refine List.pairwise_cons.mpr ⟨?_, ordered⟩
      intro entry member
      have below := bounded entry member
      simp only
      omega

/-- No two items stand at the same offset. -/
theorem placedMarks_unique {offset place : Nat} {shown : List (ClassItem × ItemMark)}
    {first second : ClassItem × ItemMark} (here : (place, first) ∈ placedMarks offset shown)
    (there : (place, second) ∈ placedMarks offset shown) : first = second := by
  have ordered := (placedMarks_places offset shown).2
  -- Only the order of the entries is needed from here on.
  generalize placedMarks offset shown = entries at here there ordered
  induction entries with
  | nil => contradiction
  | cons entry rest ih =>
    obtain ⟨after, ordered⟩ := List.pairwise_cons.mp ordered
    -- Two entries at one place are the same entry, since places grow from one to the next.
    rcases List.mem_cons.mp here with firstHead | firstLater <;>
      rcases List.mem_cons.mp there with secondHead | secondLater
    · exact (Prod.mk.inj (firstHead.trans secondHead.symm)).2
    · have grows := after _ secondLater
      rw [← firstHead] at grows
      exact absurd grows (Nat.lt_irrefl _)
    · have grows := after _ firstLater
      rw [← secondHead] at grows
      exact absurd grows (Nat.lt_irrefl _)
    · exact ih firstLater secondLater ordered

namespace ClassReading

/-- Showing an item adds its text and moves on behind it. -/
theorem emit_moves (reading : ClassReading) (shown : ClassItem × ItemMark) :
    (reading.emit shown).offset = reading.offset + byteSize shown.1.text ∧
      (reading.emit shown).markup.plainText = reading.markup.plainText ++ shown.1.text := by
  obtain ⟨item, mark⟩ := shown
  -- The mark decides about the style of the text only.
  cases mark <;> simp [emit, plain, styled, flagged]

/-- The spans of a style that showing items adds stand where the items do. -/
theorem spansOf_foldl_emit (style : Style) (offset : Nat) (shown : List (ClassItem × ItemMark))
    (reading : ClassReading) (place : reading.offset = offset + byteSize reading.markup.plainText) :
    (shown.foldl emit reading).markup.spansOf style offset = reading.markup.spansOf style offset ++
      (placedMarks reading.offset shown).filterMap fun entry =>
        if entry.2.2.shows style then some (entry.1, entry.2.1.text) else none := by
  induction shown generalizing reading with
  | nil => simp [placedMarks]
  | cons entry rest ih =>
    obtain ⟨item, mark⟩ := entry
    obtain ⟨moved, text⟩ := reading.emit_moves (item, mark)
    -- One item adds a span of the style when its mark shows one.
    have spans : (reading.emit (item, mark)).markup.spansOf style offset =
        reading.markup.spansOf style offset ++
          if mark.shows style then [(reading.offset, item.text)] else [] := by
      cases mark with
      | plain => simp [emit, plain, ItemMark.shows]
      | styled own => simp [emit, styled, ItemMark.shows, Markup.spansOf_pushSpan, place]
      | flagged fault =>
        simp [emit, flagged, styled, ItemMark.shows, Markup.spansOf_pushSpan, place, eq_comm]
    -- The next item stands where the text that is shown ends.
    have further : (reading.emit (item, mark)).offset =
        offset + byteSize (reading.emit (item, mark)).markup.plainText := by
      rw [moved, text, byteSize_append, place, Nat.add_assoc]
    rw [List.foldl_cons, ih _ further, spans, moved, placedMarks, List.filterMap_cons,
      List.append_assoc]
    cases mark.shows style <;> simp

end ClassReading

/-- The spans of a closed class stand where the atoms do that are shown in their style. -/
theorem annotateClass_spans {tail : Text} (offset : Nat) (style : Style)
    (closed : (ClassParts.split ('[' :: tail)).isClosed = true) :
    (annotateClass ('[' :: tail) offset).markup.spansOf style offset =
      (placedMarks (offset + byteSize (ClassParts.split ('[' :: tail)).opening)
        (classMarks ('[' :: tail))).filterMap fun entry =>
          if entry.2.2.shows style then some (entry.1, entry.2.1.text) else none := by
  -- The first item stands behind the opening, which is all that is shown so far.
  have start : (ClassReading.opened ('[' :: tail) offset).offset =
      offset + byteSize (ClassReading.opened ('[' :: tail) offset).markup.plainText := by
    simp [ClassReading.opened, Markup.plainText]
  rw [annotateClass_closed offset closed, Markup.spansOf_pushText,
    ClassReading.spansOf_foldl_emit style offset _ _ start]
  simp [ClassReading.opened, Markup.spansOf]

/-- An atom of a closed class starts a span of a style exactly when it is shown in that style. -/
theorem place_mem_spans {tail : Text} {offset place : Nat} {item : ClassItem} {mark : ItemMark}
    (style : Style) (closed : (ClassParts.split ('[' :: tail)).isClosed = true)
    (placed : (place, item, mark) ∈ placedMarks
      (offset + byteSize (ClassParts.split ('[' :: tail)).opening) (classMarks ('[' :: tail))) :
    place ∈ ((annotateClass ('[' :: tail) offset).markup.spansOf style offset).map Prod.fst ↔
      mark.shows style = true := by
  rw [annotateClass_spans offset style closed]
  constructor
  · intro found
    obtain ⟨span, member, rfl⟩ := List.mem_map.mp found
    obtain ⟨entry, there, shown⟩ := List.mem_filterMap.mp member
    -- The atom that the span shows is the only one at that offset.
    split at shown
    · rename_i shows
      obtain rfl := Option.some.inj shown
      have same := placedMarks_unique placed there
      rw [← same] at shows
      exact shows
    · contradiction
  · -- The atom is among those that the style selects.
    intro shows
    refine List.mem_map.mpr ⟨(place, item.text), ?_, rfl⟩
    exact List.mem_filterMap.mpr ⟨_, placed, by simp [shows]⟩

/-- Reading ranges where hyphens are shown as such forms the same members as reading greedily. -/
theorem membersAt_placed {ranges : List Nat} (offset : Nat) (atoms : List ClassItem)
    (faultless : ∀ low high, .range low high ∈ ClassMember.all atoms →
      ClassMember.rangeFault? low high = none)
    (shown : ∀ place mark, (place, .hyphen, mark) ∈
      placedMarks offset ((ClassMember.all atoms).flatMap ClassMember.marked) →
        (place ∈ ranges ↔ mark.shows .range = true)) :
    membersAt ranges (ClassItem.placed offset atoms) = ClassMember.all atoms := by
  fun_induction ClassMember.all atoms generalizing offset with
  | case1 low high rest ih =>
    -- The hyphen of the range is shown as one, and the reading goes on behind the right endpoint.
    have styled : offset + byteSize low.text ∈ ranges := by
      refine (shown _ (ClassMember.hyphenMark low high) (by simp [placedMarks, ClassMember.marked])).mpr ?_
      simp [ClassMember.hyphenMark, faultless low high (by simp), ItemMark.shows]
    simp only [ClassItem.placed, membersAt, styled, and_self, if_true]
    rw [ih]
    · exact fun first last member => faultless first last (by simp [member])
    · intro place mark member
      exact shown place mark (by
        simp only [List.flatMap_cons, ClassMember.marked, List.cons_append, List.nil_append,
          placedMarks, List.mem_cons]
        exact .inr (.inr (.inr member)))
  | case2 atom rest noRange ih =>
    -- Behind a single atom the reading goes on with the next one.
    have others : membersAt ranges (ClassItem.placed (offset + byteSize atom.text) rest) =
        ClassMember.all rest := by
      refine ih _ (fun first last member => faultless first last (by simp [member])) ?_
      intro place mark member
      exact shown place mark (by
        simp only [List.flatMap_cons, ClassMember.marked, List.cons_append, List.nil_append,
          placedMarks, List.mem_cons]
        exact .inr member)
    rw [← others]
    rcases rest with _ | ⟨next, _ | ⟨high, more⟩⟩
    · rfl
    · rfl
    · -- A hyphen here would have formed a range.
      have other : ¬ next = .hyphen := fun same => noRange high more (by rw [same])
      simp [ClassItem.placed, membersAt, other]
  | case3 => rfl

/-- A hyphen of a class is shown as text or as the hyphen of a range, with or without a fault. -/
theorem hyphen_shows {text : Text} {mark : ItemMark} (shown : (.hyphen, mark) ∈ classMarks text) :
    mark ≠ .plain ↔ mark.shows .range = true ∨ mark.shows .error = true := by
  -- A hyphen on its own is text, and that of a range is styled or flagged.
  rcases mem_classMarks shown with rfl | ⟨_, low, high, _, rfl⟩
  · simp [ClassItem.mark, ItemMark.shows]
  · unfold ClassMember.hyphenMark
    split <;> simp [ItemMark.shows]

end RegexLens
