import Mathlib.Data.List.Basic
import RegexLens.Proofs.Markup.OuterLevel
import RegexLens.Proofs.Pattern.ClassSpans

/-! The hyphens of a class, closed or not: those that form ranges, and those that stand for
themselves. -/

namespace RegexLens

/-- What a mark reports. -/
def ItemMark.fault? : ItemMark → Option Fault
  | flagged fault => some fault
  | _ => none

/-- A range of a class, with the byte offset of the hyphen between its endpoints. -/
structure PlacedRange where
  /-- The left endpoint. -/
  low : ClassItem
  /-- Where the hyphen stands. -/
  place : Nat
  /-- The right endpoint. -/
  high : ClassItem
deriving DecidableEq, Repr

namespace PlacedRange

/-- Both endpoints have a character code, and the left code is the greater one. -/
def IsReversed (range : PlacedRange) : Prop :=
  ∃ first last, ItemCode range.low (some first) ∧ ItemCode range.high (some last) ∧ last < first

/-- The codes of the endpoints are the only ones that have to be compared. -/
theorem isReversed_iff {range : PlacedRange} :
    range.IsReversed ↔ ∃ first ∈ range.low.code?, ∃ last ∈ range.high.code?,
      ItemCode range.low (some first) ∧ ItemCode range.high (some last) ∧ last < first := by
  -- An item has one code, so the codes are those that are found.
  constructor
  · rintro ⟨first, last, low, high, reversed⟩
    exact ⟨first, low.eq_code?, last, high.eq_code?, low, high, reversed⟩
  · rintro ⟨first, _, last, _, found⟩
    exact ⟨first, last, found⟩

/-- Whether a range is out of order can be checked. -/
instance (range : PlacedRange) : Decidable range.IsReversed :=
  decidable_of_iff' _ isReversed_iff

/-- Whether an endpoint is a shorthand class, or the endpoints are out of order. -/
def isFaulty (range : PlacedRange) : Bool :=
  range.low.IsShorthand ∨ range.high.IsShorthand ∨ range.IsReversed

/-- The fault of a faulty range. -/
def fault (range : PlacedRange) : Fault :=
  if range.IsReversed then .reversedRange else .metaclassEndpoint

/-- What a faulty range is reported with. -/
def reason (range : PlacedRange) : Text :=
  if range.IsReversed then "character range out of order".toList
  else "metaclass used as a range endpoint".toList

/-- The wording of the fault is the reason, and the fault lies on the level of ranges. -/
theorem fault_reason (range : PlacedRange) :
    range.fault.reason = range.reason ∧ range.fault.kind = .range := by
  unfold fault reason
  split <;> exact ⟨rfl, rfl⟩

/-- A range between atoms of class contents. -/
def Within (range : PlacedRange) (contents : Text) : Prop :=
  range.low ∈ atomsOf contents ∧ range.high ∈ atomsOf contents

variable {range : PlacedRange} {contents : Text}

/-- Between atoms a range is out of order if the codes that are found for them are. -/
theorem Within.isReversed_iff (within : range.Within contents) :
    range.IsReversed ↔ ∃ first ∈ range.low.code?, ∃ last ∈ range.high.code?, last < first := by
  -- Atoms are meant to denote the codes that are found for them.
  simp only [IsReversed, itemCode_iff_of_mem_atomsOf within.1,
    itemCode_iff_of_mem_atomsOf within.2, Option.mem_def]
  constructor
  · rintro ⟨first, last, low, high, reversed⟩
    exact ⟨first, low, last, high, reversed⟩
  · rintro ⟨first, low, last, high, reversed⟩
    exact ⟨first, last, low, high, reversed⟩

/-- How the hyphen of a range is shown follows from what is wrong with the range. -/
theorem Within.hyphenMark_eq (within : range.Within contents) :
    ClassMember.hyphenMark range.low range.high =
      if range.IsReversed then .flagged .reversedRange
      else if range.isFaulty then .flagged .metaclassEndpoint
      else .styled .range := by
  have reversed := within.isReversed_iff
  have fault : ClassMember.rangeFault? range.low range.high =
      if range.IsReversed then some .reversedRange
      else if range.low.isMetaclass || range.high.isMetaclass then some .metaclassEndpoint
      else none := by
    -- Only two codes can be out of order.
    cases first : range.low.code? <;> cases last : range.high.code? <;>
      simp [ClassMember.rangeFault?, reversed, first, last]
  rw [ClassMember.hyphenMark, fault, isFaulty]
  simp only [ClassItem.isShorthand_iff]
  -- A range that is not out of order can only be faulty through an endpoint.
  by_cases wrong : range.IsReversed
  · simp [wrong]
  · cases range.low.isMetaclass <;> cases range.high.isMetaclass <;> simp [wrong]

/-- The hyphen of a range has the style of ranges unless the range is faulty. -/
theorem Within.hyphenMark_shows (within : range.Within contents) :
    (ClassMember.hyphenMark range.low range.high).shows .range = !range.isFaulty ∧
      (ClassMember.hyphenMark range.low range.high).shows .error = range.isFaulty := by
  rw [within.hyphenMark_eq]
  -- A reversed range is faulty, whatever its endpoints are.
  by_cases reversed : range.IsReversed
  · simp [ItemMark.shows, isFaulty, reversed]
  · cases faulty : range.isFaulty <;> simp [ItemMark.shows, reversed]

/-- The hyphen of a faulty range reports the fault of the range. -/
theorem Within.hyphenMark_fault? (within : range.Within contents) :
    (ClassMember.hyphenMark range.low range.high).fault? =
      if range.isFaulty then some range.fault else none := by
  rw [within.hyphenMark_eq, fault]
  -- The order of the endpoints is looked at first, as the reasons are.
  by_cases reversed : range.IsReversed
  · simp [ItemMark.fault?, isFaulty, reversed]
  · cases faulty : range.isFaulty <;> simp [ItemMark.fault?, reversed]

end PlacedRange

/-- A member as it stands in the class. -/
def ClassMember.text : ClassMember → Text
  | single atom => atom.text
  | range low high => low.text ++ ClassItem.hyphen.text ++ high.text

/-- The ranges among members, of which the first stands at a byte offset. -/
def placedRanges (offset : Nat) : List ClassMember → List PlacedRange
  | [] => []
  -- An atom on its own only moves the place of what stands behind it.
  | .single atom :: rest => placedRanges (offset + byteSize atom.text) rest
  | .range low high :: rest =>
    ⟨low, offset + byteSize low.text, high⟩ ::
      placedRanges (offset + byteSize (ClassMember.range low high).text) rest

/-- Where a last hyphen stands that lacks nothing but its right endpoint to form a range. -/
def waitingHyphen? (offset : Nat) : List ClassMember → Option Nat
  | [] => none
  | [.single low, .single .hyphen] => some (offset + byteSize low.text)
  | member :: rest => waitingHyphen? (offset + byteSize member.text) rest

/-- Atoms that form one member and no range are one atom. -/
theorem ClassMember.eq_singleton_of_all {atoms : List ClassItem} {atom : ClassItem}
    (alone : all atoms = [.single atom]) : atoms = [atom] := by
  fun_cases all atoms with
  | case1 low high rest => simp [all] at alone
  | case2 first rest noRange =>
    rw [all.eq_2 first rest noRange] at alone
    obtain ⟨same, nothing⟩ := List.cons.inj alone
    -- Further atoms would form further members.
    cases rest with
    | nil => rw [ClassMember.single.inj same]
    | cons next others => exact absurd nothing (all_ne_nil (by simp))
  | case3 => contradiction

/-- What is collected from the marked atoms of a class, when atoms that stand for themselves give
nothing, comes from the ranges and from a last hyphen that waits for its endpoint. -/
theorem filterMap_atomMarks {Entry : Type} (collect : Nat × ClassItem × ItemMark → Option Entry)
    (ordinary : ∀ place (item : ClassItem), collect (place, item, item.mark) = none)
    (closed : Bool) (offset : Nat) (atoms : List ClassItem) :
    (placedMarks offset (atomMarks closed atoms)).filterMap collect =
      (placedRanges offset (ClassMember.all atoms)).filterMap (fun range =>
        collect (range.place, .hyphen, ClassMember.hyphenMark range.low range.high)) ++
      (if closed then none else waitingHyphen? offset (ClassMember.all atoms)).toList.filterMap
        fun place => collect (place, .hyphen, .styled .range) := by
  -- The marks are given as the members are found, two or three atoms at a time.
  fun_induction atomMarks closed atoms generalizing offset with
  | case1 low high rest ih =>
    -- The endpoints stand for themselves, so only the hyphen between them counts.
    simp only [placedMarks, ClassMember.all, placedRanges, waitingHyphen?, List.filterMap_cons,
      ordinary, ih, ClassMember.text, byteSize_append, Nat.add_assoc]
    cases collect _ <;> rfl
  | case2 low =>
    -- In a closed class a last hyphen stands for itself as well.
    have plain : collect (offset + byteSize low.text, .hyphen, .plain) = none :=
      ordinary _ .hyphen
    cases closed with
    | true => simp [placedMarks, ClassMember.all, placedRanges, ordinary, plain]
    | false =>
      simp [placedMarks, ClassMember.all, placedRanges, waitingHyphen?, List.filterMap_cons,
        ordinary]
  -- The atom is on its own, with further members behind it.
  | case3 atom rest noRange noLast ih =>
    rw [ClassMember.all.eq_2 atom rest noRange]
    have further : ClassMember.all rest ≠ [.single .hyphen] :=
      fun alone => noLast (ClassMember.eq_singleton_of_all alone)
    rw [waitingHyphen?.eq_3 _ _ _ fun _ _ alone => further alone]
    simp only [placedMarks, placedRanges, List.filterMap_cons, ordinary, ih, ClassMember.text]
  | case4 => simp [placedMarks, ClassMember.all, placedRanges, waitingHyphen?]

namespace ClassReading

/-- What stands outside of every span stays there when one more item is shown. -/
theorem hasPlain_emit {reading : ClassReading} {offset place : Nat} {content : Text}
    (plain : reading.markup.HasPlain offset place content) (shown : ClassItem × ItemMark) :
    (reading.emit shown).markup.HasPlain offset place content := by
  obtain ⟨item, mark⟩ := shown
  -- However the item is shown, it is shown behind what is there.
  cases mark with
  | plain => exact plain.pushText item.text
  | styled style => exact plain.pushNested style _
  | flagged fault => exact plain.pushNested .error _

/-- What stands outside of every span stays there whatever is shown behind it. -/
theorem hasPlain_foldl {reading : ClassReading} {offset place : Nat} {content : Text}
    (plain : reading.markup.HasPlain offset place content)
    (shown : List (ClassItem × ItemMark)) :
    (shown.foldl emit reading).markup.HasPlain offset place content := by
  -- Item by item the text keeps its place.
  induction shown generalizing reading with
  | nil => exact plain
  | cons entry rest ih => exact ih (hasPlain_emit plain entry)

/-- Items that are shown as text stand outside of every span. -/
theorem hasPlain_foldl_emit {offset place : Nat} {item : ClassItem}
    {shown : List (ClassItem × ItemMark)} {reading : ClassReading}
    (start : reading.offset = offset + byteSize reading.markup.plainText)
    (found : (place, item, .plain) ∈ placedMarks reading.offset shown) :
    (shown.foldl emit reading).markup.HasPlain offset place item.text := by
  induction shown generalizing reading with
  | nil => simp [placedMarks] at found
  -- The first item is shown where the reading stands, and it moves the reading on.
  | cons entry rest ih =>
    obtain ⟨moved, text⟩ := reading.emit_moves entry
    rcases List.mem_cons.mp found with here | later
    · obtain ⟨rfl, rfl⟩ := Prod.mk.inj here
      -- The text of the item goes to the end, and nothing that follows touches it.
      have plain := reading.markup.hasPlain_pushText item.text_ne_nil offset
      rw [← start] at plain
      exact hasPlain_foldl plain rest
    · -- The reading has moved on by the text of the first item.
      refine ih ?_ (by rwa [moved])
      rw [moved, text, byteSize_append, start, Nat.add_assoc]

/-- Behind the opening of a class the reading stands where the text of the opening ends. -/
theorem entered_offset (text : Text) (offset : Nat) :
    (entered text offset).offset =
      offset + byteSize (entered text offset).markup.plainText := by
  -- The opening is shown with the same text in both cases.
  simp only [entered, opened]
  split <;> simp [Markup.plainText]

/-- The faults that showing items adds stand where the items do. -/
theorem diagnostics_foldl_emit (shown : List (ClassItem × ItemMark)) (reading : ClassReading) :
    (shown.foldl emit reading).diagnostics = reading.diagnostics ++
      (placedMarks reading.offset shown).filterMap fun entry =>
        entry.2.2.fault?.map fun fault => ⟨fault, entry.1, entry.2.1.text⟩ := by
  induction shown generalizing reading with
  | nil => simp [placedMarks]
  | cons entry rest ih =>
    obtain ⟨item, mark⟩ := entry
    rw [List.foldl_cons, ih]
    -- Only an item that is flagged adds a fault.
    cases mark <;> simp [placedMarks, emit, plain, styled, flagged, ItemMark.fault?]

end ClassReading

/-- An atom that stands for itself is shown as an error only when it is an escape. -/
theorem ClassItem.mark_shows (item : ClassItem) :
    item.mark.shows .range = false ∧
      (item.mark.shows .error = true → item.text ≠ ['-']) ∧
      ∀ fault ∈ item.mark.fault?, fault.kind = .lexical := by
  cases item with
  -- Runs and hyphens are shown as text.
  | run first others => simp [mark, ItemMark.shows, ItemMark.fault?]
  | hyphen => simp [mark, ItemMark.shows, ItemMark.fault?]
  | escape sequence =>
    simp only [mark]
    -- An escape that is flagged starts with its backslash and is malformed on its own.
    split
    · simp [ItemMark.shows, ItemMark.fault?, Fault.kind, text]
    · split
      · simp [ItemMark.shows, ItemMark.fault?, Fault.kind, text]
      · split <;> simp [ItemMark.shows, ItemMark.fault?]

/-- The ranges of the class at the front of a text that stands at a byte offset, read greedily. -/
def classRanges (text : Text) (offset : Nat) : List PlacedRange :=
  let parts := ClassParts.split text
  placedRanges (offset + byteSize parts.opening) (ClassMember.all (atomsOf parts.contents))

/-- The last hyphen of a class that is not closed, when an atom in front of it could open a range. -/
def pendingHyphen? (text : Text) (offset : Nat) : Option Nat :=
  let parts := ClassParts.split text
  -- Behind a closed class no endpoint can follow.
  if parts.isClosed then none
  else waitingHyphen? (offset + byteSize parts.opening) (ClassMember.all (atomsOf parts.contents))

/-- The ranges that members are placed as are between endpoints of the members. -/
theorem mem_placedRanges {offset : Nat} {members : List ClassMember} {range : PlacedRange}
    (member : range ∈ placedRanges offset members) : .range range.low range.high ∈ members := by
  -- A range is placed where its member is found.
  fun_induction placedRanges offset members with
  | case1 => contradiction
  | case2 offset atom rest ih => exact List.mem_cons_of_mem _ (ih member)
  | case3 offset low high rest ih =>
    rcases List.mem_cons.mp member with rfl | later
    · exact List.mem_cons_self
    · exact List.mem_cons_of_mem _ (ih later)

/-- The ranges of a class are between atoms of its contents. -/
theorem within_of_mem_classRanges {text : Text} {offset : Nat} {range : PlacedRange}
    (member : range ∈ classRanges text offset) :
    range.Within (ClassParts.split text).contents :=
  ClassMember.endpoints_mem (mem_placedRanges member)

section Hyphens

variable (tail : Text) (offset : Nat)

/-- The marked atoms of a class with their places. -/
def markedAtoms : List (Nat × ClassItem × ItemMark) :=
  let parts := ClassParts.split ('[' :: tail)
  placedMarks (offset + byteSize parts.opening) (atomMarks parts.isClosed (classAtoms ('[' :: tail)))

/-- What is collected from the atoms of a class comes from its ranges and its pending hyphen. -/
theorem filterMap_markedAtoms {Entry : Type}
    (collect : Nat × ClassItem × ItemMark → Option Entry)
    (ordinary : ∀ place (item : ClassItem), collect (place, item, item.mark) = none) :
    (markedAtoms tail offset).filterMap collect =
      (classRanges ('[' :: tail) offset).filterMap (fun range =>
        collect (range.place, .hyphen, ClassMember.hyphenMark range.low range.high)) ++
      (pendingHyphen? ('[' :: tail) offset).toList.filterMap
        fun place => collect (place, .hyphen, .styled .range) := by
  -- In front of the marked atoms of a class there is its opening.
  rw [markedAtoms, filterMap_atomMarks collect ordinary]
  rfl

/-- What the hyphens of certain ranges give is collected from these ranges. -/
theorem filterMap_selectedRanges {Entry : Type}
    {collect : Nat × ClassItem × ItemMark → Option Entry} {selected : PlacedRange → Bool}
    {entry : PlacedRange → Entry}
    (ordinary : ∀ place (item : ClassItem), collect (place, item, item.mark) = none)
    (each : ∀ (range : PlacedRange) contents, range.Within contents →
      collect (range.place, .hyphen, ClassMember.hyphenMark range.low range.high) =
        if selected range then some (entry range) else none) :
    (markedAtoms tail offset).filterMap collect =
      ((classRanges ('[' :: tail) offset).filter selected).map entry ++
        (pendingHyphen? ('[' :: tail) offset).toList.filterMap fun place =>
          collect (place, .hyphen, .styled .range) := by
  -- Collecting from some of the ranges is collecting from all of them with a condition.
  rw [filterMap_markedAtoms _ _ collect ordinary, ← List.filterMap_eq_map, List.filterMap_filter,
    List.filterMap_congr fun range member => each range _ (within_of_mem_classRanges member)]
  rfl

/-- What only the hyphens of faulty ranges give is collected from the faulty ranges. -/
theorem filterMap_faultyRanges {Entry : Type}
    {collect : Nat × ClassItem × ItemMark → Option Entry} {entry : PlacedRange → Entry}
    (ordinary : ∀ place (item : ClassItem), collect (place, item, item.mark) = none)
    (pending : ∀ place, collect (place, .hyphen, .styled .range) = none)
    (faulty : ∀ (range : PlacedRange) contents, range.Within contents →
      collect (range.place, .hyphen, ClassMember.hyphenMark range.low range.high) =
        if range.isFaulty then some (entry range) else none) :
    (markedAtoms tail offset).filterMap collect =
      ((classRanges ('[' :: tail) offset).filter (·.isFaulty)).map entry := by
  -- The pending hyphen is not faulty.
  rw [filterMap_selectedRanges _ _ ordinary faulty]
  simp [pending]

/-- The spans of a class are its opening, if that is an error, and those of its marked atoms. -/
theorem annotateClass_spansOf (style : Style) :
    (annotateClass ('[' :: tail) offset).markup.spansOf style offset =
      (ClassReading.entered ('[' :: tail) offset).markup.spansOf style offset ++
        (markedAtoms tail offset).filterMap fun entry =>
          if entry.2.2.shows style then some (entry.1, entry.2.1.text) else none := by
  -- The class is shown as its opening, its atoms, and its closing bracket as text.
  rw [annotateClass_shows, Markup.spansOf_pushText, ClassReading.spansOf_foldl_emit style offset _ _
    (ClassReading.entered_offset _ offset)]
  rfl

/-- The faults of a class are that of its opening, if there is one, and those of its atoms. -/
theorem annotateClass_diagnostics :
    (annotateClass ('[' :: tail) offset).diagnostics =
      (ClassReading.entered ('[' :: tail) offset).diagnostics ++
        (markedAtoms tail offset).filterMap fun entry =>
          entry.2.2.fault?.map fun fault => ⟨fault, entry.1, entry.2.1.text⟩ := by
  rw [annotateClass_shows, ClassReading.diagnostics_foldl_emit]
  rfl

/-- The spans in the style of ranges are the hyphens of sound ranges and a pending hyphen. -/
theorem annotateClass_rangeSpans :
    (annotateClass ('[' :: tail) offset).markup.spansOf .range offset =
      (((classRanges ('[' :: tail) offset).filter fun range => !range.isFaulty).map (·.place) ++
        (pendingHyphen? ('[' :: tail) offset).toList).map (·, ['-']) := by
  -- The opening is shown as text or as an error.
  have opening : (ClassReading.entered ('[' :: tail) offset).markup.spansOf .range offset = [] := by
    simp only [ClassReading.entered]
    split <;> simp [Markup.spansOf, Markup.spansOf_pushSpan]
  have waiting : (ItemMark.styled .range).shows .range = true := rfl
  rw [annotateClass_spansOf, opening, List.nil_append,
    @filterMap_selectedRanges tail offset _ _ (fun range => !range.isFaulty)
      (fun range => (range.place, ['-'])) (fun _ item => by simp [item.mark_shows.1])
      fun range _ within => by simp only [within.hyphenMark_shows.1, ClassItem.text]]
  simp [waiting, ClassItem.text, Function.comp_def]

/-- The hyphens that are errors are those of faulty ranges. -/
theorem annotateClass_errorHyphens :
    ((annotateClass ('[' :: tail) offset).markup.spansOf .error offset).filter (·.2 = ['-']) =
      ((classRanges ('[' :: tail) offset).filter (·.isFaulty)).map
        fun range => (range.place, ['-']) := by
  -- The opening of a class is no hyphen.
  have opening : ((ClassReading.entered ('[' :: tail) offset).markup.spansOf .error
      offset).filter (·.2 = ['-']) = [] := by
    have other : (ClassParts.split ('[' :: tail)).opening ≠ ['-'] := by
      simp only [ClassParts.split]
      split <;> simp
    simp only [ClassReading.entered]
    split <;> simp [Markup.spansOf, Markup.spansOf_pushSpan, Markup.plainText, other]
  have waiting : (ItemMark.styled .range).shows .error = false := rfl
  rw [annotateClass_spansOf, List.filter_append, opening, List.nil_append, List.filter_filterMap]
  refine filterMap_faultyRanges _ _ ?_ (fun place => by simp [waiting]) fun range _ within => ?_
  · -- All else that can be an error is an escape.
    intro place item
    have escape := item.mark_shows.2.1
    cases shows : item.mark.shows .error with
    | true => simp [escape shows]
    | false => simp
  · simp only [within.hyphenMark_shows.2, ClassItem.text]
    cases range.isFaulty <;> simp

/-- The range faults of a class are those of its faulty ranges. -/
theorem annotateClass_rangeFaults :
    ((annotateClass ('[' :: tail) offset).diagnostics.filter (·.fault.kind = .range)).map
        (fun diagnostic => (diagnostic.offset, diagnostic.text, diagnostic.fault.reason)) =
      ((classRanges ('[' :: tail) offset).filter (·.isFaulty)).map
        fun range => (range.place, ['-'], range.reason) := by
  -- A class without its end is malformed and has no bounds.
  have opening : (ClassReading.entered ('[' :: tail) offset).diagnostics.filter
      (·.fault.kind = .range) = [] := by
    simp only [ClassReading.entered]
    split <;> simp [Fault.kind]
  have waiting : (ItemMark.styled .range).fault? = none := rfl
  rw [annotateClass_diagnostics, List.filter_append, opening, List.nil_append,
    List.filter_filterMap, List.map_filterMap]
  refine filterMap_faultyRanges _ _ ?_ (fun place => by simp [waiting]) fun range _ within => ?_
  · -- All else that can be an error is an escape, and that is malformed on its own.
    intro place item
    have lexical := item.mark_shows.2.2
    cases reported : item.mark.fault? with
    | none => simp
    | some fault => simp [lexical fault reported]
  · obtain ⟨wording, level⟩ := range.fault_reason
    simp only [within.hyphenMark_fault?, ClassItem.text]
    cases range.isFaulty with
    | true => simp only [if_true, Option.map_some, Option.filter_some, level, decide_true, wording]
    | false => rfl

/-- A hyphen that forms no range is text. -/
theorem annotateClass_plainHyphens {place : Nat}
    (placed : (place, .hyphen) ∈ ClassItem.placed
      (offset + byteSize (ClassParts.split ('[' :: tail)).opening)
      (atomsOf (ClassParts.split ('[' :: tail)).contents)) :
    place ∈ (classRanges ('[' :: tail) offset).map (·.place) ∨
      pendingHyphen? ('[' :: tail) offset = some place ∨
      (annotateClass ('[' :: tail) offset).markup.HasPlain offset place ['-'] := by
  -- The hyphen is among the marked atoms.
  have shown : ∃ mark, (place, .hyphen, mark) ∈ markedAtoms tail offset := by
    have items := atomMarks_items (ClassParts.split ('[' :: tail)).isClosed (classAtoms ('[' :: tail))
    -- The marked atoms are the atoms with a mark for each, at the same places.
    rw [← classAtoms, ← items, ← placedMarks_items] at placed
    obtain ⟨⟨start, item, mark⟩, found, same⟩ := List.mem_map.mp placed
    obtain ⟨rfl, rfl⟩ := Prod.mk.inj same
    exact ⟨mark, found⟩
  obtain ⟨mark, found⟩ := shown
  -- With any other mark the hyphen is one that was collected.
  by_cases plain : mark = .plain
  · subst plain
    refine .inr (.inr ?_)
    rw [annotateClass_shows]
    exact (ClassReading.hasPlain_foldl_emit (ClassReading.entered_offset _ offset) found).pushText _
  · -- Hyphens that are not text are those of ranges, and one that waits for its endpoint.
    have styled := filterMap_markedAtoms tail offset
      (fun entry => if entry.2.1 = .hyphen ∧ entry.2.2 ≠ .plain then some entry.1 else none)
      (fun _ item => by cases item <;> simp [ClassItem.mark])
    have member : place ∈ (markedAtoms tail offset).filterMap fun entry =>
        if entry.2.1 = .hyphen ∧ entry.2.2 ≠ .plain then some entry.1 else none :=
      List.mem_filterMap.mpr ⟨_, found, if_pos ⟨rfl, plain⟩⟩
    rw [styled] at member
    rcases List.mem_append.mp member with range | pending
    · obtain ⟨range, inside, same⟩ := List.mem_filterMap.mp range
      split at same
      · exact .inl (List.mem_map.mpr ⟨range, inside, Option.some.inj same⟩)
      · contradiction
    · -- The hyphen that waits has the place that was found.
      obtain ⟨waiting, inside, same⟩ := List.mem_filterMap.mp pending
      simp only [ne_eq, reduceCtorEq, not_false_eq_true, and_self, if_true, Option.some.injEq] at same
      exact .inr (.inl (by simpa [same] using inside))

end Hyphens

/-- The hyphens of a class are shown by its greedy reading: an atom, a hyphen and a further atom
form a range, whose hyphen has the style of ranges when the range is sound and is an error with one
diagnostic when it is not, and every other hyphen is plain text. A last hyphen behind an atom of its
own also has the style of ranges as long as the class is not closed. -/
theorem annotateClass_hyphens (tail : Text) (offset : Nat) :
    let ranges := classRanges ('[' :: tail) offset
    let pending := pendingHyphen? ('[' :: tail) offset
    let shown := annotateClass ('[' :: tail) offset
    shown.markup.spansOf .range offset =
        (((ranges.filter fun range => !range.isFaulty).map (·.place)) ++ pending.toList).map
          (·, ['-']) ∧
      (shown.markup.spansOf .error offset).filter (·.2 = ['-']) =
        (ranges.filter (·.isFaulty)).map (fun range => (range.place, ['-'])) ∧
      ((shown.diagnostics.filter (·.fault.kind = .range)).map fun diagnostic =>
          (diagnostic.offset, diagnostic.text, diagnostic.fault.reason)) =
        (ranges.filter (·.isFaulty)).map (fun range => (range.place, ['-'], range.reason)) ∧
      ∀ place, (place, .hyphen) ∈ ClassItem.placed
          (offset + byteSize (ClassParts.split ('[' :: tail)).opening)
          (atomsOf (ClassParts.split ('[' :: tail)).contents) →
        place ∈ ranges.map (·.place) ∨ pending = some place ∨
          shown.markup.HasPlain offset place ['-'] := by
  -- Each part was shown on its own.
  exact ⟨annotateClass_rangeSpans tail offset, annotateClass_errorHyphens tail offset,
    annotateClass_rangeFaults tail offset, fun _ => annotateClass_plainHyphens tail offset⟩

end RegexLens
