import Mathlib.Tactic
import RegexLens.Proofs.Host.ClassForm
import RegexLens.Proofs.Pattern.ClassSpans

/-! A class spelled for the host holds the characters that its styled reading denotes. -/

namespace RegexLens

/-- Every atom of a closed class is spelled with a bare hyphen exactly where one forms a range. -/
theorem classForm_marks {tail : Text}
    (closed : (ClassParts.split ('[' :: tail)).isClosed = true) :
    classForm ('[' :: tail) = (ClassParts.split ('[' :: tail)).opening ++
      (classMarks ('[' :: tail)).flatMap (fun shown =>
        if shown.1 = .hyphen ∧ shown.2 ≠ .plain then ['-'] else shown.1.hostForm) ++ [']'] := by
  have each (member : ClassMember) :
      member.marked.flatMap (fun shown =>
        if shown.1 = .hyphen ∧ shown.2 ≠ .plain then ['-'] else shown.1.hostForm) =
        member.hostForm := by
    -- An atom on its own is no styled hyphen, and the middle of a range always is one.
    have alone (atom : ClassItem) : ¬ (atom = .hyphen ∧ atom.mark ≠ .plain) := by
      rintro ⟨rfl, styled⟩
      exact styled rfl
    have middle (low high : ClassItem) : ClassMember.hyphenMark low high ≠ .plain := by
      unfold ClassMember.hyphenMark
      split <;> simp
    cases member with
    | single atom => simp [ClassMember.marked, ClassMember.hostForm, alone atom]
    | range low high =>
      simp [ClassMember.marked, ClassMember.hostForm, alone low, alone high, middle low high]
  rw [classForm_members closed, classMarks, List.flatMap_assoc]
  simp only [each]

/-- Every atom of a closed class is spelled with a bare hyphen exactly where a span shows one. -/
theorem classForm_spans {tail : Text} (offset : Nat)
    (closed : (ClassParts.split ('[' :: tail)).isClosed = true) :
    classForm ('[' :: tail) = (ClassParts.split ('[' :: tail)).opening ++
      (ClassItem.placed (offset + byteSize (ClassParts.split ('[' :: tail)).opening)
        (classAtoms ('[' :: tail))).flatMap (fun (place, atom) =>
          if atom = .hyphen ∧
            (place ∈ ((annotateClass ('[' :: tail) offset).markup.spansOf .range offset).map Prod.fst ∨
              place ∈ ((annotateClass ('[' :: tail) offset).markup.spansOf .error offset).map Prod.fst)
          then ['-'] else atom.hostForm) ++ [']'] := by
  rw [classForm_marks closed, ← classMarks_items, ← placedMarks_items, List.flatMap_map]
  -- Both sides go through the same atoms, once with their offsets and once with their marks.
  have marks := placedMarks_shown (offset + byteSize (ClassParts.split ('[' :: tail)).opening)
    (classMarks ('[' :: tail))
  conv => lhs; rw [← marks]
  rw [List.flatMap_map, List.flatMap_def, List.flatMap_def]
  congr 3
  refine List.map_congr_left ?_
  rintro ⟨place, item, mark⟩ placed
  have shown : (item, mark) ∈ classMarks ('[' :: tail) :=
    marks ▸ List.mem_map.mpr ⟨_, placed, rfl⟩
  simp only [place_mem_spans .range closed placed, place_mem_spans .error closed placed]
  -- Only a hyphen is spelled by the way in which it is shown.
  by_cases hyphen : item = .hyphen
  · subst hyphen
    simp only [true_and, hyphen_shows shown]
  · simp [hyphen]

/-- A terminated class of a pattern is spelled for the host with a bare hyphen for each hyphen that
is shown as a range or as an error, and with a quoted one for every other; when it is shown without
errors and names no surrogate, the host reads all of it as a class that holds the characters which
its atoms and its shown ranges denote. -/
theorem tokenForm_characterClass (pattern : Text) (token : Token) (groups : Nat)
    (member : token ∈ scan pattern) (kind : token.kind = .characterClass)
    (closed : (ClassParts.split token.text).isClosed = true) :
    let parts := ClassParts.split token.text
    let shown := annotateClass token.text token.start
    let ranges := (shown.markup.spansOf .range token.start).map Prod.fst
    let errors := (shown.markup.spansOf .error token.start).map Prod.fst
    let atoms := ClassItem.placed (token.start + byteSize parts.opening) (classAtoms token.text)
    tokenForm groups token = parts.opening ++ atoms.flatMap (fun (place, atom) =>
      if atom = .hyphen ∧ (place ∈ ranges ∨ place ∈ errors) then ['-'] else atom.hostForm) ++ [']'] ∧
    (shown.diagnostics = [] → (∀ atom ∈ classAtoms token.text, atom.Encodable) →
      ∃ set, ClassSyntax (tokenForm groups token) set ∧
        (∀ rest, readSet ((tokenForm groups token).drop 1 ++ rest) =
          .ok (set, (tokenForm groups token).length - 1)) ∧
        set.items ≠ [] ∧ (set.complement = true ↔ IsComplement token.text) ∧
        ∀ symbol, set.contains symbol = true ↔
          ((∃ member ∈ membersAt ranges atoms, member.Denotes symbol) ↔ ¬ IsComplement token.text)) := by
  -- The token is a bracket with what belongs to it.
  have form := (scan_shaped pattern token member).form
  rw [kind] at form
  obtain ⟨⟨tail, text⟩, _⟩ := form.of_characterClass
  have spelled : tokenForm groups token = classForm token.text := by rw [tokenForm, kind]
  rw [text] at closed
  rw [spelled, text]
  refine ⟨classForm_spans token.start closed, ?_⟩
  intro clean encodable
  -- A reading without errors is that of a good class.
  have good := (annotateClass_eq_nil_iff tail token.start).mp clean
  obtain ⟨set, written, marked, contains⟩ := classForm_syntax good encodable
  -- Without faults the hyphens that are shown as ranges form the members of the class.
  have members : membersAt
      (((annotateClass ('[' :: tail) token.start).markup.spansOf .range token.start).map Prod.fst)
      (ClassItem.placed (token.start + byteSize (ClassParts.split ('[' :: tail)).opening)
        (classAtoms ('[' :: tail))) = classMembers ('[' :: tail) := by
    refine membersAt_placed _ _ ?_ ?_
    · intro low high formed
      exact good.faultless formed
    · intro place mark placed
      exact place_mem_spans .range closed placed
  refine ⟨set, written, ?_, ?_, marked, ?_⟩
  · intro rest
    -- The bracket is read before the class, so only the rest is left.
    obtain ⟨_, _, _, _, opens⟩ := id written
    rw [opens] at written ⊢
    exact readSet_of_syntax written rest
  · obtain ⟨entries, nonempty, _, items, _⟩ := written
    rw [items]
    simpa using nonempty
  · intro symbol
    rw [contains, members, ClassDenotes]

/-- A complement of a range and a hyphen is read by the host as holding neither of them. -/
theorem tokenForm_characterClass_complement :
    let text : Text := ['[', '^', 'a', '-', 'c', '-', ']']
    ∃ set, ClassSyntax (tokenForm 0 ⟨.characterClass, 0, text⟩) set ∧ set.complement = true ∧
      set.contains 'b' = false ∧ set.contains '-' = false ∧ set.contains 'd' = true := by
  intro text
  have scanned : scan text = [⟨.characterClass, 0, text⟩] := by cbv
  have closed : (ClassParts.split text).isClosed = true := by cbv
  have clean : (annotateClass text 0).diagnostics = [] := by cbv
  have atoms : classAtoms text = [.run 'a' [], .hyphen, .run 'c' [], .hyphen] := by cbv
  have encodable : ∀ atom ∈ classAtoms text, atom.Encodable := by
    simp [atoms, ClassItem.Encodable]
  obtain ⟨_, spelled⟩ := tokenForm_characterClass text ⟨.characterClass, 0, text⟩ 0
    (scanned ▸ List.mem_singleton.mpr rfl) rfl closed
  obtain ⟨set, written, _, _, marked, contains⟩ := spelled clean encodable
  have complement : IsComplement text := rfl
  -- The second hyphen closes nothing, so it is a member of its own.
  have members : membersAt (((annotateClass text 0).markup.spansOf .range 0).map Prod.fst)
      (ClassItem.placed (0 + byteSize (ClassParts.split text).opening) (classAtoms text)) =
        [.range (.run 'a' []) (.run 'c' []), .single .hyphen] := by
    rw [atoms]
    cbv
  simp only [members, complement, not_true, iff_false] at contains
  refine ⟨set, written, marked.mpr complement, ?_, ?_, ?_⟩
  · rw [← Bool.not_eq_true, contains]
    simp [ClassMember.Denotes, itemCode_iff, ClassItem.code?]
  · rw [← Bool.not_eq_true, contains]
    simp [ClassMember.Denotes, ClassItem.Denotes, itemCode_iff, ClassItem.code?]
  · rw [contains]
    simp [ClassMember.Denotes, ClassItem.Denotes, itemCode_iff, ClassItem.code?]

end RegexLens
