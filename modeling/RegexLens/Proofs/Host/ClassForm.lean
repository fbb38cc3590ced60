import RegexLens.Host.Form
import RegexLens.Proofs.Host.ClassSyntax
import RegexLens.Proofs.Pattern.ClassMeaning
import RegexLens.Proofs.Pattern.ClassReading

/-! Classes spelled for the host: the same members, each with the characters that it denotes. -/

namespace RegexLens

/-- A member spelled for the host, in which only the hyphen of a range stands bare. -/
def ClassMember.hostForm : ClassMember → Text
  | single atom => atom.hostForm
  | range low high => low.hostForm ++ '-' :: high.hostForm

/-- A run in front of other items is spelled, and followed, like its characters one by one. -/
theorem classItemsForm_run (rangeable afterRange : Bool) (first : Char) (others : Text)
    (rest : List ClassItem) :
    classItemsForm rangeable afterRange (.run first others :: rest) =
      classItemsForm rangeable afterRange ((ClassItem.run first others).atoms ++ rest) := by
  induction others generalizing rangeable afterRange first with
  | nil => rfl
  | cons next others ih =>
    -- Behind the first character the others are read as a run that no range precedes.
    have long : (ClassItem.run first (next :: others)).isLongRun = true := rfl
    have single : (ClassItem.run first []).isLongRun = false := rfl
    have spelled : (ClassItem.run first (next :: others)).hostForm =
        (ClassItem.run first []).hostForm ++ (ClassItem.run next others).hostForm := by
      simp [ClassItem.hostForm, quoteWhere]
    -- The first character is spelled like the run of it alone, and the rest like a shorter run.
    rw [ClassItem.atoms_run, List.cons_append, classItemsForm, classItemsForm, spelled]
    simp [long, single, ← ih, classItemsForm]

/-- The items of a class are spelled like its atoms. -/
theorem classItemsForm_atoms (rangeable afterRange : Bool) (items : List ClassItem) :
    classItemsForm rangeable afterRange items =
      classItemsForm rangeable afterRange (items.flatMap ClassItem.atoms) := by
  -- The items are taken apart one by one, and each gives its atoms in front of the others.
  induction items generalizing rangeable afterRange with
  | nil => rfl
  | cons item rest ih =>
    rw [List.flatMap_cons]
    cases item with
    -- A run is spelled as its characters are.
    | run first others =>
      simp only [← classItemsForm_run, classItemsForm, ih]
      simp
    | hyphen =>
      -- Whether something follows the hyphen does not depend on how it is cut.
      have follows : (rest != []) = (rest.flatMap ClassItem.atoms != []) := by
        cases rest with
        | nil => rfl
        | cons next more => cases next <;> rfl
      simp only [ClassItem.atoms, List.cons_append, List.nil_append, classItemsForm, follows, ih]
    | escape sequence =>
      simp only [ClassItem.atoms, List.cons_append, List.nil_append, classItemsForm, ih]
      simp

/-- An atom is no run of several characters. -/
theorem ClassItem.IsAtom.isLongRun {atom : ClassItem} (whole : atom.IsAtom) :
    atom.isLongRun = false := by
  cases atom with
  | run first others =>
    -- A run with a second character would fall apart into two atoms.
    have alone : others = [] := by simpa [IsAtom, atoms] using whole
    simp [ClassItem.isLongRun, alone]
  | hyphen => rfl
  | escape sequence => rfl

/-- The atoms of a class are spelled as its members, in which hyphens form ranges greedily. -/
theorem classItemsForm_members {rangeable : Bool} (atoms : List ClassItem)
    (whole : ∀ atom ∈ atoms, atom.IsAtom)
    (closes : rangeable = true → ¬ ClassReading.StartsRange atoms) :
    classItemsForm rangeable false atoms =
      (ClassMember.all atoms).flatMap ClassMember.hostForm := by
  -- A bare hyphen needs an atom on either side, and the one behind it cannot open another range.
  fun_induction ClassMember.all atoms generalizing rangeable with
  | case1 low high rest ih =>
    -- The left endpoint is spelled as an item, since the hyphen in front of it opens nothing.
    have lowSpelled : classItemsForm rangeable false (low :: .hyphen :: high :: rest) =
        low.hostForm ++ classItemsForm true false (.hyphen :: high :: rest) := by
      rw [classItemsForm, if_neg]
      · rfl
      · intro bare
        simp only [Bool.and_eq_true, decide_eq_true_eq] at bare
        exact closes bare.1.2 ⟨.hyphen, high :: rest, by rw [bare.1.1]⟩
    -- The hyphen has an atom on both sides, so it stays bare.
    have hyphenSpelled : classItemsForm true false (.hyphen :: high :: rest) =
        '-' :: classItemsForm false true (high :: rest) := by
      rw [classItemsForm, if_pos (by simp)]
    -- Behind the right endpoint no hyphen can be bare.
    have highSpelled : classItemsForm false true (high :: rest) =
        high.hostForm ++ classItemsForm false false rest := by
      rw [classItemsForm, if_neg (by simp)]
      have short := (whole high (by simp)).isLongRun
      simp [short]
    rw [lowSpelled, hyphenSpelled, highSpelled,
      ih (fun atom member => whole atom (by simp [member])) (by simp)]
    simp [ClassMember.hostForm]
  -- The atom is on its own, and what follows it is no range that it could close.
  | case2 atom rest noRange ih =>
    have spelled : classItemsForm rangeable false (atom :: rest) =
        atom.hostForm ++ classItemsForm true false rest := by
      rw [classItemsForm, if_neg]
      · rfl
      · intro bare
        simp only [Bool.and_eq_true, decide_eq_true_eq, bne_iff_ne] at bare
        obtain ⟨⟨hyphen, opens⟩, nonempty⟩ := bare
        obtain ⟨high, more, rfl⟩ := List.exists_cons_of_ne_nil nonempty
        exact closes opens ⟨high, more, by rw [hyphen]⟩
    have still : ¬ ClassReading.StartsRange rest := by
      rintro ⟨high, more, starts⟩
      exact noRange high more starts
    rw [spelled, ih (fun other member => whole other (by simp [member])) (fun _ => still)]
    rfl
  | case3 => rfl

/-- A closed class is spelled as its opening, its members, and its bracket. -/
theorem classForm_members {tail : Text}
    (closed : (ClassParts.split ('[' :: tail)).isClosed = true) :
    classForm ('[' :: tail) = (ClassParts.split ('[' :: tail)).opening ++
      (classMembers ('[' :: tail)).flatMap ClassMember.hostForm ++ [']'] := by
  -- Each atom of a closed class is whole, and the items are spelled like the atoms.
  have whole : ∀ atom ∈ classAtoms ('[' :: tail), atom.IsAtom := (classAtoms_whole closed).1
  have items : classItemsForm false false (ClassItem.all (ClassParts.split ('[' :: tail)).contents) =
      (classMembers ('[' :: tail)).flatMap ClassMember.hostForm := by
    rw [classItemsForm_atoms, atoms_classItems]
    exact classItemsForm_members _ whole (by simp)
  simp only [classForm, closed, if_true, items, ClassParts.closing_of_isClosed closed]

/-- A code is spelled as the character that it denotes. -/
theorem codePointForm_syntax {code : Nat} (valid : code.isValidChar) :
    ∃ symbol, CharacterSyntax (codePointForm code) symbol ∧ symbol.toNat = code := by
  -- The digits spell the code, so they spell the code of a character.
  have spelled : (valueIn 16 (hexDigits code)).isValidChar := by rwa [valueIn_hexDigits]
  refine ⟨Char.ofNatAux (valueIn 16 (hexDigits code)) spelled, ?_, ?_⟩
  · exact .code (hexDigits code) (hexDigits_ne_nil code)
      (fun _ member => isHexDigit_of_mem_hexDigits member) spelled
  · exact valueIn_hexDigits code

/-- A character of a class is quoted exactly when it means something else there. -/
theorem quoteWhere_syntax (symbol : Char) :
    CharacterSyntax (quoteWhere isHostClassOperator [symbol]) symbol := by
  -- The operators of the spelling are those of the syntax.
  have known : isHostClassOperator symbol = true ↔ symbol ∈ classOperators := by
    rw [isHostClassOperator, List.contains_iff_mem]
    exact .rfl
  simp only [quoteWhere, List.flatMap_cons, List.flatMap_nil, List.append_nil]
  split
  · exact .quoted symbol (known.mp (by assumption))
  · exact .plain symbol fun operator => absurd (known.mpr operator) (by assumption)

/-- An atom that is no shorthand class is spelled as the character that it denotes. -/
theorem ClassItem.hostForm_syntax {atom : ClassItem} (complete : atom.Complete)
    (encodable : atom.Encodable) (character : atom.isMetaclass = false) :
    ∃ symbol, CharacterSyntax atom.hostForm symbol ∧ atom.code? = some symbol.toNat := by
  -- A character is quoted if it has to be, and an escape is spelled by its code.
  cases atom with
  | run first others =>
    obtain rfl : others = [] := complete
    exact ⟨first, quoteWhere_syntax first, rfl⟩
  | hyphen => exact ⟨'-', .quoted '-' (by decide), rfl⟩
  | escape sequence =>
    obtain ⟨form, applied, whole⟩ := complete
    have plain : RegexLens.isMetaclass sequence = false := character
    -- What is complete and no shorthand class has a code.
    obtain ⟨number, code⟩ := form.exists_sequenceCode? applied plain whole
    obtain ⟨symbol, written, value⟩ :=
      codePointForm_syntax ((form.escapeCode_iff.mpr code).isValidChar encodable)
    refine ⟨symbol, ?_, ?_⟩
    · simpa [hostForm, plain, characterForm, code] using written
    · rw [code?, code, value]

/-- A shorthand class is spelled as the family that it stands for. -/
theorem metaclassForm_syntax {sequence : Text} (shorthand : isMetaclass sequence = true) :
    ∃ item, FamilySyntax (metaclassForm sequence) item ∧
      ∀ symbol, item.contains symbol = shorthandContains sequence symbol := by
  -- There are six shorthand classes.
  rcases eq_of_isMetaclass shorthand with rfl | rfl | rfl | rfl | rfl | rfl
  all_goals simp only [shorthandContains, ← isWordChar_eq, ← isWhiteSpace_eq]
  · exact ⟨_, .digit, by simp [SetItem.contains, CharFamily.contains]⟩
  · exact ⟨_, .notDigit, by simp [SetItem.contains, CharFamily.contains]⟩
  · exact ⟨_, .space, by simp [SetItem.contains, CharFamily.contains]⟩
  · exact ⟨_, .notSpace, by simp [SetItem.contains, CharFamily.contains]⟩
  · exact ⟨_, .word, by simp [SetItem.contains, CharFamily.contains]⟩
  · exact ⟨_, .notWord, by simp [SetItem.contains, CharFamily.contains]⟩

/-- A range of the host holds the characters with the codes from one end to the other. -/
theorem SetItem.contains_range {low high symbol : Char} :
    (SetItem.range low high).contains symbol = true ↔
      low.toNat ≤ symbol.toNat ∧ symbol.toNat ≤ high.toNat := by
  simp [contains, Char.le_def, UInt32.le_iff_toNat_le]

/-- A member without faults is spelled as a member that holds the characters it denotes. -/
theorem ClassMember.hostForm_syntax {member : ClassMember}
    (complete : ∀ atom ∈ member.atoms, atom.Complete ∧ atom.Encodable)
    (faultless : ∀ low high, member = .range low high → rangeFault? low high = none) :
    ∃ item, MemberSyntax member.hostForm item ∧
      ∀ symbol, item.contains symbol = true ↔ member.Denotes symbol := by
  cases member with
  | single atom =>
    obtain ⟨whole, encodable⟩ := complete atom (by simp [atoms])
    -- A shorthand class is a family, and every other atom is a character.
    cases shorthand : atom.isMetaclass with
    | true =>
      cases atom with
      | run first others => contradiction
      | hyphen => contradiction
      | escape sequence =>
        have named : RegexLens.isMetaclass sequence = true := shorthand
        obtain ⟨item, written, contains⟩ := metaclassForm_syntax named
        refine ⟨item, ?_, ?_⟩
        · simpa [hostForm, ClassItem.hostForm, named] using MemberSyntax.family _ _ written
        · intro symbol
          simp [Denotes, ClassItem.Denotes, isShorthand_iff.mpr named, contains]
    | false =>
      obtain ⟨only, written, code⟩ := ClassItem.hostForm_syntax whole encodable shorthand
      refine ⟨_, .single _ only written, ?_⟩
      intro symbol
      -- A character denotes itself, which is a range from itself to itself.
      rw [SetItem.contains_range, Denotes, whole.denotes_iff shorthand, code, Option.some.injEq]
      omega
  -- Neither endpoint is a shorthand class, so both are characters.
  | range low high =>
    obtain ⟨lowWhole, lowEncodable⟩ := complete low (by simp [atoms])
    obtain ⟨highWhole, highEncodable⟩ := complete high (by simp [atoms])
    obtain ⟨lowPlain, highPlain, ordered⟩ := rangeFault?_eq_none.mp (faultless low high rfl)
    obtain ⟨least, lowWritten, lowCode⟩ := ClassItem.hostForm_syntax lowWhole lowEncodable lowPlain
    obtain ⟨greatest, highWritten, highCode⟩ :=
      ClassItem.hostForm_syntax highWhole highEncodable highPlain
    -- The endpoints have the codes of the atoms, and those are in order.
    have order : least ≤ greatest := by
      have codes := ordered _ lowCode _ highCode
      simpa [Char.le_def, UInt32.le_iff_toNat_le] using codes
    refine ⟨_, .range _ _ least greatest lowWritten highWritten order, ?_⟩
    intro symbol
    rw [SetItem.contains_range]
    simp [Denotes, lowWhole.itemCode_iff, highWhole.itemCode_iff, lowCode, highCode]

/-- Members that can be spelled one by one are spelled as a list of members. -/
theorem exists_memberSyntax {members : List ClassMember}
    (each : ∀ member ∈ members, ∃ item, MemberSyntax member.hostForm item ∧
      ∀ symbol, item.contains symbol = true ↔ member.Denotes symbol) :
    ∃ written : List (Text × SetItem), written.length = members.length ∧
      (∀ entry ∈ written, MemberSyntax entry.1 entry.2) ∧
      written.flatMap Prod.fst = members.flatMap ClassMember.hostForm ∧
      ∀ symbol, (written.any fun entry => entry.2.contains symbol) = true ↔
        ∃ member ∈ members, member.Denotes symbol := by
  -- Each member is spelled by itself, and the members are put one behind the other.
  induction members with
  | nil => exact ⟨[], rfl, by simp, rfl, by simp⟩
  | cons member rest ih =>
    obtain ⟨item, spelled, contains⟩ := each member (by simp)
    -- The spelled member goes in front of those that spell the rest.
    obtain ⟨written, length, all, text, any⟩ := ih fun other inside => each other (by simp [inside])
    refine ⟨(member.hostForm, item) :: written, by simp [length], ?_, by simp [text], ?_⟩
    · exact List.forall_mem_cons.mpr ⟨spelled, all⟩
    · intro symbol
      rw [List.any_cons, Bool.or_eq_true, contains, any]
      simp

/-- A good class is spelled as a class of the host that holds the characters it denotes. -/
theorem classForm_syntax {tail : Text} (good : GoodClass ('[' :: tail))
    (encodable : ∀ atom ∈ classAtoms ('[' :: tail), atom.Encodable) :
    ∃ set, ClassSyntax (classForm ('[' :: tail)) set ∧
      (set.complement = true ↔ IsComplement ('[' :: tail)) ∧
      ∀ symbol, set.contains symbol = true ↔ ClassDenotes ('[' :: tail) symbol := by
  have complete := classAtoms_complete good.closed good.complete
  -- Each member is spelled as one member of the class.
  have each (member : ClassMember) (formed : member ∈ classMembers ('[' :: tail)) :
      ∃ item, MemberSyntax member.hostForm item ∧
        ∀ symbol, item.contains symbol = true ↔ member.Denotes symbol := by
    refine ClassMember.hostForm_syntax ?_ ?_
    · intro atom inside
      have found := ClassMember.atoms_subset_of_mem_all formed atom inside
      exact ⟨complete atom found, encodable atom found⟩
    · rintro low high rfl
      exact good.faultless formed
  obtain ⟨written, length, all, text, any⟩ := exists_memberSyntax each
  -- The class has a member, so there is a spelled one.
  have nonempty : written ≠ [] := by
    rintro rfl
    exact classMembers_ne_nil good.closed (List.length_eq_zero_iff.mp length.symm)
  have spelled := classForm_members good.closed
  -- The mark for a complement is kept as it stands.
  have opening : ∃ complement : Bool, (complement = true ↔ IsComplement ('[' :: tail)) ∧
      (ClassParts.split ('[' :: tail)).opening = '[' :: if complement then ['^'] else [] := by
    rcases ClassParts.opening_eq tail with ⟨opening, marked⟩ | ⟨opening, unmarked⟩
    · exact ⟨true, by simp [marked], opening⟩
    · exact ⟨false, by simp [unmarked], opening⟩
  obtain ⟨complement, marked, opening⟩ := opening
  refine ⟨⟨complement, written.map Prod.snd⟩, ⟨written, nonempty, all, rfl, ?_⟩, marked, ?_⟩
  · rw [spelled, opening, text]
    simp
  · intro symbol
    have found := any symbol
    have items : ((written.map Prod.snd).any fun item => item.contains symbol) =
        written.any fun entry => entry.2.contains symbol := by
      rw [List.any_map]
      rfl
    simp only [CharSet.contains, items, ClassDenotes, ← found, ← marked]
    -- In a complement the answer is turned around.
    cases written.any (fun entry => entry.2.contains symbol) <;> cases complement <;> simp

end RegexLens
