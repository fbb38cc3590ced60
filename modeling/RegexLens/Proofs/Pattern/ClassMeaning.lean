import RegexLens.Host.CharSet
import RegexLens.Proofs.Pattern.ClassMembers

/-! The characters that the members of a class denote, as the pattern means them. -/

namespace RegexLens

/-- The letters and the digits of ASCII, and the underscore. -/
def isAsciiWord (symbol : Char) : Bool :=
  ('A' ≤ symbol && symbol ≤ 'Z') || ('a' ≤ symbol && symbol ≤ 'z') ||
    ('0' ≤ symbol && symbol ≤ '9') || symbol = '_'

/-- The codes of the characters with the Unicode property White_Space. -/
def spaceCodes : List Nat :=
  [0x09, 0x0A, 0x0B, 0x0C, 0x0D, 0x20, 0x85, 0xA0, 0x1680, 0x2000, 0x2001, 0x2002, 0x2003, 0x2004,
    0x2005, 0x2006, 0x2007, 0x2008, 0x2009, 0x200A, 0x2028, 0x2029, 0x202F, 0x205F, 0x3000]

/-- Whether a character belongs to a shorthand class, whose digits and words are those of ASCII. -/
def shorthandContains (sequence : Text) (symbol : Char) : Bool :=
  match sequence with
  | ['d'] => symbol.isDigit
  | ['D'] => !symbol.isDigit
  | ['w'] => isAsciiWord symbol
  | ['W'] => !isAsciiWord symbol
  | ['s'] => spaceCodes.contains symbol.toNat
  | ['S'] => !spaceCodes.contains symbol.toNat
  | _ => false

/-- The host has the same word characters. -/
theorem isWordChar_eq (symbol : Char) : isWordChar symbol = isAsciiWord symbol := by
  rw [Bool.eq_iff_iff]
  -- The letters and the digits lie in three ranges of codes.
  simp only [isWordChar, Char.isAlphanum, isAsciiWord, Bool.or_eq_true, Bool.and_eq_true,
    decide_eq_true_eq, isAlpha_iff, isDigit_iff, Char.le_def, UInt32.le_iff_toNat_le,
    Char.toNat_val]
  have codes : '0'.toNat = 48 ∧ '9'.toNat = 57 ∧ 'A'.toNat = 65 ∧ 'Z'.toNat = 90 ∧
      'a'.toNat = 97 ∧ 'z'.toNat = 122 := by decide
  simp only [codes]

/-- The host has the same white space. -/
theorem isWhiteSpace_eq (symbol : Char) :
    isWhiteSpace symbol = spaceCodes.contains symbol.toNat := by
  rw [Bool.eq_iff_iff]
  -- Each range of the host is written out as the codes in it.
  simp only [isWhiteSpace, whiteSpaceRanges, spaceCodes, List.any_cons, List.any_nil,
    Bool.or_eq_true, Bool.and_eq_true, decide_eq_true_eq, List.contains_iff_mem, List.mem_cons,
    List.not_mem_nil, or_false, Bool.false_eq_true]
  omega

namespace ClassItem

/-- The characters that an atom denotes: those of a shorthand class, or the one with its code. -/
def Denotes (atom : ClassItem) (symbol : Char) : Prop :=
  match atom with
  | escape sequence =>
    if RegexLens.IsShorthand sequence then shorthandContains sequence symbol = true
    else EscapeCode sequence (some symbol.toNat)
  | run _ _ | hyphen => ItemCode atom (some symbol.toNat)

/-- An escape that names a character which can be encoded, or no character. -/
def Encodable : ClassItem → Prop
  | escape sequence => namesSurrogate sequence = false
  | run _ _ | hyphen => True

/-- A backslash in an atom applies to a complete sequence. -/
def Complete : ClassItem → Prop
  | escape sequence => SequenceForm sequence ∧ sequence ≠ [] ∧ isIncomplete sequence = false
  | run _ others => others = []
  | hyphen => True

/-- The code of a complete atom is the one that the atom is meant to denote. -/
theorem Complete.itemCode_iff {atom : ClassItem} (complete : atom.Complete) {code? : Option Nat} :
    ItemCode atom code? ↔ atom.code? = code? := by
  refine RegexLens.itemCode_iff.trans (and_iff_left ?_)
  rintro sequence rfl
  exact complete.1

/-- An atom that is no shorthand class denotes the character with its code. -/
theorem Complete.denotes_iff {atom : ClassItem} (complete : atom.Complete)
    (character : atom.isMetaclass = false) {symbol : Char} :
    atom.Denotes symbol ↔ atom.code? = some symbol.toNat := by
  rw [← complete.itemCode_iff]
  -- A character stands for itself, and an escape for what the table says.
  cases atom with
  | run first others => rfl
  | hyphen => rfl
  | escape sequence =>
    have plain : ¬ RegexLens.IsShorthand sequence := not_isShorthand_iff.mpr character
    simp [Denotes, plain, complete.1.escapeCode_iff, complete.1.itemCode_iff, code?]

end ClassItem

/-- The characters that a member of a class denotes: all from one endpoint of a range to the other. -/
def ClassMember.Denotes (member : ClassMember) (symbol : Char) : Prop :=
  match member with
  | single atom => atom.Denotes symbol
  | range low high => ∃ first last, ItemCode low (some first) ∧ ItemCode high (some last) ∧
      first ≤ symbol.toNat ∧ symbol.toNat ≤ last

/-- Whether a class opens with the mark for the characters that its members do not denote. -/
def IsComplement (text : Text) : Prop :=
  text.take 2 = ['[', '^']

/-- The characters that a class denotes, by its members and by its opening. -/
def ClassDenotes (text : Text) (symbol : Char) : Prop :=
  (∃ member ∈ classMembers text, member.Denotes symbol) ↔ ¬ IsComplement text

/-- The opening of a class is a bracket, with the mark for a complement when there is one. -/
theorem ClassParts.opening_eq (tail : Text) :
    ((split ('[' :: tail)).opening = ['[', '^'] ∧ IsComplement ('[' :: tail)) ∨
      ((split ('[' :: tail)).opening = ['['] ∧ ¬ IsComplement ('[' :: tail)) := by
  -- The mark is the character behind the bracket, which is where the opening is looked for.
  rcases split_cases tail with ⟨body, rfl, parts⟩ | ⟨unmarked, parts⟩
  · exact .inl ⟨by rw [parts]; rfl, rfl⟩
  · refine .inr ⟨by rw [parts]; rfl, ?_⟩
    cases tail with
    | nil => simp [IsComplement]
    | cons first rest => simpa [IsComplement] using unmarked

/-- In a closed class without incomplete escapes every atom is complete. -/
theorem classAtoms_complete {tail : Text}
    (closed : (ClassParts.split ('[' :: tail)).isClosed = true)
    (complete : ∀ sequence, .escape sequence ∈ classAtoms ('[' :: tail) →
      isIncomplete sequence = false) :
    ∀ atom ∈ classAtoms ('[' :: tail), atom.Complete := by
  intro atom member
  have found := member
  -- An atom of the class comes from one of its items.
  rw [← atoms_classItems] at found
  obtain ⟨item, cut, inside⟩ := List.mem_flatMap.mp found
  cases atom with
  -- A run that is an atom has one character.
  | run first others =>
    have whole := ClassItem.isAtom_of_mem_atoms inside
    simpa [ClassItem.IsAtom, ClassItem.atoms, ClassItem.Complete] using whole
  | hyphen => trivial
  | escape sequence =>
    obtain rfl := ClassItem.escape_mem_atoms.mp inside
    have paired := (ClassParts.contents_of_isClosed closed).2
    refine ⟨(ClassItem.all_shaped _ _ cut).sequenceForm, ?_, complete sequence member⟩
    -- A backslash on its own cannot stand in front of the closing bracket.
    rintro rfl
    exact ClassItem.all_ne_dangling paired cut

/-- A closed class has a member. -/
theorem classMembers_ne_nil {tail : Text}
    (closed : (ClassParts.split ('[' :: tail)).isClosed = true) : classMembers ('[' :: tail) ≠ [] := by
  have nonempty := (ClassParts.contents_of_isClosed closed).1
  refine ClassMember.all_ne_nil ?_
  -- Without atoms the contents would be empty.
  intro none
  rw [← classAtoms_text ('[' :: tail), none] at nonempty
  contradiction

end RegexLens
