import RegexLens.Proofs.Pattern.Escape

/-! The codes that sequences behind a backslash are meant to denote, and how they are found. -/

namespace RegexLens

/-- A sequence behind a backslash with the code that it is meant to denote, if any. -/
inductive EscapeCode : Text → Option Nat → Prop
  /-- A backslash alone has none. -/
  | alone : EscapeCode [] none
  /-- A shorthand class has none. -/
  | shorthand (letter : Char) (known : letter ∈ ['d', 'D', 's', 'S', 'w', 'W']) :
      EscapeCode [letter] none
  /-- A letter without what it needs has none. -/
  | incomplete (letter : Char) (known : letter ∈ ['c', 'u', 'x']) : EscapeCode [letter] none
  /-- Octal digits spell a code of one byte. -/
  | octal (digits : Text) (code : Nat) (spelled : SpellsNumber 8 digits code) (small : code ≤ 255) :
      EscapeCode digits (some code)
  /-- Two hexadecimal digits spell a code. -/
  | byte (digits : Text) (code : Nat) (two : digits.length = 2)
      (spelled : SpellsNumber 16 digits code) : EscapeCode ('x' :: digits) (some code)
  /-- Four hexadecimal digits spell a code. -/
  | unit (digits : Text) (code : Nat) (four : digits.length = 4)
      (spelled : SpellsNumber 16 digits code) : EscapeCode ('u' :: digits) (some code)
  /-- A letter in either case stands for its place in the alphabet. -/
  | control (letter : Char) (place : Nat) (range : 1 ≤ place ∧ place ≤ 26)
      (either : letter.toNat = 64 + place ∨ letter.toNat = 96 + place) :
      EscapeCode ['c', letter] (some place)
  /-- Some letters stand for a control character. -/
  | named (letter : Char) (code : Nat) (known : (letter, code) ∈
      [('b', 0x08), ('t', 0x09), ('n', 0x0A), ('v', 0x0B), ('f', 0x0C), ('r', 0x0D)]) :
      EscapeCode [letter] (some code)
  /-- Anything else stands for itself. -/
  | itself (symbol : Char) (ordinary : symbol ∉ sequenceLetters)
      (other : isOctalDigit symbol = false) : EscapeCode [symbol] (some symbol.toNat)

/-- An item of a class with the code that it is meant to denote, if any. -/
inductive ItemCode : ClassItem → Option Nat → Prop
  /-- A run denotes its first character. -/
  | run (first : Char) (others : Text) : ItemCode (.run first others) (some first.toNat)
  /-- A hyphen denotes itself. -/
  | hyphen : ItemCode .hyphen (some 0x2D)
  /-- An escape denotes what its sequence denotes. -/
  | escape (sequence : Text) (code? : Option Nat) (coded : EscapeCode sequence code?) :
      ItemCode (.escape sequence) code?

/-- Digits that spell a number in the base sixteen are hexadecimal digits with its value. -/
theorem SpellsNumber.isHexCode {count code : Nat} {digits : Text}
    (spelled : SpellsNumber 16 digits code) (size : digits.length = count) :
    IsHexCode count digits ∧ valueIn 16 digits = code := by
  refine ⟨⟨size, fun digit member => ?_⟩, spelled.value⟩
  rw [← isDigitIn_sixteen]
  exact spelled.good digit member

/-- Each sequence has one code that it is meant to denote, which is the one that is found. -/
theorem EscapeCode.eq_sequenceCode? {sequence : Text} {code? : Option Nat}
    (coded : EscapeCode sequence code?) : sequenceCode? sequence = code? := by
  -- Each row of the table is a branch of the search, told apart by its first letter and length.
  cases coded with
  | alone => rfl
  | shorthand letter known =>
    exact sequenceCode?_eq_none (.inr (.inl (by simpa [isMetaclass] using known)))
  | incomplete letter known =>
    exact sequenceCode?_eq_none (.inr (.inr (by simpa [isIncomplete] using known)))
  | octal digits code spelled small =>
    -- The number stays within 32 bits, so reading the digits does not fail.
    obtain ⟨nonempty, good, rfl⟩ := spelled
    simp only [isDigitIn_eight] at good
    exact sequenceCode?_octal nonempty good small
  -- A fixed number of hexadecimal digits always fits, whatever they are.
  | byte digits code two spelled =>
    obtain ⟨hex, value⟩ := spelled.isHexCode two
    rw [sequenceCode?_byte hex, value]
  | unit digits code four spelled =>
    obtain ⟨hex, value⟩ := spelled.isHexCode four
    rw [sequenceCode?_unit hex, value]
  | control letter place range either => exact sequenceCode?_control range either
  | named letter code known =>
    simp only [List.mem_cons, Prod.mk.injEq, List.not_mem_nil, or_false] at known
    rcases known with ⟨rfl, rfl⟩ | ⟨rfl, rfl⟩ | ⟨rfl, rfl⟩ | ⟨rfl, rfl⟩ | ⟨rfl, rfl⟩ | ⟨rfl, rfl⟩
    all_goals rfl
  -- What is in no other row is neither a known letter nor an octal digit.
  | itself symbol ordinary other =>
    rw [sequenceCode?_of_not_letter ordinary, other, if_neg (by simp)]

/-- A sequence is not meant to denote two codes. -/
theorem EscapeCode.unique {sequence : Text} {first? second? : Option Nat}
    (one : EscapeCode sequence first?) (other : EscapeCode sequence second?) : first? = second? :=
  one.eq_sequenceCode?.symm.trans other.eq_sequenceCode?

/-- Each item is meant to denote one code, which is the one that is found. -/
theorem ItemCode.eq_code? {item : ClassItem} {code? : Option Nat} (coded : ItemCode item code?) :
    item.code? = code? := by
  cases coded with
  | run => rfl
  | hyphen => rfl
  | escape sequence code? coded => exact coded.eq_sequenceCode?

namespace SequenceForm

variable {sequence : Text}

/-- A sequence of a known form is meant to denote a code or none. -/
theorem exists_escapeCode (form : SequenceForm sequence) : ∃ code?, EscapeCode sequence code? := by
  -- The forms cover the rows, and only a single character needs a search among them.
  cases form with
  | nothing => exact ⟨none, .alone⟩
  -- The digits themselves are the number that the row asks for.
  | octal digits nonempty octal small =>
    have spelled : SpellsNumber 8 sequence (valueIn 8 sequence) :=
      ⟨nonempty, fun digit member => (isDigitIn_eight digit).trans (octal digit member), rfl⟩
    exact ⟨_, .octal sequence _ spelled small⟩
  | byte digits code => exact ⟨_, .byte digits _ code.1 (code.spells (by decide))⟩
  | unit digits code => exact ⟨_, .unit digits _ code.1 (code.spells (by decide))⟩
  -- The place in the alphabet does not depend on the case of the letter.
  | control letter alpha =>
    obtain ⟨range, either⟩ := place_of_isAlpha alpha
    exact ⟨_, .control letter _ range either⟩
  | single symbol =>
    by_cases letter : symbol ∈ sequenceLetters
    · -- The letters are those of a shorthand class, of an incomplete escape, or of a character.
      have split : symbol ∈ ['d', 'D', 's', 'S', 'w', 'W'] ∨ symbol ∈ ['c', 'u', 'x'] ∨
          symbol ∈ ['b', 't', 'n', 'v', 'f', 'r'] := by
        rw [← List.mem_append, ← List.mem_append]
        exact letter
      rcases split with shorthand | incomplete | named
      · exact ⟨none, .shorthand symbol shorthand⟩
      · exact ⟨none, .incomplete symbol incomplete⟩
      · -- A letter that names a character has its code in the list.
        simp only [List.mem_cons, List.not_mem_nil, or_false] at named
        rcases named with rfl | rfl | rfl | rfl | rfl | rfl
        · exact ⟨_, .named 'b' 0x08 (by decide)⟩
        · exact ⟨_, .named 't' 0x09 (by decide)⟩
        · exact ⟨_, .named 'n' 0x0A (by decide)⟩
        · exact ⟨_, .named 'v' 0x0B (by decide)⟩
        · exact ⟨_, .named 'f' 0x0C (by decide)⟩
        · exact ⟨_, .named 'r' 0x0D (by decide)⟩
    · cases octal : isOctalDigit symbol with
      | true =>
        -- A single octal digit is an octal code as well.
        have good : ∀ digit ∈ [symbol], isDigitIn 8 digit = true := by
          simpa [isDigitIn_eight] using octal
        have small := digitValue_lt_eight octal
        have spelled : SpellsNumber 8 [symbol] (digitValue symbol) :=
          ⟨List.cons_ne_nil _ _, good, by simp [valueIn]⟩
        exact ⟨_, .octal [symbol] _ spelled (by omega)⟩
      | false => exact ⟨_, .itself symbol letter octal⟩

/-- The code that is found for a sequence of a known form is the one that it is meant to denote. -/
theorem escapeCode_iff (form : SequenceForm sequence) {code? : Option Nat} :
    EscapeCode sequence code? ↔ sequenceCode? sequence = code? := by
  -- One way is the uniqueness of the table, and for the other it has an entry.
  refine ⟨EscapeCode.eq_sequenceCode?, ?_⟩
  rintro rfl
  obtain ⟨code?, coded⟩ := form.exists_escapeCode
  rwa [coded.eq_sequenceCode?]

/-- The code of an escape is the one that its sequence is meant to denote. -/
theorem itemCode_iff (form : SequenceForm sequence) {code? : Option Nat} :
    ItemCode (.escape sequence) code? ↔ (ClassItem.escape sequence).code? = code? := by
  refine ⟨ItemCode.eq_code?, fun found => ?_⟩
  -- The table speaks of the sequence behind the backslash.
  exact .escape sequence code? (form.escapeCode_iff.mpr found)

end SequenceForm

/-- The digits of a sequence are checked one by one. -/
instance (count : Nat) (digits : Text) : Decidable (IsHexCode count digits) :=
  decidable_of_iff (digits.length = count ∧ digits.all isHexDigit = true)
    (and_congr_right' List.all_eq_true)

/-- A sequence of more than one character is an octal code, or a letter says what follows it. -/
theorem sequenceForm_iff {sequence : Text} :
    SequenceForm sequence ↔ sequence.length ≤ 1 ∨
      (sequence.all isOctalDigit = true ∧ valueIn 8 sequence ≤ 255) ∨
      (sequence.head? = some 'x' ∧ IsHexCode 2 sequence.tail) ∨
      (sequence.head? = some 'u' ∧ IsHexCode 4 sequence.tail) ∨
      (sequence.head? = some 'c' ∧ sequence.tail.length = 1 ∧
        sequence.tail.all Char.isAlpha = true) := by
  -- Each form has its own first letter, and those of one character are all short.
  constructor
  · intro form
    cases form with
    | nothing => exact .inl (Nat.zero_le 1)
    | single symbol => exact .inl (Nat.le_refl 1)
    | octal digits nonempty octal small => exact .inr (.inl ⟨List.all_eq_true.mpr octal, small⟩)
    | byte digits code => exact .inr (.inr (.inl ⟨rfl, code⟩))
    | unit digits code => exact .inr (.inr (.inr (.inl ⟨rfl, code⟩)))
    | control letter alpha => exact .inr (.inr (.inr (.inr ⟨rfl, rfl, by simpa using alpha⟩)))
  · -- Read from right to left, each condition names the form that is left for the sequence.
    cases sequence with
    | nil => exact fun _ => .nothing
    | cons first rest =>
      rintro (short | ⟨octal, small⟩ | ⟨letter, code⟩ | ⟨letter, code⟩ | ⟨letter, one, alpha⟩)
      · obtain rfl : rest = [] := List.eq_nil_of_length_eq_zero (by simpa using short)
        exact .single first
      · exact .octal _ (List.cons_ne_nil _ _) (List.all_eq_true.mp octal) small
      · obtain rfl := Option.some.inj letter
        exact .byte rest code
      · obtain rfl := Option.some.inj letter
        exact .unit rest code
      · -- Behind the letter of a control character there is one letter more.
        obtain rfl := Option.some.inj letter
        obtain ⟨other, rfl⟩ := List.length_eq_one_iff.mp one
        exact .control other (List.all_eq_true.mp alpha other (List.mem_cons_self ..))

/-- Whether a sequence has one of the known forms can be checked. -/
instance (sequence : Text) : Decidable (SequenceForm sequence) :=
  decidable_of_iff' _ sequenceForm_iff

/-- A sequence with an entry in the table has one of the known forms. -/
theorem EscapeCode.sequenceForm {sequence : Text} {code? : Option Nat}
    (coded : EscapeCode sequence code?) : SequenceForm sequence := by
  -- Each row of the table has its form, whatever its code is.
  cases coded with
  | alone => exact .nothing
  | shorthand letter known => exact .single letter
  | incomplete letter known => exact .single letter
  | octal digits code spelled small =>
    obtain ⟨nonempty, good, rfl⟩ := spelled
    simp only [isDigitIn_eight] at good
    exact .octal sequence nonempty good small
  | byte digits code two spelled => exact .byte digits (spelled.isHexCode two).1
  | unit digits code four spelled => exact .unit digits (spelled.isHexCode four).1
  | control letter place range either =>
    -- The place is that of a letter of the alphabet.
    have alpha : letter.isAlpha = true := by
      rw [isAlpha_iff]
      omega
    exact .control letter alpha
  | named letter code known => exact .single letter
  | itself symbol ordinary other => exact .single symbol

/-- The table is decided by the form of the sequence and the code that is found for it. -/
theorem escapeCode_iff {sequence : Text} {code? : Option Nat} :
    -- The table has no other codes than those that are found.
    EscapeCode sequence code? ↔ SequenceForm sequence ∧ sequenceCode? sequence = code? :=
  ⟨fun coded => ⟨coded.sequenceForm, coded.eq_sequenceCode?⟩,
    fun ⟨form, found⟩ => form.escapeCode_iff.mpr found⟩

/-- Whether a sequence is meant to denote a code can be checked. -/
instance (sequence : Text) (code? : Option Nat) : Decidable (EscapeCode sequence code?) :=
  decidable_of_iff' _ escapeCode_iff

example : EscapeCode ['x', '4', '1'] (some 0x41) := by decide

/-- Items are coded by their first character, or by the table when they are escapes. -/
theorem itemCode_iff {item : ClassItem} {code? : Option Nat} :
    ItemCode item code? ↔ item.code? = code? ∧
      ∀ sequence, item = .escape sequence → SequenceForm sequence := by
  -- Runs and hyphens are coded in any case, and an escape has to have one of the forms.
  constructor
  · intro coded
    refine ⟨coded.eq_code?, ?_⟩
    rintro sequence rfl
    cases coded with
    | escape _ _ coded => exact coded.sequenceForm
  · rintro ⟨rfl, form⟩
    cases item with
    | run first others => exact .run first others
    | hyphen => exact .hyphen
    | escape sequence => exact (form sequence rfl).itemCode_iff.mpr rfl

/-- Whether an item is meant to denote a code can be checked. -/
instance (item : ClassItem) (code? : Option Nat) : Decidable (ItemCode item code?) :=
  match item with
  | .run _ _ | .hyphen => decidable_of_iff' _ (itemCode_iff.trans (and_iff_left (by simp)))
  | .escape sequence =>
    decidable_of_iff' _ (itemCode_iff.trans (and_congr_right' (by simp : _ ↔ SequenceForm sequence)))

/-- Only shorthand classes, incomplete sequences and a backslash on its own have no code. -/
theorem EscapeCode.codeless {sequence : Text} (coded : EscapeCode sequence none) :
    sequence = [] ∨ isMetaclass sequence = true ∨ isIncomplete sequence = true := by
  -- The other rows of the table have a code.
  cases coded with
  | alone => exact .inl rfl
  | shorthand letter known => exact .inr (.inl (by simpa [isMetaclass] using known))
  | incomplete letter known => exact .inr (.inr (by simpa [isIncomplete] using known))

/-- A complete sequence that is no shorthand class denotes a character. -/
theorem SequenceForm.exists_sequenceCode? {sequence : Text} (form : SequenceForm sequence)
    (applied : sequence ≠ []) (plain : isMetaclass sequence = false)
    (whole : isIncomplete sequence = false) : ∃ code, sequenceCode? sequence = some code := by
  rw [← Option.ne_none_iff_exists']
  intro none
  -- The sequence would be in a row without a code, and none of these is left.
  rcases (form.escapeCode_iff.mpr none).codeless with rfl | shorthand | incomplete
  · contradiction
  · simp [plain] at shorthand
  · simp [whole] at incomplete

/-- The codes that are set aside for pairs and denote no character. -/
def isSurrogate (code : Nat) : Bool :=
  0xD800 ≤ code && code ≤ 0xDFFF

/-- Whether a sequence is a code of four digits that denotes no character. -/
def namesSurrogate : Text → Bool
  | 'u' :: digits => isSurrogate (valueIn 16 digits)
  | _ => false

/-- A code lies below the surrogates, is spelled with four digits, or is that of a character. -/
theorem EscapeCode.bounded {sequence : Text} {code : Nat}
    (coded : EscapeCode sequence (some code)) :
    code < 0xD800 ∨
      (code < 0x10000 ∧ ∃ digits, sequence = 'u' :: digits ∧ valueIn 16 digits = code) ∨
      code.isValidChar := by
  generalize found : some code = code? at coded
  -- Only four digits can spell a code above the ones of two bytes.
  cases coded with
  | alone | shorthand | incomplete => contradiction
  | octal digits number spelled small =>
    obtain rfl := Option.some.inj found
    exact .inl (by omega)
  | byte digits number two spelled =>
    obtain rfl := Option.some.inj found
    obtain ⟨hex, value⟩ := spelled.isHexCode two
    have small := hex.value_lt.1 (by decide)
    exact .inl (by omega)
  | unit digits number four spelled =>
    obtain rfl := Option.some.inj found
    obtain ⟨hex, value⟩ := spelled.isHexCode four
    have small := hex.value_lt.2 (by decide)
    exact .inr (.inl ⟨by omega, digits, rfl, value⟩)
  | control letter place range either =>
    obtain rfl := Option.some.inj found
    exact .inl (by omega)
  | named letter number known =>
    obtain rfl := Option.some.inj found
    -- The control characters are few, and each of them is checked.
    have every : [('b', 0x08), ('t', 0x09), ('n', 0x0A), ('v', 0x0B), ('f', 0x0C),
        ('r', 0x0D)].all (fun entry => entry.2 < 100) = true := by decide
    have small := List.all_eq_true.mp every _ known
    rw [decide_eq_true_eq] at small
    exact .inl (by omega)
  | itself symbol ordinary other =>
    obtain rfl := Option.some.inj found
    exact .inr (.inr symbol.valid)

/-- A sequence denotes a character, unless it has no code or names a surrogate. -/
theorem EscapeCode.isValidChar {sequence : Text} {code : Nat}
    (coded : EscapeCode sequence (some code)) (encodable : namesSurrogate sequence = false) :
    code.isValidChar := by
  -- The three cases are those in which a code is bounded.
  rcases coded.bounded with small | ⟨small, digits, rfl, rfl⟩ | valid
  · exact .inl small
  · -- A code of four digits is a character unless it is a surrogate.
    simp only [namesSurrogate, isSurrogate, Bool.and_eq_false_iff, decide_eq_false_iff_not]
      at encodable
    rcases encodable with below | above
    · exact .inl (by omega)
    · exact .inr (by omega)
  · exact valid

/-- No code is beyond the last character. -/
theorem EscapeCode.code_le {sequence : Text} {code : Nat}
    (coded : EscapeCode sequence (some code)) : code ≤ 0x10FFFF := by
  rcases coded.bounded with small | ⟨small, _⟩ | low | high <;> omega

end RegexLens
