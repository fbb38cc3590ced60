import RegexLens.Pattern.CharClass
import RegexLens.Proofs.Numeral
import RegexLens.Proofs.Text

/-! The sequences that a backslash applies to, and the characters that they denote. -/

namespace RegexLens

/-- A sequence names a shorthand class when it is one of six letters. -/
def IsShorthand (sequence : Text) : Prop :=
  ∃ letter ∈ ['d', 'D', 's', 'S', 'w', 'W'], sequence = [letter]

/-- The shorthand classes are found among the sequences of one letter. -/
theorem isShorthand_iff {sequence : Text} : IsShorthand sequence ↔ isMetaclass sequence = true := by
  simp [IsShorthand, isMetaclass]

/-- Whether a sequence names a shorthand class can be checked. -/
instance (sequence : Text) : Decidable (IsShorthand sequence) :=
  decidable_of_iff' _ isShorthand_iff

/-- No other sequence is taken for a shorthand class. -/
theorem not_isShorthand_iff {sequence : Text} :
    ¬ IsShorthand sequence ↔ isMetaclass sequence = false := by
  rw [isShorthand_iff, Bool.not_eq_true]

/-- A sequence of hexadecimal digits of a given length. -/
def IsHexCode (count : Nat) (digits : Text) : Prop :=
  -- Both letters that take such a sequence fix the number of its digits.
  digits.length = count ∧ ∀ digit ∈ digits, isHexDigit digit = true

/-- The digits of an octal code that fits one byte. -/
inductive OctalCode : Text → Prop
  /-- Behind a digit up to three there is room for two more. -/
  | low (first : Char) (rest : Text) (small : '0' ≤ first ∧ first ≤ '3') (room : rest.length ≤ 2)
      (octal : ∀ digit ∈ rest, isOctalDigit digit = true) : OctalCode (first :: rest)
  /-- Behind a digit from four on there is room for one more. -/
  | high (first : Char) (rest : Text) (large : '4' ≤ first ∧ first ≤ '7') (room : rest.length ≤ 1)
      (octal : ∀ digit ∈ rest, isOctalDigit digit = true) : OctalCode (first :: rest)

/-- What a backslash applies to, except for a number that does not start with zero. -/
inductive SequenceForm : Text → Prop
  /-- Nothing, at the end of the text. -/
  | nothing : SequenceForm []
  /-- An octal code, which fits one byte. -/
  | octal (digits : Text) (nonempty : digits ≠ [])
      (octal : ∀ digit ∈ digits, isOctalDigit digit = true) (small : valueIn 8 digits ≤ 255) :
      SequenceForm digits
  /-- A code of two hexadecimal digits. -/
  | byte (digits : Text) (code : IsHexCode 2 digits) : SequenceForm ('x' :: digits)
  /-- A code of four hexadecimal digits. -/
  | unit (digits : Text) (code : IsHexCode 4 digits) : SequenceForm ('u' :: digits)
  /-- A control character, named by a letter. -/
  | control (letter : Char) (alpha : letter.isAlpha = true) : SequenceForm ['c', letter]
  /-- A single character. -/
  | single (symbol : Char) : SequenceForm [symbol]

/-- What a backslash can apply to inside a class. -/
inductive ClassEscaped : Text → Prop
  /-- Nothing, at the end of the contents. -/
  | nothing : ClassEscaped []
  /-- An octal code, of which a leading zero is a digit like any other. -/
  | octal (digits : Text) (code : OctalCode digits) : ClassEscaped digits
  /-- A code of two hexadecimal digits. -/
  | byte (digits : Text) (code : IsHexCode 2 digits) : ClassEscaped ('x' :: digits)
  /-- A code of four hexadecimal digits. -/
  | unit (digits : Text) (code : IsHexCode 4 digits) : ClassEscaped ('u' :: digits)
  /-- A control character, named by a letter. -/
  | control (letter : Char) (alpha : letter.isAlpha = true) : ClassEscaped ['c', letter]
  /-- A single character. -/
  | single (symbol : Char) : ClassEscaped [symbol]

/-- A text that starts with hexadecimal digits has them as its front part. -/
theorem startsWithHex_iff {count : Nat} {text : Text} :
    startsWithHex count text = true ↔ IsHexCode count (text.take count) := by
  -- The test looks at the length of the front part and at each of its digits.
  simp [startsWithHex, IsHexCode]

/-- The digits of a code at the front of a text are found there. -/
theorem startsWithHex_append {count : Nat} {digits : Text} (code : IsHexCode count digits)
    (rest : Text) : startsWithHex count (digits ++ rest) = true := by
  obtain ⟨rfl, hex⟩ := code
  exact startsWithHex_iff.mpr (by rw [List.take_left]; exact ⟨rfl, hex⟩)

/-- What a backslash applies to when no digit follows it can stand in a class as well. -/
theorem classEscaped_take_sequenceLength (tail : Text) :
    ClassEscaped (tail.take (sequenceLength tail)) := by
  -- The cases are those of the measuring function, and each of them is one form.
  fun_cases sequenceLength tail with
  | case1 => exact .nothing
  | case2 rest found => exact .byte _ (startsWithHex_iff.mp found)
  | case3 rest missing => exact .single 'x'
  | case4 rest found => exact .unit _ (startsWithHex_iff.mp found)
  | case5 rest missing => exact .single 'u'
  | case6 letter rest alpha => exact .control letter alpha
  | case7 letter rest other => exact .single 'c'
  | case8 => exact .single _

/-- A backslash in front of a character applies to that character at least. -/
theorem sequenceLength_pos {tail : Text} (nonempty : tail ≠ []) : 0 < sequenceLength tail := by
  -- Each of the other cases takes one character at least.
  fun_cases sequenceLength tail with
  | case1 => contradiction
  | _ => decide

/-- A digit up to another one stands for no more than that one. -/
theorem digitValue_le {digit limit : Char} (bounded : '0' ≤ digit ∧ digit ≤ limit)
    (decimal : limit ≤ '9') : digitValue digit ≤ limit.toNat - 48 := by
  simp only [Char.le_def, UInt32.le_iff_toNat_le, Char.toNat_val] at bounded decimal
  have codes : '0'.toNat = 48 ∧ '9'.toNat = 57 := by decide
  rw [digitValue_eq, if_pos (by omega)]
  omega

namespace OctalCode

variable {digits : Text}

/-- An octal code of limited length fits one byte. -/
theorem value_le (code : OctalCode digits) : valueIn 8 digits ≤ 255 := by
  -- There are few lengths, and each gives a sum of digits times powers of eight.
  cases code with
  | low digit rest small room octal =>
    have top : digitValue digit ≤ 3 := digitValue_le small (by decide)
    have each (other : Char) (member : other ∈ rest) := digitValue_lt_eight (octal other member)
    rcases rest with _ | ⟨a, _ | ⟨b, _ | ⟨c, more⟩⟩⟩ <;> simp [valueIn] at each room ⊢ <;> omega
  | high digit rest large room octal =>
    have top : digitValue digit ≤ 7 :=
      digitValue_le ⟨Char.le_trans (by decide) large.1, large.2⟩ (by decide)
    have each (other : Char) (member : other ∈ rest) := digitValue_lt_eight (octal other member)
    rcases rest with _ | ⟨a, _ | ⟨b, more⟩⟩ <;> simp [valueIn] at each room ⊢ <;> omega

/-- An octal code has a first digit, and all of its digits are octal. -/
theorem isOctalDigit (code : OctalCode digits) :
    digits ≠ [] ∧ ∀ digit ∈ digits, RegexLens.isOctalDigit digit = true := by
  -- The first digit is octal in either range, and the others are octal by themselves.
  cases code with
  | low digit rest small room octal =>
    refine ⟨List.cons_ne_nil _ _, List.forall_mem_cons.mpr ⟨?_, octal⟩⟩
    simp [RegexLens.isOctalDigit, small.1, Char.le_trans small.2 (by decide : '3' ≤ '7')]
  | high digit rest large room octal =>
    refine ⟨List.cons_ne_nil _ _, List.forall_mem_cons.mpr ⟨?_, octal⟩⟩
    simp [RegexLens.isOctalDigit, large.2, Char.le_trans (by decide : '0' ≤ '4') large.1]

/-- An octal code is one of the forms of a sequence. -/
theorem sequenceForm (code : OctalCode digits) : SequenceForm digits :=
  .octal digits code.isOctalDigit.1 code.isOctalDigit.2 code.value_le

/-- A zero in front of an octal code does not change its value. -/
theorem zero_sequenceForm (code : OctalCode digits) : SequenceForm ('0' :: digits) := by
  have same : valueIn 8 ('0' :: digits) = valueIn 8 digits := rfl
  refine .octal _ (List.cons_ne_nil _ _) ?_ (same ▸ code.value_le)
  exact List.forall_mem_cons.mpr ⟨by decide, code.isOctalDigit.2⟩

end OctalCode

/-- The digits that are measured as an octal code are one. -/
theorem octalCode_take {text : Text} (found : 0 < octalLength text) :
    OctalCode (text.take (octalLength text)) := by
  cases text with
  | nil => contradiction
  | cons first rest =>
    -- Behind the first digit the code takes the octal digits for which there is room.
    have short (limit : Nat) : ((rest.take limit).takeWhile isOctalDigit).length ≤ limit :=
      Nat.le_trans (List.takeWhile_sublist _).length_le (List.length_take_le _ _)
    have front (limit : Nat) : rest.take ((rest.take limit).takeWhile isOctalDigit).length =
        (rest.take limit).takeWhile isOctalDigit := by
      apply take_length_of_append
      rw [← List.append_assoc, List.takeWhile_append_dropWhile, List.take_append_drop]
    have octal (limit : Nat) (digit : Char)
        (member : digit ∈ (rest.take limit).takeWhile isOctalDigit) : isOctalDigit digit = true :=
      List.all_eq_true.mp List.all_takeWhile digit member
    simp only [octalLength, Bool.and_eq_true, decide_eq_true_eq] at found ⊢
    split at found
    · -- From zero to three there is room for two more digits, and from four to seven for one.
      rename_i small
      rw [if_pos small, Nat.add_comm 1, List.take_succ_cons, front 2]
      exact .low first _ small (short 2) (octal 2)
    · split at found
      · rename_i notSmall large
        rw [if_neg notSmall, if_pos large, Nat.add_comm 1, List.take_succ_cons, front 1]
        exact .high first _ large (short 1) (octal 1)
      · contradiction

/-- The digits that a run allows are taken, however many more could follow. -/
theorem length_le_limitedRun {digits : Text} {limit : Nat} (room : digits.length ≤ limit)
    (octal : ∀ digit ∈ digits, isOctalDigit digit = true) (rest : Text) :
    digits.length ≤ (((digits ++ rest).take limit).takeWhile isOctalDigit).length := by
  -- The digits lie within the limit, and what is cut off behind them is another run.
  rw [List.take_append, List.take_of_length_le room, List.takeWhile_append_of_pos octal,
    List.length_append]
  omega

/-- An octal code at the front of a text is part of the longest one. -/
theorem OctalCode.length_le {code : Text} (octal : OctalCode code) (rest : Text) :
    code.length ≤ octalLength (code ++ rest) := by
  cases octal with
  | low first digits small room octal =>
    -- The octal digits of the code are part of the run that is looked for.
    have within := length_le_limitedRun room octal rest
    simp only [List.cons_append, octalLength, small, decide_true, Bool.and_self, if_true,
      List.length_cons]
    omega
  | high first digits large room octal =>
    have within := length_le_limitedRun room octal rest
    -- No digit is at most three and at least four.
    have notLow : ¬ first ≤ '3' := by
      intro low
      exact absurd (Char.le_trans large.1 low) (by decide)
    simp only [List.cons_append, octalLength, large, notLow, decide_true, decide_false,
      Bool.and_false, Bool.and_self, Bool.false_eq_true, if_false, if_true, List.length_cons]
    omega

/-- What a backslash can apply to inside a class has one of the forms of a sequence. -/
theorem ClassEscaped.sequenceForm {sequence : Text} (escaped : ClassEscaped sequence) :
    SequenceForm sequence := by
  -- Each way to follow a backslash is one of the forms, by its own rule.
  cases escaped with
  | nothing => exact .nothing
  | octal digits code => exact code.sequenceForm
  | byte digits code => exact .byte digits code
  | unit digits code => exact .unit digits code
  | control letter alpha => exact .control letter alpha
  | single symbol => exact .single symbol

/-- What a backslash applies to when no digit follows it has one of the forms. -/
theorem sequenceForm_take_sequenceLength (tail : Text) :
    SequenceForm (tail.take (sequenceLength tail)) :=
  (classEscaped_take_sequenceLength tail).sequenceForm

/-- What a backslash applies to inside a class is something that it can apply to. -/
theorem classEscaped_take (tail : Text) : ClassEscaped (tail.take (classEscapeLength tail)) := by
  unfold classEscapeLength
  -- An octal code comes first, and otherwise a class reads what the rest of a pattern reads.
  split
  · rename_i found
    exact .octal _ (octalCode_take found)
  · exact classEscaped_take_sequenceLength tail

/-- A backslash in front of a character of a class applies to that character at least. -/
theorem classEscapeLength_pos (first : Char) (rest : Text) :
    0 < classEscapeLength (first :: rest) := by
  unfold classEscapeLength
  -- An octal code of positive length is longer than nothing, and so is any other sequence.
  split
  · assumption
  · exact sequenceLength_pos (List.cons_ne_nil _ _)

/-- What a backslash can apply to inside a class is part of what it does apply to. -/
theorem ClassEscaped.length_le {sequence : Text} (escaped : ClassEscaped sequence) (rest : Text) :
    sequence.length ≤ classEscapeLength (sequence ++ rest) := by
  cases escaped with
  | nothing => exact Nat.zero_le _
  -- An octal code is tried before the other sequences.
  | octal digits code =>
    have within := code.length_le rest
    have solid := List.length_pos_iff.mpr code.isOctalDigit.1
    rwa [classEscapeLength, if_pos (Nat.lt_of_lt_of_le solid within)]
  -- Enough digits are there, so they are taken along with their letter.
  | byte digits code =>
    have found := startsWithHex_append code rest
    simp [classEscapeLength, octalLength, sequenceLength, found, code.1]
  | unit digits code =>
    have found := startsWithHex_append code rest
    simp [classEscapeLength, octalLength, sequenceLength, found, code.1]
  | control letter alpha => simp [classEscapeLength, octalLength, sequenceLength, alpha]
  | single symbol => exact classEscapeLength_pos symbol rest

/-- Inside a class a backslash applies to as much as it can. -/
theorem longest_classEscaped (tail : Text) :
    LongestFront ClassEscaped tail (tail.take (classEscapeLength tail)).length where
  bounded := List.length_take_le' ..
  holds := by
    rw [take_length_of_append (List.take_append_drop _ _)]
    exact classEscaped_take tail
  longest := by
    intro longer above within escaped
    -- A longer front part would have been taken.
    have taken := escaped.length_le (tail.drop longer)
    rw [List.take_append_drop, List.length_take] at taken
    rw [List.length_take] at above
    omega

/-- A code of two hexadecimal digits fits one byte, and a code of four digits fits two. -/
theorem IsHexCode.value_lt {count : Nat} {digits : Text} (code : IsHexCode count digits) :
    (count ≤ 2 → valueIn 16 digits < 256) ∧ (count ≤ 4 → valueIn 16 digits < 65536) := by
  obtain ⟨rfl, hex⟩ := code
  have each (digit : Char) (member : digit ∈ digits) : digitValue digit < 16 :=
    digitValue_lt_sixteen (hex digit member)
  -- There are five lengths, and each gives a sum of digits times powers of sixteen.
  rcases digits with _ | ⟨a, _ | ⟨b, _ | ⟨c, _ | ⟨d, _ | ⟨e, rest⟩⟩⟩⟩⟩ <;>
    simp [valueIn] at each ⊢ <;> omega

/-- Hexadecimal digits spell a number unless there are none. -/
theorem IsHexCode.spells {count : Nat} {digits : Text} (code : IsHexCode count digits)
    (positive : 0 < count) : SpellsNumber 16 digits (valueIn 16 digits) where
  -- There is a digit at least, and a digit of a code is one of a number.
  nonempty := by
    rintro rfl
    exact absurd code.1 (Nat.ne_of_lt positive)
  good digit member := (isDigitIn_sixteen digit).trans (code.2 digit member)
  value := rfl

/-- The letters that have a meaning of their own behind a backslash. -/
def sequenceLetters : Text :=
  ['d', 'D', 's', 'S', 'w', 'W', 'c', 'u', 'x', 'b', 't', 'n', 'v', 'f', 'r']

/-- Without a letter at its front a sequence is an octal code or denotes its first character. -/
theorem sequenceCode?_of_not_letter {first : Char} {rest : Text}
    (ordinary : first ∉ sequenceLetters) :
    sequenceCode? (first :: rest) =
      if isOctalDigit first then parse? 8 limit32 (first :: rest) else some first.toNat := by
  -- Each branch for a letter is ruled out by the assumption.
  simp only [sequenceLetters, List.mem_cons, List.not_mem_nil, not_or, or_false] at ordinary
  simp [sequenceCode?, ordinary]

/-- Octal digits that fit one byte denote the character whose code they spell. -/
theorem sequenceCode?_octal {digits : Text} (nonempty : digits ≠ [])
    (octal : ∀ digit ∈ digits, isOctalDigit digit = true) (small : valueIn 8 digits ≤ 255) :
    sequenceCode? digits = some (valueIn 8 digits) := by
  -- The digits spell a number that fits the byte, and so the machine number.
  have spells : SpellsNumber 8 digits (valueIn 8 digits) :=
    ⟨nonempty, fun digit member => (isDigitIn_eight digit).trans (octal digit member), rfl⟩
  cases digits with
  | nil => contradiction
  | cons first rest =>
    have known : isOctalDigit first = true := octal first (by simp)
    -- None of the letters is a digit.
    have ordinary : first ∉ sequenceLetters := by
      intro member
      have every : sequenceLetters.all (fun letter => !isOctalDigit letter) = true := by decide
      have other := List.all_eq_true.mp every first member
      simp [known] at other
    rw [sequenceCode?_of_not_letter ordinary, if_pos known,
      spells.parse?_eq (by decide) (by decide), if_pos (Nat.lt_of_le_of_lt small (by decide))]

/-- Two hexadecimal digits denote the character whose code they spell. -/
theorem sequenceCode?_byte {digits : Text} (code : IsHexCode 2 digits) :
    sequenceCode? ('x' :: digits) = some (valueIn 16 digits) := by
  -- Two digits cannot outgrow the machine number.
  have spells := code.spells (by decide)
  have small := code.value_lt.1 (by decide)
  cases digits with
  | nil => exact absurd rfl spells.nonempty
  | cons first rest =>
    show parse? 16 limit32 (first :: rest) = _
    rw [spells.parse?_eq (by decide) (by decide), if_pos (Nat.lt_trans small (by decide))]

/-- Four hexadecimal digits denote the character whose code they spell. -/
theorem sequenceCode?_unit {digits : Text} (code : IsHexCode 4 digits) :
    sequenceCode? ('u' :: digits) = some (valueIn 16 digits) := by
  -- Nor can four of them.
  have spells := code.spells (by decide)
  have small := code.value_lt.2 (by decide)
  cases digits with
  | nil => exact absurd rfl spells.nonempty
  | cons first rest =>
    show parse? 16 limit32 (first :: rest) = _
    rw [spells.parse?_eq (by decide) (by decide), if_pos (Nat.lt_trans small (by decide))]

/-- A letter has a place in the alphabet, counted from one in either case. -/
theorem place_of_isAlpha {letter : Char} (alpha : letter.isAlpha = true) :
    (1 ≤ letter.toUpper.toNat - 64 ∧ letter.toUpper.toNat - 64 ≤ 26) ∧
      (letter.toNat = 64 + (letter.toUpper.toNat - 64) ∨
        letter.toNat = 96 + (letter.toUpper.toNat - 64)) := by
  -- All letters of ASCII lie among the first 123 codes, which are checked one by one.
  have every : ∀ code < 123, (Char.ofNat code).isAlpha = true →
      (1 ≤ (Char.ofNat code).toUpper.toNat - 64 ∧ (Char.ofNat code).toUpper.toNat - 64 ≤ 26) ∧
        (code = 64 + ((Char.ofNat code).toUpper.toNat - 64) ∨
          code = 96 + ((Char.ofNat code).toUpper.toNat - 64)) := by decide
  have small : letter.toNat < 123 := by
    rw [isAlpha_iff] at alpha
    omega
  simpa [alpha] using every letter.toNat small

/-- A letter names the control character at its place of the alphabet. -/
theorem sequenceCode?_control {letter : Char} {place : Nat} (range : 1 ≤ place ∧ place ≤ 26)
    (either : letter.toNat = 64 + place ∨ letter.toNat = 96 + place) :
    sequenceCode? ['c', letter] = some place := by
  have alpha : letter.isAlpha = true := by
    rw [isAlpha_iff]
    omega
  -- The place that the letter has is the only one with its code in either case.
  obtain ⟨bounds, found⟩ := place_of_isAlpha alpha
  have same : letter.toUpper.toNat - 'A'.toNat + 1 = place := by
    have code : 'A'.toNat = 65 := rfl
    omega
  simp only [sequenceCode?, alpha, if_true, same]

/-- Shorthand classes, incomplete sequences and a backslash on its own denote no character. -/
theorem sequenceCode?_eq_none {sequence : Text}
    (codeless : sequence = [] ∨ isMetaclass sequence = true ∨ isIncomplete sequence = true) :
    sequenceCode? sequence = none := by
  -- There are ten such sequences.
  simp only [isMetaclass, isIncomplete, List.contains_iff_mem, List.mem_cons, List.not_mem_nil,
    or_false] at codeless
  rcases codeless with rfl | (rfl | rfl | rfl | rfl | rfl | rfl) | (rfl | rfl | rfl)
  all_goals rfl

/-- The shorthand classes are named by three letters in either case. -/
theorem eq_of_isMetaclass {sequence : Text} (shorthand : isMetaclass sequence = true) :
    sequence = ['d'] ∨ sequence = ['D'] ∨ sequence = ['s'] ∨ sequence = ['S'] ∨
      sequence = ['w'] ∨ sequence = ['W'] := by
  simpa [isMetaclass] using shorthand

/-- A hexadecimal digit is a digit or a letter. -/
theorem isAlphanum_of_isHexDigit {symbol : Char} (hex : isHexDigit symbol = true) :
    symbol.isAlphanum = true := by
  rw [isHexDigit_iff] at hex
  simp only [Char.isAlphanum, Bool.or_eq_true, isAlpha_iff, isDigit_iff]
  omega

/-- Behind its first character a sequence holds digits and letters only. -/
theorem SequenceForm.isAlphanum {sequence : Text} (form : SequenceForm sequence) :
    ∀ symbol ∈ sequence.drop 1, symbol.isAlphanum = true := by
  intro symbol member
  -- Only digits and letters stand behind the first character, by the form.
  cases form with
  | nothing => simp at member
  | octal digits nonempty octal small =>
    -- An octal digit is a hexadecimal one.
    have digit := isOctalDigit_iff.mp (octal _ (List.mem_of_mem_drop member))
    exact isAlphanum_of_isHexDigit (isHexDigit_iff.mpr (.inl (by omega)))
  | byte digits hex => exact isAlphanum_of_isHexDigit (hex.2 _ member)
  | unit digits hex => exact isAlphanum_of_isHexDigit (hex.2 _ member)
  | control letter alpha =>
    simp only [List.drop_one, List.tail_cons, List.mem_singleton] at member
    subst symbol
    simp [Char.isAlphanum, alpha]
  | single other => simp at member

/-- A backslash is no digit and no letter, so a sequence holds none behind its first character. -/
theorem SequenceForm.ne_backslash {sequence : Text} (form : SequenceForm sequence) :
    ∀ symbol ∈ sequence.drop 1, symbol ≠ '\\' := by
  rintro symbol member rfl
  exact absurd (form.isAlphanum _ member) (by decide)

end RegexLens
