import RegexLens.Proofs.Pattern.EscapeCode
import RegexLens.Proofs.Pattern.Numbered

/-! Digits behind a backslash: the longest group number in front is a reference, else a code. -/

namespace RegexLens

/-- A sequence is a number when it starts with a digit other than zero. -/
def IsNumbered (sequence : Text) : Prop :=
  ∃ first ∈ sequence.head?, '1' ≤ first ∧ first ≤ '9'

/-- The numbers are found by their first character. -/
theorem isNumbered_iff {sequence : Text} :
    IsNumbered sequence ↔ startsNumbered sequence = true := by
  cases sequence with
  | nil => simp [IsNumbered, startsNumbered]
  | cons first rest =>
    have range : IsNumbered (first :: rest) ↔ '1' ≤ first ∧ first ≤ '9' := by simp [IsNumbered]
    -- The characters are compared by their codes.
    have codes : '0'.toNat = 48 ∧ '1'.toNat = 49 ∧ '9'.toNat = 57 := by decide
    simp only [range, startsNumbered, Bool.and_eq_true, bne_iff_ne, ne_eq, isDigit_iff,
      ← Char.toNat_inj, Char.le_def, UInt32.le_iff_toNat_le, Char.toNat_val, codes]
    omega

/-- Whether a sequence is a number can be checked. -/
instance (sequence : Text) : Decidable (IsNumbered sequence) :=
  decidable_of_iff' _ isNumbered_iff

/-- Any other sequence is not taken for a number. -/
theorem not_isNumbered_iff {sequence : Text} :
    ¬ IsNumbered sequence ↔ startsNumbered sequence = false := by
  rw [isNumbered_iff, Bool.not_eq_true]

/-- A shorthand class starts with a letter, and so it is no number. -/
theorem IsShorthand.unnumbered {sequence : Text} (named : IsShorthand sequence) :
    startsNumbered sequence = false := by
  rw [isShorthand_iff] at named
  rcases eq_of_isMetaclass named with rfl | rfl | rfl | rfl | rfl | rfl <;> rfl

/-- The digits that spell a code which fits one byte, or a digit that is not octal. -/
inductive SpellsCode : Text → Nat → Prop
  /-- Up to the digit three there is room for two more octal digits, and from four on for one. -/
  | octal (first : Char) (rest : Text)
      (room : ('1' ≤ first ∧ first ≤ '3' ∧ rest.length ≤ 2) ∨
        ('4' ≤ first ∧ first ≤ '7' ∧ rest.length ≤ 1))
      (octal : ∀ digit ∈ rest, isOctalDigit digit = true) :
      SpellsCode (first :: rest) (valueIn 8 (first :: rest))
  /-- An eight or a nine denotes itself. -/
  | itself (first : Char) (range : first = '8' ∨ first = '9') : SpellsCode [first] first.toNat

/-- The reading of digits behind a backslash when some number of groups can be referred to. -/
inductive NumberReads (groups : Nat) (digits : Text) : NumberedEscape → Prop
  /-- The longest front part that is at most the number of groups refers to one of them. -/
  | reference (length : Nat) (decimal : ∀ digit ∈ digits, digit.isDigit = true) (some : 0 < length)
      (named : LongestFront (valueIn 10 · ≤ groups) digits length) :
      NumberReads groups digits (.reference (valueIn 10 (digits.take length)) length)
  /-- When there is no such front part, the longest one that spells a code stands for it. -/
  | code (value length : Nat) (decimal : ∀ digit ∈ digits, digit.isDigit = true)
      (none : LongestFront (valueIn 10 · ≤ groups) digits 0)
      (longest : LongestFront (fun front => ∃ value, SpellsCode front value) digits length)
      (spelled : SpellsCode (digits.take length) value) :
      NumberReads groups digits (.code value length)

/-- A number without the last digits that would make it larger than the number of groups. -/
def groupNamed (groups number : Nat) : Nat :=
  if number ≤ groups then number else groupNamed groups (number / 10)
termination_by number
decreasing_by omega

/-- Digits spell one code at most. -/
theorem SpellsCode.unique {digits : Text} {first second : Nat} (one : SpellsCode digits first)
    (other : SpellsCode digits second) : first = second := by
  -- An octal code has its digits in view, and a digit that stands for itself is no octal one.
  cases one with
  | octal digit rest room octal =>
    cases other with
    | octal => rfl
    | itself _ range =>
      -- Neither of the two forms admits the first digit of the other.
      rcases range with rfl | rfl <;> exact absurd room (by decide)
  | itself digit range =>
    cases other with
    | itself => rfl
    | octal _ _ room =>
      rcases range with rfl | rfl <;> exact absurd room (by decide)

/-- Octal digits for which there is room are an octal code. -/
theorem octalCode_of_room {first : Char} {rest : Text}
    (room : ('1' ≤ first ∧ first ≤ '3' ∧ rest.length ≤ 2) ∨
      ('4' ≤ first ∧ first ≤ '7' ∧ rest.length ≤ 1))
    (octal : ∀ digit ∈ rest, isOctalDigit digit = true) : OctalCode (first :: rest) := by
  -- The first digit decides how many digits there is room for.
  rcases room with ⟨least, most, short⟩ | ⟨least, most, short⟩
  · exact .low first rest ⟨Char.le_trans (by decide) least, most⟩ short octal
  · exact .high first rest ⟨least, most⟩ short octal

/-- The digits of a code are octal ones that fit one byte, or one digit that stands for itself. -/
theorem SpellsCode.escapeCode {digits : Text} {value : Nat} (spelled : SpellsCode digits value) :
    EscapeCode digits (some value) := by
  -- Both forms are rows of the table of escapes.
  cases spelled with
  | octal first rest room octal =>
    have code := octalCode_of_room room octal
    have spells : SpellsNumber 8 (first :: rest) (valueIn 8 (first :: rest)) :=
      ⟨code.isOctalDigit.1, fun digit member =>
        (isDigitIn_eight digit).trans (code.isOctalDigit.2 digit member), rfl⟩
    exact .octal _ _ spells code.value_le
  | itself first range =>
    rcases range with rfl | rfl <;> exact .itself _ (by decide) (by decide)

/-- The code that digits spell is that of a character. -/
theorem SpellsCode.isValidChar {digits : Text} {value : Nat} (spelled : SpellsCode digits value) :
    value.isValidChar := by
  -- An octal code fits a byte, and a digit is a character already.
  cases spelled with
  | octal first rest room octal =>
    have small := (octalCode_of_room room octal).value_le
    exact .inl (by omega)
  | itself first range => exact first.valid

variable {groups : Nat} {digits : Text}

/-- A front part of decimal digits is a number unless it is empty. -/
theorem isNumber_take (decimal : ∀ digit ∈ digits, digit.isDigit = true) {length : Nat}
    (some : 0 < length) (bounded : length ≤ digits.length) : IsNumber (digits.take length) := by
  refine ⟨?_, fun digit member => decimal digit (List.mem_of_mem_take member)⟩
  -- Only the empty front part spells no number.
  intro empty
  have size := congrArg List.length empty
  rw [List.length_take, Nat.min_eq_left bounded] at size
  exact absurd size (Nat.ne_of_gt some)

/-- The front part that is found is the longest one that names a group. -/
theorem referenceLength_longest (groups : Nat) (decimal : ∀ digit ∈ digits, digit.isDigit = true) :
    LongestFront (valueIn 10 · ≤ largestGroup groups) digits
      (referenceLength groups digits digits.length) := by
  -- The front parts are tried from the longest one that is allowed down to the empty one.
  have general (bound : Nat) (within : bound ≤ digits.length) :
      referenceLength groups digits bound ≤ bound ∧
        valueIn 10 (digits.take (referenceLength groups digits bound)) ≤ largestGroup groups ∧
        ∀ longer, referenceLength groups digits bound < longer → longer ≤ bound →
          ¬ valueIn 10 (digits.take longer) ≤ largestGroup groups := by
    -- The longest front part that is allowed is tried first, and then those below it.
    induction bound with
    | zero =>
      refine ⟨Nat.le_refl _, Nat.zero_le _, ?_⟩
      intro longer above below
      exact absurd (Nat.lt_of_lt_of_le above below) (Nat.lt_irrefl _)
    | succ bound ih =>
      obtain ⟨bounded, named, longest⟩ := ih (Nat.le_of_succ_le within)
      have tried := (isNumber_take decimal (Nat.succ_pos bound) within).groupNumber_le_iff groups
      unfold referenceLength
      -- It names a group, or the next shorter ones are tried.
      split
      · rename_i names
        refine ⟨Nat.le_refl _, tried.mp names, ?_⟩
        intro longer above below
        exact absurd (Nat.lt_of_lt_of_le above below) (Nat.lt_irrefl _)
      · rename_i tooLarge
        refine ⟨Nat.le_succ_of_le bounded, named, ?_⟩
        intro longer above below
        -- The front part that was just tried is too large, and shorter ones are covered.
        rcases Nat.lt_or_eq_of_le below with shorter | rfl
        · exact longest longer above (Nat.le_of_lt_succ shorter)
        · exact mt tried.mpr tooLarge
  obtain ⟨bounded, named, longest⟩ := general digits.length (Nat.le_refl _)
  exact ⟨bounded, named, longest⟩

/-- One more digit of a front part is its last digit in the number that it spells. -/
theorem valueIn_take_succ {bound : Nat} (within : bound < digits.length) :
    valueIn 10 (digits.take (bound + 1)) =
      valueIn 10 (digits.take bound) * 10 + digitValue digits[bound] := by
  rw [List.take_add_one, List.getElem?_eq_getElem within, Option.toList_some, valueIn_concat]

/-- Stripping last digits off a number is leaving them out of its spelling. -/
theorem LongestFront.groupNamed_eq (decimal : ∀ digit ∈ digits, digit.isDigit = true) {length : Nat}
    (longest : LongestFront (valueIn 10 · ≤ groups) digits length) :
    groupNamed groups (valueIn 10 digits) = valueIn 10 (digits.take length) := by
  -- From any longer front part the last digits are stripped until the longest one is left.
  have general (more : Nat) (within : length + more ≤ digits.length) :
      groupNamed groups (valueIn 10 (digits.take (length + more))) =
        valueIn 10 (digits.take length) := by
    induction more with
    | zero =>
      have named : valueIn 10 (digits.take length) ≤ groups := longest.holds
      rw [Nat.add_zero, groupNamed, if_pos named]
    | succ more ih =>
      have inside : length + more < digits.length := within
      have tooLarge := longest.longest (length + more + 1) (by omega) within
      -- The quotient by ten is what the digits in front of the last one spell.
      have small := digitValue_lt_ten (decimal digits[length + more] (List.getElem_mem inside))
      have quotient : valueIn 10 (digits.take (length + more + 1)) / 10 =
          valueIn 10 (digits.take (length + more)) := by
        rw [valueIn_take_succ inside]
        omega
      rw [← Nat.add_assoc, groupNamed, if_neg tooLarge, quotient, ih (Nat.le_of_succ_le within)]
  have bounded := longest.bounded
  have whole := general (digits.length - length) (by omega)
  rwa [Nat.add_sub_cancel' bounded, List.take_length] at whole

/-- A number that does not start with zero has its own spelling as its decimal digits. -/
theorem decimalDigits_take (numbered : startsNumbered digits = true)
    (decimal : ∀ digit ∈ digits, digit.isDigit = true) {length : Nat} (positive : 0 < length)
    (bounded : length ≤ digits.length) :
    decimalDigits (valueIn 10 (digits.take length)) = digits.take length := by
  induction length with
  | zero => contradiction
  | succ length ih =>
    have digit := decimal digits[length] (List.getElem_mem _)
    have small := digitValue_lt_ten digit
    rw [valueIn_take_succ bounded, List.take_add_one, List.getElem?_eq_getElem bounded,
      Option.toList_some]
    cases length with
    | zero =>
      -- A single digit is written as itself.
      simp [valueIn, decimalDigits, Nat.toDigits_of_lt_base small, digitChar_digitValue digit]
    | succ more =>
      -- The digits in front spell a positive number, so they stay in front.
      have front := ih (Nat.succ_pos _) (Nat.le_of_succ_le bounded)
      have positive : 0 < valueIn 10 (digits.take (more + 1)) :=
        valueIn_pos (startsNumbered_front numbered)
      unfold decimalDigits at front ⊢
      rw [Nat.toDigits_eq_if (by decide), if_neg (by omega)]
      have quotient : (valueIn 10 (digits.take (more + 1)) * 10 + digitValue digits[more + 1]) / 10 =
          valueIn 10 (digits.take (more + 1)) := by omega
      have remainder : (valueIn 10 (digits.take (more + 1)) * 10 + digitValue digits[more + 1]) % 10 =
          digitValue digits[more + 1] := by omega
      rw [quotient, remainder, front, digitChar_digitValue digit]

/-- The longest front part of a text behind one more character is one character longer. -/
theorem LongestFront.cons {property inner : Text → Prop} {first : Char} {rest : Text} {length : Nat}
    (same : ∀ front, property (first :: front) ↔ inner front)
    (longest : LongestFront inner rest length) :
    LongestFront property (first :: rest) (length + 1) where
  bounded := Nat.succ_le_succ longest.bounded
  holds := (same _).mpr longest.holds
  longest := by
    intro longer above below
    -- The empty front part is shorter than any that is looked for.
    cases longer with
    | zero => contradiction
    | succ longer =>
      -- A longer front part would be a longer one without the first character, too.
      intro holds
      exact longest.longest longer (Nat.lt_of_succ_lt_succ above) (Nat.le_of_succ_le_succ below)
        ((same _).mp holds)

/-- The octal digits in front, of which a limited number is looked at, are the longest such part. -/
theorem octalRun_longest (rest : Text) (limit : Nat) :
    LongestFront (fun front => front.length ≤ limit ∧ ∀ digit ∈ front, isOctalDigit digit = true)
      rest ((rest.take limit).takeWhile isOctalDigit).length where
  -- The run is cut off at the limit, and all its digits are octal.
  bounded := Nat.le_trans (List.takeWhile_sublist _).length_le (List.length_take_le' _ _)
  holds := by
    have front : rest.take ((rest.take limit).takeWhile isOctalDigit).length =
        (rest.take limit).takeWhile isOctalDigit := by
      apply take_length_of_append
      rw [← List.append_assoc, List.takeWhile_append_dropWhile, List.take_append_drop]
    rw [front]
    refine ⟨?_, fun _ => List.all_eq_true.mp List.all_takeWhile _⟩
    exact Nat.le_trans (List.takeWhile_sublist _).length_le (List.length_take_le _ _)
  longest := by
    rintro longer above below ⟨short, octal⟩
    rw [List.length_take, Nat.min_eq_left below] at short
    -- A longer run of octal digits would have been taken as a whole.
    have cut : rest.take limit = rest.take longer ++ (rest.take limit).drop longer := by
      conv => lhs; rw [← List.take_append_drop longer (rest.take limit)]
      rw [List.take_take, Nat.min_eq_left short]
    rw [cut, List.takeWhile_append_of_pos octal, List.length_append, List.length_take,
      Nat.min_eq_left below] at above
    omega

/-- A number starts with a digit from one of three ranges, each with its own room for a code. -/
theorem startsNumbered_cases {first : Char} {rest : Text}
    (numbered : startsNumbered (first :: rest) = true) :
    ('1' ≤ first ∧ first ≤ '3') ∨ ('4' ≤ first ∧ first ≤ '7') ∨ (first = '8' ∨ first = '9') := by
  -- The characters are compared by their codes.
  simp only [startsNumbered, Bool.and_eq_true, bne_iff_ne, isDigit_iff] at numbered
  have notZero : first.toNat ≠ 48 := fun same => numbered.2 (Char.toNat_inj.mp same)
  simp only [← Char.toNat_inj, Char.le_def, UInt32.le_iff_toNat_le, Char.toNat_val]
  have codes : '1'.toNat = 49 ∧ '3'.toNat = 51 ∧ '4'.toNat = 52 ∧ '7'.toNat = 55 ∧
      '8'.toNat = 56 ∧ '9'.toNat = 57 := by decide
  omega

/-- Digits that follow one up to three spell a code when there are two octal ones at most. -/
theorem spellsCode_low {first : Char} (range : '1' ≤ first ∧ first ≤ '3') (front : Text) :
    (∃ value, SpellsCode (first :: front) value) ↔
      front.length ≤ 2 ∧ ∀ digit ∈ front, isOctalDigit digit = true := by
  constructor
  · -- The first digit leaves room for two more.
    rintro ⟨value, spelled⟩
    cases spelled with
    | octal _ _ room octal => exact ⟨by omega, octal⟩
    | itself => simp
  · rintro ⟨short, octal⟩
    exact ⟨_, .octal first front (.inl ⟨range.1, range.2, short⟩) octal⟩

/-- Digits that follow four up to seven spell a code when there is one octal one at most. -/
theorem spellsCode_high {first : Char} (range : '4' ≤ first ∧ first ≤ '7') (front : Text) :
    (∃ value, SpellsCode (first :: front) value) ↔
      front.length ≤ 1 ∧ ∀ digit ∈ front, isOctalDigit digit = true := by
  constructor
  · -- From four on there is room for one more digit.
    rintro ⟨value, spelled⟩
    cases spelled with
    | octal _ _ room octal =>
      refine ⟨?_, octal⟩
      rcases room with ⟨_, low, _⟩ | ⟨_, _, short⟩
      · exact absurd (Char.le_trans range.1 low) (by decide)
      · exact short
    | itself => simp
  · rintro ⟨short, octal⟩
    exact ⟨_, .octal first front (.inr ⟨range.1, range.2, short⟩) octal⟩

/-- Behind an eight or a nine there is no room for another digit of a code. -/
theorem spellsCode_single {first : Char} (range : first = '8' ∨ first = '9') (front : Text) :
    (∃ value, SpellsCode (first :: front) value) ↔ front = [] := by
  constructor
  · -- An eight is no octal digit, and so it stands for itself.
    rintro ⟨value, spelled⟩
    cases spelled with
    | octal _ _ room octal =>
      rcases range with rfl | rfl <;> exact absurd room (by simp)
    | itself => rfl
  · rintro rfl
    exact ⟨_, .itself first range⟩

/-- Digits behind a backslash start with the longest code there is for them. -/
theorem exists_longestCode (numbered : startsNumbered digits = true) :
    ∃ value, SpellsCode (digits.take (max (octalLength digits) 1)) value ∧
      LongestFront (fun front => ∃ value, SpellsCode front value) digits
        (max (octalLength digits) 1) := by
  cases digits with
  | nil => contradiction
  | cons first rest =>
    -- How many digits there is room for depends on the first one.
    rcases startsNumbered_cases numbered with low | high | single
    · have run := octalRun_longest rest 2
      have length : max (octalLength (first :: rest)) 1 =
          ((rest.take 2).takeWhile isOctalDigit).length + 1 := by
        have least : '0' ≤ first := Char.le_trans (by decide) low.1
        simp [octalLength, least, low.2, Nat.add_comm]
      rw [length]
      exact ⟨_, .octal first _ (.inl ⟨low.1, low.2, run.holds.1⟩) run.holds.2,
        run.cons (spellsCode_low low)⟩
    · -- The first digit is above three, so that only one more digit is looked at.
      have run := octalRun_longest rest 1
      have length : max (octalLength (first :: rest)) 1 =
          ((rest.take 1).takeWhile isOctalDigit).length + 1 := by
        have above : ¬ first ≤ '3' := by
          intro low
          exact absurd (Char.le_trans high.1 low) (by decide)
        simp [octalLength, above, high, Nat.add_comm]
      rw [length]
      exact ⟨_, .octal first _ (.inr ⟨high.1, high.2, run.holds.1⟩) run.holds.2,
        run.cons (spellsCode_high high)⟩
    · -- No octal code starts with an eight or a nine.
      have length : max (octalLength (first :: rest)) 1 = 0 + 1 := by
        rcases single with rfl | rfl <;> rfl
      have nothing : LongestFront (· = []) rest 0 := by
        refine ⟨Nat.zero_le _, rfl, ?_⟩
        intro longer above below empty
        have size := congrArg List.length empty
        rw [List.length_take, Nat.min_eq_left below] at size
        exact absurd size (Nat.ne_of_gt above)
      rw [length]
      exact ⟨_, .itself first single, nothing.cons (spellsCode_single single)⟩

/-- Digits behind a backslash are resolved to what they are read as. -/
theorem numberReads_resolve (numbered : startsNumbered digits = true)
    (decimal : ∀ digit ∈ digits, digit.isDigit = true) :
    NumberReads (largestGroup groups) digits (.resolve groups digits) := by
  have named := referenceLength_longest groups decimal
  -- Either some digits name a group, or the digits are read as a code.
  dsimp only [NumberedEscape.resolve]
  split
  · rename_i some
    -- The number of a group does not outgrow 64 bits, so it is read exactly.
    have number := isNumber_take decimal some named.bounded
    rw [number.groupNumber_of_le named.holds]
    exact .reference _ decimal some named
  · rename_i absent
    rw [Nat.eq_zero_of_not_pos absent] at named
    obtain ⟨value, spelled, longest⟩ := exists_longestCode numbered
    rw [spelled.escapeCode.eq_sequenceCode?]
    exact .code _ _ decimal named longest spelled

/-- There is one way to read digits behind a backslash. -/
theorem NumberReads.unique {first second : NumberedEscape} (one : NumberReads groups digits first)
    (other : NumberReads groups digits second) : first = second := by
  -- The front part that names a group is unique, and so is the code.
  cases one with
  | reference length _ some named =>
    cases other with
    | reference length' _ _ named' => rw [named.unique named']
    | code _ _ _ none =>
      -- A front part of positive length names a group in one of them only.
      exact absurd (named.unique none) (Nat.ne_of_gt some)
  | code value length _ none longest spelled =>
    cases other with
    | reference length' _ some named => exact absurd (named.unique none) (Nat.ne_of_gt some)
    | code value' length' _ _ longest' spelled' =>
      obtain rfl := longest.unique longest'
      rw [spelled.unique spelled']

/-- Decimal digits are read in one way, which is the one that is found. -/
theorem numberReads_iff (numbered : startsNumbered digits = true) {escape : NumberedEscape} :
    NumberReads (largestGroup groups) digits escape ↔
      (∀ digit ∈ digits, digit.isDigit = true) ∧ escape = .resolve groups digits := by
  constructor
  · -- Reading is possible for decimal digits only, and then it is unique.
    intro reads
    have decimal : ∀ digit ∈ digits, digit.isDigit = true := by cases reads <;> assumption
    exact ⟨decimal, reads.unique (numberReads_resolve numbered decimal)⟩
  · rintro ⟨decimal, rfl⟩
    exact numberReads_resolve numbered decimal

/-- A group that is read off digits is one of those there are, and the digits in use spell it. -/
theorem NumberReads.group_spelled {escape : NumberedEscape} (reads : NumberReads groups digits escape)
    (numbered : startsNumbered digits = true) {group : Nat} (named : escape.group? = some group) :
    1 ≤ group ∧ group ≤ groups ∧ decimalDigits group = digits.take escape.length := by
  cases reads with
  | reference length decimal some longest =>
    obtain rfl := Option.some.inj named
    refine ⟨?_, longest.holds, decimalDigits_take numbered decimal some longest.bounded⟩
    cases length with
    | zero => contradiction
    | succ length => exact valueIn_pos (startsNumbered_front numbered)
  | code => contradiction

/-- A group that is referred to has been opened. -/
theorem NumberReads.opened {group length : Nat}
    (reads : NumberReads (largestGroup groups) digits (.reference group length))
    (numbered : startsNumbered digits = true) : 0 < group ∧ group ≤ groups := by
  obtain ⟨least, most, _⟩ := reads.group_spelled numbered rfl
  exact ⟨least, Nat.le_trans most (largestGroup_le groups)⟩

/-- The group that digits refer to is their number without the last digits that are too many. -/
theorem NumberReads.groupNamed_eq {escape : NumberedEscape}
    (reads : NumberReads groups digits escape) :
    groupNamed groups (valueIn 10 digits) = escape.group?.getD 0 := by
  cases reads with
  | reference length decimal some longest => exact longest.groupNamed_eq decimal
  | code value length decimal none => exact none.groupNamed_eq decimal

/-- The digits in use spell the code that they are read as. -/
theorem NumberReads.spellsCode {value length : Nat}
    (reads : NumberReads groups digits (.code value length)) :
    SpellsCode (digits.take length) value := by
  cases reads with
  | code _ _ _ _ _ spelled => exact spelled

end RegexLens
