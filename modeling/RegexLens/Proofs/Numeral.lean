import RegexLens.Numeral

/-! Digits stand for numbers below their base, and a number is read back from its digits. -/

namespace RegexLens

/-- The decimal digits are the characters with the codes 48 to 57. -/
theorem isDigit_iff {symbol : Char} :
    symbol.isDigit = true ↔ 48 ≤ symbol.toNat ∧ symbol.toNat ≤ 57 := by
  -- Characters are ordered by their codes.
  simp [Char.isDigit, UInt32.le_iff_toNat_le]

/-- The letters lie in two ranges of codes, the upper-case ones first. -/
theorem isAlpha_iff {symbol : Char} :
    symbol.isAlpha = true ↔ (65 ≤ symbol.toNat ∧ symbol.toNat ≤ 90) ∨
      (97 ≤ symbol.toNat ∧ symbol.toNat ≤ 122) := by
  have ranges : symbol.isAlpha = (decide (65 ≤ symbol.val ∧ symbol.val ≤ 90) ||
      (decide (97 ≤ symbol.val) && decide (symbol.val ≤ 122))) := rfl
  simp [ranges, UInt32.le_iff_toNat_le]

/-- The octal digits are the characters with the codes 48 to 55. -/
theorem isOctalDigit_iff {symbol : Char} :
    isOctalDigit symbol = true ↔ 48 ≤ symbol.toNat ∧ symbol.toNat ≤ 55 := by
  -- The two bounds are the codes of the first and the last digit.
  simp [isOctalDigit, Char.le_def, UInt32.le_iff_toNat_le]

/-- The hexadecimal digits lie in three ranges of codes. -/
theorem isHexDigit_iff {symbol : Char} :
    isHexDigit symbol = true ↔ (48 ≤ symbol.toNat ∧ symbol.toNat ≤ 57) ∨
      (97 ≤ symbol.toNat ∧ symbol.toNat ≤ 102) ∨ (65 ≤ symbol.toNat ∧ symbol.toNat ≤ 70) := by
  -- The decimal digits come first, then the lower-case and the upper-case letters.
  simp [isHexDigit, isDigit_iff, Char.le_def, UInt32.le_iff_toNat_le, or_assoc]

/-- The value of a digit is its distance from the first digit of its range. -/
theorem digitValue_eq (symbol : Char) :
    digitValue symbol =
      if 48 ≤ symbol.toNat ∧ symbol.toNat ≤ 57 then symbol.toNat - 48
      else if 97 ≤ symbol.toNat then symbol.toNat - 87
      else symbol.toNat - 65 + 10 := by
  -- The digits and the two rows of letters are told apart by their codes.
  have small : 'a' ≤ symbol ↔ 97 ≤ symbol.toNat := by
    rw [Char.le_def, UInt32.le_iff_toNat_le]
    rfl
  have codes : '0'.toNat = 48 ∧ 'a'.toNat = 97 ∧ 'A'.toNat = 65 := by decide
  simp only [digitValue, isDigit_iff, small, codes]
  split
  · rfl
  · -- The lower-case letters count on from ten.
    split
    · omega
    · rfl

/-- An octal digit stands for a number below eight. -/
theorem digitValue_lt_eight {symbol : Char} (digit : isOctalDigit symbol = true) :
    digitValue symbol < 8 := by
  rw [isOctalDigit_iff] at digit
  rw [digitValue_eq]
  -- An octal digit is in the first of the three ranges.
  split <;> omega

/-- A decimal digit stands for a number below ten. -/
theorem digitValue_lt_ten {symbol : Char} (digit : symbol.isDigit = true) :
    digitValue symbol < 10 := by
  rw [isDigit_iff] at digit
  rw [digitValue_eq, if_pos digit]
  omega

/-- A hexadecimal digit stands for a number below sixteen. -/
theorem digitValue_lt_sixteen {symbol : Char} (digit : isHexDigit symbol = true) :
    digitValue symbol < 16 := by
  rw [isHexDigit_iff] at digit
  rw [digitValue_eq]
  -- A decimal digit is below ten, and a letter goes up to fifteen in either case.
  split
  · omega
  · split <;> omega

/-- One more digit multiplies a number by the base and adds the value of the digit. -/
theorem valueIn_concat (base : Nat) (digits : Text) (symbol : Char) :
    valueIn base (digits ++ [symbol]) = valueIn base digits * base + digitValue symbol := by
  -- The value is a fold from the left, so the last digit comes in last.
  simp [valueIn]

/-- More digits do not make a number smaller than the first ones. -/
theorem le_foldl_digits {base : Nat} (positive : 0 < base) (digits : Text) (total : Nat) :
    total ≤ digits.foldl (fun total symbol => total * base + digitValue symbol) total := by
  -- Each digit multiplies the number and adds to it.
  induction digits generalizing total with
  | nil => exact Nat.le_refl _
  | cons digit rest ih =>
    have step : total ≤ total * base + digitValue digit :=
      Nat.le_trans (Nat.le_mul_of_pos_right total positive) (Nat.le_add_right _ _)
    exact Nat.le_trans step (ih _)

/-- The digits of a base, letters in either case counting on from ten. -/
def isDigitIn (base : Nat) (symbol : Char) : Bool :=
  symbol.isAlphanum && digitValue symbol < base

/-- Digits of a base, one at least, that spell a number. -/
structure SpellsNumber (base : Nat) (digits : Text) (number : Nat) : Prop where
  nonempty : digits ≠ []
  good : ∀ digit ∈ digits, isDigitIn base digit = true
  value : valueIn base digits = number

/-- The digits of a base lie in three ranges of codes, each up to the base. -/
theorem isDigitIn_iff {base : Nat} {symbol : Char} :
    isDigitIn base symbol = true ↔
      (48 ≤ symbol.toNat ∧ symbol.toNat ≤ 57 ∧ symbol.toNat - 48 < base) ∨
        (65 ≤ symbol.toNat ∧ symbol.toNat ≤ 90 ∧ symbol.toNat - 55 < base) ∨
        (97 ≤ symbol.toNat ∧ symbol.toNat ≤ 122 ∧ symbol.toNat - 87 < base) := by
  simp only [isDigitIn, Char.isAlphanum, Bool.and_eq_true, Bool.or_eq_true, decide_eq_true_eq,
    isAlpha_iff, isDigit_iff, digitValue_eq]
  -- The decimal digits come first, and the letters in lower case are told from the others.
  split
  · omega
  · split <;> omega

/-- The octal digits are the digits of the base eight. -/
theorem isDigitIn_eight (symbol : Char) : isDigitIn 8 symbol = isOctalDigit symbol := by
  rw [Bool.eq_iff_iff, isOctalDigit_iff, isDigitIn_iff]
  omega

/-- The decimal digits are the digits of the base ten. -/
theorem isDigitIn_ten (symbol : Char) : isDigitIn 10 symbol = symbol.isDigit := by
  rw [Bool.eq_iff_iff, isDigit_iff, isDigitIn_iff]
  omega

/-- The hexadecimal digits are the digits of the base sixteen. -/
theorem isDigitIn_sixteen (symbol : Char) : isDigitIn 16 symbol = isHexDigit symbol := by
  rw [Bool.eq_iff_iff, isHexDigit_iff, isDigitIn_iff]
  omega

/-- A lower-case letter has its place behind the small one, and an upper-case letter too. -/
theorem toLower_of_isAlpha {symbol : Char} (alpha : symbol.isAlpha = true) :
    symbol.toLower.toNat =
      if 97 ≤ symbol.toNat then symbol.toNat else symbol.toNat + 32 := by
  -- All letters of ASCII lie among the first 123 codes, which are checked one by one.
  have every : ∀ code < 123, (Char.ofNat code).isAlpha = true →
      (Char.ofNat code).toLower.toNat = if 97 ≤ code then code else code + 32 := by decide
  rw [isAlpha_iff] at alpha
  have small : symbol.toNat < 123 := by omega
  simpa [isAlpha_iff, alpha] using every symbol.toNat small

/-- A character is read as a digit if it is one of the base, and then as its value. -/
theorem digitIn?_eq_some {base : Nat} {symbol : Char} {value : Nat} :
    digitIn? base symbol = some value ↔
      isDigitIn base symbol = true ∧ digitValue symbol = value := by
  unfold digitIn? isDigitIn
  simp only [Char.isAlphanum, Option.ite_none_right_eq_some, Option.some.injEq]
  by_cases digit : symbol.isDigit = true
  · simp [digit, digitValue]
  · by_cases alpha : symbol.isAlpha = true
    · -- The two rows of letters are brought together before they are counted.
      have value : symbol.toLower.toNat - 97 + 10 = digitValue symbol := by
        rw [toLower_of_isAlpha alpha, digitValue_eq]
        rw [isAlpha_iff] at alpha
        rw [isDigit_iff] at digit
        rw [if_neg digit]
        split <;> omega
      simp [digit, alpha, value]
    · simp [digit, alpha]

/-- Reading goes on to the end iff all digits are good and the number stays below the limit. -/
theorem parseFrom?_eq_some {base limit total number : Nat} (positive : 0 < base)
    (small : total < limit) {digits : Text} :
    parseFrom? base limit total digits = some number ↔
      (∀ digit ∈ digits, isDigitIn base digit = true) ∧
        digits.foldl (fun total symbol => total * base + digitValue symbol) total = number ∧
        number < limit := by
  induction digits generalizing total with
  | nil =>
    simp only [parseFrom?, Option.some.injEq, List.not_mem_nil, false_implies, implies_true,
      true_and, List.foldl_nil]
    constructor
    · rintro rfl
      exact ⟨rfl, small⟩
    · exact And.left
  | cons digit rest ih =>
    -- The number only grows, so it is below the limit at each digit if it is at the last one.
    have grows := le_foldl_digits positive rest (total * base + digitValue digit)
    simp only [parseFrom?, List.forall_mem_cons, List.foldl_cons]
    split
    · rename_i bad
      refine ⟨fun absent => by contradiction, ?_⟩
      rintro ⟨⟨good, _⟩, _⟩
      rw [digitIn?_eq_some.mpr ⟨good, rfl⟩] at bad
      contradiction
    · rename_i value read
      obtain ⟨good, rfl⟩ := digitIn?_eq_some.mp read
      split
      · rename_i below
        rw [ih below]
        simp only [good, true_and]
      · rename_i above
        refine ⟨fun absent => by contradiction, ?_⟩
        rintro ⟨_, rfl, bounded⟩
        exact absurd (Nat.lt_of_le_of_lt grows bounded) above

/-- Without a sign, a text is read as a number iff it spells one that is below the limit. -/
theorem parse?_eq_some {base limit number : Nat} (positive : 0 < base) (room : 0 < limit)
    {text : Text} (unsigned : text.head? ≠ some '+') :
    parse? base limit text = some number ↔ SpellsNumber base text number ∧ number < limit := by
  have spelled : SpellsNumber base text number ↔ text ≠ [] ∧
      (∀ digit ∈ text, isDigitIn base digit = true) ∧ valueIn base text = number :=
    ⟨fun ⟨nonempty, good, value⟩ => ⟨nonempty, good, value⟩,
      fun ⟨nonempty, good, value⟩ => ⟨nonempty, good, value⟩⟩
  have digits : parse? base limit text =
      if text = [] then none else parseFrom? base limit 0 text := by
    cases text with
    | nil => rfl
    | cons first rest =>
      have other : first ≠ '+' := by simpa using unsigned
      simp [parse?, other]
  rw [digits, spelled]
  split
  · rename_i empty
    simp [empty]
  · rename_i some
    rw [parseFrom?_eq_some positive room]
    simp only [ne_eq, some, not_false_eq_true, true_and, valueIn, and_assoc]

namespace SpellsNumber

variable {base limit number : Nat} {digits : Text}

/-- No digit is a sign. -/
theorem unsigned (spells : SpellsNumber base digits number) : digits.head? ≠ some '+' := by
  intro sign
  have good := spells.good '+' (List.mem_of_mem_head? sign)
  rw [isDigitIn_iff] at good
  have code : '+'.toNat = 43 := rfl
  omega

/-- Digits are read as the number that they spell, unless it reaches the limit. -/
theorem parse?_eq (spells : SpellsNumber base digits number) (positive : 0 < base) (room : 0 < limit) :
    parse? base limit digits = if number < limit then some number else none := by
  split
  · rename_i below
    exact (parse?_eq_some positive room spells.unsigned).mpr ⟨spells, below⟩
  · rename_i above
    -- Any number that was read would be the one that is spelled.
    rw [Option.eq_none_iff_forall_ne_some]
    intro other read
    obtain ⟨again, below⟩ := (parse?_eq_some positive room spells.unsigned).mp read
    rw [← again.value, spells.value] at below
    exact above below

end SpellsNumber

/-- The digits of a number spell it, if each of them is written as a digit of that value. -/
theorem valueIn_toDigits {base : Nat} (large : 1 < base) {write : Char → Char}
    (faithful : ∀ value < base, digitValue (write value.digitChar) = value) (number : Nat) :
    valueIn base ((Nat.toDigits base number).map write) = number := by
  -- The last digit is the remainder, and the others spell the quotient.
  induction number using Nat.strongRecOn with
  | ind number ih =>
    by_cases small : number < base
    · -- A number below the base is one digit.
      simp [Nat.toDigits_of_lt_base small, valueIn, faithful number small]
    · have least : base ≤ number := Nat.le_of_not_lt small
      have quotient : number / base < number := Nat.div_lt_self (by omega) large
      rw [Nat.toDigits_of_base_le large least, List.map_append, List.map_singleton,
        valueIn_concat, ih _ quotient, faithful _ (Nat.mod_lt _ (by omega)), Nat.mul_comm]
      exact Nat.div_add_mod number base

/-- Each digit of a number is a digit character of a value below the base. -/
theorem mem_toDigits {base number : Nat} (large : 1 < base) {symbol : Char}
    (member : symbol ∈ Nat.toDigits base number) : ∃ value < base, symbol = value.digitChar := by
  -- Each step of the division produces one digit and leaves a smaller number.
  induction number using Nat.strongRecOn with
  | ind number ih =>
    by_cases small : number < base
    · rw [Nat.toDigits_of_lt_base small, List.mem_singleton] at member
      exact ⟨number, small, member⟩
    · have least : base ≤ number := Nat.le_of_not_lt small
      rw [Nat.toDigits_of_base_le large least, List.mem_append, List.mem_singleton] at member
      rcases member with earlier | last
      · exact ih _ (Nat.div_lt_self (by omega) large) earlier
      · exact ⟨number % base, Nat.mod_lt _ (by omega), last⟩

/-- A decimal digit is what its value is written as. -/
theorem digitChar_digitValue {symbol : Char} (digit : symbol.isDigit = true) :
    (digitValue symbol).digitChar = symbol := by
  rw [isDigit_iff] at digit
  -- There are ten digits, and each of them is checked.
  have every : ∀ code < 58, 48 ≤ code →
      (digitValue (Char.ofNat code)).digitChar = Char.ofNat code := by decide
  simpa using every symbol.toNat (by omega) digit.1

/-- A number is read back from its hexadecimal digits. -/
theorem valueIn_hexDigits (number : Nat) : valueIn 16 (hexDigits number) = number :=
  valueIn_toDigits (by decide) (by decide) number

/-- Every character of a hexadecimal spelling is a hexadecimal digit. -/
theorem isHexDigit_of_mem_hexDigits {number : Nat} {symbol : Char}
    (member : symbol ∈ hexDigits number) : isHexDigit symbol = true := by
  -- The digits are written in upper case, which does not change what they are.
  obtain ⟨digit, found, rfl⟩ := List.mem_map.mp member
  obtain ⟨value, small, rfl⟩ := mem_toDigits (by decide) found
  -- There are sixteen digits, and each of them is checked.
  have every : ∀ value < 16, isHexDigit value.digitChar.toUpper = true := by decide
  exact every value small

/-- A hexadecimal spelling has a first digit. -/
theorem hexDigits_ne_nil (number : Nat) : hexDigits number ≠ [] := by
  -- Even zero is written with a digit.
  simp [hexDigits, Nat.toDigits_ne_nil]

/-- A number is read back from its decimal digits. -/
theorem valueIn_decimalDigits (number : Nat) : valueIn 10 (decimalDigits number) = number := by
  -- Decimal digits are written as they are.
  have read : valueIn 10 ((Nat.toDigits 10 number).map id) = number :=
    valueIn_toDigits (by decide) (by decide) number
  rwa [List.map_id] at read

/-- Every character of a decimal spelling is a decimal digit. -/
theorem isDigit_of_mem_decimalDigits {number : Nat} {symbol : Char}
    (member : symbol ∈ decimalDigits number) : symbol.isDigit = true :=
  Nat.isDigit_of_mem_toDigits (by decide) (by decide) member

/-- A decimal spelling has a first digit. -/
theorem decimalDigits_ne_nil (number : Nat) : decimalDigits number ≠ [] :=
  Nat.toDigits_ne_nil

end RegexLens
