import RegexLens.Proofs.Pattern.Escape
import RegexLens.Proofs.Pattern.Quantifiers

/-! Escapes outside classes: sequences of the known forms, or numbers that are resolved. -/

namespace RegexLens

/-- A text whose first character is no digit but zero starts no number. -/
theorem startsNumbered_take {first : Char} {rest : Text} (length : Nat)
    (unnumbered : startsNumbered (first :: rest) = false) :
    startsNumbered ((first :: rest).take length) = false := by
  -- The first character is kept, unless nothing is.
  cases length with
  | zero => rfl
  | succ more => exact unnumbered

/-- A front part of a number is a number, unless it is empty. -/
theorem startsNumbered_front {digits : Text} {more : Nat} (numbered : startsNumbered digits = true) :
    startsNumbered (digits.take (more + 1)) = true := by
  cases digits with
  | nil => contradiction
  | cons first rest => exact numbered

/-- An escape is a backslash with the digits of a number, or with a sequence of a known form. -/
theorem TokenForm.escape_sequence {text : Text} (form : TokenForm .escape text) :
    ∃ sequence, text = '\\' :: sequence ∧
      (startsNumbered sequence = true → ∀ digit ∈ sequence, digit.isDigit = true) ∧
      (startsNumbered sequence = false → SequenceForm sequence) := by
  cases form with
  | escape tail =>
    -- The first character behind the backslash decides how much belongs to it.
    refine ⟨tail.take (escapeLength tail), rfl, ?_⟩
    unfold escapeLength
    split
    · -- Nothing follows the backslash.
      exact ⟨by simp [startsNumbered], fun _ => .nothing⟩
    · -- A zero starts an octal code.
      rename_i rest
      rw [List.take_succ_cons]
      refine ⟨by simp [startsNumbered], fun _ => ?_⟩
      rcases Nat.eq_zero_or_pos (octalLength rest) with none | found
      · rw [none]
        exact .single '0'
      · exact (octalCode_take found).zero_sequenceForm
    · rename_i first rest other
      split
      · -- Another digit starts a number, which takes all digits that follow.
        rename_i numeral
        have run : (first :: rest).take (digitRun (first :: rest)).length = digitRun (first :: rest) :=
          take_length_of_append List.takeWhile_append_dropWhile
        rw [run]
        refine ⟨fun _ _ member => isDigit_of_mem_digitRun member, ?_⟩
        intro unnumbered
        have starts : digitRun (first :: rest) = first :: digitRun rest := by
          simp [digitRun, numeral]
        rw [starts] at unnumbered
        simp [startsNumbered, numeral] at unnumbered
        exact absurd unnumbered other
      · -- What starts with no digit is a sequence of a known form.
        rename_i letter
        have unnumbered : startsNumbered (first :: rest) = false := by
          simp [startsNumbered, letter]
        refine ⟨?_, fun _ => sequenceForm_take_sequenceLength _⟩
        intro numbered
        rw [startsNumbered_take _ unnumbered] at numbered
        contradiction

/-- A number that does not start with zero is positive. -/
theorem valueIn_pos {digits : Text} (numbered : startsNumbered digits = true) :
    0 < valueIn 10 digits := by
  cases digits with
  | nil => contradiction
  | cons first rest =>
    simp only [startsNumbered, Bool.and_eq_true, bne_iff_ne, isDigit_iff] at numbered
    -- The first digit is not zero, and the others only make the number larger.
    have positive : 0 < digitValue first := by
      have notZero : first.toNat ≠ 48 := fun same => numbered.2 (Char.toNat_inj.mp same)
      rw [digitValue_eq, if_pos numbered.1]
      omega
    -- Each further digit multiplies the number and adds to it.
    have grows := le_foldl_digits (by decide : 0 < 10) rest (0 * 10 + digitValue first)
    simp only [valueIn, List.foldl_cons]
    omega

/-- The largest number that names one of the groups opened so far: a number that outgrows 64 bits can
never name one. -/
def largestGroup (groups : Nat) : Nat :=
  min groups 0xFFFFFFFFFFFFFFFE

/-- In a pattern that fits into memory, the groups are numbered up to their number. -/
theorem largestGroup_eq {groups : Nat} (few : groups < 0xFFFFFFFFFFFFFFFF) :
    largestGroup groups = groups :=
  Nat.min_eq_left (Nat.le_of_lt_succ few)

/-- There is a group for each number up to the largest one. -/
theorem largestGroup_le (groups : Nat) : largestGroup groups ≤ groups :=
  Nat.min_le_left _ _

/-- Digits are read as the number that they spell, or as the largest one of 64 bits. -/
theorem IsNumber.groupNumber_eq {digits : Text} (number : IsNumber digits) :
    groupNumber digits =
      if valueIn 10 digits < 0x10000000000000000 then valueIn 10 digits
      else 0xFFFFFFFFFFFFFFFF := by
  -- Reading the digits fails at the limit of 64 bits, and then the largest number is taken.
  rw [groupNumber, number.spells.parse?_eq (by decide) (by decide)]
  by_cases fits : valueIn 10 digits < 0x10000000000000000
  · simp [limit64, fits]
  · simp [limit64, fits]

/-- Reading a number that can outgrow 64 bits finds out whether it names a group. -/
theorem IsNumber.groupNumber_le_iff {digits : Text} (number : IsNumber digits) (groups : Nat) :
    groupNumber digits ≤ groupsInMemory groups ↔ valueIn 10 digits ≤ largestGroup groups := by
  have bound : groupsInMemory groups = min groups 0xFFFFFFFFFFFFFFFE := rfl
  rw [number.groupNumber_eq, bound, largestGroup]
  -- A number that is too large is read as one that is too large as well.
  split <;> omega

/-- A number that names a group is read exactly. -/
theorem IsNumber.groupNumber_of_le {digits : Text} (number : IsNumber digits) {groups : Nat}
    (named : valueIn 10 digits ≤ largestGroup groups) : groupNumber digits = valueIn 10 digits := by
  rw [number.groupNumber_eq, if_pos]
  unfold largestGroup at named
  omega

/-- The reading of a backslash followed by digits that do not start with zero. -/
inductive NumberedEscape
  /-- A reference to a group, spelled by some of the digits. -/
  | reference (group : Nat) (length : Nat)
  /-- A character code, spelled by some of the digits. -/
  | code (value : Nat) (length : Nat)
deriving DecidableEq, Repr

namespace NumberedEscape

/-- How many of the digits the reading uses; the others are ordinary characters. -/
def length : NumberedEscape → Nat
  | .reference _ length => length
  | .code _ length => length

/-- The group that is referred to, if the reading is a reference. -/
def group? : NumberedEscape → Option Nat
  | .reference group _ => some group
  | .code _ _ => none

/-- The reading that the styles and the translation of a number follow. -/
def resolve (groups : Nat) (digits : Text) : NumberedEscape :=
  let named := referenceLength groups digits digits.length
  let coded := max (octalLength digits) 1
  if 0 < named then .reference (groupNumber (digits.take named)) named
  else .code ((sequenceCode? (digits.take coded)).getD 0) coded

end NumberedEscape

/-- A number is shown by its reading, with the digits that are left over behind. -/
theorem Classifier.readNumberedEscape_eq (state : Classifier) (digits : Text) :
    state.readNumberedEscape digits =
      let escape := NumberedEscape.resolve state.captures digits
      { (state.styled .special ('\\' :: digits.take escape.length)).plain
          (digits.drop escape.length) with
        backreferences := state.backreferences ++ escape.group?.toList }.follow true := by
  unfold readNumberedEscape NumberedEscape.resolve
  -- A number that names a group is cut behind its own digits, any other one behind its code.
  by_cases named : 0 < referenceLength state.captures digits digits.length
  · simp [named, NumberedEscape.length, NumberedEscape.group?]
  · simp [named, NumberedEscape.length, NumberedEscape.group?]

end RegexLens
