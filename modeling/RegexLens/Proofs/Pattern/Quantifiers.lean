import Mathlib.Data.List.TakeDrop
import Mathlib.Data.List.TakeWhile
import RegexLens.Host.Expression
import RegexLens.Pattern.Classification
import RegexLens.Proofs.Numeral
import RegexLens.Proofs.Pattern.Tokens

/-! The bounds that a quantifier spells, and the judgement on them by their values. -/

namespace RegexLens

/-- A number is at least one decimal digit. -/
def IsNumber (digits : Text) : Prop :=
  -- Leading zeros are digits like any other.
  digits ≠ [] ∧ ∀ digit ∈ digits, digit.isDigit = true

/-- The repetitions with the bounds that they spell. -/
inductive Repetition : Text → Bounds → Prop
  /-- At most once. -/
  | optional : Repetition ['?'] ⟨0, some 1⟩
  /-- Any number of times. -/
  | any : Repetition ['*'] ⟨0, none⟩
  /-- At least once. -/
  | some : Repetition ['+'] ⟨1, none⟩
  /-- A given number of times. -/
  | exact (count : Text) (number : IsNumber count) :
      Repetition ('{' :: (count ++ ['}'])) ⟨valueIn 10 count, .some (valueIn 10 count)⟩
  /-- At least a given number of times. -/
  | atLeast (lower : Text) (number : IsNumber lower) :
      Repetition ('{' :: (lower ++ [',', '}'])) ⟨valueIn 10 lower, none⟩
  /-- A number of times between two given ones. -/
  | between (lower upper : Text) (lowerNumber : IsNumber lower) (upperNumber : IsNumber upper) :
      Repetition ('{' :: (lower ++ ',' :: (upper ++ ['}'])))
        ⟨valueIn 10 lower, .some (valueIn 10 upper)⟩

/-- A quantifier is a repetition, with a mark behind it when it is lazy. -/
def RepeatsAs (text : Text) (bounds : Bounds) (isLazy : Bool) : Prop :=
  ∃ body, Repetition body bounds ∧ text = body ++ if isLazy then ['?'] else []

/-- Bounds that are accepted: not too large, and the lower one not above the upper one. -/
def Bounds.Acceptable (bounds : Bounds) : Prop :=
  bounds.lower ≤ 65535 ∧ ∀ upper ∈ bounds.upper?, upper ≤ 65535 ∧ bounds.lower ≤ upper

/-- A quantifier is good when the bounds that it spells are accepted. -/
def GoodQuantifier (text : Text) : Prop :=
  ∃ bounds isLazy, RepeatsAs text bounds isLazy ∧ bounds.Acceptable

/-- The digits at the front of a text end where something else begins. -/
theorem digitRun_append {digits : Text} (rest : Text)
    (number : ∀ digit ∈ digits, digit.isDigit = true)
    (stops : ∀ next, rest.head? = some next → next.isDigit = false) :
    digitRun (digits ++ rest) = digits := by
  -- All of the digits are taken, and the next character is none.
  unfold digitRun
  rw [List.takeWhile_append_of_pos number]
  cases rest with
  | nil => simp
  | cons next tail => simp [stops next rfl]

/-- The digits at the front of a text are digits. -/
theorem isDigit_of_mem_digitRun {text : Text} {digit : Char} (member : digit ∈ digitRun text) :
    digit.isDigit = true :=
  List.all_eq_true.mp List.all_takeWhile digit member

/-- The digits at the front of a text and what follows them are the text, cut in two. -/
theorem digitRun_append_drop (text : Text) :
    digitRun text ++ text.drop (digitRun text).length = text := by
  -- The run of digits is the front of the text of its own length.
  have front : text.take (digitRun text).length = digitRun text :=
    take_length_of_append List.takeWhile_append_dropWhile
  calc digitRun text ++ text.drop (digitRun text).length
      = text.take (digitRun text).length ++ text.drop (digitRun text).length := by rw [front]
    _ = text := List.take_append_drop _ _

/-- A complete interval is a repetition between braces. -/
theorem repetition_of_intervalLength? {tail : Text} {length : Nat}
    (complete : intervalLength? tail = some length) :
    ∃ bounds, Repetition ('{' :: tail.take length) bounds := by
  have cut := digitRun_append_drop tail
  have digits : ∀ digit ∈ digitRun tail, digit.isDigit = true :=
    fun _ member => isDigit_of_mem_digitRun member
  unfold intervalLength? at complete
  -- The lower bound comes first in every interval.
  simp only at complete
  generalize digitRun tail = lower at cut digits complete
  split at complete
  · -- Without a digit there is no interval.
    simp at complete
  · -- The interval closes right behind the lower bound.
    rename_i lower _ _ rest number follows
    obtain rfl := Option.some.inj complete
    have front : lower ++ ['}'] ++ rest = tail := by
      rw [← cut, follows]
      simp
    have whole := take_length_of_append front
    rw [List.length_append, List.length_singleton] at whole
    rw [whole]
    exact ⟨_, .exact lower ⟨number, digits⟩⟩
  · -- A comma follows, and then an upper bound that may be missing.
    rename_i lower _ _ rest number follows
    have upperCut := digitRun_append_drop rest
    have upperDigits : ∀ digit ∈ digitRun rest, digit.isDigit = true :=
      fun _ member => isDigit_of_mem_digitRun member
    generalize digitRun rest = upper at upperCut upperDigits complete
    split at complete
    · rename_i after closes
      obtain rfl := Option.some.inj complete
      have front : lower ++ ',' :: (upper ++ ['}']) ++ after = tail := by
        rw [← cut, follows, ← upperCut, closes]
        simp
      have length : lower.length + upper.length + 2 = (lower ++ ',' :: (upper ++ ['}'])).length := by
        simp only [List.length_append, List.length_cons, List.length_nil]
        omega
      rw [length, take_length_of_append front]
      -- A missing upper bound leaves the number of repetitions open.
      by_cases missing : upper = []
      · subst missing
        exact ⟨_, .atLeast lower ⟨number, digits⟩⟩
      · exact ⟨_, .between lower upper ⟨number, digits⟩ ⟨missing, upperDigits⟩⟩
    · -- Behind the upper bound only a brace completes the interval.
      contradiction
  · -- Nothing else can follow the lower bound.
    contradiction

/-- The mark that makes a quantifier lazy is taken along with what stands in front of it. -/
theorem take_withLazyMark (length : Nat) (tail : Text) :
    ∃ isLazy : Bool, tail.take (withLazyMark length tail) =
      tail.take length ++ if isLazy then ['?'] else [] := by
  unfold withLazyMark
  split
  · -- The mark is one more character behind the rest.
    rename_i marked
    obtain ⟨rest, follows⟩ := List.head?_eq_some_iff.mp marked
    refine ⟨true, ?_⟩
    rw [List.take_add, follows]
    rfl
  · exact ⟨false, by simp⟩

/-- Every quantifier that the scanner cuts spells some bounds. -/
theorem repeatsAs_of_form {text : Text} (form : TokenForm .quantifier text) :
    ∃ bounds isLazy, RepeatsAs text bounds isLazy := by
  -- The three marks fix their bounds, and an interval spells its own.
  cases form with
  | mark first tail known =>
    obtain ⟨isLazy, cut⟩ := take_withLazyMark 0 tail
    simp only [List.take_zero, List.nil_append] at cut
    -- Each mark has bounds of its own, with or without a mark for lazy quantifiers.
    rcases known with rfl | rfl | rfl
    · exact ⟨_, isLazy, _, .optional, by rw [cut]; rfl⟩
    · exact ⟨_, isLazy, _, .any, by rw [cut]; rfl⟩
    · exact ⟨_, isLazy, _, .some, by rw [cut]; rfl⟩
  -- The interval ends where the pattern says that it is complete.
  | interval tail length complete =>
    obtain ⟨isLazy, cut⟩ := take_withLazyMark length tail
    obtain ⟨bounds, repetition⟩ := repetition_of_intervalLength? complete
    exact ⟨bounds, isLazy, _, repetition, by rw [cut]; rfl⟩

/-- The fault of bounds: one of them is too large, or else they are in the wrong order. -/
def Bounds.fault? (bounds : Bounds) : Option Fault :=
  if 65535 < bounds.lower ∨ ∃ upper ∈ bounds.upper?, 65535 < upper then some .boundTooLarge
  else if ∃ upper ∈ bounds.upper?, upper < bounds.lower then some .reversedBounds
  else none

namespace IsNumber

variable {digits : Text}

/-- A number is spelled in the base ten. -/
theorem spells (number : IsNumber digits) : SpellsNumber 10 digits (valueIn 10 digits) :=
  ⟨number.1, fun digit member => (isDigitIn_ten digit).trans (number.2 digit member), rfl⟩

/-- A number has no sign of punctuation in it. -/
theorem ne_of_mem (number : IsNumber digits) (mark : Char) (other : mark.isDigit = false) :
    ∀ digit ∈ digits, (digit != mark) = true := by
  -- A digit that is a mark would not be a digit.
  intro digit member
  rw [bne_iff_ne]
  rintro rfl
  rw [number.2 digit member] at other
  contradiction

/-- A bound is read as its number unless that is above the limit, however many digits it has. -/
theorem bound?_eq (number : IsNumber digits) :
    bound? digits = if valueIn 10 digits ≤ 65535 then some (valueIn 10 digits) else none := by
  rw [bound?, number.spells.parse?_eq (by decide) (by decide)]
  by_cases small : valueIn 10 digits ≤ 65535
  · -- What is at most the limit fits 32 bits, so that reading the digits does not fail.
    have fits : valueIn 10 digits < limit32 := Nat.lt_of_le_of_lt small (by decide)
    simp [fits, small, maxInterval]
  · by_cases fits : valueIn 10 digits < limit32
    · simp [fits, small, maxInterval]
    · simp [fits, small]

end IsNumber

/-- A text with a mark in it is cut in front of the first one. -/
theorem span_append {front : Text} {mark : Char} (rest : Text)
    (unmarked : ∀ symbol ∈ front, (symbol != mark) = true) :
    (front ++ mark :: rest).span (· != mark) = (front, mark :: rest) := by
  -- The cut lies behind all characters that are no mark.
  rw [List.span_eq_takeWhile_dropWhile, List.takeWhile_append_of_pos unmarked,
    List.dropWhile_append_of_pos unmarked]
  simp

/-- A text without a mark is not cut. -/
theorem span_eq_self {text : Text} {mark : Char}
    (unmarked : ∀ symbol ∈ text, (symbol != mark) = true) :
    text.span (· != mark) = (text, []) := by
  rw [List.span_eq_takeWhile_dropWhile, List.takeWhile_eq_self_iff.mpr unmarked,
    List.dropWhile_eq_nil_iff.mpr unmarked]

/-- An interval is judged by what stands in front of its first closing brace. -/
theorem intervalFault?_braces {body : Text} (rest : Text)
    (inner : ∀ symbol ∈ body, (symbol != '}') = true) :
    intervalFault? ('{' :: (body ++ '}' :: rest)) =
      boundsFault? (splitBounds body).1 (splitBounds body).2 := by
  simp only [intervalFault?, span_append rest inner]

/-- A bound alone is the lower one, and no upper one is given. -/
theorem splitBounds_single {lower : Text} (number : IsNumber lower) :
    splitBounds lower = (lower, none) := by
  simp only [splitBounds, span_eq_self (number.ne_of_mem ',' rfl)]

/-- A comma stands between the two bounds, or behind the only one. -/
theorem splitBounds_comma {lower : Text} (number : IsNumber lower) (upper : Text) :
    splitBounds (lower ++ ',' :: upper) = (lower, if upper = [] then none else some upper) := by
  simp only [splitBounds, span_append upper (number.ne_of_mem ',' rfl)]

/-- A lower bound alone can only be too large. -/
theorem boundsFault?_open {lower : Text} (number : IsNumber lower) :
    boundsFault? lower none = (⟨valueIn 10 lower, none⟩ : Bounds).fault? := by
  -- The number is read without a failure if it is small, and then it is compared.
  simp only [boundsFault?, number.bound?_eq, Bounds.fault?, Option.map_none]
  split <;> rename_i read
  · simp_all
  · simp_all
    omega

/-- Two bounds are read as numbers, and then they are compared. -/
theorem boundsFault?_both {lower upper : Text} (lowerNumber : IsNumber lower)
    (upperNumber : IsNumber upper) :
    boundsFault? lower (some upper) =
      (⟨valueIn 10 lower, some (valueIn 10 upper)⟩ : Bounds).fault? := by
  simp only [boundsFault?, lowerNumber.bound?_eq, upperNumber.bound?_eq, Bounds.fault?,
    Option.map_some, Option.mem_def, Option.some.injEq, exists_eq_left']
  -- Each of the bounds is too large or not.
  by_cases least : valueIn 10 lower ≤ 65535
  · by_cases most : valueIn 10 upper ≤ 65535
    · simp [least, most, Nat.not_lt.mpr least, Nat.not_lt.mpr most]
    · simp [least, most, Nat.lt_of_not_le most]
  · simp [least, Nat.lt_of_not_le least]

/-- A number given once is both bounds, which are in order. -/
theorem Bounds.fault?_same (count : Nat) :
    (⟨count, some count⟩ : Bounds).fault? = (⟨count, none⟩ : Bounds).fault? := by
  simp [Bounds.fault?]

/-- A quantifier has the fault of the bounds that it spells: reading their digits as numbers of 32
bits, which fails for too many digits, finds the same fault as comparing the numbers. -/
theorem intervalFault?_eq {text : Text} {bounds : Bounds} {isLazy : Bool}
    (repeats : RepeatsAs text bounds isLazy) : intervalFault? text = bounds.fault? := by
  obtain ⟨body, repetition, rfl⟩ := repeats
  cases repetition with
  -- The bounds of the three marks are small.
  | optional => rfl
  | any => rfl
  | some => rfl
  | exact count number =>
    -- Without a comma the interval is judged by its only number.
    rw [Bounds.fault?_same, ← boundsFault?_open number]
    simpa [splitBounds_single number] using intervalFault?_braces _ (number.ne_of_mem '}' rfl)
  -- Behind the comma nothing is written.
  | atLeast lower number =>
    have inner : ∀ symbol ∈ lower ++ [','], (symbol != '}') = true := by
      intro symbol member
      rcases List.mem_append.mp member with digit | comma
      · exact number.ne_of_mem '}' rfl symbol digit
      · rw [List.mem_singleton.mp comma]
        rfl
    rw [← boundsFault?_open number]
    simpa [splitBounds_comma number []] using intervalFault?_braces _ inner
  -- Both numbers stand between the braces, with the comma between them.
  | between lower upper lowerNumber upperNumber =>
    have inner : ∀ symbol ∈ lower ++ ',' :: upper, (symbol != '}') = true := by
      intro symbol member
      rcases List.mem_append.mp member with digit | behind
      · exact lowerNumber.ne_of_mem '}' rfl symbol digit
      · rcases List.mem_cons.mp behind with rfl | digit
        · rfl
        · exact upperNumber.ne_of_mem '}' rfl symbol digit
    rw [← boundsFault?_both lowerNumber upperNumber]
    simpa [splitBounds_comma lowerNumber upper, upperNumber.1] using intervalFault?_braces _ inner

/-- There is nothing else that can be wrong with bounds. -/
theorem Bounds.fault?_cases (bounds : Bounds) : bounds.fault? = none ∨
    bounds.fault? = some .boundTooLarge ∨ bounds.fault? = some .reversedBounds := by
  -- The two tests follow one another.
  unfold Bounds.fault?
  split
  · exact .inr (.inl rfl)
  · split
    · exact .inr (.inr rfl)
    · exact .inl rfl

/-- Bounds are too large when one of them is above the limit. -/
theorem Bounds.fault?_eq_boundTooLarge {bounds : Bounds} :
    bounds.fault? = some .boundTooLarge ↔
      65535 < bounds.lower ∨ ∃ upper ∈ bounds.upper?, 65535 < upper := by
  -- The first test is about this fault and comes before the other one.
  unfold Bounds.fault?
  split
  · rename_i large
    exact iff_of_true rfl large
  · rename_i small
    split <;> exact iff_of_false (by simp) small

/-- Bounds are in the wrong order when none is too large and the lower one is above the upper one. -/
theorem Bounds.fault?_eq_reversedBounds {bounds : Bounds} :
    bounds.fault? = some .reversedBounds ↔
      bounds.lower ≤ 65535 ∧
        ∃ upper ∈ bounds.upper?, upper ≤ 65535 ∧ upper < bounds.lower := by
  unfold Bounds.fault?
  split
  · rename_i large
    -- The second test is not reached.
    refine iff_of_false (by simp) ?_
    rintro ⟨lowerSmall, upper, given, small, reversed⟩
    -- The one upper bound there is would be too large.
    rcases large with above | ⟨other, same, above⟩
    · omega
    · obtain rfl := Option.mem_unique given same
      omega
  · rename_i small
    obtain ⟨lowerSmall, upperSmall⟩ := not_or.mp small
    split
    · -- The second test is passed, so that both bounds are small.
      rename_i reversed
      obtain ⟨upper, given, below⟩ := reversed
      refine iff_of_true rfl ⟨Nat.le_of_not_lt lowerSmall, upper, given, ?_, below⟩
      exact Nat.le_of_not_lt fun above => upperSmall ⟨upper, given, above⟩
    · -- The second test fails, and it is the only one left.
      rename_i ordered
      refine iff_of_false (by simp) ?_
      rintro ⟨-, upper, given, -, below⟩
      exact ordered ⟨upper, given, below⟩

/-- Bounds without a fault are those that are accepted. -/
theorem Bounds.fault?_eq_none {bounds : Bounds} : bounds.fault? = none ↔ bounds.Acceptable := by
  unfold Bounds.fault? Bounds.Acceptable
  -- With one bound there is one test, and with two of them there are two.
  cases bounds.upper? with
  | none => simp
  | some upper =>
    simp only [Option.mem_def, Option.some.injEq, exists_eq_left', forall_eq']
    split
    · simp
      omega
    · split
      · simp
        omega
      · simp
        omega

/-- A quantifier has no fault exactly when the bounds that it spells are accepted. -/
theorem intervalFault?_eq_none {text : Text} {bounds : Bounds} {isLazy : Bool}
    (repeats : RepeatsAs text bounds isLazy) :
    intervalFault? text = none ↔ bounds.Acceptable := by
  rw [intervalFault?_eq repeats, Bounds.fault?_eq_none]

/-- The quantifiers that the scanner cuts are good when they have no fault. -/
theorem goodQuantifier_iff {text : Text} (form : TokenForm .quantifier text) :
    GoodQuantifier text ↔ intervalFault? text = none := by
  constructor
  · -- Its bounds are acceptable, so that they have no fault.
    rintro ⟨bounds, isLazy, repeats, acceptable⟩
    exact (intervalFault?_eq_none repeats).mpr acceptable
  · -- The quantifier spells some bounds, and these have no fault.
    intro clean
    obtain ⟨bounds, isLazy, repeats⟩ := repeatsAs_of_form form
    exact ⟨bounds, isLazy, repeats, (intervalFault?_eq_none repeats).mp clean⟩

end RegexLens
