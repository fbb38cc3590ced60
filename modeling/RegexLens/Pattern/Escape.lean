import RegexLens.Numeral

/-! What an escape denotes: a character code, a shorthand class, or a group matched before. -/

namespace RegexLens

/-- The sequences that stand for a class of characters rather than for one. -/
def isMetaclass (sequence : Text) : Bool :=
  [['d'], ['D'], ['s'], ['S'], ['w'], ['W']].contains sequence

/-- The sequences that lack the digits or the letter they need. -/
def isIncomplete (sequence : Text) : Bool :=
  [['c'], ['u'], ['x']].contains sequence

/-- Whether a sequence is a number, which does not start with zero. -/
def startsNumbered : Text → Bool
  | [] => false
  | first :: _ => first.isDigit && first != '0'

/-- The code of the character that a sequence behind a backslash denotes, if it denotes one. -/
def sequenceCode? (sequence : Text) : Option Nat :=
  match sequence with
  | [] => none
  | first :: rest =>
    match first, rest with
    -- The control characters are numbered like the letters of the alphabet.
    | 'c', [letter] =>
      if letter.isAlpha then some (letter.toUpper.toNat - 'A'.toNat + 1) else none
    | 'x', _ :: _ | 'u', _ :: _ => parse? 16 limit32 rest
    | _, _ =>
      -- An octal code is told by its first digit.
      if isOctalDigit first then parse? 8 limit32 sequence
      else if ['c', 'u', 'x', 'd', 'D', 's', 'S', 'w', 'W'].contains first then none
      else
        match first with
        | 'b' => some 0x08
        | 'f' => some 0x0C
        | 'n' => some 0x0A
        | 'r' => some 0x0D
        | 't' => some 0x09
        | 'v' => some 0x0B
        -- Anything else denotes itself.
        | _ => some first.toNat

/-- The number of the group that digits name, which is the largest of 64 bits when they outgrow it. -/
def groupNumber (digits : Text) : Nat :=
  (parse? 10 limit64 digits).getD (limit64 - 1)

/-- A number of groups, of which a pattern in memory has fewer than the largest number of 64 bits. -/
def groupsInMemory (groups : Nat) : Nat :=
  min groups (limit64 - 2)

/-- The length of the longest front part, within a bound, that names one of the groups. -/
def referenceLength (groups : Nat) (digits : Text) : Nat → Nat
  | 0 => 0
  | bound + 1 =>
    if groupNumber (digits.take (bound + 1)) ≤ groupsInMemory groups then bound + 1
    else referenceLength groups digits bound

end RegexLens
