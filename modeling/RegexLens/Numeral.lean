import RegexLens.Text

/-! Digits and the numbers they spell, in the bases that patterns use. -/

namespace RegexLens

/-- The digits that an octal code is made of. -/
def isOctalDigit (symbol : Char) : Bool :=
  '0' ≤ symbol && symbol ≤ '7'

/-- The digits that a hexadecimal code is made of, in either case. -/
def isHexDigit (symbol : Char) : Bool :=
  symbol.isDigit || ('a' ≤ symbol && symbol ≤ 'f') || ('A' ≤ symbol && symbol ≤ 'F')

/-- The number that one digit stands for, letters in either case counting on from ten. -/
def digitValue (symbol : Char) : Nat :=
  if symbol.isDigit then symbol.toNat - '0'.toNat
  else if 'a' ≤ symbol then symbol.toNat - 'a'.toNat + 10
  else symbol.toNat - 'A'.toNat + 10

/-- The number that a run of digits spells in a base, most significant digit first. -/
def valueIn (base : Nat) (digits : Text) : Nat :=
  digits.foldl (fun total symbol => total * base + digitValue symbol) 0

/-- What the numbers of 32 bits stay below. -/
def limit32 : Nat := 0x100000000

/-- What the numbers of 64 bits stay below. -/
def limit64 : Nat := 0x10000000000000000

/-- The value of a character as a digit of a base, letters in either case counting on from ten. -/
def digitIn? (base : Nat) (symbol : Char) : Option Nat :=
  let value :=
    if symbol.isDigit then symbol.toNat - '0'.toNat
    else if symbol.isAlpha then symbol.toLower.toNat - 'a'.toNat + 10
    else base
  if value < base then some value else none

/-- Goes on reading a number, unless a digit is bad or the number reaches a limit. -/
def parseFrom? (base limit total : Nat) : Text → Option Nat
  | [] => some total
  | symbol :: rest =>
    match digitIn? base symbol with
    | none => none
    | some value =>
      -- The limit is the first number that does not fit, so that reading fails there.
      let next := total * base + value
      if next < limit then parseFrom? base limit next rest else none

/-- Reads a text as a number below a limit, which fails unless all of the text spells one. -/
def parse? (base limit : Nat) (text : Text) : Option Nat :=
  -- A plus sign may stand in front of the digits.
  let digits :=
    match text with
    | '+' :: rest => rest
    | _ => text
  if digits = [] then none else parseFrom? base limit 0 digits

/-- The decimal digits of a number, without leading zeros. -/
def decimalDigits (number : Nat) : Text :=
  Nat.toDigits 10 number

/-- The hexadecimal digits of a number, in upper case and without leading zeros. -/
def hexDigits (number : Nat) : Text :=
  (Nat.toDigits 16 number).map Char.toUpper

/-- The decimal digits at the front of a text. -/
def digitRun (text : Text) : Text :=
  text.takeWhile Char.isDigit

/-- The length of the longest octal code at the front of a text, which is at most 377. -/
def octalLength : Text → Nat
  | [] => 0
  | first :: rest =>
    -- A leading 4 to 7 leaves room for one more digit, because three would pass one byte.
    let run (limit : Nat) := 1 + ((rest.take limit).takeWhile isOctalDigit).length
    if '0' ≤ first && first ≤ '3' then run 2
    else if '4' ≤ first && first ≤ '7' then run 1
    else 0

/-- Whether a text starts with the given number of hexadecimal digits. -/
def startsWithHex (count : Nat) (text : Text) : Bool :=
  (text.take count).length == count && (text.take count).all isHexDigit

end RegexLens
