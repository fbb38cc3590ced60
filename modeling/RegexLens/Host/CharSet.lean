import RegexLens.Numeral

/-! Sets of characters, as bracket classes describe them. -/

namespace RegexLens

/-- Whether a character is a word character: a letter, a digit or an underscore of ASCII. -/
def isWordChar (symbol : Char) : Bool :=
  symbol.isAlphanum || symbol = '_'

/-- The characters with the Unicode property White_Space, as ranges of codes. -/
def whiteSpaceRanges : List (Nat × Nat) :=
  [(0x09, 0x0D), (0x20, 0x20), (0x85, 0x85), (0xA0, 0xA0), (0x1680, 0x1680), (0x2000, 0x200A),
    (0x2028, 0x2029), (0x202F, 0x202F), (0x205F, 0x205F), (0x3000, 0x3000)]

/-- Whether a character is white space. -/
def isWhiteSpace (symbol : Char) : Bool :=
  whiteSpaceRanges.any fun (low, high) => low ≤ symbol.toNat && symbol.toNat ≤ high

/-- The named families of characters. -/
inductive CharFamily
  /-- The ASCII digits. -/
  | digit
  /-- The ASCII word characters. -/
  | word
  /-- The Unicode white space. -/
  | space
deriving DecidableEq, Repr

namespace CharFamily

/-- Whether a character belongs to a family. -/
def contains (family : CharFamily) (symbol : Char) : Bool :=
  match family with
  | digit => symbol.isDigit
  | word => isWordChar symbol
  | space => isWhiteSpace symbol

end CharFamily

/-- A member of a bracket class. -/
inductive SetItem
  /-- All characters from one to another, which are the same for a single character. -/
  | range (low high : Char)
  /-- A family, or all characters outside it. -/
  | family (named : CharFamily) (complement : Bool)
deriving DecidableEq, Repr

namespace SetItem

/-- Whether a character belongs to a member of a bracket class. -/
def contains (item : SetItem) (symbol : Char) : Bool :=
  match item with
  | range low high => low ≤ symbol && symbol ≤ high
  | family named complement => named.contains symbol != complement

end SetItem

/-- A bracket class: the union of its items, or all characters outside that union. -/
structure CharSet where
  /-- Whether the class is the complement of its items. -/
  complement : Bool
  /-- The items of the class. -/
  items : List SetItem
deriving DecidableEq, Repr

namespace CharSet

/-- Whether a character belongs to a class. -/
def contains (set : CharSet) (symbol : Char) : Bool :=
  (set.items.any fun item => item.contains symbol) != set.complement

end CharSet

end RegexLens
