import RegexLens.Numeral

/-! The fixed vocabulary of styles, and the tag and the terminal code that stand for each. -/

namespace RegexLens

/-- What a stretch of text is, which decides how a rendering shows it. -/
inductive Style
  /-- A construct that is malformed or out of place. -/
  | error
  /-- A group's parentheses and what belongs to them, by nesting level. -/
  | group (level : Nat)
  /-- Escapes, anchors, dots, quantifiers and top-level alternators. -/
  | special
  /-- A shorthand such as a digit class inside a character class. -/
  | metaclass
  /-- A whole character class. -/
  | characterClass
  /-- A hyphen that forms a range. -/
  | range
  /-- A match. -/
  | matched
  /-- Every second match, so that adjacent matches stay apart. -/
  | matchedAlt
deriving DecidableEq, Repr, Inhabited

/-- A markup tag: the letter of its element and its class label, empty when it has none. -/
structure Tag where
  /-- The letter that names the element. -/
  element : Char
  /-- The value of the class attribute. -/
  label : Text
deriving DecidableEq, Repr

namespace Tag

/-- The text that opens a tag. -/
def opening (tag : Tag) : Text :=
  -- A tag without a label has no attribute at all.
  let labelling := if tag.label = [] then [] else " class=\"".toList ++ tag.label ++ ['"']
  '<' :: tag.element :: labelling ++ ['>']

/-- The text that closes a tag. -/
def closing (tag : Tag) : Text :=
  ['<', '/', tag.element, '>']

end Tag

namespace Style

/-- The tag that shows a style in markup text. -/
def tag : Style → Tag
  | .error => ⟨'b', "err".toList⟩
  | .group level => ⟨'b', 'g' :: decimalDigits level⟩
  | .special => ⟨'b', []⟩
  | .metaclass => ⟨'b', "mc".toList⟩
  | .characterClass => ⟨'i', []⟩
  | .range => ⟨'u', []⟩
  | .matched => ⟨'b', []⟩
  | .matchedAlt => ⟨'i', []⟩

/-- The parameters of the terminal code that starts a style, groups past four sharing a colour. -/
def colour : Style → Text
  | .error => "01;37;41".toList
  | .group 1 => "01;34".toList
  | .group 2 => "01;32".toList
  | .group 3 => "01;35".toList
  | .group 4 => "01;33".toList
  | .group _ => "01;36".toList
  | .special => "01".toList
  | .metaclass => "36".toList
  | .characterClass => "32".toList
  | .range => "04;32".toList
  | .matched => "01;31".toList
  | .matchedAlt => "01;35".toList

/-- The terminal code that starts a style. -/
def startCode (style : Style) : Text :=
  '\x1b' :: '[' :: style.colour ++ ['m']

end Style

/-- The terminal code that ends every style at once. -/
def resetCode : Text :=
  ['\x1b', '[', 'm']

end RegexLens
