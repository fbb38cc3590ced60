import RegexLens.Markup.Basic

/-! Markup written with tags, safe because its texts can hold none of the characters of a tag. -/

namespace RegexLens

/-- A character as it appears in markup text, where a placeholder replaces what could be a tag. -/
def escapeChar (symbol : Char) : Char :=
  if symbol = '<' || symbol = '&' || symbol = '>' then '_' else symbol

/-- A text as it appears in markup text, with every position kept. -/
def escape (content : Text) : Text :=
  content.map escapeChar

namespace Markup

/-- The markup as text with tags. -/
def html : Markup → Text
  | nil => []
  | text content rest => escape content ++ rest.html
  | span style inner rest => style.tag.opening ++ inner.html ++ style.tag.closing ++ rest.html

end Markup

end RegexLens
