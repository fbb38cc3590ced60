import RegexLens.Markup.Html

/-! Markup written for a terminal, which has one reset for all styles. -/

namespace RegexLens.Markup

/-- The coloured form of markup that stands inside the given spans, outermost first. -/
def ansiWithin (markup : Markup) (enclosing : List Style) : Text :=
  match markup with
  | nil => []
  | text content rest => content ++ rest.ansiWithin enclosing
  | span style inner rest =>
    -- The reset that ends a span ends the enclosing styles too, which are therefore started again.
    style.startCode ++ inner.ansiWithin (enclosing ++ [style]) ++
      resetCode ++ enclosing.flatMap Style.startCode ++ rest.ansiWithin enclosing

/-- The coloured form of markup, whose texts a terminal shows as they are. -/
def ansi (markup : Markup) : Text :=
  markup.ansiWithin []

/-- The written form of markup, coloured for a terminal or with tags. -/
def render (markup : Markup) (coloured : Bool) : Text :=
  if coloured then markup.ansi else markup.html

end RegexLens.Markup
