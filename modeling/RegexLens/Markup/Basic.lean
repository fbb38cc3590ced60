import RegexLens.Markup.Style

/-! Styled text as a tree that grows only at its end. -/

namespace RegexLens

/-- A sequence of plain texts and styled spans, each given with what follows it. -/
inductive Markup
  /-- The end of a sequence. -/
  | nil
  /-- A plain text, kept as it was written. -/
  | text (content : Text) (rest : Markup)
  /-- A styled span around a sequence of its own. -/
  | span (style : Style) (inner : Markup) (rest : Markup)
deriving DecidableEq, Repr, Inhabited

namespace Markup

/-- The number of nodes on the outermost level. -/
def length : Markup → Nat
  | nil => 0
  | text _ rest => rest.length + 1
  | span _ _ rest => rest.length + 1

/-- Adds a span with any contents at the end. -/
def pushNested (markup : Markup) (style : Style) (inner : Markup) : Markup :=
  match markup with
  | nil => span style inner nil
  | text content rest => text content (rest.pushNested style inner)
  | span other within rest => span other within (rest.pushNested style inner)

/-- Adds a span that holds one text, which is kept even when it is empty. -/
def pushSpan (markup : Markup) (style : Style) (content : Text) : Markup :=
  markup.pushNested style (text content nil)

/-- Adds text at the end, extending a text that already stands there. -/
def extend (markup : Markup) (content : Text) : Markup :=
  match markup with
  | nil => text content nil
  | text last nil => text (last ++ content) nil
  | text other rest => text other (rest.extend content)
  | span style inner rest => span style inner (rest.extend content)

/-- Adds text at the end unless it is empty, so that no level gains an empty text. -/
def pushText (markup : Markup) (content : Text) : Markup :=
  if content = [] then markup else markup.extend content

/-- The markup of a text without any style. -/
def ofText (content : Text) : Markup :=
  nil.pushText content

/-- Changes the style of the outermost span at a position, and nothing when no span stands there. -/
def restyle (markup : Markup) (index : Nat) (style : Style) : Markup :=
  match markup, index with
  | nil, _ => nil
  | text content rest, 0 => text content rest
  | span _ inner rest, 0 => span style inner rest
  | text content rest, index + 1 => text content (rest.restyle index style)
  | span other inner rest, index + 1 => span other inner (rest.restyle index style)

/-- Whether any span, at any depth, has the style. -/
def hasStyle (markup : Markup) (style : Style) : Bool :=
  match markup with
  | nil => false
  | text _ rest => rest.hasStyle style
  | span own inner rest => own == style || inner.hasStyle style || rest.hasStyle style

/-- Whether anything is marked as an error. -/
def hasError (markup : Markup) : Bool :=
  markup.hasStyle .error

/-- The number of outermost spans that have one of the styles. -/
def countSpans (markup : Markup) (styles : List Style) : Nat :=
  match markup with
  | nil => 0
  | text _ rest => rest.countSpans styles
  | span own _ rest => rest.countSpans styles + if styles.contains own then 1 else 0

/-- The text with all styles dropped. -/
def plainText : Markup → Text
  | nil => []
  | text content rest => content ++ rest.plainText
  | span _ inner rest => inner.plainText ++ rest.plainText

end Markup

end RegexLens
