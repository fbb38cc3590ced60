import RegexLens.Text

/-! The units that a pattern is made of. -/

namespace RegexLens

/-- The syntactic role of a stretch of a pattern. -/
inductive TokenKind
  /-- A bracketed set of characters, possibly without its closing bracket. -/
  | characterClass
  /-- An opening parenthesis with its group type, possibly malformed. -/
  | groupOpen
  /-- A closing parenthesis. -/
  | groupClose
  /-- A backslash and what it applies to, which is nothing at the end of a pattern. -/
  | escape
  /-- A repetition count, possibly marked lazy. -/
  | quantifier
  /-- A test for the start or the end of the text. -/
  | anchor
  /-- The wildcard for one character. -/
  | dot
  /-- The mark between alternatives. -/
  | alternator
  /-- A run of ordinary characters, or a brace that opens no interval. -/
  | literal
deriving DecidableEq, Repr, Inhabited

/-- A stretch of a pattern that is one syntactic unit. -/
structure Token where
  /-- What the stretch is. -/
  kind : TokenKind
  /-- The byte offset at which the stretch starts in the pattern. -/
  start : Nat
  /-- The stretch itself. -/
  text : Text
deriving DecidableEq, Repr, Inhabited

end RegexLens
