import RegexLens.Numeral

/-! What can be wrong in a pattern, and how it is reported. -/

namespace RegexLens

/-- The level on which a construct is faulty. -/
inductive FaultKind
  /-- A token that is malformed on its own. -/
  | lexical
  /-- A well-formed token in a place where it is not allowed. -/
  | structural
  /-- Bounds that are out of order or too large. -/
  | range
deriving DecidableEq, Repr

/-- The ways in which a construct of a pattern can be faulty. -/
inductive Fault
  /-- A character class without its closing bracket. -/
  | unterminatedClass
  /-- An escape that lacks the digits or the letter it needs. -/
  | incompleteEscape
  /-- A backslash with nothing to apply to. -/
  | danglingBackslash
  /-- An opening parenthesis with an unknown group type. -/
  | invalidGroupType
  /-- A closing parenthesis that closes no group. -/
  | unmatchedParenthesis
  /-- An opening parenthesis that is never closed. -/
  | unterminatedGroup
  /-- A quantifier behind something that cannot be repeated. -/
  | misplacedQuantifier
  /-- An alternator that leaves an empty alternative. -/
  | emptyAlternative
  /-- A range whose first endpoint comes after its second. -/
  | reversedRange
  /-- A range with a shorthand class as an endpoint. -/
  | metaclassEndpoint
  /-- An interval bound above the largest one accepted. -/
  | boundTooLarge
  /-- An interval whose lower bound exceeds its upper bound. -/
  | reversedBounds
deriving DecidableEq, Repr

namespace Fault

/-- The level on which a fault lies. -/
def kind : Fault → FaultKind
  | .unterminatedClass | .incompleteEscape | .danglingBackslash | .invalidGroupType => .lexical
  | .unmatchedParenthesis | .unterminatedGroup | .misplacedQuantifier | .emptyAlternative =>
    .structural
  | .reversedRange | .metaclassEndpoint | .boundTooLarge | .reversedBounds => .range

/-- The wording of a fault. -/
def reason : Fault → Text
  | .unterminatedClass => "unterminated character class".toList
  | .incompleteEscape => "incomplete escape sequence".toList
  | .danglingBackslash => "dangling backslash".toList
  | .invalidGroupType => "invalid group type".toList
  | .unmatchedParenthesis => "unmatched closing parenthesis".toList
  | .unterminatedGroup => "unterminated group".toList
  | .misplacedQuantifier => "quantifier follows nothing quantifiable".toList
  | .emptyAlternative => "empty alternative truncates the pattern".toList
  | .reversedRange => "character range out of order".toList
  | .metaclassEndpoint => "metaclass used as a range endpoint".toList
  | .boundTooLarge => "interval bound above 65535".toList
  | .reversedBounds => "interval bounds out of order".toList

end Fault

/-- A fault found at a place of a pattern. -/
structure Diagnostic where
  /-- What is wrong. -/
  fault : Fault
  /-- The byte offset of the faulty text. -/
  offset : Nat
  /-- The faulty text. -/
  text : Text
deriving DecidableEq, Repr

namespace Diagnostic

/-- The diagnostic in one line: what is wrong, with which text, and where. -/
def message (diagnostic : Diagnostic) : Text :=
  diagnostic.fault.reason ++ ": `".toList ++ diagnostic.text ++ "` at offset ".toList ++
    decimalDigits diagnostic.offset

end Diagnostic

end RegexLens
