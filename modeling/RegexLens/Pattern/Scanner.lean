import RegexLens.Numeral
import RegexLens.Pattern.Token

/-! Cutting a pattern into tokens, each as long as its first character allows. -/

namespace RegexLens

/-- The length of a class body up to its closing bracket, or to the end when there is none. -/
def classBodyLength : Text → Nat
  | [] => 0
  | ']' :: _ => 0
  | '\\' :: _ :: rest => classBodyLength rest + 2
  | _ :: rest => classBodyLength rest + 1

/-- The length of the contents of a class, in which a bracket right at the front is ordinary. -/
def classContentsLength : Text → Nat
  | ']' :: rest => classBodyLength rest + 1
  | body => classBodyLength body

/-- A class cut into its opening, its contents, its closing bracket if any, and what follows. -/
structure ClassParts where
  /-- The opening bracket, with the mark for a complement. -/
  opening : Text
  /-- What stands between the brackets. -/
  contents : Text
  /-- The closing bracket, or nothing when the class is unterminated. -/
  closing : Text
  /-- The text after the class. -/
  after : Text
deriving DecidableEq, Repr

namespace ClassParts

/-- Cuts a text that starts with a class. -/
def split (text : Text) : ClassParts :=
  -- A complement mark belongs to the opening only directly behind the bracket.
  let openingLength := if text.take 2 = ['[', '^'] then 2 else 1
  let body := text.drop openingLength
  let length := classContentsLength body
  let rest := body.drop length
  ⟨text.take openingLength, body.take length, rest.take 1, rest.drop 1⟩

/-- Whether the class has its closing bracket. -/
def isClosed (parts : ClassParts) : Bool :=
  parts.closing != []

/-- The class as it stands in the pattern. -/
def text (parts : ClassParts) : Text :=
  parts.opening ++ parts.contents ++ parts.closing

end ClassParts

/-- The length of what a backslash applies to when no digit follows it. -/
def sequenceLength : Text → Nat
  | [] => 0
  | 'x' :: rest => if startsWithHex 2 rest then 3 else 1
  | 'u' :: rest => if startsWithHex 4 rest then 5 else 1
  | 'c' :: letter :: _ => if letter.isAlpha then 2 else 1
  | _ :: _ => 1

/-- The length of what a backslash applies to in a pattern, outside character classes. -/
def escapeLength (tail : Text) : Nat :=
  match tail with
  | [] => 0
  | '0' :: rest => octalLength rest + 1
  | first :: _ => if first.isDigit then (digitRun tail).length else sequenceLength tail

/-- The length of the interval that a brace opens, counted without the brace. -/
def intervalLength? (tail : Text) : Option Nat :=
  -- The lower bound is required; the comma and the upper bound are not.
  let lower := digitRun tail
  match lower, tail.drop lower.length with
  | [], _ => none
  | _, '}' :: _ => some (lower.length + 1)
  | _, ',' :: rest =>
    let upper := digitRun rest
    match rest.drop upper.length with
    | '}' :: _ => some (lower.length + upper.length + 2)
    | _ => none
  | _, _ => none

/-- The length of a quantifier body with the mark that makes it lazy, if one follows. -/
def withLazyMark (length : Nat) (tail : Text) : Nat :=
  if (tail.drop length).head? = some '?' then length + 1 else length

/-- Whether a character stands for itself, so that it can continue a literal run. -/
def isOrdinary (symbol : Char) : Bool :=
  !(['.', '?', '*', '+', '^', '$', '{', '[', '(', ')', '|', '\\'].contains symbol)

/-- The length of the group type that follows an opening parenthesis. -/
def groupTypeLength : Text → Nat
  | '?' :: ':' :: _ => 2
  | '?' :: '=' :: _ => 2
  | '?' :: '!' :: _ => 2
  | '?' :: _ => 1
  | _ => 0

/-- The kind of the token that a character starts, and how much of what follows belongs to it. -/
def tokenShape (first : Char) (tail : Text) : TokenKind × Nat :=
  -- The first character alone decides the shape, except that a brace may open an interval or not.
  match first with
  | '[' =>
    let parts := ClassParts.split (first :: tail)
    (.characterClass, parts.text.length - 1)
  | '\\' => (.escape, escapeLength tail)
  | '(' => (.groupOpen, groupTypeLength tail)
  | '?' | '*' | '+' => (.quantifier, withLazyMark 0 tail)
  | '{' =>
    match intervalLength? tail with
    | some length => (.quantifier, withLazyMark length tail)
    | none => (.literal, 0)
  | '.' => (.dot, 0)
  | ')' => (.groupClose, 0)
  | '|' => (.alternator, 0)
  | '^' | '$' => (.anchor, 0)
  | _ => (.literal, (tail.takeWhile isOrdinary).length)

/-- A position in a pattern from which tokens are read. -/
structure Scanner where
  /-- The byte offset of the position. -/
  position : Nat
  /-- The pattern from the position on. -/
  rest : Text
deriving DecidableEq, Repr, Inhabited

namespace Scanner

/-- A scanner at the start of a pattern. -/
def start (pattern : Text) : Scanner :=
  ⟨0, pattern⟩

/-- The next token and the scanner behind it, or nothing at the end of the pattern. -/
def next? (scanner : Scanner) : Option (Token × Scanner) :=
  match scanner.rest with
  | [] => none
  | first :: tail =>
    -- At least one character is taken, so the scanner gets to the end.
    let (kind, length) := tokenShape first tail
    let text := first :: tail.take length
    some (⟨kind, scanner.position, text⟩,
      ⟨scanner.position + byteSize text, tail.drop length⟩)

/-- Reading a token leaves less of the pattern to read. -/
theorem next?_shorter {scanner after : Scanner} {token : Token}
    (read : scanner.next? = some (token, after)) : after.rest.length < scanner.rest.length := by
  -- A token holds its first character at least, and nothing is put back.
  unfold next? at read
  split at read
  · contradiction
  · rename_i first tail pending
    simp only [Option.some.injEq, Prod.mk.injEq] at read
    rw [← read.2, pending]
    simp only [List.length_drop, List.length_cons]
    omega

/-- All tokens from a scanner's position to the end. -/
def tokens (scanner : Scanner) : List Token :=
  match read : scanner.next? with
  | none => []
  | some (token, after) =>
    have := next?_shorter read
    token :: after.tokens
termination_by scanner.rest.length

end Scanner

/-- The tokens of a pattern, which cover it without gap or overlap. -/
def scan (pattern : Text) : List Token :=
  (Scanner.start pattern).tokens

end RegexLens
