import RegexLens.Host.CharSet

/-! Expressions of the host engine as trees, and the measures that decide how they can be used. -/

namespace RegexLens

/-- How often an expression is repeated; without an upper bound there is no limit. -/
structure Bounds where
  /-- The least number of rounds. -/
  lower : Nat
  /-- The greatest number of rounds, if there is one. -/
  upper? : Option Nat
deriving DecidableEq, Repr

/-- The side of a position on which a look-around reads. -/
inductive Side
  /-- The text behind the position is read forward from it. -/
  | ahead
  /-- The given number of characters in front of the position is read. -/
  | behind (width : Nat)
deriving DecidableEq, Repr

/-- What the host engine matches. -/
inductive Expression
  /-- The empty text, which also ends a sequence. -/
  | empty
  /-- One given character. -/
  | char (symbol : Char)
  /-- One character of a set. -/
  | set (members : CharSet)
  /-- The start of the text. -/
  | textStart
  /-- The end of the text. -/
  | textEnd
  /-- A piece and then the rest of a sequence. -/
  | sequence (first rest : Expression)
  /-- The first alternative, or else the other ones. -/
  | choice (first rest : Expression)
  /-- A capturing group. -/
  | capture (group : Nat) (body : Expression)
  /-- The text that a group captured. -/
  | reference (group : Nat)
  /-- A test that the body matches here, or that it does not. -/
  | look (side : Side) (wanted : Bool) (body : Expression)
  /-- A repetition, which takes as many rounds as possible unless it is lazy. -/
  | repeated (bounds : Bounds) (isLazy : Bool) (body : Expression)
  /-- The first way in which the body matches, and no other. -/
  | once (body : Expression)
deriving DecidableEq, Repr

namespace Expression

/-- Whether a quantifier may apply: to anything but nothing and look-arounds. -/
def isRepeatable : Expression → Bool
  | empty => false
  | look _ _ _ => false
  | _ => true

/-- The number of characters of every match, if all matches have the same. -/
def width? : Expression → Option Nat
  | empty => some 0
  | char _ => some 1
  | set _ => some 1
  | textStart => some 0
  | textEnd => some 0
  | sequence first rest => do return (← first.width?) + (← rest.width?)
  | choice first rest => do
    let width ← first.width?
    if (← rest.width?) = width then some width else none
  | capture _ body => body.width?
  -- What a group has matched is known only while matching.
  | reference _ => none
  | look _ _ _ => some 0
  | repeated bounds _ body => do
    -- A repetition has a width of its own only when the number of rounds is fixed.
    if bounds.upper? = some bounds.lower then return (← body.width?) * bounds.lower else none
  | once body => body.width?

/-- The least number of characters of a match; what depends on the text counts as none. -/
def minWidth : Expression → Nat
  -- A reference can stand for nothing.
  | empty | textStart | textEnd | reference _ | look _ _ _ => 0
  | char _ | set _ => 1
  | sequence first rest => first.minWidth + rest.minWidth
  | choice first rest => min first.minWidth rest.minWidth
  | capture _ body => body.minWidth
  | repeated bounds _ body => body.minWidth * bounds.lower
  | once body => body.minWidth

/-- Whether the expression can only be matched by backtracking. -/
def needsBacktracking (expression : Expression) (referenced : List Nat) : Bool :=
  match expression with
  | empty | char _ | set _ | textStart | textEnd => false
  | sequence first rest => first.needsBacktracking referenced || rest.needsBacktracking referenced
  | choice first rest => first.needsBacktracking referenced || rest.needsBacktracking referenced
  -- A group has to be remembered only when something refers to it.
  | capture group body => referenced.contains group || body.needsBacktracking referenced
  | reference _ => true
  | look _ _ _ => true
  | repeated _ _ body => body.needsBacktracking referenced
  | once _ => true

/-- The groups that the expression refers to. -/
def references : Expression → List Nat
  | empty | char _ | set _ | textStart | textEnd => []
  | sequence first rest => first.references ++ rest.references
  | choice first rest => first.references ++ rest.references
  | capture _ body => body.references
  | reference group => [group]
  | look _ _ body => body.references
  | repeated _ _ body => body.references
  | once body => body.references

end Expression

end RegexLens
