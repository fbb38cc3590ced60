import RegexLens.Host.Automaton

/-! How an expression is matched by backtracking, with an automaton wherever that is enough. -/

namespace RegexLens

/-- An expression prepared for matching. -/
inductive Plan
  /-- Matches the empty text. -/
  | done
  /-- Matches one given character. -/
  | char (symbol : Char)
  /-- Matches one character of a set. -/
  | set (members : CharSet)
  /-- Matches at the start of the text. -/
  | textStart
  /-- Matches at the end of the text. -/
  | textEnd
  /-- Matches one plan and then another. -/
  | both (first second : Plan)
  /-- Matches one plan or else another. -/
  | either (first second : Plan)
  /-- Matches a plan and remembers where. -/
  | capture (group : Nat) (body : Plan)
  /-- Matches what a group has captured. -/
  | reference (group : Nat)
  /-- Matches where a plan does, or does not, without moving. -/
  | look (side : Side) (wanted : Bool) (body : Plan)
  /-- Matches rounds of a plan, guarded if rounds without characters could go on for ever. -/
  | rounds (label : Nat) (bounds : Bounds) (isLazy isGuarded : Bool) (body : Plan)
  /-- Matches a plan in its first way only. -/
  | once (body : Plan)
  /-- Matches what an automaton finds, in that way only. -/
  | pass (automaton : Automaton)
deriving Repr

namespace Expression

/-- The plan of an expression, with labels from the given one on, and the next free label. -/
def planFrom (expression : Expression) (referenced : List Nat) (isLast : Bool) (label : Nat) :
    Plan × Nat :=
  -- Where nothing has to match behind it, what an automaton finds need not be reconsidered.
  if isLast && !expression.needsBacktracking referenced then
    (.pass (.ofExpression expression), label)
  else
    match expression with
    | empty => (.done, label)
    | char symbol => (.char symbol, label)
    | set members => (.set members, label)
    | textStart => (.textStart, label)
    | textEnd => (.textEnd, label)
    | reference group => (.reference group, label)
    -- Behind the first part there is always something left to match.
    | sequence first rest =>
      let (before, label) := first.planFrom referenced false label
      let (after, label) := rest.planFrom referenced isLast label
      (.both before after, label)
    | choice first rest =>
      let (preferred, label) := first.planFrom referenced isLast label
      let (fallback, label) := rest.planFrom referenced isLast label
      (.either preferred fallback, label)
    | capture group body =>
      let (inner, label) := body.planFrom referenced isLast label
      (.capture group inner, label)
    | repeated bounds isLazy body =>
      -- Behind a round there can be another one, unless there is at most one round.
      let (inner, next) := body.planFrom referenced (isLast && bounds = ⟨0, some 1⟩) (label + 1)
      let isGuarded := bounds.upper? = none && body.minWidth = 0
      (.rounds label bounds isLazy isGuarded inner, next)
    -- A look-around is matched on its own, and nothing follows it there.
    | look side wanted body =>
      let (inner, label) := body.planFrom referenced true label
      (.look side wanted inner, label)
    | once body =>
      let (inner, label) := body.planFrom referenced true label
      (.once inner, label)

/-- The plan for finding an expression. -/
def plan (expression : Expression) : Plan :=
  (expression.planFrom expression.references true 0).1

end Expression

end RegexLens
