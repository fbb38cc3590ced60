import RegexLens.Host.Backtracking
import RegexLens.Host.Form
import RegexLens.Host.Reader

/-! Finding all matches of a pattern in a text. -/

namespace RegexLens

/-- A stretch of a text, given by the byte offsets of its ends. -/
structure Span where
  /-- The offset at which the stretch starts. -/
  start : Nat
  /-- The offset behind its last byte. -/
  stop : Nat
deriving DecidableEq, Repr

/-- How the search for one match ends. -/
inductive SearchResult
  /-- A match was found, which starts at an offset and ends at a position. -/
  | found (start : Nat) (stop : Cursor)
  /-- There is no match. -/
  | missing
  /-- The limits did not suffice to tell. -/
  | gaveUp

namespace Automaton

/-- Finds the first match that starts in front of a text or inside it. -/
def findIn (automaton : Automaton) (entered : Entered) (steps : Nat) (before : Text) (offset : Nat)
    (after : Text) : SearchResult :=
  -- A state from which an earlier start has failed leads to no match from a later one either.
  match automaton.search entered [(automaton.start, ⟨before, after, offset⟩)] steps with
  | (some stop, _) => .found offset stop
  | (none, entered) =>
    match after with
    | [] => .missing
    | symbol :: rest =>
      automaton.findIn entered steps (symbol :: before) (offset + symbol.utf8Size) rest

end Automaton

namespace Plan

/-- Finds the first match that starts in front of a text or inside it. -/
def findIn (plan : Plan) (failures steps : Nat) (before : Text) (offset : Nat) (after : Text) :
    SearchResult :=
  match plan.match? ⟨before, after, offset⟩ failures steps, after with
  | .matched stop, _ => .found offset stop
  | .gaveUp, _ => .gaveUp
  | .missing _, [] => .missing
  -- Going on to the next character counts as a failure, too.
  | .missing 0, _ :: _ => .gaveUp
  | .missing (failures + 1), symbol :: rest =>
    plan.findIn failures steps (symbol :: before) (offset + symbol.utf8Size) rest

end Plan

/-- An expression ready to be searched for. -/
inductive Matcher
  /-- A single pass is enough, so the search never gives up. -/
  | pass (automaton : Automaton)
  /-- Earlier choices may have to be reconsidered. -/
  | backtracking (plan : Plan)

namespace Matcher

/-- The number of failures after which a search by backtracking gives up. -/
def failureLimit : Nat := 1000000

/-- The number of steps after which a search by backtracking gives up at one position. -/
def stepLimit : Nat := 1000000000

/-- The matcher of an expression. -/
def ofExpression (expression : Expression) : Matcher :=
  if expression.needsBacktracking expression.references then .backtracking expression.plan
  else .pass (.ofExpression expression)

/-- The matcher of a pattern, unless the host rejects its spelling. -/
def ofPattern (pattern : Text) : Except Rejection Matcher :=
  (Expression.ofText .host (hostForm pattern)).map ofExpression

/-- Finds the first match that starts at a position or behind it. -/
def find (matcher : Matcher) (cursor : Cursor) : SearchResult :=
  match matcher with
  | pass automaton =>
    automaton.findIn ∅ (automaton.steps cursor) cursor.before cursor.offset cursor.after
  | backtracking plan =>
    plan.findIn failureLimit stepLimit cursor.before cursor.offset cursor.after

/-- Finds matches one after another, none of them empty right behind the one before it. -/
def findFrom (matcher : Matcher) (cursor : Cursor) (previous? : Option Nat) :
    Nat → Option (List Span)
  | 0 => some []
  | searches + 1 =>
    match matcher.find cursor with
    | .gaveUp => none
    | .missing => some []
    | .found start stop =>
      if start < stop.offset then
        (matcher.findFrom stop (some stop.offset) searches).map (⟨start, stop.offset⟩ :: ·)
      else
        let here := if previous? = some start then [] else [⟨start, start⟩]
        -- The search goes on one character later, because it would find the same match again.
        match stop.next? with
        | none => some here
        | some (_, next) => (matcher.findFrom next (some start) searches).map (here ++ ·)

/-- All matches in a text, unless the search gives up. -/
def findAll (matcher : Matcher) (text : Text) : Option (List Span) :=
  -- Each search starts further on than the one before it.
  matcher.findFrom (.start text) none (text.length + 1)

end Matcher

end RegexLens
