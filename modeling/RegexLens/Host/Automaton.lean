import Std.Data.HashSet
import RegexLens.Host.Cursor
import RegexLens.Host.Expression

/-!
Expressions without memory as automata, which are searched in a single pass.

No state is entered twice at one position of the text, so a search never takes long. A repetition
needs no rule for rounds that match nothing either: such a round leads to a state that has been
entered before.
-/

namespace RegexLens

/-- A state of an automaton, with the states that can follow it. -/
inductive State
  /-- Takes one given character. -/
  | char (symbol : Char) (next : Nat)
  /-- Takes one character of a set. -/
  | set (members : CharSet) (next : Nat)
  /-- Goes on at the start of the text. -/
  | textStart (next : Nat)
  /-- Goes on at the end of the text. -/
  | textEnd (next : Nat)
  /-- Goes on in one of two ways, the first of which is preferred. -/
  | fork (preferred fallback : Nat)
  /-- Ends a match. -/
  | accept
  /-- Leads nowhere. -/
  | dead
deriving DecidableEq, Repr

namespace State

/-- The choice between going round again and leaving, a lazy repetition preferring to leave. -/
def round (isLazy : Bool) (again leave : Nat) : State :=
  if isLazy then fork leave again else fork again leave

end State

/-- The states of an automaton that is being built, each known by its position. -/
abbrev States := Array State

namespace States

/-- Adds a state and gives its position. -/
def add (states : States) (state : State) : States × Nat :=
  let position := states.size
  (states.push state, position)

/-- Adds a number of copies one after another, the last of which leads to the given state. -/
def addCopies (copy : Nat → States → States × Nat) (count next : Nat) (states : States) :
    States × Nat :=
  match count with
  | 0 => (states, next)
  | count + 1 =>
    let (states, entry) := copy next states
    addCopies copy count entry states

/-- Adds a number of copies, each of which can be left out together with those behind it. -/
def addOptionalCopies (copy : Nat → States → States × Nat) (isLazy : Bool)
    (leave count next : Nat) (states : States) : States × Nat :=
  match count with
  | 0 => (states, next)
  -- The copy behind this one is entered by its own fork, so that all of them can be left.
  | count + 1 =>
    let (states, again) := copy next states
    let (states, entry) := states.add (.round isLazy again leave)
    addOptionalCopies copy isLazy leave count entry states

/-- Adds a copy that can be repeated; gives its start and the state in which a round ends. -/
def addLoop (copy : Nat → States → States × Nat) (isLazy : Bool) (leave : Nat)
    (states : States) : States × Nat × Nat :=
  -- The place of the choice is taken before the copy that leads to it, and filled afterwards.
  let (states, ended) := states.add .dead
  let (states, again) := copy ended states
  (states.setIfInBounds ended (.round isLazy again leave), again, ended)

end States

namespace Expression

/-- Adds the states of an expression that lead to a given state, and gives the first of them. -/
def assemble (expression : Expression) (next : Nat) (states : States) : States × Nat :=
  match expression with
  | empty => (states, next)
  | char symbol => states.add (.char symbol next)
  | set members => states.add (.set members next)
  | textStart => states.add (.textStart next)
  | textEnd => states.add (.textEnd next)
  -- States are added from the end, because each of them has to know the next one.
  | sequence first rest =>
    let (states, middle) := rest.assemble next states
    first.assemble middle states
  | choice first rest =>
    let (states, fallback) := rest.assemble next states
    let (states, preferred) := first.assemble next states
    states.add (.fork preferred fallback)
  | capture _ body => body.assemble next states
  | repeated bounds isLazy body =>
    let copy := fun next states => body.assemble next states
    -- So many copies are needed, and those up to the upper bound can be left out.
    match bounds.upper?, bounds.lower with
    | some upper, lower =>
      let (states, entry) := states.addOptionalCopies copy isLazy next (upper - lower) next
      states.addCopies copy lower entry
    | none, 0 =>
      let (states, again, ended) := states.addLoop copy isLazy next
      -- A round that can be empty must not end in the state in which the first one begins.
      if body.minWidth = 0 then states.add (.round isLazy again next) else (states, ended)
    -- The last of the needed copies is the loop itself.
    | none, lower + 1 =>
      let (states, again, _) := states.addLoop copy isLazy next
      states.addCopies copy lower again
  | reference _ | look _ _ _ | once _ =>
    -- Nothing that looks around or back is ever part of an automaton.
    states.add .dead

end Expression

/-- An automaton for an expression without memory. -/
structure Automaton where
  /-- The states. -/
  states : States
  /-- The state in which a match begins. -/
  start : Nat
deriving Repr

/-- The states that have been entered, each at a position of the text. -/
abbrev Entered := Std.HashSet (Nat × Nat)

namespace Automaton

/-- The automaton of an expression. -/
def ofExpression (expression : Expression) : Automaton :=
  let (states, start) := expression.assemble 0 #[.accept]
  ⟨states, start⟩

/-- The ways to go on from a state at a position, the preferred one first. -/
def next (automaton : Automaton) (state : Nat) (cursor : Cursor) : List (Nat × Cursor) :=
  match automaton.states[state]? with
  | some (.char symbol next) =>
    match cursor.next? with
    | some (other, after) => if other = symbol then [(next, after)] else []
    | none => []
  | some (.set members next) =>
    match cursor.next? with
    | some (other, after) => if members.contains other then [(next, after)] else []
    | none => []
  | some (.textStart next) => if cursor.before = [] then [(next, cursor)] else []
  | some (.textEnd next) => if cursor.after = [] then [(next, cursor)] else []
  | some (.fork preferred fallback) => [(preferred, cursor), (fallback, cursor)]
  | _ => []

/-- Follows the ways that have been put off, latest first, to the first match within some steps. -/
def search (automaton : Automaton) (entered : Entered) (ways : List (Nat × Cursor)) :
    Nat → Option Cursor × Entered
  | 0 => (none, entered)
  | steps + 1 =>
    match ways with
    | [] => (none, entered)
    | (state, cursor) :: ways =>
      if automaton.states[state]? = some .accept then (some cursor, entered)
      else
        -- A state is entered once at each position, by the way that is preferred.
        let (known, entered) := entered.containsThenInsert (state, cursor.offset)
        if known then automaton.search entered ways steps
        else automaton.search entered (automaton.next state cursor ++ ways) steps

/-- A number of steps that is enough, because each state adds two ways at each position at most. -/
def steps (automaton : Automaton) (cursor : Cursor) : Nat :=
  2 * automaton.states.size * (cursor.before.length + cursor.after.length + 1) + 2

/-- Finds the end of the match that starts at a position, if there is one. -/
def match? (automaton : Automaton) (cursor : Cursor) : Option Cursor :=
  (automaton.search ∅ [(automaton.start, cursor)] (automaton.steps cursor)).1

end Automaton

end RegexLens
