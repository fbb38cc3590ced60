import RegexLens.Host.Plan

/-! Matching a plan by backtracking: one way at a time, the preferred one first. -/

namespace RegexLens

/-- Something that a way of matching still has to do. -/
inductive Task
  /-- To match a plan. -/
  | run (plan : Plan)
  /-- To close a group. -/
  | close (group : Nat)
  /-- To go on after a round, given the number of rounds so far. -/
  | afterRound (label : Nat) (bounds : Bounds) (isLazy isGuarded : Bool) (body : Plan) (count : Nat)
  /-- To return to a position, because a look-around has matched. -/
  | return (cursor : Cursor)
  /-- To keep only so many of the ways that were put off, because the first one has matched. -/
  | commit (height : Nat)
  /-- To fail with only so many of the ways that were put off, because the unwanted has matched. -/
  | refuse (height : Nat)

/-- A way of matching that has not failed so far. -/
structure Thread where
  /-- What is still to be done, in order. -/
  agenda : List Task
  /-- The position that has been reached. -/
  cursor : Cursor
  /-- What the groups have captured. -/
  captures : Captures
  /-- The offsets at which repetitions began their last optional round, by their labels. -/
  marks : List (Nat × Nat)

/-- What a step leads to, with the ways that were put off, latest first. -/
inductive Step
  /-- A thread goes on. -/
  | proceed (thread : Thread) (choices : List Thread)
  /-- The thread has failed. -/
  | fail (choices : List Thread)
  /-- The thread has done everything. -/
  | matched (thread : Thread)

namespace Thread

/-- A thread with something to do before everything else. -/
def first (thread : Thread) (task : Task) : Thread :=
  { thread with agenda := task :: thread.agenda }

/-- Goes on from a position, or fails when there is none. -/
def move (thread : Thread) (choices : List Thread) : Option Cursor → Step
  | some cursor => .proceed { thread with cursor } choices
  | none => .fail choices

/-- Matches one character that satisfies a test. -/
def take (thread : Thread) (choices : List Thread) (test : Char → Bool) : Step :=
  thread.move choices <|
    match thread.cursor.next? with
    | some (symbol, next) => if test symbol then some next else none
    | none => none

/-- Remembers that a repetition begins an optional round here. -/
def mark (thread : Thread) (label : Nat) : Thread :=
  let others := thread.marks.filter fun mark => mark.1 != label
  { thread with marks := (label, thread.cursor.offset) :: others }

/-- Begins another round, or leaves a repetition after the given number of rounds. -/
def nextRound (thread : Thread) (choices : List Thread) (label : Nat) (bounds : Bounds)
    (isLazy isGuarded : Bool) (body : Plan) (count : Nat) : Step :=
  let round (thread : Thread) :=
    (thread.first (.afterRound label bounds isLazy isGuarded body (count + 1))).first (.run body)
  if count < bounds.lower then .proceed (round thread) choices
  -- Enough rounds are made, so nothing else is tried.
  else if bounds.upper?.any fun upper => upper ≤ count then .proceed thread choices
  else
    -- An empty round is told by the place where it began.
    let marked := if isGuarded then thread.mark label else thread
    if isLazy then .proceed marked (round marked :: choices)
    else .proceed (round marked) (marked :: choices)

/-- Goes on after a round, unless it has led back to where an optional round began. -/
def afterRound (thread : Thread) (choices : List Thread) (label : Nat) (bounds : Bounds)
    (isLazy isGuarded : Bool) (body : Plan) (count : Nat) : Step :=
  if isGuarded && thread.marks.lookup label = some thread.cursor.offset then .fail choices
  else thread.nextRound choices label bounds isLazy isGuarded body count

/-- Begins a look-around. -/
def look (thread : Thread) (choices : List Thread) (side : Side) (wanted : Bool) (body : Plan) :
    Step :=
  -- A look-behind goes back as many characters as its body is wide.
  let start? :=
    match side with
    | .ahead => some thread.cursor
    | .behind width => thread.cursor.back? width
  match start?, wanted with
  | some cursor, true =>
    .proceed { (thread.first (.return thread.cursor)).first (.run body) with cursor } choices
  | none, true => .fail choices
  | some cursor, false =>
    -- The thread itself is the way to take if the body does not match.
    let inner := { thread with agenda := [.run body, .refuse choices.length], cursor }
    .proceed inner (thread :: choices)
  -- Where the text does not reach back far enough there is nothing to refuse.
  | none, false => .proceed thread choices

/-- Matches a plan before everything else. -/
def run (thread : Thread) (choices : List Thread) : Plan → Step
  | .done => .proceed thread choices
  | .char symbol => thread.take choices fun other => other == symbol
  | .set members => thread.take choices members.contains
  | .textStart => if thread.cursor.before = [] then .proceed thread choices else .fail choices
  | .textEnd => if thread.cursor.after = [] then .proceed thread choices else .fail choices
  | .both first second => .proceed ((thread.first (.run second)).first (.run first)) choices
  | .either first second =>
    -- The second plan is what is left to choose if the first one fails.
    .proceed (thread.first (.run first)) (thread.first (.run second) :: choices)
  | .capture group body =>
    let opened := { thread with captures := thread.captures.opened group thread.cursor }
    .proceed ((opened.first (.close group)).first (.run body)) choices
  | .reference group => thread.move choices (thread.captures.repeated? group thread.cursor)
  | .look side wanted body => thread.look choices side wanted body
  | .rounds label bounds isLazy isGuarded body =>
    thread.nextRound choices label bounds isLazy isGuarded body 0
  -- Whatever was left to choose inside is given up once the body has matched.
  | .once body => .proceed ((thread.first (.commit choices.length)).first (.run body)) choices
  | .pass automaton => thread.move choices (automaton.match? thread.cursor)

/-- The ways that were put off when there were only so many of them. -/
def below (choices : List Thread) (height : Nat) : List Thread :=
  choices.drop (choices.length - height)

/-- Does the next thing that a thread has to do. -/
def step (thread : Thread) (choices : List Thread) : Step :=
  match thread.agenda with
  | [] => .matched thread
  | task :: later =>
    let rest := { thread with agenda := later }
    match task with
    | .run plan => rest.run choices plan
    | .close group =>
      .proceed { rest with captures := rest.captures.closed group rest.cursor } choices
    | .afterRound label bounds isLazy isGuarded body count =>
      rest.afterRound choices label bounds isLazy isGuarded body count
    -- A look-around has matched, so the thread goes back to where it stood.
    | .return cursor => .proceed { rest with cursor } choices
    | .commit height => .proceed rest (below choices height)
    -- The body was not to match, so the way that goes on without it is given up as well.
    | .refuse height => .fail (below choices height)

end Thread

/-- How matching at one position ends. -/
inductive Attempt
  /-- There is a match up to a position. -/
  | matched (stop : Cursor)
  /-- There is no match, and so many more failures are allowed. -/
  | missing (failures : Nat)
  /-- The allowed failures or steps did not suffice to tell. -/
  | gaveUp

namespace Step

/-- Goes on from a step to the end, within a number of failures and a number of steps. -/
def finish (step : Step) (failures : Nat) : Nat → Attempt
  | 0 => .gaveUp
  | steps + 1 =>
    match step, failures with
    | matched thread, _ => .matched thread.cursor
    | fail [], failures => .missing failures
    | fail (_ :: _), 0 => .gaveUp
    -- Going back to a choice counts as a failure, of which there are only so many.
    | fail (thread :: choices), failures + 1 => (thread.step choices).finish failures steps
    | proceed thread choices, failures => (thread.step choices).finish failures steps

end Step

namespace Plan

/-- Matches a plan at a position, within a number of failures and a number of steps. -/
def match? (plan : Plan) (cursor : Cursor) (failures steps : Nat) : Attempt :=
  (Step.proceed ⟨[.run plan], cursor, [], []⟩ []).finish failures steps

end Plan

end RegexLens
