import RegexLens.Host.Backtracking
import RegexLens.Proofs.Host.TreeForm

/-! How the host matches tests that take no character, and the test for a word boundary among them. -/

namespace RegexLens

namespace Automaton

/-- The automaton of a set takes one character if that belongs to the set. -/
theorem match?_set (members : CharSet) (cursor : Cursor) :
    (ofExpression (.set members)).match? cursor =
      cursor.next?.bind fun next => if members.contains next.1 then some next.2 else none := by
  -- One state takes the character and the other one accepts.
  have built : ofExpression (.set members) = ⟨#[.accept, .set members 0], 1⟩ := rfl
  -- Three steps are enough: to take the character, to look up the state, and to accept.
  obtain ⟨more, enough⟩ : ∃ more, (ofExpression (.set members)).steps cursor = more + 3 := ⟨_, rfl⟩
  rw [match?, enough, built]
  cases follows : cursor.next? with
  | none => simp [search, next, follows]
  | some pair =>
    obtain ⟨symbol, after⟩ := pair
    cases member : members.contains symbol <;> simp [search, next, follows, member]

/-- The automaton of nothing stays where it is. -/
theorem match?_empty (cursor : Cursor) : (ofExpression .empty).match? cursor = some cursor := by
  have built : ofExpression .empty = ⟨#[.accept], 0⟩ := rfl
  -- The only state accepts at once.
  obtain ⟨more, enough⟩ : ∃ more, (ofExpression .empty).steps cursor = more + 1 := ⟨_, rfl⟩
  rw [match?, enough, built]
  simp [search]

end Automaton

namespace Step

/-- What a step of matching leads to, with the number of failures on the way. -/
inductive Leads : Nat → Step → Step → Prop
  | refl (step : Step) : Leads 0 step step
  | proceed (thread : Thread) (choices : List Thread) {failures : Nat} {last : Step}
      (rest : Leads failures (thread.step choices) last) :
      Leads failures (.proceed thread choices) last
  -- After a failure the way that was put off last is taken.
  | fail (thread : Thread) (choices : List Thread) {failures : Nat} {last : Step}
      (rest : Leads failures (thread.step choices) last) :
      Leads (failures + 1) (.fail (thread :: choices)) last

namespace Leads

variable {failures more : Nat} {first middle last : Step}

/-- What a step leads to can lead further. -/
theorem trans (front : Leads failures first middle) (behind : Leads more middle last) :
    Leads (failures + more) first last := by
  -- The way there stays in front, and its failures are added to those that follow.
  induction front with
  | refl => rwa [Nat.zero_add]
  | proceed thread choices _ ih => exact .proceed thread choices (ih behind)
  | fail thread choices _ ih =>
    rw [Nat.add_right_comm]
    exact .fail thread choices (ih behind)

/-- With enough failures and steps allowed, matching ends as it does further on. -/
theorem finish (leads : Leads failures first last) :
    ∃ steps, ∀ allowed further,
      first.finish (allowed + failures) (further + steps) = last.finish allowed further := by
  -- Each step of matching takes one step off, and each failure one failure.
  induction leads with
  | refl => exact ⟨0, fun _ _ => rfl⟩
  | proceed thread choices _ ih =>
    obtain ⟨steps, same⟩ := ih
    refine ⟨steps + 1, fun allowed further => ?_⟩
    rw [← same, ← Nat.add_assoc, Step.finish]
  | fail thread choices _ ih =>
    obtain ⟨steps, same⟩ := ih
    refine ⟨steps + 1, fun allowed further => ?_⟩
    rw [← same, ← Nat.add_assoc, ← Nat.add_assoc, Step.finish]

end Leads

/-- A step leads to failure: only the ways that were put off before are left. -/
def Fails (step : Step) (choices : List Thread) : Prop :=
  ∃ failures, Leads failures step (.fail choices)

/-- A step leads to a thread; the further ways that it puts off lead to failure. -/
def GoesOn (step : Step) (thread : Thread) (choices : List Thread) : Prop :=
  ∃ failures, ∃ vain : List Thread,
    Leads failures step (thread.step (vain ++ choices)) ∧ (fail (vain ++ choices)).Fails choices

/-- What leads to a step that fails does so as well. -/
theorem Fails.after {failures : Nat} {first step : Step} {choices : List Thread}
    (fails : step.Fails choices) (leads : Leads failures first step) : first.Fails choices := by
  -- The failures of both parts are counted together.
  obtain ⟨more, onward⟩ := fails
  exact ⟨failures + more, leads.trans onward⟩

/-- What leads to a step that goes on does so as well. -/
theorem GoesOn.after {failures : Nat} {first step : Step} {thread : Thread} {choices : List Thread}
    (on : step.GoesOn thread choices) (leads : Leads failures first step) :
    first.GoesOn thread choices := by
  obtain ⟨more, vain, onward, back⟩ := on
  exact ⟨failures + more, vain, leads.trans onward, back⟩

/-- Ways that lead to failure can be left behind. -/
theorem GoesOn.below {step : Step} {thread : Thread} {vain choices : List Thread}
    (on : step.GoesOn thread (vain ++ choices)) (back : (fail (vain ++ choices)).Fails choices) :
    step.GoesOn thread choices := by
  obtain ⟨failures, more, onward, further, fails⟩ := on
  refine ⟨failures, more ++ vain, ?_, ?_⟩
  · -- The ways that led nowhere further on come before those that led nowhere here.
    rwa [List.append_assoc]
  · rw [List.append_assoc]
    exact back.after fails

end Step

/-- A plan that takes nothing: a thread either goes on as it is, or it fails. -/
structure Plan.Tests (plan : Plan) (passes : Cursor → Bool) : Prop where
  goesOn : ∀ (thread : Thread) (choices : List Thread), passes thread.cursor = true →
    ((thread.first (.run plan)).step choices).GoesOn thread choices
  fails : ∀ (thread : Thread) (choices : List Thread), passes thread.cursor = false →
    ((thread.first (.run plan)).step choices).Fails choices

namespace Plan.Tests

variable {first second : Plan} {passes others : Cursor → Bool}

/-- A plan that goes on without doing anything passes everywhere. -/
theorem of_proceed {plan : Plan} (idle : ∀ (thread : Thread) (choices : List Thread),
    thread.run choices plan = .proceed thread choices) : plan.Tests fun _ => true where
  goesOn thread choices _ := by
    -- Running the plan is the whole step, and it puts nothing off.
    have step : (thread.first (.run plan)).step choices = .proceed thread choices :=
      idle thread choices
    rw [step]
    exact ⟨0, [], .proceed thread choices (.refl _), 0, .refl _⟩
  fails _ _ failed := by contradiction

/-- Two tests, one after the other, pass where both do. -/
theorem both (one : first.Tests passes) (other : second.Tests others) :
    (Plan.both first second).Tests fun cursor => passes cursor && others cursor := by
  -- The first test is run in front of the second one.
  have start (thread : Thread) (choices : List Thread) :
      (thread.first (.run (.both first second))).step choices =
        .proceed ((thread.first (.run second)).first (.run first)) choices := rfl
  refine ⟨fun thread choices passed => ?_, fun thread choices failed => ?_⟩
  · -- The second test is run once the first one has passed, with what that has put off.
    obtain ⟨passed, also⟩ := Bool.and_eq_true_iff.mp passed
    obtain ⟨failures, vain, leads, back⟩ := one.goesOn (thread.first (.run second)) choices passed
    have on := (other.goesOn thread (vain ++ choices) also).below back
    rw [start]
    exact on.after (.proceed _ _ leads)
  · rw [start]
    -- Either the first test fails, or the second one does and takes the first one's ways with it.
    cases passed : passes thread.cursor with
    | false =>
      obtain ⟨failures, leads⟩ := one.fails (thread.first (.run second)) choices passed
      exact ⟨failures, .proceed _ _ leads⟩
    | true =>
      rw [passed, Bool.true_and] at failed
      obtain ⟨failures, vain, leads, back⟩ := one.goesOn (thread.first (.run second)) choices passed
      obtain ⟨more, onward⟩ := other.fails thread (vain ++ choices) failed
      exact back.after ((Step.Leads.proceed _ _ leads).trans onward)

/-- Of two tests that exclude each other, one or the other passes. -/
theorem either (one : first.Tests passes) (other : second.Tests others)
    (exclusive : ∀ cursor, passes cursor = true → others cursor = false) :
    (Plan.either first second).Tests fun cursor => passes cursor || others cursor := by
  have start (thread : Thread) (choices : List Thread) :
      (thread.first (.run (.either first second))).step choices =
        .proceed (thread.first (.run first)) (thread.first (.run second) :: choices) := rfl
  -- The second test waits as one more way while the first one is run.
  refine ⟨fun thread choices passed => ?_, fun thread choices failed => ?_⟩
  · rw [start]
    cases own : passes thread.cursor with
    | false =>
      rw [own, Bool.false_or] at passed
      obtain ⟨failures, leads⟩ := one.fails thread (thread.first (.run second) :: choices) own
      exact (other.goesOn thread choices passed).after ((Step.Leads.proceed _ _ leads).trans
        (.fail _ _ (.refl _)))
    | true =>
      -- The second test is one more way that leads nowhere.
      obtain ⟨more, onward⟩ := other.fails thread choices (exclusive _ own)
      have on := one.goesOn thread ([thread.first (.run second)] ++ choices) own
      obtain ⟨failures, vain, leads, back⟩ := on.below ⟨more + 1, .fail _ _ onward⟩
      exact ⟨failures, vain, .proceed _ _ leads, back⟩
  · -- Neither passes, so the way that was put off is taken and fails as well.
    obtain ⟨own, also⟩ := Bool.or_eq_false_iff.mp failed
    obtain ⟨failures, leads⟩ := one.fails thread (thread.first (.run second) :: choices) own
    rw [start]
    exact (other.fails thread choices also).after ((Step.Leads.proceed _ _ leads).trans
      (.fail _ _ (.refl _)))

end Plan.Tests

/-- The position from which a look-around reads, if there is one. -/
def Side.from? (side : Side) (cursor : Cursor) : Option Cursor :=
  match side with
  | .ahead => some cursor
  | .behind width => cursor.back? width

/-- A look-around with an automaton in it goes on where it is, or it fails. -/
theorem Thread.look_leads (thread : Thread) (choices : List Thread) (side : Side) (wanted : Bool)
    (automaton : Automaton) :
    ∃ failures, Step.Leads failures (thread.look choices side wanted (.pass automaton))
      (if ((side.from? thread.cursor).bind automaton.match?).isSome = wanted then
        thread.step choices
      else .fail choices) := by
  -- Whatever is looked for, the look starts at one of two sides and ends in one of two ways.
  cases start : side.from? thread.cursor with
  | none =>
    -- There is no place to look from, and so nothing is found.
    have opened : thread.look choices side wanted (.pass automaton) =
        if wanted then .fail choices else .proceed thread choices := by
      cases side with
      | ahead => contradiction
      | behind width =>
        have nowhere : thread.cursor.back? width = none := start
        cases wanted <;> simp [Thread.look, nowhere]
    rw [opened]
    cases wanted with
    | true => exact ⟨0, .refl _⟩
    | false => exact ⟨0, .proceed thread choices (.refl _)⟩
  | some cursor =>
    have opened : thread.look choices side wanted (.pass automaton) =
        if wanted then
          .proceed { (thread.first (.return thread.cursor)).first (.run (.pass automaton)) with cursor }
            choices
        else
          .proceed { thread with agenda := [.run (.pass automaton), .refuse choices.length], cursor }
            (thread :: choices) := by
      cases side with
      | ahead =>
        have here : thread.cursor = cursor := Option.some.inj start
        cases wanted <;> simp [Thread.look, here]
      | behind width =>
        have there : thread.cursor.back? width = some cursor := start
        cases wanted <;> simp [Thread.look, there]
    rw [opened, Option.bind_some]
    cases wanted with
    -- What is found is given back to where the look started, and the thread goes on there.
    | true =>
      refine ⟨0, .proceed _ _ ?_⟩
      have step : ({ (thread.first (.return thread.cursor)).first (.run (.pass automaton)) with
          cursor } : Thread).step choices = ({ thread.first (.return thread.cursor) with
            cursor } : Thread).move choices (automaton.match? cursor) := rfl
      rw [step]
      cases automaton.match? cursor with
      | none => exact .refl _
      | some stop => exact .proceed _ _ (.proceed thread choices (.refl _))
    -- For a look that wants nothing, the thread itself is put off as the way to go on.
    | false =>
      have step : ({ thread with
          agenda := [.run (.pass automaton), .refuse choices.length], cursor } : Thread).step
            (thread :: choices) = ({ thread with
              agenda := [.refuse choices.length], cursor } : Thread).move (thread :: choices)
                (automaton.match? cursor) := rfl
      cases found : automaton.match? cursor with
      | none =>
        refine ⟨1, .proceed _ _ ?_⟩
        rw [step, found]
        exact .fail thread choices (.refl _)
      | some stop =>
        -- What was put off for the look-around is given up along with it.
        have refused : ({ thread with agenda := [.refuse choices.length], cursor := stop } :
            Thread).step (thread :: choices) = .fail choices := by
          have left : Thread.below (thread :: choices) choices.length = choices := by
            simp [Thread.below]
          exact congrArg Step.fail left
        refine ⟨0, .proceed _ _ ?_⟩
        rw [step, found]
        refine .proceed _ _ ?_
        rw [refused]
        exact .refl _

/-- A look-around passes where the automaton in it finds something, or where it does not. -/
theorem Plan.Tests.look (side : Side) (wanted : Bool) (automaton : Automaton) :
    (Plan.look side wanted (.pass automaton)).Tests fun cursor =>
      ((side.from? cursor).bind automaton.match?).isSome == wanted := by
  have start (thread : Thread) (choices : List Thread) :
      (thread.first (.run (.look side wanted (.pass automaton)))).step choices =
        thread.look choices side wanted (.pass automaton) := rfl
  -- A look that passes goes on with the thread as it was, and one that fails takes the next way.
  refine ⟨fun thread choices passed => ?_, fun thread choices failed => ?_⟩
  · obtain ⟨failures, leads⟩ := thread.look_leads choices side wanted automaton
    rw [if_pos (beq_iff_eq.mp passed)] at leads
    rw [start]
    exact ⟨failures, [], leads, 0, .refl _⟩
  · obtain ⟨failures, leads⟩ := thread.look_leads choices side wanted automaton
    rw [if_neg (beq_eq_false_iff_ne.mp failed)] at leads
    rw [start]
    exact ⟨failures, leads⟩

/-- Whether one of the characters beside a position is a word character. -/
def Cursor.wordAt (cursor : Cursor) : Side → Bool
  | .ahead => cursor.after.head?.any isAsciiWord
  | .behind _ => cursor.before.head?.any isAsciiWord

/-- Looking for a word character from a position finds the one that stands there. -/
theorem Side.finds_word (side : Side) (near : side = .ahead ∨ side = .behind 1) (cursor : Cursor) :
    ((side.from? cursor).bind (Automaton.ofExpression (.set wordSet)).match?).isSome =
      cursor.wordAt side := by
  -- The set has only the word characters.
  have word (symbol : Char) : wordSet.contains symbol = isAsciiWord symbol := by
    simp [wordSet, CharSet.contains, SetItem.contains, CharFamily.contains, isWordChar_eq]
  obtain ⟨before, after, offset⟩ := cursor
  rcases near with rfl | rfl
  · -- Ahead the character behind the position is taken.
    cases after with
    | nil => simp [Side.from?, Cursor.wordAt, Automaton.match?_set, Cursor.next?]
    | cons symbol rest =>
      cases letter : isAsciiWord symbol <;>
        simp [Side.from?, Cursor.wordAt, Automaton.match?_set, Cursor.next?, word, letter]
  · -- Behind, the position is moved back by one character first.
    cases before with
    | nil => simp [Side.from?, Cursor.wordAt, Cursor.back?]
    | cons symbol rest =>
      cases letter : isAsciiWord symbol <;>
        simp [Side.from?, Cursor.wordAt, Cursor.back?, Automaton.match?_set, Cursor.next?, word,
          letter]

/-- Whether exactly one of the characters beside a position is a word character. -/
def Cursor.isBoundary (cursor : Cursor) : Bool :=
  cursor.before.head?.any isAsciiWord != cursor.after.head?.any isAsciiWord

namespace Plan

/-- The plan that tests the characters on both sides of a position, and then goes on. -/
def neighbours (before after : Bool) (rest : Plan) : Plan :=
  let word := Automaton.ofExpression (.set wordSet)
  .both (.look (.behind 1) before (.pass word)) (.both (.look .ahead after (.pass word)) rest)

/-- Both neighbours are compared with what they should be. -/
theorem neighbours_tests (before after : Bool) {rest : Plan} (idle : rest.Tests fun _ => true) :
    (neighbours before after rest).Tests fun cursor =>
      cursor.wordAt (.behind 1) == before && cursor.wordAt .ahead == after := by
  -- Each look-around compares one neighbour.
  have behind := Tests.look (.behind 1) before (.ofExpression (.set wordSet))
  have ahead := Tests.look .ahead after (.ofExpression (.set wordSet))
  simp only [Side.finds_word (.behind 1) (.inr rfl)] at behind
  simp only [Side.finds_word .ahead (.inl rfl)] at ahead
  have tests := behind.both (ahead.both idle)
  simp only [Bool.and_true] at tests
  exact tests

end Plan

/-- Wherever it stands, the test for a boundary passes where there is one, or where there is none. -/
theorem boundaryExpression_tests (wanted : Bool) (referenced : List Nat) (isLast : Bool)
    (label : Nat) :
    ((boundaryExpression wanted).planFrom referenced isLast label).1.Tests fun cursor =>
      cursor.isBoundary == wanted := by
  -- At the end of an expression nothing is left to match, which an automaton finds at once.
  have ending : ∃ rest : Plan, (rest.Tests fun _ => true) ∧
      ((boundaryExpression wanted).planFrom referenced isLast label).1 =
        .either (.neighbours true (!wanted) rest) (.neighbours false wanted rest) := by
    cases isLast with
    | false => exact ⟨.done, .of_proceed fun _ _ => rfl, rfl⟩
    | true =>
      refine ⟨.pass (.ofExpression .empty), .of_proceed fun thread choices => ?_, rfl⟩
      rw [Thread.run, Automaton.match?_empty]
      rfl
  obtain ⟨rest, idle, plan⟩ := ending
  -- The two pairs of tests exclude each other, since they differ in what stands behind.
  have tests := (Plan.neighbours_tests true (!wanted) idle).either
    (Plan.neighbours_tests false wanted idle) fun cursor first => by
      cases side : cursor.wordAt (.behind 1) <;> simp_all
  rw [plan]
  -- There are two neighbours, and each of them is a word character or not.
  have same : (fun cursor : Cursor => (cursor.wordAt (.behind 1) == true && cursor.wordAt .ahead == !wanted ||
      cursor.wordAt (.behind 1) == false && cursor.wordAt .ahead == wanted)) =
        fun cursor => cursor.isBoundary == wanted := by
    funext cursor
    simp only [Cursor.isBoundary, Cursor.wordAt]
    cases cursor.before.head?.any isAsciiWord <;> cases cursor.after.head?.any isAsciiWord <;>
      cases wanted <;> rfl
  rwa [same] at tests

/-- Given enough failures and steps, a test matches where it passes, and there without characters. -/
theorem Plan.Tests.match? {plan : Plan} {passes : Cursor → Bool} (tests : plan.Tests passes)
    (cursor : Cursor) :
    ∃ failures steps, ∀ allowed further,
      plan.match? cursor (allowed + failures) (further + steps) =
        if passes cursor then .matched cursor else .missing allowed := by
  cases passed : passes cursor with
  -- The thread that goes on has nothing left to do, so it matches where it stands.
  | true =>
    obtain ⟨failures, vain, leads, _⟩ := tests.goesOn ⟨[], cursor, [], []⟩ [] passed
    obtain ⟨steps, same⟩ := (Step.Leads.proceed _ _ leads).finish
    refine ⟨failures, 1 + steps, fun allowed further => ?_⟩
    rw [← Nat.add_assoc]
    exact same allowed (further + 1)
  -- Without any other way the failure is final.
  | false =>
    obtain ⟨failures, leads⟩ := tests.fails ⟨[], cursor, [], []⟩ [] passed
    obtain ⟨steps, same⟩ := (Step.Leads.proceed _ _ leads).finish
    refine ⟨failures, 1 + steps, fun allowed further => ?_⟩
    rw [← Nat.add_assoc]
    exact same allowed (further + 1)

end RegexLens
