import RegexLens.Host.Matcher
import RegexLens.Proofs.Text

/-! Where the host finds matches: in the text, between characters, and one behind the other. -/

namespace RegexLens

/-- A position in the given text. -/
structure Cursor.On (cursor : Cursor) (text : Text) : Prop where
  halves : cursor.before.reverse ++ cursor.after = text
  offset : cursor.offset = byteSize cursor.before

/-- A position in the given text that is not in front of an offset. -/
structure Cursor.Behind (cursor : Cursor) (text : Text) (floor : Nat) : Prop where
  on : cursor.On text
  floor : floor ≤ cursor.offset

namespace Cursor

variable {cursor found : Cursor} {text before after : Text} {symbol : Char} {offset floor : Nat}

/-- The start of a text is a position in it. -/
theorem start_on (text : Text) : (start text).On text :=
  ⟨rfl, rfl⟩

/-- A text can be cut at each of its positions. -/
theorem On.onBoundary (on : cursor.On text) : OnBoundary text cursor.offset :=
  -- What lies behind the position, in order, and what lies in front of it are the two halves.
  ⟨cursor.before.reverse, cursor.after, on.halves.symm, by rw [byteSize_reverse, on.offset]⟩

/-- A position is not in front of itself. -/
theorem On.behind (on : cursor.On text) : cursor.Behind text cursor.offset :=
  ⟨on, Nat.le_refl _⟩

/-- A position behind a later offset is behind an earlier one too. -/
theorem Behind.mono (behind : cursor.Behind text offset) (order : floor ≤ offset) :
    cursor.Behind text floor :=
  ⟨behind.on, Nat.le_trans order behind.floor⟩

/-- The position one character further is in the same text. -/
theorem On.forward (on : (⟨before, symbol :: after, offset⟩ : Cursor).On text) :
    (⟨symbol :: before, after, offset + symbol.utf8Size⟩ : Cursor).On text := by
  -- The character changes sides, and the offset grows by the bytes that it takes.
  refine ⟨?_, ?_⟩
  · rw [← on.halves]
    simp
  · have place : offset = byteSize before := on.offset
    rw [byteSize_cons, place, Nat.add_comm]

/-- The next position is behind the one before it. -/
theorem On.next? (on : cursor.On text) (next : cursor.next? = some (symbol, found)) :
    found.Behind text (cursor.offset + 1) := by
  obtain ⟨before, after, offset⟩ := cursor
  cases after with
  -- Behind the last character there is no next position.
  | nil => simp [Cursor.next?] at next
  | cons head tail =>
    obtain ⟨rfl, rfl⟩ := by simpa [Cursor.next?] using next
    -- Every character takes at least one byte, so the position moves on.
    have positive := head.utf8Size_pos
    refine ⟨on.forward, ?_⟩
    show offset + 1 ≤ offset + head.utf8Size
    omega

/-- A position some characters earlier is in the same text. -/
theorem On.back? {count : Nat} (on : cursor.On text) (back : cursor.back? count = some found) :
    found.On text := by
  -- The induction is on the number of characters that are stepped back over.
  induction count generalizing cursor with
  | zero =>
    obtain rfl := by simpa [Cursor.back?] using back
    exact on
  | succ count ih =>
    obtain ⟨before, after, offset⟩ := cursor
    cases before with
    | nil => simp [Cursor.back?] at back
    | cons head tail =>
      -- The character that is stepped over changes sides.
      refine ih ⟨?_, ?_⟩ back
      · rw [← on.halves]
        simp
      · have place : offset = byteSize (head :: tail) := on.offset
        rw [byteSize_cons] at place
        show offset - head.utf8Size = byteSize tail
        omega

/-- Following a model never leads back. -/
theorem On.follow? {model : Text} {size : Nat} (on : cursor.On text)
    (followed : cursor.follow? model size = some found) : found.Behind text cursor.offset := by
  -- The induction is on the model; the size only says how much of it is followed.
  induction model generalizing cursor size with
  | nil =>
    cases size with
    | zero =>
      obtain rfl := by simpa [Cursor.follow?] using followed
      exact on.behind
    | succ size => simp [Cursor.follow?] at followed
  | cons expected rest ih =>
    cases size with
    | zero =>
      obtain rfl := by simpa [Cursor.follow?] using followed
      exact on.behind
    | succ size =>
      cases step : cursor.next? with
      | none => simp [Cursor.follow?, step] at followed
      | some pair =>
        obtain ⟨symbol, next⟩ := pair
        -- One character of the model is the step, and the others are followed from there.
        have further := on.next? step
        by_cases same : symbol = expected
        · simp only [Cursor.follow?, step, if_pos same] at followed
          exact (ih further.on followed).mono (Nat.le_of_succ_le further.floor)
        · simp [Cursor.follow?, step, same] at followed

end Cursor

namespace Automaton

variable {automaton : Automaton} {text : Text} {floor : Nat} {cursor stop : Cursor}

/-- To go on from a state is to stay at a position or to take the character behind it. -/
theorem eq_or_next?_of_mem_next {state : Nat} {way : Nat × Cursor}
    (member : way ∈ automaton.next state cursor) :
    way.2 = cursor ∨ ∃ symbol, cursor.next? = some (symbol, way.2) := by
  -- The cases are the kinds of states, and only the first two take a character.
  unfold next at member
  split at member
  case h_1 | h_2 =>
    -- A state for one character and a state for a set differ in their tests only.
    split at member
    · rename_i symbol after step
      split at member
      · obtain rfl := List.mem_singleton.mp member
        exact .inr ⟨symbol, step⟩
      · contradiction
    · contradiction
  -- A state that tests where it is, or only leads on, stays there.
  case h_3 | h_4 =>
    split at member
    · obtain rfl := List.mem_singleton.mp member
      exact .inl rfl
    · contradiction
  -- A state with two ways out stays where it is on both.
  case h_5 =>
    simp only [List.mem_cons, List.not_mem_nil, or_false] at member
    rcases member with rfl | rfl
    · exact .inl rfl
    · exact .inl rfl
  case h_6 => contradiction

/-- The ways to go on from a position do not lead back. -/
theorem next_behind (here : cursor.Behind text floor) {state : Nat} {way : Nat × Cursor}
    (member : way ∈ automaton.next state cursor) : way.2.Behind text floor := by
  rcases eq_or_next?_of_mem_next member with same | ⟨symbol, step⟩
  · rw [same]
    exact here
  · exact (here.on.next? step).mono (Nat.le_succ_of_le here.floor)

/-- A search ends at a position to which the ways that were put off can lead. -/
theorem search_behind {entered : Entered} {ways : List (Nat × Cursor)} {steps : Nat}
    (here : ∀ way ∈ ways, way.2.Behind text floor)
    (found : (automaton.search entered ways steps).1 = some stop) : stop.Behind text floor := by
  -- The ways that were put off are the invariant, since any of them may be the one that ends the
  -- search.
  induction steps generalizing entered ways with
  | zero => simp [search] at found
  | succ steps ih =>
    cases ways with
    | nil => simp [search] at found
    | cons way ways =>
      obtain ⟨first, others⟩ := List.forall_mem_cons.mp here
      simp only [search] at found
      split at found
      · -- The state accepts, so the search ends where it is.
        obtain rfl := Option.some.inj found
        exact first
      · split at found
        · -- The state has been entered before and leads nowhere.
          exact ih others found
        · -- The ways out of the first state come in front of the others.
          refine ih ?_ found
          intro other member
          rcases List.mem_append.mp member with own | later
          · exact next_behind first own
          · exact others other later

/-- What an automaton matches ends no earlier than it starts. -/
theorem match?_behind (on : cursor.On text) (found : automaton.match? cursor = some stop) :
    stop.Behind text cursor.offset := by
  refine search_behind ?_ found
  simpa using on.behind

end Automaton

/-- Work that, begun at an offset, ends in the text and not in front of the floor. -/
def Ends (text : Text) (floor : Nat) : List Task → Nat → Prop
  | [], offset => floor ≤ offset
  -- A look-around goes on from where it began, wherever it has led.
  | .return cursor :: later, _ => cursor.On text ∧ Ends text floor later cursor.offset
  -- What follows an unwanted match is never done.
  | .refuse _ :: _, _ => True
  | .run _ :: later, offset => Ends text floor later offset
  | .close _ :: later, offset => Ends text floor later offset
  | .afterRound _ _ _ _ _ _ :: later, offset => Ends text floor later offset
  | .commit _ :: later, offset => Ends text floor later offset

/-- Work begun later does not end earlier. -/
theorem Ends.mono {text : Text} {floor offset later : Nat} {agenda : List Task}
    (ends : Ends text floor agenda offset) (order : offset ≤ later) :
    Ends text floor agenda later := by
  -- Only a task that returns somewhere, or refuses, makes what comes before it irrelevant.
  induction agenda with
  | nil => exact Nat.le_trans ends order
  | cons task agenda ih =>
    cases task with
    | «return» cursor => exact ends
    | refuse height => trivial
    | run plan => exact ih ends
    | close group => exact ih ends
    | afterRound label bounds isLazy isGuarded body count => exact ih ends
    | commit height => exact ih ends

/-- A thread at a position of the text whose work does not end in front of the floor. -/
structure Thread.Sound (thread : Thread) (text : Text) (floor : Nat) : Prop where
  on : thread.cursor.On text
  ends : Ends text floor thread.agenda thread.cursor.offset

/-- A step that leads to sound threads only. -/
def Step.Sound (text : Text) (floor : Nat) : Step → Prop
  | .proceed thread choices =>
    thread.Sound text floor ∧ ∀ choice ∈ choices, choice.Sound text floor
  | .fail choices => ∀ choice ∈ choices, choice.Sound text floor
  | .matched thread => thread.cursor.Behind text floor

namespace Thread

variable {text : Text} {floor : Nat} {thread : Thread} {choices : List Thread}

/-- A thread that goes on from a position that is not further back stays sound. -/
theorem Sound.move (sound : thread.Sound text floor)
    (others : ∀ choice ∈ choices, choice.Sound text floor) {found? : Option Cursor}
    (further : ∀ found, found? = some found → found.Behind text thread.cursor.offset) :
    (thread.move choices found?).Sound text floor := by
  cases found? with
  | none => exact others
  | some found =>
    obtain ⟨on, order⟩ := further found rfl
    exact ⟨⟨on, sound.ends.mono order⟩, others⟩

/-- Taking a character keeps a thread sound. -/
theorem Sound.take (sound : thread.Sound text floor)
    (others : ∀ choice ∈ choices, choice.Sound text floor) (test : Char → Bool) :
    (thread.take choices test).Sound text floor := by
  -- What a test lets through is the character behind the position.
  refine sound.move others ?_
  intro found taken
  split at taken
  · rename_i step
    split at taken
    · obtain rfl := Option.some.inj taken
      exact (sound.on.next? step).mono (Nat.le_succ _)
    · contradiction
  · contradiction

/-- Beginning or ending rounds keeps a thread sound. -/
theorem Sound.nextRound (sound : thread.Sound text floor)
    (others : ∀ choice ∈ choices, choice.Sound text floor) (label : Nat) (bounds : Bounds)
    (isLazy isGuarded : Bool) (body : Plan) (count : Nat) :
    (thread.nextRound choices label bounds isLazy isGuarded body count).Sound text floor := by
  -- A mark changes neither the position nor the work.
  have marked : (if isGuarded then thread.mark label else thread).Sound text floor := by
    split
    · exact ⟨sound.on, sound.ends⟩
    · exact sound
  by_cases required : count < bounds.lower
  · simp only [Thread.nextRound, if_pos required]
    exact ⟨⟨sound.on, sound.ends⟩, others⟩
  · -- A round that is optional can be left out, unless there have been as many as are allowed.
    by_cases full : bounds.upper?.any fun upper => upper ≤ count
    · simp only [Thread.nextRound, if_neg required, if_pos full]
      exact ⟨sound, others⟩
    · -- One way goes round again and the other one leaves; only their order is open.
      cases isLazy with
      | true =>
        simp only [Thread.nextRound, if_neg required, if_neg full]
        exact ⟨marked, List.forall_mem_cons.mpr ⟨⟨marked.on, marked.ends⟩, others⟩⟩
      | false =>
        simp only [Thread.nextRound, if_neg required, if_neg full]
        exact ⟨⟨marked.on, marked.ends⟩, List.forall_mem_cons.mpr ⟨marked, others⟩⟩

/-- Beginning a look-around keeps a thread sound, though it can lead back. -/
theorem Sound.look (sound : thread.Sound text floor)
    (others : ∀ choice ∈ choices, choice.Sound text floor) (side : Side) (wanted : Bool)
    (body : Plan) : (thread.look choices side wanted body).Sound text floor := by
  -- A look-around goes on where it began, and one that must not match leaves a way behind it.
  cases side with
  | ahead =>
    cases wanted with
    | true => exact ⟨⟨sound.on, sound.on, sound.ends⟩, others⟩
    | false => exact ⟨⟨sound.on, trivial⟩, List.forall_mem_cons.mpr ⟨sound, others⟩⟩
  | behind width =>
    cases start : thread.cursor.back? width with
    | none =>
      cases wanted with
      | true =>
        simp only [Thread.look, start]
        exact others
      | false =>
        simp only [Thread.look, start]
        exact ⟨sound, others⟩
    | some cursor =>
      -- Looking back starts earlier in the text, and the floor is met again on the return.
      have on := sound.on.back? start
      cases wanted with
      | true =>
        simp only [Thread.look, start]
        exact ⟨⟨on, sound.on, sound.ends⟩, others⟩
      | false =>
        simp only [Thread.look, start]
        exact ⟨⟨on, trivial⟩, List.forall_mem_cons.mpr ⟨sound, others⟩⟩

/-- Matching a plan keeps a thread sound. -/
theorem Sound.run (sound : thread.Sound text floor)
    (others : ∀ choice ∈ choices, choice.Sound text floor) (plan : Plan) :
    (thread.run choices plan).Sound text floor := by
  -- The cases are the kinds of plans: tests, jobs put on the agenda, and jumps to a position found.
  cases plan with
  | done => exact ⟨sound, others⟩
  | char symbol => exact sound.take others _
  | set members => exact sound.take others _
  | textStart =>
    rw [Thread.run]
    split
    · exact ⟨sound, others⟩
    · exact others
  | textEnd =>
    rw [Thread.run]
    split
    · exact ⟨sound, others⟩
    · exact others
  | both first second => exact ⟨⟨sound.on, sound.ends⟩, others⟩
  | either first second =>
    exact ⟨⟨sound.on, sound.ends⟩, List.forall_mem_cons.mpr ⟨⟨sound.on, sound.ends⟩, others⟩⟩
  | capture group body => exact ⟨⟨sound.on, sound.ends⟩, others⟩
  | reference group =>
    refine sound.move others ?_
    intro found repeated
    -- Whatever the group has captured, the text is followed from the position of the thread.
    simp only [Captures.repeated?, Option.bind_eq_bind, Option.bind_eq_some_iff] at repeated
    obtain ⟨capture, -, stop, -, followed⟩ := repeated
    split at followed
    · exact sound.on.follow? followed
    · contradiction
  | look side wanted body => exact sound.look others side wanted body
  | rounds label bounds isLazy isGuarded body =>
    exact sound.nextRound others label bounds isLazy isGuarded body 0
  | once body => exact ⟨⟨sound.on, sound.ends⟩, others⟩
  | pass automaton =>
    refine sound.move others ?_
    intro found matched
    exact Automaton.match?_behind sound.on matched

/-- The ways that are kept of sound ones are sound. -/
theorem forall_mem_below (others : ∀ choice ∈ choices, choice.Sound text floor) (height : Nat) :
    ∀ choice ∈ below choices height, choice.Sound text floor := by
  intro choice member
  exact others choice (List.mem_of_mem_drop member)

/-- A step keeps a thread sound, together with the ways that were put off. -/
theorem Sound.step (sound : thread.Sound text floor)
    (others : ∀ choice ∈ choices, choice.Sound text floor) :
    (thread.step choices).Sound text floor := by
  -- The agenda says what the step does, so the cases are those of its first task.
  obtain ⟨agenda, cursor, captures, marks⟩ := thread
  obtain ⟨on, ends⟩ := sound
  cases agenda with
  | nil => exact ⟨on, ends⟩
  | cons task later =>
    -- What is left of the agenda is sound when the task itself does not move the thread.
    have rest (still : Ends text floor later cursor.offset) :
        (⟨later, cursor, captures, marks⟩ : Thread).Sound text floor := ⟨on, still⟩
    cases task with
    | run plan => exact (rest ends).run others plan
    | close group => exact ⟨⟨on, ends⟩, others⟩
    | afterRound label bounds isLazy isGuarded body count =>
      show (Thread.afterRound _ _ _ _ _ _ _ _).Sound text floor
      unfold Thread.afterRound
      split
      · exact others
      · exact (rest ends).nextRound others label bounds isLazy isGuarded body count
    | «return» start => exact ⟨⟨ends.1, ends.2⟩, others⟩
    | commit height => exact ⟨⟨on, ends⟩, forall_mem_below others height⟩
    -- A refused match gives up the thread, and only ways that were put off are left.
    | refuse height => exact forall_mem_below others height

end Thread

/-- Matching that goes on from a sound step ends in the text and not in front of the floor. -/
theorem Step.Sound.finish {text : Text} {floor failures steps : Nat} {step : Step} {stop : Cursor}
    (sound : step.Sound text floor) (ended : step.finish failures steps = .matched stop) :
    stop.Behind text floor := by
  -- Each step keeps the invariant of the thread and of all the ways that were put off.
  induction steps generalizing step failures with
  | zero => simp [Step.finish] at ended
  | succ steps ih =>
    -- A thread that has matched is the result.
    cases step with
    | matched thread =>
      obtain rfl := by simpa [Step.finish] using ended
      exact sound
    | proceed thread choices =>
      simp only [Step.finish] at ended
      exact ih (sound.1.step sound.2) ended
    -- When a thread fails, the last way that was put off goes on.
    | fail choices =>
      cases choices with
      | nil => simp [Step.finish] at ended
      | cons thread choices =>
        cases failures with
        | zero => simp [Step.finish] at ended
        | succ failures =>
          obtain ⟨first, others⟩ := List.forall_mem_cons.mp sound
          simp only [Step.finish] at ended
          exact ih (first.step others) ended

/-- What a plan matches ends no earlier than it starts. -/
theorem Plan.match?_behind {plan : Plan} {text : Text} {cursor stop : Cursor}
    {failures steps : Nat} (on : cursor.On text)
    (found : plan.match? cursor failures steps = .matched stop) :
    stop.Behind text cursor.offset := by
  refine Step.Sound.finish ?_ found
  -- The plan is all the work that there is, and it begins at the floor.
  exact ⟨⟨on, Nat.le_refl _⟩, by simp⟩

/-- A match that starts between characters, not in front of an offset, and ends behind its start. -/
structure Placed (text : Text) (floor start : Nat) (stop : Cursor) : Prop where
  floor : floor ≤ start
  onBoundary : OnBoundary text start
  stop : stop.Behind text start

/-- A match behind a later offset is behind an earlier one too. -/
theorem Placed.mono {text : Text} {floor offset start : Nat} {stop : Cursor}
    (placed : Placed text offset start stop) (order : floor ≤ offset) :
    Placed text floor start stop :=
  ⟨Nat.le_trans order placed.floor, placed.onBoundary, placed.stop⟩

section Finding

variable {text before after : Text} {offset start : Nat} {stop : Cursor}

/-- A search in a single pass finds a match where it starts or further on. -/
theorem Automaton.findIn_placed {automaton : Automaton} {entered : Entered} {steps : Nat}
    (on : (⟨before, after, offset⟩ : Cursor).On text)
    (found : automaton.findIn entered steps before offset after = .found start stop) :
    Placed text offset start stop := by
  fun_induction findIn automaton entered steps before offset after with
  | case1 entered before offset after reached known result =>
    -- A match is found at the start of the search itself.
    obtain ⟨rfl, rfl⟩ := by simpa using found
    have ended := search_behind (by simpa using on.behind) (congrArg Prod.fst result)
    exact ⟨Nat.le_refl _, on.onBoundary, ended⟩
  | case2 => contradiction
  | case3 entered before offset known symbol rest result ih =>
    -- An attempt that fails moves the start by one character.
    exact (ih on.forward found).mono (Nat.le_add_right _ _)

/-- A search by backtracking finds a match where it starts or further on. -/
theorem Plan.findIn_placed {plan : Plan} {failures steps : Nat}
    (on : (⟨before, after, offset⟩ : Cursor).On text)
    (found : plan.findIn failures steps before offset after = .found start stop) :
    Placed text offset start stop := by
  fun_induction findIn plan failures steps before offset after with
  | case1 after failures before offset reached result =>
    obtain ⟨rfl, rfl⟩ := by simpa [result] using found
    exact ⟨Nat.le_refl _, on.onBoundary, match?_behind on result⟩
  -- A search that gives up, or that has come to the end of the text, finds nothing.
  | case2 after failures before offset result => simp [result] at found
  | case3 failures before offset left result => simp [result] at found
  | case4 failures before offset symbol rest result => simp [result] at found
  | case5 failures before offset symbol rest left result ih =>
    simp only [result] at found
    exact (ih on.forward found).mono (Nat.le_add_right _ _)

end Finding

/-- Spans of a text with their ends between characters, each behind the end of those before it. -/
structure WellPlaced (text : Text) (spans : List Span) : Prop where
  inside : ∀ span ∈ spans,
    OnBoundary text span.start ∧ OnBoundary text span.stop ∧ span.start ≤ span.stop
  ordered : spans.Pairwise fun first second => first.stop ≤ second.start

/-- One more span in front of others that start behind its end. -/
theorem WellPlaced.cons {text : Text} {span : Span} {spans : List Span}
    (placed : WellPlaced text spans)
    (start : OnBoundary text span.start) (stop : OnBoundary text span.stop)
    (order : span.start ≤ span.stop) (behind : ∀ other ∈ spans, span.stop ≤ other.start) :
    WellPlaced text (span :: spans) :=
  ⟨List.forall_mem_cons.mpr ⟨⟨start, stop, order⟩, placed.inside⟩,
    List.pairwise_cons.mpr ⟨behind, placed.ordered⟩⟩

namespace Matcher

variable {matcher : Matcher} {text : Text} {cursor : Cursor} {spans : List Span}

/-- A match is found where the search starts or further on. -/
theorem find_placed {start : Nat} {stop : Cursor} (on : cursor.On text)
    (found : matcher.find cursor = .found start stop) : Placed text cursor.offset start stop := by
  cases matcher with
  | pass automaton => exact Automaton.findIn_placed on found
  | backtracking plan => exact Plan.findIn_placed on found

/-- Matches that are found one after another are well placed, behind the start of the search. -/
theorem findFrom_wellPlaced {previous? : Option Nat} {searches : Nat} (on : cursor.On text)
    (found : matcher.findFrom cursor previous? searches = some spans) :
    WellPlaced text spans ∧ ∀ span ∈ spans, cursor.offset ≤ span.start := by
  -- The induction is on the searches that are left; each goes on from the end of the match before
  -- it.
  induction searches generalizing cursor previous? spans with
  | zero =>
    obtain rfl := by simpa [findFrom] using found
    exact ⟨⟨by simp, .nil⟩, by simp⟩
  | succ searches ih =>
    cases result : matcher.find cursor with
    | gaveUp => simp [findFrom, result] at found
    -- Without a match there are no spans.
    | missing =>
      obtain rfl := by simpa [findFrom, result] using found
      exact ⟨⟨by simp, .nil⟩, by simp⟩
    | found start stop =>
      obtain ⟨floor, onBoundary, stopOn, order⟩ := find_placed on result
      by_cases solid : start < stop.offset
      · -- A match that is not empty is a span in front of those that the search finds behind it.
        simp only [findFrom, result, if_pos solid, Option.map_eq_some_iff] at found
        obtain ⟨others, rest, rfl⟩ := found
        obtain ⟨placed, behind⟩ := ih stopOn rest
        refine ⟨placed.cons onBoundary stopOn.onBoundary order behind,
          List.forall_mem_cons.mpr ⟨floor, ?_⟩⟩
        intro other member
        have := behind other member
        omega
      · -- An empty match counts or not, and what follows it starts at least as far on.
        have counted (others : List Span) (placed : WellPlaced text others)
            (behind : ∀ other ∈ others, start ≤ other.start) :
            WellPlaced text ((if previous? = some start then [] else [⟨start, start⟩]) ++ others) ∧
              ∀ span ∈ (if previous? = some start then [] else [⟨start, start⟩]) ++ others,
                cursor.offset ≤ span.start := by
          have floors : ∀ other ∈ others, cursor.offset ≤ other.start := by
            intro other member
            exact Nat.le_trans floor (behind other member)
          -- The empty match is dropped where the match before it has ended.
          split
          · exact ⟨placed, floors⟩
          · exact ⟨placed.cons onBoundary onBoundary (Nat.le_refl _) behind,
              List.forall_mem_cons.mpr ⟨floor, floors⟩⟩
        cases step : stop.next? with
        -- At the end of the text nothing comes behind an empty match.
        | none =>
          simp only [findFrom, result, if_neg solid, step, Option.some.injEq] at found
          have alone := counted [] ⟨by simp, .nil⟩ (by simp)
          rwa [List.append_nil, found] at alone
        -- Elsewhere the search goes on one character further, so that it does not find the same
        -- match.
        | some pair =>
          obtain ⟨symbol, next⟩ := pair
          simp only [findFrom, result, if_neg solid, step, Option.map_eq_some_iff] at found
          obtain ⟨others, rest, rfl⟩ := found
          have further := stopOn.next? step
          obtain ⟨placed, behind⟩ := ih further.on rest
          refine counted others placed ?_
          intro other member
          have := behind other member
          have := further.floor
          omega

/-- All matches in a text are well placed. -/
theorem findAll_wellPlaced (found : matcher.findAll text = some spans) : WellPlaced text spans :=
  (findFrom_wellPlaced (Cursor.start_on text) found).1

end Matcher

end RegexLens
