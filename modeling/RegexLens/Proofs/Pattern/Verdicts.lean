import RegexLens.Proofs.Pattern.PendingAlternative
import RegexLens.Proofs.Pattern.Nesting
import RegexLens.Proofs.Pattern.TrailingBar

/-! The verdicts on quantifiers and alternators, which hold in faulty patterns too. -/

namespace RegexLens

/-- Whether a token is an error of some kind, as a whole. -/
def Classification.Flags (classification : Classification) (kind : FaultKind) (token : Token) :
    Prop :=
  ∃ fault : Fault, fault.kind = kind ∧
    ⟨fault, token.start, token.text⟩ ∈ classification.diagnostics

/-- Whether no quantifier can follow a token that stands behind some others. -/
def Token.Bars (front : List Token) (token : Token) : Prop :=
  match token.kind with
  | .quantifier | .anchor | .alternator | .groupOpen => True
  | .escape => IsBoundary token.text ∨ token.text ∈ [['\\', 'c'], ['\\', 'u'], ['\\', 'x']]
  -- What matters of a group is its opening, however far away that is.
  | .groupClose => ¬ HasOpening front ∨ ∃ outer opening inner, front = outer ++ opening :: inner ∧
      opening.opens = true ∧ Balanced inner ∧ OpensLookahead opening.text
  | .characterClass | .dot | .literal => False

/-- Whether no quantifier can stand behind some tokens. -/
def Unrepeatable (before : List Token) : Prop :=
  before = [] ∨ ∃ front last, before = front ++ [last] ∧ last.Bars front

/-- Whether an alternator behind some tokens would leave an outermost alternative empty. -/
def LeavesEmpty (before : List Token) : Prop :=
  before = [] ∨
    (∃ front bar, before = front ++ [bar] ∧ bar.kind = .alternator) ∧ unclosed before = []

namespace Classifier

variable {state : Classifier} {token : Token}

/-- An escape can be repeated when it is complete and no test for a boundary. -/
theorem readEscape_quantifiable (state : Classifier) {sequence : Text}
    (text : token.text = '\\' :: sequence) :
    (state.readEscape token).last.quantifiable = true ↔ GoodEscape token.text := by
  rw [text, goodEscape_cons]
  cases sequence with
  | nil => simp [readEscape, text, follow]
  | cons first rest =>
    simp only [readEscape, text, List.drop_succ_cons, List.drop_zero]
    -- The kinds of escapes are told apart in the same order.
    by_cases numbered : startsNumbered (first :: rest) = true
    · obtain ⟨complete, lower, upper⟩ := startsNumbered_excludes numbered
      simp [numbered, complete, lower, upper, readNumberedEscape, follow]
    · by_cases incomplete : isIncomplete (first :: rest) = true
      · simp [numbered, incomplete, follow]
      · by_cases special : isSpecialEscape first = true
        · simp [numbered, incomplete, special, follow]
        · -- Both letters that test for a boundary are special.
          have other : first ≠ 'b' ∧ first ≠ 'B' := by
            constructor <;> rintro rfl <;> exact special (by decide)
          simp [numbered, incomplete, special, follow, other]

/-- What follows a token can be repeated by a quantifier. -/
theorem read_quantifiable (state : Classifier) (shaped : token.Shaped) :
    (state.read token).last.quantifiable = true ↔
      match token.kind with
      | .characterClass | .dot | .literal => True
      | .escape => GoodEscape token.text
      | .groupClose => ∃ group ∈ state.openGroups.head?, ¬ OpensLookahead group.opening
      | .quantifier | .anchor | .alternator | .groupOpen => False := by
  have form := shaped.form
  -- The shape of the token is used for escapes alone, which have to start with a backslash.
  cases kind : token.kind with
  | escape =>
    rw [kind] at form
    obtain ⟨sequence, text⟩ := form.of_escape
    rw [read, kind]
    exact state.readEscape_quantifiable text
  | groupClose =>
    -- With no group open the parenthesis is a fault, and otherwise it looks at the opening.
    simp only [read, kind, readGroupClose]
    cases state.openGroups <;> simp [follow, OpensLookahead]
  | groupOpen =>
    simp only [read, kind, readGroupOpen]
    split <;> simp [follow]
  -- The other kinds have one answer, whatever the state is.
  | _ => simp [read, kind, readClass, readQuantifier, readAlternator, follow]

/-- The role of a token is to be an alternator or not. -/
theorem read_role (state : Classifier) (token : Token) :
    (state.read token).last.role =
      if token.kind = .alternator then .alternator else .ordinary := by
  cases kind : token.kind with
  | escape =>
    simp only [read, kind, readEscape]
    -- Every way to show an escape makes it the last token.
    repeat' split
    all_goals first | rfl | contradiction
  | groupOpen =>
    -- Both ways to read an opening end with an ordinary token.
    simp only [read, kind, readGroupOpen]
    split <;> rfl
  | groupClose =>
    simp only [read, kind, readGroupClose]
    split <;> rfl
  -- The other kinds set the role in one step.
  | _ => rw [read, kind]; rfl

/-- Only a closing parenthesis hands the style of its group on. -/
theorem read_style? (state : Classifier) (token : Token) :
    (state.read token).last.style? =
      if token.closes && !state.openGroups.isEmpty then some (.group state.level) else none := by
  cases kind : token.kind with
  -- However an escape is read, it hands no style on.
  | escape =>
    simp only [read, kind, readEscape, Token.closes]
    repeat' split
    all_goals first | rfl | contradiction
  | groupOpen =>
    simp only [read, kind, readGroupOpen, Token.closes]
    split <;> rfl
  | groupClose =>
    simp only [read, kind, readGroupClose, Token.closes]
    -- With a group open the style handed on is the one that the parenthesis is shown in.
    split <;> simp_all [follow]
  | _ => simp [read, kind, readClass, readQuantifier, readAlternator, follow, Token.closes]

end Classifier

section

variable {pattern : Text} {before after : List Token} {token : Token}

/-- The innermost open group is that of the opening which a closing parenthesis would match. -/
theorem exists_openGroup_iff (front : List Token) (lookahead : Text → Prop) :
    (∃ group ∈ (front.foldl Classifier.read .initial).openGroups.head?, ¬ lookahead group.opening) ↔
      HasOpening front ∧ ¬ ∃ outer opening inner, front = outer ++ opening :: inner ∧
        opening.opens = true ∧ Balanced inner ∧ lookahead opening.text := by
  have groups := (Classifier.nests_unclosed front).groups
  rw [hasOpening_iff]
  -- The stack of the openings left open stands for the groups of the state.
  cases stack : unclosed front with
  | nil =>
    rw [stack] at groups
    simp [List.map_eq_nil_iff.mp groups]
  | cons opening below =>
    rw [stack] at groups
    obtain ⟨group, outer, opened, same, _⟩ := List.map_eq_cons_iff.mp groups
    -- Every opening that could be the partner is this one.
    have partner : (∃ outer opening inner, front = outer ++ opening :: inner ∧
        opening.opens = true ∧ Balanced inner ∧ lookahead opening.text) ↔
          lookahead opening.text := by
      constructor
      · -- Both of them are on top of the stack, since what is between them is balanced.
        rintro ⟨outer, other, inner, rfl, opens, balanced, known⟩
        rw [unclosed_of_balanced outer opens balanced] at stack
        rwa [← (List.cons.inj stack).1]
      · intro known
        -- What is on top of the stack was opened somewhere, with balanced tokens behind it.
        obtain ⟨outer, inner, cut, opens, balanced, _⟩ := exists_of_unclosed stack
        exact ⟨outer, opening, inner, cut, opens, balanced, known⟩
    rw [partner, opened]
    simp [(Prod.mk.inj same).2]

/-- What stands in front of a token decides whether the state lets a quantifier follow. -/
theorem quantifiable_iff (cut : scan pattern = before ++ token :: after) :
    (before.foldl Classifier.read .initial).last.quantifiable = true ↔ ¬ Unrepeatable before := by
  -- Only the last token in front decides, so it is split off.
  rcases List.eq_nil_or_concat before with rfl | ⟨front, last, rfl⟩
  · simp [Classifier.initial, Unrepeatable]
  · rw [List.concat_eq_append] at cut ⊢
    -- There is one way to split the last token off, so the token that bars is this one.
    have barred : Unrepeatable (front ++ [last]) ↔ last.Bars front := by
      constructor
      · rintro (nothing | ⟨other, final, same, bars⟩)
        · simp at nothing
        · obtain ⟨rfl, ends⟩ := List.append_inj' same rfl
          rwa [List.singleton_inj.mp ends]
      · exact fun bars => .inr ⟨front, last, rfl, bars⟩
    have inside : scan pattern = front ++ last :: (token :: after) := by simp [cut]
    rw [barred, List.foldl_append, List.foldl_cons, List.foldl_nil,
      Classifier.read_quantifiable _ (shaped_of_cut inside), Token.Bars]
    -- What the state allows behind a token has been settled for each kind of token.
    cases kind : last.kind with
    | escape =>
      -- The only other escape that cannot be repeated is the one that nothing follows.
      have early : last ∈ (scan pattern).dropLast := by
        rw [inside, List.dropLast_append_of_ne_nil (by simp)]
        simp
      have applied := ((Scanner.start pattern).whole_of_mem_dropLast last early).1 kind
      simp only [GoodEscape, IsBoundary, List.mem_cons, List.not_mem_nil, or_false]
      tauto
    | groupClose =>
      -- A parenthesis that closes a group bars when nothing is open or when a lookahead is.
      rw [not_or, not_not]
      exact exists_openGroup_iff front OpensLookahead
    | _ => simp

/-- The last token has the role of an alternator or not, and at the start there is none. -/
theorem role_iff (before : List Token) :
    ((before.foldl Classifier.read .initial).last.role = .initial ↔ before = []) ∧
      ((before.foldl Classifier.read .initial).last.role = .alternator ↔
        ∃ front bar, before = front ++ [bar] ∧ bar.kind = .alternator) := by
  -- The role is that of the token read last, if there is one.
  rcases List.eq_nil_or_concat before with rfl | ⟨front, last, rfl⟩
  · simp [Classifier.initial]
  · rw [List.concat_eq_append, List.foldl_append, List.foldl_cons, List.foldl_nil,
      Classifier.read_role]
    refine ⟨by split <;> simp, ?_⟩
    constructor
    · -- A token of another kind would have another role.
      intro role
      exact ⟨front, last, rfl, by_contra fun other => by simp [other] at role⟩
    · rintro ⟨other, bar, same, kind⟩
      obtain ⟨-, ends⟩ := List.append_inj' same rfl
      rw [List.singleton_inj.mp ends, if_pos kind]

/-- Every fault of a pattern takes up a byte. -/
theorem fault_occupies {fault : Diagnostic} (member : fault ∈ (classify pattern).diagnostics) :
    0 < byteSize fault.text := by
  have accounts := classify_accounts pattern
  -- A fault is listed with an error span, and no such span is empty.
  have listed : fault.place ∈ (classify pattern).markup.spansOf .error 0 := by
    rw [accounts.spans]
    exact List.mem_map_of_mem member
  exact Nat.pos_of_ne_zero fun empty =>
    accounts.separate.nonempty listed (byteSize_eq_zero.mp empty)

/-- Each fault of a pattern ends before the next one starts. -/
theorem faults_ordered (pattern : Text) :
    (classify pattern).diagnostics.Pairwise fun first second =>
      first.offset + byteSize first.text ≤ second.offset := by
  have accounts := classify_accounts pattern
  -- The error spans do not overlap, and the faults are their places in the same order.
  have ordered := accounts.separate.pairwise 0
  rwa [accounts.spans, List.pairwise_map] at ordered

/-- Faults of a pattern that share a byte are the same. -/
theorem eq_of_overlap {first second : Diagnostic}
    (here : first ∈ (classify pattern).diagnostics)
    (there : second ∈ (classify pattern).diagnostics)
    (starts : first.offset < second.offset + byteSize second.text)
    (ends : second.offset < first.offset + byteSize first.text) : first = second := by
  -- Of two faults that are apart, one ends before the other starts, whichever comes first.
  have apart := (faults_ordered pattern).imp fun {first second : Diagnostic} before =>
    show first.offset + byteSize first.text ≤ second.offset ∨
      second.offset + byteSize second.text ≤ first.offset from .inl before
  have symmetric : Std.Symm fun first second : Diagnostic =>
      first.offset + byteSize first.text ≤ second.offset ∨
        second.offset + byteSize second.text ≤ first.offset := ⟨fun _ _ => Or.symm⟩
  -- Two faults that are not the same would be apart, but these share a byte.
  refine by_contra fun different => ?_
  have separate := apart.forall here there different
  omega

/-- A token that is flagged with a fault is flagged with no other one. -/
theorem flags_iff {fault : Fault} {kind : FaultKind}
    (flagged : ⟨fault, token.start, token.text⟩ ∈ (classify pattern).diagnostics) :
    (classify pattern).Flags kind token ↔ fault.kind = kind := by
  constructor
  · rintro ⟨other, same, member⟩
    -- A flagged token has a fault that starts where the token does, and both are not empty.
    have occupied := fault_occupies flagged
    have unique := eq_of_overlap flagged member (Nat.lt_add_of_pos_right occupied)
      (Nat.lt_add_of_pos_right occupied)
    rw [← same, (Diagnostic.mk.inj unique).1]
  · exact fun same => ⟨fault, same, flagged⟩

/-- What is shown in a style other than that of errors is flagged with no fault. -/
theorem not_flags_of_shows (cut : scan pattern = before ++ token :: after) {style : Style}
    (shows : (classify pattern).markup.Shows style token) (harmless : style ≠ .error)
    (kind : FaultKind) : ¬ (classify pattern).Flags kind token := by
  rintro ⟨fault, -, member⟩
  exact not_mem_of_shows cut shows harmless fault member

/-- The fault of bounds is that of a range, whatever is wrong with them. -/
theorem boundsFault?_kind {lower : Text} {upper? : Option Text} {fault : Fault}
    (found : boundsFault? lower upper? = some fault) : fault.kind = .range := by
  revert found
  fun_cases boundsFault? lower upper? with
  -- Where nothing is found there is no fault to speak of.
  | case4 | case5 => exact fun none => absurd none (Option.some_ne_none fault).symm
  -- All three faults that can be found are those of a range.
  | case1 | case2 | case3 =>
    rintro ⟨⟩
    rfl

/-- The fault of an interval is one of its bounds. -/
theorem intervalFault?_kind {text : Text} {fault : Fault} (found : intervalFault? text = some fault) :
    fault.kind = .range := by
  revert found
  fun_cases intervalFault? text with
  -- The fault is that of the bounds between the braces.
  | case1 => exact boundsFault?_kind
  | case2 | case3 => exact fun none => absurd none (Option.some_ne_none fault).symm

/-- How a quantifier behind some tokens is judged and shown. -/
structure QuantifierVerdict (classification : Classification) (before : List Token)
    (token : Token) : Prop where
  /-- It is out of place when nothing in front of it can be repeated. -/
  structural : classification.Flags .structural token ↔ Unrepeatable before
  /-- Elsewhere its bounds are judged. -/
  range : classification.Flags .range token ↔ ¬ Unrepeatable before ∧ ¬ GoodQuantifier token.text
  /-- Behind a group it has the style of both parentheses. -/
  repeated : ¬ Unrepeatable before → GoodQuantifier token.text →
    ∀ outer opening inner closing, before = outer ++ opening :: (inner ++ [closing]) →
      opening.opens = true → Balanced inner → closing.closes = true →
      ∃ style, classification.markup.Shows style opening ∧
        classification.markup.Shows style closing ∧ classification.markup.Shows style token
  /-- Behind anything else it is special. -/
  single : ¬ Unrepeatable before → GoodQuantifier token.text →
    (∀ last ∈ before.getLast?, last.closes = false) → classification.markup.Shows .special token

/-- The style that a quantifier takes over is that of the group in front of it. -/
theorem style?_of_group {outer inner : List Token} {opening closing : Token}
    (opens : opening.opens = true) (balanced : Balanced inner) (closes : closing.closes = true) :
    ((outer ++ opening :: (inner ++ [closing])).foldl Classifier.read .initial).last.style? =
      some (nestingStyle ((unclosed outer).length + 1)) := by
  -- In front of the bracket the group is open, at the level that its nesting asks for.
  have nests := Classifier.nests_unclosed (outer ++ opening :: inner)
  have stack := unclosed_of_balanced outer opens balanced
  have style := nests.style (by simp [stack])
  have cut : outer ++ opening :: (inner ++ [closing]) = (outer ++ opening :: inner) ++ [closing] := by
    simp
  -- So the bracket does close a group, and its style is handed on.
  have open' : ((outer ++ opening :: inner).foldl Classifier.read .initial).openGroups.isEmpty =
      false := by
    rw [List.isEmpty_eq_false_iff, ← List.length_pos_iff, nests.length, stack]
    simp
  rw [cut, List.foldl_append, List.foldl_cons, List.foldl_nil, Classifier.read_style?, closes,
    open', style, stack]
  rfl

/-- A quantifier behind something that cannot be repeated is flagged as out of place. -/
theorem flagged_misplaced (cut : scan pattern = before ++ token :: after)
    (kind : token.kind = .quantifier) (barred : Unrepeatable before) :
    ⟨.misplacedQuantifier, token.start, token.text⟩ ∈ (classify pattern).diagnostics := by
  -- The state refuses the quantifier, and what is refused is flagged.
  have refused := mt (quantifiable_iff cut).mp (not_not.mpr barred)
  apply mem_of_flagged cut
  simp only [Classifier.read, kind, Classifier.readQuantifier, refused]
  rfl

/-- A quantifier in its place is flagged with the fault of its bounds. -/
theorem flagged_bounds (cut : scan pattern = before ++ token :: after)
    (kind : token.kind = .quantifier) (free : ¬ Unrepeatable before) {fault : Fault}
    (bad : intervalFault? token.text = some fault) :
    ⟨fault, token.start, token.text⟩ ∈ (classify pattern).diagnostics := by
  -- The state allows the quantifier, so that its bounds are looked at.
  have allowed := (quantifiable_iff cut).mpr free
  apply mem_of_flagged cut
  simp only [Classifier.read, kind, Classifier.readQuantifier, allowed, bad]
  rfl

/-- A quantifier without a fault takes over the style of the token in front of it, if that has one
to hand on. -/
theorem shows_quantifier (cut : scan pattern = before ++ token :: after)
    (kind : token.kind = .quantifier) (free : ¬ Unrepeatable before)
    (clean : intervalFault? token.text = none) :
    (classify pattern).markup.Shows
      ((before.foldl Classifier.read .initial).last.style?.getD .special) token := by
  have allowed := (quantifiable_iff cut).mpr free
  apply shows_of_styled cut (by simp [Token.opens, kind])
  simp only [Classifier.read, kind, Classifier.readQuantifier, allowed, clean]
  rfl

/-- No style that a quantifier takes over is that of errors. -/
theorem style?_ne_error (cut : scan pattern = before ++ after) :
    (before.foldl Classifier.read .initial).last.style?.getD .special ≠ .error := by
  intro same
  -- The style that is handed on is the one of a group, as the invariant of the run says.
  have other := (accounted_of_cut cut).harmless
  cases style : (before.foldl Classifier.read .initial).last.style? with
  | none => simp [style] at same
  | some own => exact other (by rw [style]; exact congrArg some (by simpa [style] using same))

/-- Every quantifier is judged by the token in front of it and by its bounds. -/
theorem quantifierVerdict (cut : scan pattern = before ++ token :: after)
    (kind : token.kind = .quantifier) :
    QuantifierVerdict (classify pattern) before token := by
  have form := (shaped_of_cut cut).form
  rw [kind] at form
  have judged := goodQuantifier_iff form
  -- The place is judged before the bounds, and each outcome is the only one.
  by_cases barred : Unrepeatable before
  · have member := flagged_misplaced cut kind barred
    constructor <;> simp [flags_iff member, barred, Fault.kind]
  · cases bad : intervalFault? token.text with
    | some fault =>
      have member := flagged_bounds cut kind barred bad
      have faulty : ¬ GoodQuantifier token.text := by simp [judged, bad]
      constructor <;> simp [flags_iff member, barred, faulty, intervalFault?_kind bad]
    | none =>
      -- Nothing is wrong, so the quantifier is shown in a style and not flagged.
      have shown := shows_quantifier cut kind barred bad
      have good := judged.mpr bad
      have unflagged := not_flags_of_shows cut shown (style?_ne_error cut)
      refine ⟨by simp [unflagged, barred], by simp [unflagged, good], ?_, ?_⟩
      · -- Behind a group all three of its tokens have the style of its nesting.
        rintro - - outer opening inner closing rfl opens balanced closes
        rw [style?_of_group opens balanced closes] at shown
        have whole : scan pattern =
            outer ++ opening :: (inner ++ closing :: (token :: after)) := by simp [cut]
        have inside : scan pattern = (outer ++ opening :: inner) ++ closing :: (token :: after) := by
          simp [cut]
        have stack := unclosed_of_balanced outer opens balanced
        have closed := shows_closing inside closes (by simp [stack])
        rw [stack] at closed
        exact ⟨_, shows_opening whole opens closes balanced, closed, shown⟩
      · -- Behind anything else there is no style to take over.
        intro _ _ single
        rcases List.eq_nil_or_concat before with rfl | ⟨front, last, rfl⟩
        · exact absurd (.inl rfl) barred
        · rw [List.concat_eq_append] at single shown
          rw [List.foldl_append, List.foldl_cons, List.foldl_nil, Classifier.read_style?,
            single last (by simp)] at shown
          exact shown

/-- An alternator leaves an outermost alternative empty when it would follow nothing, or another
alternator outside of every group. -/
theorem leavesEmpty_iff (before : List Token) :
    LeavesEmpty before ↔ (before.foldl Classifier.read .initial).last.role = .initial ∨
      (before.foldl Classifier.read .initial).last.role = .alternator ∧
        (before.foldl Classifier.read .initial).openGroups = [] := by
  -- The groups that are open are counted by the stack of openings.
  have outermost : (before.foldl Classifier.read .initial).openGroups = [] ↔ unclosed before = [] := by
    rw [← List.length_eq_zero_iff, (Classifier.nests_unclosed before).length,
      List.length_eq_zero_iff]
  rw [(role_iff before).1, (role_iff before).2, outermost]
  rfl

/-- An alternator is flagged exactly when it leaves an outermost alternative empty. -/
theorem flags_alternator_iff (cut : scan pattern = before ++ token :: after)
    (kind : token.kind = .alternator) :
    (∃ level, (classify pattern).Flags level token) ↔ LeavesEmpty before := by
  have quiet : token.opens = false := by simp [Token.opens, kind]
  have condition := leavesEmpty_iff before
  constructor
  · -- A flag on the alternator goes together with no other style.
    rintro ⟨level, flagged⟩
    refine by_contra fun full => ?_
    obtain ⟨started, inside⟩ := not_or.mp (mt condition.mpr full)
    -- Elsewhere the alternator is shown in a style of its own.
    have shown : ∃ style, style ≠ .error ∧ (classify pattern).markup.Shows style token := by
      by_cases outermost : (before.foldl Classifier.read .initial).openGroups = []
      · have single : (before.foldl Classifier.read .initial).last.role ≠ .alternator :=
          fun role => inside ⟨role, outermost⟩
        refine ⟨.special, by simp, shows_of_styled cut quiet ?_⟩
        simp [Classifier.read, kind, Classifier.readAlternator, started, single, outermost]
      · -- Inside a group the alternator has the style of the group.
        refine ⟨.group (before.foldl Classifier.read .initial).level, by simp,
          shows_of_styled cut quiet ?_⟩
        simp only [Classifier.read, kind, Classifier.readAlternator, started, outermost,
          List.isEmpty_iff, decide_false, Bool.false_or, Bool.and_eq_true, and_false, if_false]
    obtain ⟨style, harmless, shows⟩ := shown
    exact not_flags_of_shows cut shows harmless level flagged
  · -- Where the alternative is empty, the alternator is read as a fault.
    intro empty
    rw [condition] at empty
    refine ⟨.structural, .emptyAlternative, rfl, mem_of_flagged cut ?_⟩
    simp only [Classifier.read, kind, Classifier.readAlternator, Bool.or_eq_true, Bool.and_eq_true,
      decide_eq_true_eq, List.isEmpty_iff, empty, if_true]

end

/-- The alternatives that tokens form on the outermost level, given the groups that are open in
front of them and the tokens of the alternative that they go on with. -/
def alternativesFrom (stack current : List Token) : List Token → List (List Token)
  | [] => [current]
  | token :: rest =>
    if token.kind = .alternator ∧ stack = [] then current :: alternativesFrom [] [] rest
    else alternativesFrom (token.nest stack) (current ++ [token]) rest

/-- The alternatives of a pattern on the outermost level; a pattern without tokens has none. -/
def outerAlternatives (tokens : List Token) : List (List Token) :=
  if tokens = [] then [] else alternativesFrom [] [] tokens

/-- There is always an alternative to go on with. -/
theorem alternativesFrom_ne_nil (stack current tokens : List Token) :
    alternativesFrom stack current tokens ≠ [] := by
  -- Each token adds to the alternative that is read, or it starts another one.
  fun_induction alternativesFrom stack current tokens with
  | case1 => simp
  | case2 => simp
  | case3 _ _ _ _ _ ih => exact ih

/-- When no alternator leaves an alternative empty, only the last alternative can be empty. -/
theorem dropLast_alternativesFrom {front current : List Token} (tokens : List Token)
    (start : current = [] → LeavesEmpty front)
    (full : ∀ before token after, front ++ tokens = before ++ token :: after →
      token.kind = .alternator → ¬ LeavesEmpty before) :
    ∀ alternative ∈ (alternativesFrom (unclosed front) current tokens).dropLast,
      alternative ≠ [] := by
  -- The alternative that is being read is empty only where an alternator would be flagged.
  induction tokens generalizing front current with
  | nil => simp [alternativesFrom]
  | cons token rest ih =>
    have further : ∀ before other after, front ++ [token] ++ rest = before ++ other :: after →
        other.kind = .alternator → ¬ LeavesEmpty before := by simpa using full
    rw [alternativesFrom]
    split
    · -- The alternator ends the alternative, which is full, and the next one starts behind it.
      rename_i ends
      have outermost : unclosed (front ++ [token]) = [] := by
        simp [unclosed_concat, Token.nest, Token.opens, Token.closes, ends]
      have others := @ih (front ++ [token]) [] (fun _ => .inr ⟨⟨front, token, rfl, ends.1⟩,
        outermost⟩) further
      rw [outermost] at others
      rw [List.dropLast_cons_of_ne_nil (alternativesFrom_ne_nil _ _ _), List.forall_mem_cons]
      exact ⟨fun nothing => full front token rest rfl ends.1 (start nothing), others⟩
    · -- Any other token goes into the alternative, which is then not empty.
      have others := @ih (front ++ [token]) (current ++ [token]) (by simp) further
      rwa [unclosed_concat] at others

/-- A last alternative that is empty has no tokens, or it stands behind a last alternator. -/
theorem getLast?_alternativesFrom {stack current tokens : List Token}
    (empty : (alternativesFrom stack current tokens).getLast? = some []) :
    (current = [] ∧ tokens = []) ∨
      ∃ front bar, tokens = front ++ [bar] ∧ bar.kind = .alternator := by
  -- The tokens are walked through with whatever has been read of the alternative.
  induction tokens generalizing stack current with
  | nil => exact .inl ⟨by simpa [alternativesFrom] using empty, rfl⟩
  | cons token rest ih =>
    rw [alternativesFrom] at empty
    split at empty
    · -- Behind an alternator the last alternative starts without tokens.
      rename_i ends
      rw [List.getLast?_cons_of_ne_nil (alternativesFrom_ne_nil _ _ _)] at empty
      rcases ih empty with ⟨-, rfl⟩ | ⟨front, bar, rfl, kind⟩
      · exact .inr ⟨[], token, rfl, ends.1⟩
      · exact .inr ⟨token :: front, bar, rfl, kind⟩
    · -- An alternative with a token in it is not empty.
      rcases ih empty with ⟨nothing, -⟩ | ⟨front, bar, rfl, kind⟩
      · simp at nothing
      · exact .inr ⟨token :: front, bar, rfl, kind⟩

/-- Without its last alternator a pattern without faults ends with none. -/
theorem sansTrailingAlternator_ends {pattern : Text} (derives : Derives .pattern (scan pattern)) :
    ∀ last ∈ (scan (sansTrailingAlternator pattern)).getLast?, last.kind ≠ .alternator := by
  -- Whether there is a last token, and what it is, decides what is dropped.
  have texts := scan_text pattern
  rcases List.eq_nil_or_concat (scan pattern) with none | ⟨front, last, tokens⟩
  · have blank : pattern = [] := by rw [← texts, none]; rfl
    subst blank
    simp [sansTrailingAlternator, none]
  · rw [List.concat_eq_append] at tokens
    by_cases bar : last.kind = .alternator
    · -- What stands in front of the last alternator are branches, which end with a term.
      rw [sansTrailingAlternator_of_derives derives tokens, if_pos bar, List.append_nil,
        scan_front tokens]
      rw [tokens] at derives
      exact (derives.branches_of_bar bar).ends (by decide)
    · have ends : ∀ other ∈ (scan pattern).getLast?, other.kind ≠ .alternator := by
        simpa [tokens] using bar
      rwa [sansTrailingAlternator_of_ends derives ends]

/-- A pattern without faults leaves no alternative empty but possibly the last one. -/
theorem dropLast_outerAlternatives {pattern : Text}
    (accepted : (classify pattern).diagnostics = []) :
    ∀ alternative ∈ (outerAlternatives (scan pattern)).dropLast, alternative ≠ [] := by
  unfold outerAlternatives
  split
  · simp
  · refine @dropLast_alternativesFrom [] [] (scan pattern) (fun _ => .inl rfl) ?_
    -- An alternator that leaves an alternative empty is a fault.
    intro before token after cut kind empty
    obtain ⟨level, fault, -, member⟩ := (flags_alternator_iff cut kind).mpr empty
    simp [accepted] at member

/-- A pattern without faults that ends with no alternator leaves no alternative empty. -/
theorem outerAlternatives_full {pattern : Text} (accepted : (classify pattern).diagnostics = [])
    (ends : ∀ last ∈ (scan pattern).getLast?, last.kind ≠ .alternator) :
    ∀ alternative ∈ outerAlternatives (scan pattern), alternative ≠ [] := by
  -- All alternatives but the last are full already, so the last one is left.
  have fronts := dropLast_outerAlternatives accepted
  rintro alternative member rfl
  rcases List.eq_nil_or_concat (outerAlternatives (scan pattern)) with none | ⟨init, last, split⟩
  · simp [none] at member
  · rw [List.concat_eq_append] at split
    rw [split, List.dropLast_concat] at fronts
    rw [split, List.mem_append, List.mem_singleton] at member
    rcases member with early | rfl
    · exact fronts [] early rfl
    · -- The empty alternative is the last one.
      unfold outerAlternatives at split
      split at split
      · simp at split
      · rename_i solid
        have empty : (alternativesFrom [] [] (scan pattern)).getLast? = some [] := by simp [split]
        rcases getLast?_alternativesFrom empty with ⟨-, nothing⟩ | ⟨front, bar, tokens, kind⟩
        · exact solid nothing
        · exact ends bar (by simp [tokens]) kind

/-- The verdicts on quantifiers and alternators at whatever place of a pattern, valid or not: a
quantifier is judged by the token in front of it, by the opening that a parenthesis in front of it
closes, and by its bounds, and an alternator by what it leaves empty. So no alternative of a pattern
without faults is empty but possibly the last one, and none is when a last alternator is dropped. -/
theorem classify_verdicts (pattern : Text) :
    (∀ before token after, scan pattern = before ++ token :: after →
      (token.kind = .quantifier → QuantifierVerdict (classify pattern) before token) ∧
      (token.kind = .alternator →
        ((∃ level, (classify pattern).Flags level token) ↔ LeavesEmpty before))) ∧
    ((classify pattern).diagnostics = [] →
      (∀ alternative ∈ (outerAlternatives (scan pattern)).dropLast, alternative ≠ []) ∧
      ∀ alternative ∈ outerAlternatives (scan (sansTrailingAlternator pattern)),
        alternative ≠ []) := by
  refine ⟨fun before token after cut => ⟨quantifierVerdict cut, flags_alternator_iff cut⟩, ?_⟩
  -- Dropping the last alternator keeps the pattern accepted, so the same result applies to it.
  intro accepted
  have derives := derives_of_accepted accepted
  exact ⟨dropLast_outerAlternatives accepted, outerAlternatives_full
    (accepted_of_derives (derives_sansTrailingAlternator derives).1)
    (sansTrailingAlternator_ends derives)⟩

end RegexLens
