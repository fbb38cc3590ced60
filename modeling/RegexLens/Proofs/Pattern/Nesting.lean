import RegexLens.Proofs.Pattern.Brackets
import RegexLens.Proofs.Pattern.References

/-! How deep groups nest in a pattern decides their styles, and lacking a partner is a fault. -/

namespace RegexLens

/-- The style of a group, by the number of groups that are open when it is counted as well. -/
def nestingStyle (depth : Nat) : Style :=
  .group ((depth - 1) % 5 + 1)

/-- The style of a mark between alternatives, by the number of groups that are open around it. -/
def alternatorStyle (depth : Nat) : Style :=
  if depth = 0 then .special else nestingStyle depth

/-- Whether a token is shown in a style, as a span of its own on the outermost level. -/
def Markup.Shows (markup : Markup) (style : Style) (token : Token) : Prop :=
  ∃ index, markup.spanAt? index 0 = some (token.start, style, .text token.text .nil)

namespace Classifier

variable {state : Classifier} {stack : List Token}

/-- A classification whose open groups have the openings on a stack, and its level their number. -/
structure Nests (state : Classifier) (stack : List Token) : Prop where
  groups : state.openGroups.map (fun group => (group.offset, group.opening)) =
    stack.map fun opening => (opening.start, opening.text)
  level : state.level = (stack.length + 4) % 5 + 1

/-- Before the first token no group is open. -/
theorem nests_initial : initial.Nests [] := ⟨rfl, rfl⟩

/-- There are as many open groups as openings on the stack. -/
theorem Nests.length (nests : state.Nests stack) : state.openGroups.length = stack.length := by
  simpa using congrArg List.length nests.groups

/-- The innermost open group has the style of its depth. -/
theorem Nests.style (nests : state.Nests stack) (inside : stack ≠ []) :
    Style.group state.level = nestingStyle stack.length := by
  have positive := List.length_pos_iff.mpr inside
  -- The level counts the groups modulo five, starting below the first level.
  simp only [nestingStyle, nests.level, Style.group.injEq]
  omega

/-- A token changes the open groups as it changes the stack. -/
theorem Nests.read (nests : state.Nests stack) (token : Token) :
    (state.read token).Nests (token.nest stack) := by
  obtain ⟨groups, level⟩ := state.read_nesting token
  have height := nests.level
  unfold Token.nest
  by_cases opens : token.opens = true
  · -- The level goes up by one, and starts again behind the last one.
    rw [if_pos opens] at groups level ⊢
    refine ⟨by simp [groups, nests.groups], ?_⟩
    simp only [level, groupStyles, List.length_cons]
    omega
  · -- What follows is left of the cases: a closing parenthesis, and a token that is neither.
    rw [if_neg opens] at groups level ⊢
    by_cases closes : token.closes = true
    · rw [if_pos closes] at groups ⊢
      cases stack with
      | nil =>
        -- Without an open group there is nothing to close.
        have none : state.openGroups = [] := List.length_eq_zero_iff.mp nests.length
        simp only [none, List.isEmpty_nil, Bool.not_true, Bool.and_false, Bool.false_eq_true,
          if_false] at level
        exact ⟨by simp [groups, none], level.trans height⟩
      | cons opening outer =>
        -- The level goes down by one, and from the first one back to the last.
        have some : state.openGroups.isEmpty = false := by
          have size := nests.length
          cases opened : state.openGroups with
          | nil => simp [opened] at size
          | cons group below => rfl
        simp only [closes, some, Bool.not_false, Bool.and_self, if_true, groupStyles] at level
        simp only [List.length_cons] at height
        refine ⟨by simp [groups, nests.groups], ?_⟩
        simp only [level, List.tail_cons]
        split <;> omega
    · -- Any other token changes neither the groups nor the level.
      rw [if_neg closes] at groups ⊢
      rw [Bool.not_eq_true] at closes
      simp only [closes, Bool.false_and, Bool.false_eq_true, if_false] at level
      exact ⟨by rw [groups, nests.groups], level.trans height⟩

/-- Tokens change the open groups as they change the stack. -/
theorem Nests.run (nests : state.Nests stack) (tokens : List Token) :
    (tokens.foldl Classifier.read state).Nests (tokens.foldl Token.nest stack) := by
  -- The induction is along the tokens, with any state that agrees with the stack.
  induction tokens generalizing state stack with
  | nil => exact nests
  | cons token rest ih => exact ih (nests.read token)

/-- The groups that are open behind some tokens are those that the tokens leave open. -/
theorem nests_unclosed (tokens : List Token) :
    (tokens.foldl Classifier.read initial).Nests (unclosed tokens) :=
  nests_initial.run tokens

/-- Behind balanced tokens the same groups are open as in front of them. -/
theorem openGroups_of_balanced {inner : List Token} (balanced : Balanced inner)
    (state : Classifier) : (inner.foldl Classifier.read state).openGroups = state.openGroups := by
  -- The induction is on the balanced tokens, so that a whole group is one step.
  induction balanced generalizing state with
  | nil => rfl
  -- A token that neither opens nor closes leaves the groups alone.
  | other token rest plain body ih =>
    rw [List.foldl_cons, ih, (state.read_nesting token).1]
    simp [plain]
  | enclosed opening closing inner rest opens closes inside body ihInside ihBody =>
    -- The group that the opening puts in front is the one that the closing token takes off.
    rw [List.foldl_cons, List.foldl_append, List.foldl_cons, ihBody,
      (Classifier.read_nesting _ closing).1, ihInside, (state.read_nesting opening).1]
    simp [opens, closes, Token.opens_of_closes closes]

end Classifier

section

variable {pattern : Text} {before after inner : List Token} {token opening closing : Token}
  {style : Style}

/-- Text of a token that is added in a style is found where the token starts. -/
theorem spanAt?_styled (cut : scan pattern = before ++ token :: after) (style : Style) :
    ((before.foldl Classifier.read .initial).styled style token.text).markup.spanAt?
      (before.foldl Classifier.read .initial).markup.length 0 =
        some (token.start, style, .text token.text .nil) := by
  -- A span that is added at the end stands behind the text shown so far.
  have found := Markup.spanAt?_length (before.foldl Classifier.read .initial).markup style
    (.text token.text .nil) 0
  rwa [Nat.zero_add, (accounted_of_cut cut).shown.text, ← start_of_cut cut] at found

/-- A token that opens no group is shown in the style in which it was added. -/
theorem shows_of_styled (cut : scan pattern = before ++ token :: after)
    (quiet : token.opens = false)
    (added : ((before.foldl Classifier.read .initial).read token).markup =
      ((before.foldl Classifier.read .initial).styled style token.text).markup) :
    (classify pattern).markup.Shows style token := by
  refine ⟨_, classify_shows cut quiet ?_⟩
  rw [added]
  exact spanAt?_styled cut style

/-- What is shown in a style other than that of errors is no fault. -/
theorem not_mem_of_shows (cut : scan pattern = before ++ token :: after)
    (shows : (classify pattern).markup.Shows style token) (harmless : style ≠ .error)
    (fault : Fault) : ⟨fault, token.start, token.text⟩ ∉ (classify pattern).diagnostics := by
  intro member
  obtain ⟨index, there⟩ := shows
  have size : 0 < byteSize token.text :=
    Nat.pos_of_ne_zero fun empty => (shaped_of_cut cut).nonempty (byteSize_eq_zero.mp empty)
  -- The fault would be an error span in the place of the token.
  have found : (token.start, token.text) ∈ (classify pattern).markup.spansOf .error 0 := by
    rw [(classify_accounts pattern).spans]
    exact List.mem_map_of_mem (f := Diagnostic.place) member
  exact harmless (Markup.eq_of_mem_spansOf there found (Nat.lt_add_of_pos_right size)
    (Nat.lt_add_of_pos_right size)).1

/-- A flagged token is a fault of the pattern. -/
theorem mem_of_flagged (cut : scan pattern = before ++ token :: after) {fault : Fault}
    (flagged : ((before.foldl Classifier.read .initial).read token).diagnostics =
      ((before.foldl Classifier.read .initial).flagged fault token).diagnostics) :
    ⟨fault, token.start, token.text⟩ ∈ (classify pattern).diagnostics := by
  -- The fault is there behind the token, and nothing that comes later removes it.
  rw [List.append_cons] at cut
  apply mem_classify_diagnostics cut
  rw [List.foldl_append, List.foldl_cons, List.foldl_nil, flagged]
  exact List.mem_append_right _ (List.mem_singleton.mpr rfl)

/-- The opening of a group that is closed is shown in the style of its depth. -/
theorem shows_opening (cut : scan pattern = before ++ opening :: (inner ++ closing :: after))
    (opens : opening.opens = true) (closes : closing.closes = true) (balanced : Balanced inner) :
    (classify pattern).markup.Shows (nestingStyle ((unclosed before).length + 1)) opening := by
  have nests := Classifier.nests_unclosed before
  -- The level that the opening leads to is one more, modulo five.
  have style : Style.group ((before.foldl Classifier.read .initial).level % groupStyles + 1) =
      nestingStyle ((unclosed before).length + 1) := by
    simp only [nestingStyle, nests.level, groupStyles, Style.group.injEq]
    omega
  have added : ((before.foldl Classifier.read .initial).read opening).markup =
      ((before.foldl Classifier.read .initial).styled
        (nestingStyle ((unclosed before).length + 1)) opening.text).markup := by
    simp only [Token.opens, Bool.and_eq_true, decide_eq_true_eq, bne_iff_ne] at opens
    rw [Classifier.read, opens.1, ← style]
    simp only [Classifier.readGroupOpen, if_neg opens.2]
    rfl
  have there := spanAt?_styled cut (nestingStyle ((unclosed before).length + 1))
  rw [← added] at there
  -- When the group is closed, the groups that are open are those that were open before it.
  have pair := Balanced.enclosed opening closing inner [] opens closes balanced .nil
  have whole : scan pattern = (before ++ opening :: (inner ++ [closing])) ++ after := by simp [cut]
  refine ⟨(before.foldl Classifier.read .initial).markup.length, classify_spanAt? whole ?_ ?_⟩
  · -- Growing markup keeps the span in its place.
    rw [List.foldl_append, List.foldl_cons]
    exact (Classifier.grows_run _ _).markup.span there
  · -- The groups that are open start in front of the opening, so none of them restyles it.
    intro group member
    rw [List.foldl_append, Classifier.openGroups_of_balanced pair] at member
    exact Nat.ne_of_lt ((accounted_of_cut cut).index_lt member)

/-- A closing parenthesis with a partner is shown in the style of the depth in front of it. -/
theorem shows_closing (cut : scan pattern = before ++ closing :: after)
    (closes : closing.closes = true) (paired : unclosed before ≠ []) :
    (classify pattern).markup.Shows (nestingStyle (unclosed before).length) closing := by
  -- The parenthesis takes the style of the group that it closes, which is still open in front of
  -- it.
  have nests := Classifier.nests_unclosed before
  have positive := List.length_pos_iff.mpr paired
  apply shows_of_styled cut (Token.opens_of_closes closes)
  simp only [Token.closes, decide_eq_true_eq] at closes
  rw [Classifier.read, closes, ← nests.style paired]
  simp only [Classifier.readGroupClose]
  split
  · -- Some group is open, since the parenthesis has a partner.
    rename_i none
    rw [← nests.length, none] at positive
    contradiction
  · rfl

/-- A closing parenthesis without a partner is flagged. -/
theorem flagged_closing (cut : scan pattern = before ++ closing :: after)
    (closes : closing.closes = true) (alone : unclosed before = []) :
    ⟨.unmatchedParenthesis, closing.start, closing.text⟩ ∈ (classify pattern).diagnostics := by
  -- Without an opening on the stack no group is open.
  have none : (before.foldl Classifier.read .initial).openGroups = [] := by
    rw [← List.length_eq_zero_iff, (Classifier.nests_unclosed before).length, alone]
    rfl
  apply mem_of_flagged cut
  simp only [Token.closes, decide_eq_true_eq] at closes
  simp only [Classifier.read, closes, Classifier.readGroupClose, none]
  rfl

/-- An opening without a partner is flagged. -/
theorem flagged_opening (cut : scan pattern = before ++ opening :: after)
    (opens : opening.opens = true) (alone : ¬ HasClosing after) :
    ⟨.unterminatedGroup, opening.start, opening.text⟩ ∈ (classify pattern).diagnostics := by
  -- What the opening puts on the stack is not taken off by what follows it.
  have left : opening ∈ unclosed (scan pattern) := by
    have kept := (hasClosing_or_suffix after).resolve_left alone (opening :: unclosed before)
    simp only [unclosed, cut, List.foldl_append, List.foldl_cons, Token.nest, opens, if_true]
    exact kept.subset (List.mem_cons_self ..)
  -- The group of the opening is still open at the end of the pattern.
  have place : (opening.start, opening.text) ∈
      ((scan pattern).foldl Classifier.read .initial).openGroups.map
        (fun group => (group.offset, group.opening)) := by
    rw [(Classifier.nests_unclosed (scan pattern)).groups]
    exact List.mem_map_of_mem (f := fun opening : Token => (opening.start, opening.text)) left
  obtain ⟨group, member, same⟩ := List.mem_map.mp place
  obtain ⟨offset, text⟩ := Prod.mk.inj same
  -- Its fault has the place and the text of the opening.
  rw [← offset, ← text]
  exact Classifier.mem_finish_diagnostics.mpr (.inr ⟨group, member, rfl⟩)

/-- An opening parenthesis with an unknown group type is flagged. -/
theorem flagged_groupType (cut : scan pattern = before ++ opening :: after)
    (kind : opening.kind = .groupOpen) (malformed : opening.text = ['(', '?']) :
    ⟨.invalidGroupType, opening.start, opening.text⟩ ∈ (classify pattern).diagnostics := by
  apply mem_of_flagged cut
  -- The type is judged before anything else, so no group is opened.
  simp only [Classifier.read, kind, Classifier.readGroupOpen, if_pos malformed]
  rfl

/-- A mark between alternatives is flagged, or shown in the style of the innermost open group. -/
theorem shows_alternator (cut : scan pattern = before ++ token :: after)
    (kind : token.kind = .alternator)
    (unflagged : ⟨.emptyAlternative, token.start, token.text⟩ ∉ (classify pattern).diagnostics) :
    (classify pattern).markup.Shows (alternatorStyle (unclosed before).length) token := by
  have nests := Classifier.nests_unclosed before
  apply shows_of_styled cut (by simp [Token.opens, kind])
  have flagged := @mem_of_flagged _ _ _ _ cut .emptyAlternative
  rw [Classifier.read, kind] at flagged ⊢
  simp only [Classifier.readAlternator] at flagged ⊢
  split
  · -- A leading mark and one behind another are flagged.
    rename_i empty
    rw [if_pos empty] at flagged
    exact absurd (flagged rfl) unflagged
  · -- Elsewhere the open groups decide, which are as many as the openings on the stack.
    split
    · rename_i outermost
      have none : (unclosed before).length = 0 := by
        rw [← nests.length, List.isEmpty_iff.mp outermost]
        rfl
      rw [alternatorStyle, if_pos none]
    · rename_i inside
      have some : (unclosed before).length ≠ 0 := by
        rw [← nests.length]
        simpa [List.isEmpty_iff] using inside
      rw [alternatorStyle, if_neg some, ← nests.style (by simpa using some)]

end

/-- The capturing groups of a pattern are counted by their openings. -/
theorem classify_capturingGroups (pattern : Text) :
    (classify pattern).capturingGroups = capturesIn (scan pattern) := by
  -- Abandoning a group does not change the count.
  have each (groups : List OpenGroup) (state : Classifier) :
      (groups.foldl Classifier.abandon state).captures = state.captures := by
    induction groups generalizing state with
    | nil => rfl
    | cons group rest ih => rw [List.foldl_cons, ih]; rfl
  have ended := each ((scan pattern).foldl Classifier.read .initial).openGroups.reverse
    ((scan pattern).foldl Classifier.read .initial)
  rw [(Classifier.run_references _ _).1] at ended
  exact ended.trans (Nat.zero_add _)

/-- Brackets are matched by a stack, at whatever place of a pattern one looks: lacking a partner is
the one fault of a bracket, an unknown group type is no bracket but always a fault, partners are
shown in the style of their depth, and so is an alternator in the style of the group around it. -/
theorem classify_brackets (pattern : Text) :
    (classify pattern).capturingGroups = capturesIn (scan pattern) ∧
      ∀ (before after : List Token) (token : Token), scan pattern = before ++ token :: after →
        (token.closes = true →
          (⟨.unmatchedParenthesis, token.start, token.text⟩ ∈ (classify pattern).diagnostics ↔
            ¬ HasOpening before)) ∧
        (token.opens = true →
          (⟨.unterminatedGroup, token.start, token.text⟩ ∈ (classify pattern).diagnostics ↔
            ¬ HasClosing after)) ∧
        (token.kind = .groupOpen → token.opens = false →
          token.text = ['(', '?'] ∧ token.captures = false ∧
          ⟨.invalidGroupType, token.start, token.text⟩ ∈ (classify pattern).diagnostics) ∧
        (token.kind = .alternator →
          ⟨.emptyAlternative, token.start, token.text⟩ ∉ (classify pattern).diagnostics →
          (classify pattern).markup.Shows (alternatorStyle (unclosed before).length) token) ∧
        (∀ (inner rest : List Token) (closing : Token), after = inner ++ closing :: rest →
          token.opens = true → closing.closes = true → Balanced inner →
          (unclosed (before ++ token :: inner)).length = (unclosed before).length + 1 ∧
          (classify pattern).markup.Shows (nestingStyle ((unclosed before).length + 1)) token ∧
          (classify pattern).markup.Shows (nestingStyle ((unclosed before).length + 1)) closing) := by
  -- Each of the faults excludes the style of a group, so that one style decides against it.
  refine ⟨classify_capturingGroups pattern, fun before after token cut => ⟨?_, ?_, ?_, ?_, ?_⟩⟩
  · -- With a partner the parenthesis is shown as part of a group.
    intro closes
    constructor
    · intro flagged paired
      exact not_mem_of_shows cut (shows_closing cut closes (hasOpening_iff.mp paired))
        (by simp [nestingStyle]) _ flagged
    · intro alone
      exact flagged_closing cut closes (Classical.not_not.mp (mt hasOpening_iff.mpr alone))
  · -- An opening with a partner is restyled when the group ends, so it is shown as part of it too.
    intro opens
    constructor
    · rintro flagged ⟨inner, closing, rest, rfl, closes, balanced⟩
      exact not_mem_of_shows cut (shows_opening cut opens closes balanced) (by simp [nestingStyle]) _
        flagged
    · -- Without a partner the group is still open at the end of the pattern.
      exact flagged_opening cut opens
  · -- An opening parenthesis opens a group unless its type is unknown.
    intro kind unopened
    have malformed : token.text = ['(', '?'] := by simpa [Token.opens, kind] using unopened
    exact ⟨malformed, by simp [Token.captures, malformed], flagged_groupType cut kind malformed⟩
  · exact shows_alternator cut
  · -- In front of the closing parenthesis the group is open, and nothing in it is.
    rintro inner rest closing rfl opens closes balanced
    have inside := unclosed_of_balanced before opens balanced
    have whole : scan pattern = (before ++ token :: inner) ++ closing :: rest := by simp [cut]
    have shown := shows_closing whole closes (by simp [inside])
    rw [inside, List.length_cons] at shown
    exact ⟨by rw [inside, List.length_cons], shows_opening cut opens closes balanced, shown⟩

end RegexLens
