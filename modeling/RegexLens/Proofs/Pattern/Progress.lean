import RegexLens.Proofs.Markup.Growth
import RegexLens.Proofs.Pattern.ErrorSpans

/-! Reading tokens only adds to what was found, and the end only marks the groups left open. -/

namespace RegexLens

/-- Whether a token opens a group, which an unknown group type does not. -/
def Token.opens (token : Token) : Bool :=
  token.kind = .groupOpen && token.text != ['(', '?']

/-- Whether a token is a closing parenthesis. -/
def Token.closes (token : Token) : Bool :=
  token.kind = .groupClose

namespace Classifier

/-- A classification that has grown: nothing that was shown or found is lost. -/
structure Grows (before after : Classifier) : Prop where
  markup : before.markup.Extends after.markup
  diagnostics : before.diagnostics <+: after.diagnostics

variable {state before middle after : Classifier} {token : Token}

/-- A classification that has grown twice has grown. -/
theorem Grows.trans (first : Grows before middle) (second : Grows middle after) :
    Grows before after where
  markup := first.markup.trans second.markup
  diagnostics := first.diagnostics.trans second.diagnostics

/-- Text in a style is added. -/
theorem grows_styled (state : Classifier) (style : Style) (content : Text) :
    Grows state (state.styled style content) where
  markup := state.markup.extends_pushNested style _
  diagnostics := List.prefix_refl _

/-- Text without a style is added. -/
theorem grows_plain (state : Classifier) (content : Text) :
    Grows state (state.plain content) where
  markup := state.markup.extends_pushText content
  diagnostics := List.prefix_refl _

/-- An error is added with its fault. -/
theorem grows_flagged (state : Classifier) (fault : Fault) (token : Token) :
    Grows state (state.flagged fault token) where
  markup := state.markup.extends_pushNested .error _
  diagnostics := List.prefix_append _ _

/-- Reading a token loses nothing. -/
theorem grows_read (state : Classifier) (token : Token) : Grows state (state.read token) := by
  -- What a token changes besides the markup and the faults does not count here.
  have follow {other : Classifier} (grows : Grows state other) (quantifiable : Bool) :
      Grows state (other.follow quantifiable) := ⟨grows.markup, grows.diagnostics⟩
  have styled (style : Style) := state.grows_styled style token.text
  have flagged (fault : Fault) := state.grows_flagged fault token
  cases kind : token.kind with
  | characterClass =>
    rw [read, kind]
    -- A class is shown as one span, and its own faults come behind those known.
    exact ⟨state.markup.extends_pushNested _ _, List.prefix_append _ _⟩
  | groupOpen =>
    -- A malformed opening is flagged, any other one is shown and put on the stack.
    simp only [read, kind, readGroupOpen]
    split
    · exact follow (flagged _) false
    · exact ⟨(styled _).markup, List.prefix_refl _⟩
  | groupClose =>
    -- A parenthesis that closes nothing is flagged.
    simp only [read, kind, readGroupClose]
    split
    · exact follow (flagged _) false
    · exact ⟨(styled _).markup, List.prefix_refl _⟩
  | escape =>
    simp only [read, kind, readEscape]
    split
    · exact follow (flagged _) false
    · split
      · -- A number is shown in two parts.
        exact ⟨(state.markup.extends_pushNested _ _).trans (Markup.extends_pushText _ _),
          List.prefix_refl _⟩
      · split
        · exact follow (flagged _) false
        · split
          · exact follow (styled _) _
          · exact follow (state.grows_plain _) true
  | quantifier =>
    -- A quantifier out of place, with bad bounds, or fine.
    simp only [read, kind, readQuantifier]
    split
    · exact follow (flagged _) false
    · split
      · exact follow (flagged _) false
      · exact follow (styled _) false
  | anchor =>
    rw [read, kind]
    exact follow (styled _) false
  | dot =>
    rw [read, kind]
    exact follow (styled _) true
  | alternator =>
    -- An alternator that leaves an alternative empty, on the outermost level, or in a group.
    simp only [read, kind, readAlternator]
    split
    · exact ⟨(flagged .emptyAlternative).markup, (flagged _).diagnostics⟩
    · split
      · exact ⟨(styled _).markup, List.prefix_refl _⟩
      · exact ⟨(styled _).markup, List.prefix_refl _⟩
  | literal =>
    rw [read, kind]
    exact follow (state.grows_plain _) true

/-- Reading tokens loses nothing. -/
theorem grows_run (state : Classifier) (tokens : List Token) :
    Grows state (tokens.foldl read state) := by
  induction tokens generalizing state with
  | nil => exact ⟨.refl _, List.prefix_refl _⟩
  | cons token rest ih => exact (state.grows_read token).trans (ih _)

/-- A token that opens a group puts it in front, and one that closes a group takes it off; the
style level goes up and down along with the open groups. -/
theorem read_nesting (state : Classifier) (token : Token) :
    (state.read token).openGroups =
        (if token.opens then
          ⟨state.markup.length, token.text, token.start⟩ :: state.openGroups
        else if token.closes then state.openGroups.tail
        else state.openGroups) ∧
      (state.read token).level =
        if token.opens then state.level % groupStyles + 1
        else if token.closes && !state.openGroups.isEmpty then
          if state.level = 1 then groupStyles else state.level - 1
        else state.level := by
  -- Only parentheses change the groups and the level, all other tokens leave them alone.
  cases kind : token.kind with
  | groupOpen =>
    simp only [read, kind, readGroupOpen, Token.opens, Token.closes]
    -- A malformed opening counts as no opening.
    split
    · rename_i malformed
      simp [malformed, follow, flagged, styled]
    · rename_i wellFormed
      simp [wellFormed, follow, styled]
  | groupClose =>
    simp only [read, kind, readGroupClose, Token.opens, Token.closes]
    -- Without an open group a closing parenthesis changes nothing.
    split
    · rename_i none
      simp [none, follow, flagged, styled]
    · rename_i group outer opened
      simp [opened]
  | escape =>
    -- However an escape is shown, the groups stay as they are.
    simp only [read, kind, readEscape, Token.opens, Token.closes]
    split
    · exact ⟨rfl, rfl⟩
    · split
      · exact ⟨rfl, rfl⟩
      · split
        · exact ⟨rfl, rfl⟩
        · split <;> exact ⟨rfl, rfl⟩
  | quantifier =>
    simp only [read, kind, readQuantifier, Token.opens, Token.closes]
    split
    · exact ⟨rfl, rfl⟩
    · split <;> exact ⟨rfl, rfl⟩
  | alternator =>
    simp only [read, kind, readAlternator, Token.opens, Token.closes]
    split
    · exact ⟨rfl, rfl⟩
    · split <;> exact ⟨rfl, rfl⟩
  -- Every other token is shown in one way, and it neither opens nor closes a group.
  | _ => simp [read, kind, readClass, styled, plain, follow, Token.opens, Token.closes]

/-- A group that is open was open before the tokens were read, or its opening is one of them. -/
theorem mem_run_openGroups {tokens : List Token} {group : OpenGroup}
    (member : group ∈ (tokens.foldl read state).openGroups) :
    group ∈ state.openGroups ∨ state.markup.length ≤ group.index := by
  -- The first token leaves a state from which the others go on.
  induction tokens generalizing state with
  | nil => exact .inl member
  | cons token rest ih =>
    rcases ih member with known | later
    · rw [(state.read_nesting token).1] at known
      split at known
      · rcases List.mem_cons.mp known with rfl | known
        · -- The opening just read stands behind what was shown before.
          exact .inr (Nat.le_refl _)
        · exact .inl known
      · -- A closing parenthesis removes a group, and other tokens keep them all.
        split at known
        · exact .inl (List.mem_of_mem_tail known)
        · exact .inl known
    · exact .inr (Nat.le_trans (state.grows_read token).markup.length later)

/-- The end of a pattern leaves all texts as they are. -/
theorem finish_textAt? (state : Classifier) (index offset : Nat) :
    state.finish.markup.textAt? index offset = state.markup.textAt? index offset := by
  -- Each group that is abandoned changes the style of a span only.
  have each (groups : List OpenGroup) (state : Classifier) :
      (groups.foldl abandon state).markup.textAt? index offset =
        state.markup.textAt? index offset := by
    induction groups generalizing state with
    | nil => rfl
    | cons group rest ih => rw [List.foldl_cons, ih, abandon, Markup.textAt?_restyle]
  exact each _ state

/-- The end of a pattern turns the openings of the groups left open into errors, and no others. -/
theorem finish_spanAt? {index place : Nat} {style : Style} {inner : Markup}
    (there : state.markup.spanAt? index 0 = some (place, style, inner)) :
    state.finish.markup.spanAt? index 0 =
      some (place, if index ∈ state.openGroups.map OpenGroup.index then .error else style,
        inner) := by
  -- The groups left open are turned into errors one by one, with any style in front.
  have each (groups : List OpenGroup) (state : Classifier) (style : Style)
      (there : state.markup.spanAt? index 0 = some (place, style, inner)) :
      (groups.foldl abandon state).markup.spanAt? index 0 =
        some (place, if index ∈ groups.map OpenGroup.index then .error else style, inner) := by
    induction groups generalizing state style with
    | nil => simpa using there
    | cons group rest ih =>
      rw [List.foldl_cons, List.map_cons]
      by_cases same : index = group.index
      · -- From here on the span is an error, whichever groups follow.
        subst same
        rw [ih _ .error (Markup.spanAt?_restyle_self there .error)]
        simp
      · -- Another group leaves the span as it is.
        have kept : (state.abandon group).markup.spanAt? index 0 = some (place, style, inner) := by
          rw [abandon, Markup.spanAt?_restyle same]
          exact there
        rw [ih _ style kept]
        simp [same]
  have ended := each state.openGroups.reverse state style there
  simpa [finish] using ended

/-- A group that was never closed is a fault. -/
theorem foldl_abandon_diagnostics (groups : List OpenGroup) (state : Classifier) :
    (groups.foldl abandon state).diagnostics = state.diagnostics ++
      groups.map fun group => ⟨.unterminatedGroup, group.offset, group.opening⟩ := by
  induction groups generalizing state with
  | nil => simp
  | cons group rest ih =>
    -- The first group adds its fault, and the others add theirs behind it.
    rw [List.foldl_cons, ih, List.map_cons]
    simp [abandon]

/-- The faults of a pattern are those found so far and those of the groups left open. -/
theorem mem_finish_diagnostics {fault : Diagnostic} :
    fault ∈ state.finish.diagnostics ↔ fault ∈ state.diagnostics ∨
      ∃ group ∈ state.openGroups, ⟨.unterminatedGroup, group.offset, group.opening⟩ = fault := by
  -- Sorting only moves the faults.
  rw [(finish_diagnostics_perm state).mem_iff, foldl_abandon_diagnostics]
  simp

/-- An open group was shown at a position that the markup has. -/
theorem Accounted.index_lt {text : Text} (accounted : state.Accounted text) {group : OpenGroup}
    (member : group ∈ state.openGroups) : group.index < state.markup.length := by
  obtain ⟨_, style, _, there⟩ := accounted.located group member
  exact Markup.spanAt?_lt_length there

end Classifier

section

variable {pattern : Text} {before after : List Token} {token : Token}

/-- Wherever a pattern is cut, the tokens in front account for their texts. -/
theorem accounted_of_cut (cut : scan pattern = before ++ after) :
    (before.foldl Classifier.read .initial).Accounted (before.flatMap Token.text) := by
  -- What holds of all tokens of the pattern holds of those in front of the cut.
  have shaped := scan_shaped pattern
  have contiguous := scan_contiguous pattern
  rw [cut] at shaped contiguous
  have front := Classifier.accounted_initial.run
    (fun token member => shaped token (List.mem_append_left _ member))
    (contiguous_append.mp contiguous).1
  rwa [List.nil_append] at front

/-- A token starts where the texts of the tokens in front of it end. -/
theorem start_of_cut (cut : scan pattern = before ++ token :: after) :
    token.start = byteSize (before.flatMap Token.text) := by
  have contiguous := scan_contiguous pattern
  rw [cut, contiguous_append, Nat.zero_add] at contiguous
  exact contiguous.2.1

/-- Every token of a pattern has a shape that the scanner can cut. -/
theorem shaped_of_cut (cut : scan pattern = before ++ token :: after) : token.Shaped :=
  scan_shaped pattern token (by simp [cut])

/-- A span that was shown somewhere in a pattern is shown to the end, unless its group stays open. -/
theorem classify_spanAt? (cut : scan pattern = before ++ after) {index place : Nat} {style : Style}
    {inner : Markup}
    (there : (before.foldl Classifier.read .initial).markup.spanAt? index 0 =
      some (place, style, inner))
    (settled : ∀ group ∈ (before.foldl Classifier.read .initial).openGroups, group.index ≠ index) :
    (classify pattern).markup.spanAt? index 0 = some (place, style, inner) := by
  rw [classify, cut, List.foldl_append]
  -- The tokens behind the cut keep the span, so only the end of the pattern could change it.
  have kept := (Classifier.grows_run (before.foldl Classifier.read .initial) after).markup.span there
  rw [Classifier.finish_spanAt? kept, if_neg]
  intro unsettled
  obtain ⟨group, member, same⟩ := List.mem_map.mp unsettled
  rcases Classifier.mem_run_openGroups member with known | later
  · exact settled group known same
  · -- Groups that were opened later stand behind the span.
    exact absurd (Markup.spanAt?_lt_length there) (by omega)

/-- A fault that was found somewhere in a pattern is a fault of the pattern. -/
theorem mem_classify_diagnostics (cut : scan pattern = before ++ after) {fault : Diagnostic}
    (found : fault ∈ (before.foldl Classifier.read .initial).diagnostics) :
    fault ∈ (classify pattern).diagnostics := by
  -- Neither the tokens behind the cut nor the end of the pattern take a fault away.
  rw [classify, cut, List.foldl_append]
  exact Classifier.mem_finish_diagnostics.mpr
    (.inl ((Classifier.grows_run _ after).diagnostics.subset found))

/-- A text that was shown somewhere in a pattern is shown to the end, where it can be longer. -/
theorem classify_textAt? (cut : scan pattern = before ++ after) {index place : Nat} {content : Text}
    (there : (before.foldl Classifier.read .initial).markup.textAt? index 0 =
      some (place, content)) :
    ∃ more, (classify pattern).markup.textAt? index 0 = some (place, content ++ more) := by
  -- Texts are not changed by the end of the pattern, and tokens can only add to them.
  rw [classify, cut, List.foldl_append, Classifier.finish_textAt?]
  exact (Classifier.grows_run _ after).markup.text there

/-- A span that shows a token which opens no group is a span of the whole pattern. -/
theorem classify_shows (cut : scan pattern = before ++ token :: after) (quiet : token.opens = false)
    {place : Nat} {style : Style} {inner : Markup}
    (there : ((before.foldl Classifier.read .initial).read token).markup.spanAt?
      (before.foldl Classifier.read .initial).markup.length 0 = some (place, style, inner)) :
    (classify pattern).markup.spanAt? (before.foldl Classifier.read .initial).markup.length 0 =
      some (place, style, inner) := by
  -- The span is there once the token is read, and from then on no group stands at its place.
  have accounted := accounted_of_cut cut
  rw [List.append_cons] at cut
  apply classify_spanAt? cut
  · simpa using there
  · -- Every group that is open was opened before the token.
    intro group member
    rw [List.foldl_append, List.foldl_cons, List.foldl_nil, (Classifier.read_nesting _ _).1,
      quiet, if_neg Bool.false_ne_true] at member
    split at member
    · exact Nat.ne_of_lt (accounted.index_lt (List.mem_of_mem_tail member))
    · exact Nat.ne_of_lt (accounted.index_lt member)

end

end RegexLens
