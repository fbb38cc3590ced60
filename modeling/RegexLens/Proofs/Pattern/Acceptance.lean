import RegexLens.Proofs.Pattern.Progress
import RegexLens.Proofs.Pattern.TokenReading

/-! The patterns that are classified without faults are those that the grammar derives. -/

namespace RegexLens

/-- What the tokens read so far are when some groups are still open, by the role of the last one. -/
inductive Standing : List OpenGroup → TokenRole → List Token → Prop
  -- On the outermost level the tokens are a pattern.
  | start : Standing [] .initial []
  | branches (tokens : List Token) (body : Derives .branches tokens) :
      Standing [] .ordinary tokens
  | trailing (tokens : List Token) (bar : Token) (body : Derives .branches tokens)
      (kind : bar.kind = .alternator) : Standing [] .alternator (tokens ++ [bar])
  -- Behind the opening of a group there are alternatives, and a pattern can grow in front of it.
  | inside (group : OpenGroup) (outer : List OpenGroup) (outerRole role : TokenRole)
      (before inner : List Token) (opening : Token) (opens : opening.kind = .groupOpen)
      (text : group.opening = opening.text)
      (known : OpensGroup opening.text ∨ OpensLookahead opening.text)
      (around : Standing outer outerRole before) (body : Derives .alternatives inner)
      (started : role ≠ .initial) :
      Standing (group :: outer) role (before ++ opening :: inner)

namespace Standing

variable {groups : List OpenGroup} {role : TokenRole} {tokens term : List Token}

/-- A term can stand anywhere. -/
theorem append (standing : Standing groups role tokens) (next : Derives .term term) :
    Standing groups .ordinary (tokens ++ term) := by
  cases standing with
  -- On the outermost level the term starts a branch or goes on with one.
  | start => exact .branches term (Derives.branches_term next)
  | branches tokens body => exact .branches _ (body.branches_append next)
  | trailing tokens bar body kind =>
    rw [List.append_assoc]
    exact .branches _ (body.branches_bar_term kind next)
  | inside group outer outerRole role before inner opening opens text known around body started =>
    rw [List.append_assoc, List.cons_append]
    exact .inside group outer outerRole _ before _ opening opens text known around
      (body.alternatives_append next) (by simp)

/-- An alternator can stand inside a group and behind a term. -/
theorem append_bar (standing : Standing groups role tokens) {bar : Token}
    (kind : bar.kind = .alternator) (started : role ≠ .initial)
    (inside : role = .alternator → groups ≠ []) : Standing groups .alternator (tokens ++ [bar]) := by
  cases standing with
  | start => contradiction
  | branches tokens body => exact .trailing tokens bar body kind
  -- Two bars in a row would leave an alternative empty.
  | trailing tokens other body known => exact absurd rfl (inside rfl)
  | inside group outer outerRole role before inner opening opens text known around body started =>
    rw [List.append_assoc, List.cons_append]
    exact .inside group outer outerRole _ before _ opening opens text known around
      (body.alternatives_bar kind) (by simp)

/-- The opening of a group can stand anywhere. -/
theorem append_opening (standing : Standing groups role tokens) {group : OpenGroup}
    {opening : Token} (opens : opening.kind = .groupOpen) (text : group.opening = opening.text)
    (known : OpensGroup opening.text ∨ OpensLookahead opening.text) :
    Standing (group :: groups) .ordinary (tokens ++ [opening]) :=
  .inside group groups role _ tokens [] opening opens text known standing (.last [] .nil) (by simp)

/-- A closing parenthesis makes an atom or a test of all that was read since the group opened. -/
theorem append_closing {group : OpenGroup} (standing : Standing (group :: groups) role tokens)
    {closing : Token} (closes : closing.kind = .groupClose) :
    ∃ outerRole before body, tokens ++ [closing] = before ++ body ∧
      Standing groups outerRole before ∧
      (OpensLookahead group.opening → Derives .term body) ∧
      (¬ OpensLookahead group.opening → Derives .atom body) := by
  cases standing with
  | inside group outer outerRole role before inner opening opens text known around body started =>
    -- Everything from the opening on is one phrase, and what stood in front of it is left.
    refine ⟨outerRole, before, opening :: (inner ++ [closing]), by simp, around, ?_, ?_⟩
    · -- The group is a test when it looks ahead.
      intro lookahead
      rw [text] at lookahead
      exact .lookahead opening closing inner opens lookahead closes body
    · -- Otherwise it is an atom, and its opening is one of the two that capture or group.
      intro matching
      rw [text] at matching
      exact .group opening closing inner opens (known.resolve_right matching) closes body

end Standing

namespace Classifier

/-- The tokens read so far, with the atom that they end with when it can be repeated. -/
structure Explains (state : Classifier) (tokens : List Token) : Prop where
  standing : Standing state.openGroups state.last.role tokens
  repeatable : state.last.quantifiable = true → ∃ before atom role,
    tokens = before ++ atom ∧ Derives .atom atom ∧ Standing state.openGroups role before

variable {state : Classifier} {tokens : List Token} {token : Token}

/-- An atom behind what was read so far is the one that can be repeated. -/
theorem Explains.append_atom (explains : state.Explains tokens) {after : Classifier}
    {atom : List Token} (derives : Derives .atom atom) (same : Undisturbed state after)
    (role : after.last.role = .ordinary) : after.Explains (tokens ++ atom) where
  -- The state is as it was, except that there is a last token.
  standing := by
    rw [same.openGroups, role]
    exact explains.standing.append (.once atom derives)
  repeatable _ := by
    rw [same.openGroups]
    exact ⟨tokens, atom, _, rfl, derives, explains.standing⟩

/-- A test behind what was read so far cannot be repeated. -/
theorem Explains.append_test (explains : state.Explains tokens) {after : Classifier}
    {test : List Token} (derives : Derives .term test) (same : Undisturbed state after)
    (last : after.last = ⟨false, .ordinary, none⟩) : after.Explains (tokens ++ test) where
  -- A test is read as a last token that admits no quantifier.
  standing := by
    rw [same.openGroups, last]
    exact explains.standing.append derives
  repeatable quantifiable := by simp [last] at quantifiable

/-- The opening of a group starts alternatives, of which none has a token yet. -/
theorem Explains.read_groupOpen (explains : state.Explains tokens) (kind : token.kind = .groupOpen)
    (shaped : token.Shaped) (clean : (state.read token).diagnostics = []) :
    (state.read token).Explains (tokens ++ [token]) := by
  have form := shaped.form
  rw [kind] at form
  by_cases malformed : token.text = ['(', '?']
  · -- An unknown group type would have been flagged.
    rw [Classifier.read, kind] at clean
    simp only [readGroupOpen, if_pos malformed] at clean
    exact absurd clean (flagged_diagnostics_ne_nil _ _ _)
  · -- The opening is put on the stack, and alternatives start behind it.
    obtain ⟨_, ⟨group, text, opened⟩, last⟩ := state.read_opening kind malformed
    have known : OpensGroup token.text ∨ OpensLookahead token.text := by
      rcases form.of_groupOpen with text | text | text | text | text <;>
        simp_all [OpensGroup, OpensLookahead]
    constructor
    · -- What was read so far stands around the group from now on.
      rw [opened, last]
      exact explains.standing.append_opening kind text known
    · intro quantifiable
      simp [last] at quantifiable

/-- A closing parenthesis completes the innermost group, which is then one atom or one test. -/
theorem Explains.read_groupClose (explains : state.Explains tokens)
    (kind : token.kind = .groupClose) (clean : (state.read token).diagnostics = []) :
    (state.read token).Explains (tokens ++ [token]) := by
  cases opened : state.openGroups with
  | nil =>
    -- Without an open group the parenthesis would have been flagged.
    rw [Classifier.read, kind] at clean
    simp only [readGroupClose, opened] at clean
    exact absurd clean (flagged_diagnostics_ne_nil _ _ _)
  | cons group outer =>
    obtain ⟨_, closed, quantifiable, role⟩ := state.read_closing kind opened
    have standing := explains.standing
    rw [opened] at standing
    -- What stood in front of the group can go on with it.
    obtain ⟨outerRole, before, body, cut, around, test, atom⟩ := standing.append_closing kind
    constructor
    · rw [closed, role, cut]
      by_cases lookahead : OpensLookahead group.opening
      · exact around.append (test lookahead)
      · exact around.append (.once body (atom lookahead))
    · intro repeatable
      rw [closed]
      exact ⟨before, body, outerRole, cut, atom (quantifiable.mp repeatable), around⟩

/-- A quantifier repeats the atom in front of it, and the two of them are a term. -/
theorem Explains.read_quantifier (explains : state.Explains tokens)
    (kind : token.kind = .quantifier) (shaped : token.Shaped)
    (clean : (state.read token).diagnostics = []) :
    (state.read token).Explains (tokens ++ [token]) := by
  have form := shaped.form
  rw [kind] at form
  obtain ⟨bounds, isLazy, repeats⟩ := repeatsAs_of_form form
  by_cases quantifiable : state.last.quantifiable = true
  · -- Bounds that are not acceptable would have been flagged.
    have acceptable : bounds.Acceptable := by
      rw [← intervalFault?_eq_none repeats]
      rw [Classifier.read, kind] at clean
      simp only [readQuantifier, quantifiable, Bool.not_true, Bool.false_eq_true,
        if_false] at clean
      cases fault : intervalFault? token.text with
      | none => rfl
      | some fault =>
        simp only [fault] at clean
        exact absurd clean (flagged_diagnostics_ne_nil _ _ _)
    have good : GoodQuantifier token.text := ⟨bounds, isLazy, repeats, acceptable⟩
    obtain ⟨same, last⟩ := state.read_quantifier kind quantifiable good
    -- The atom was the last phrase, so the quantifier belongs to it.
    obtain ⟨before, atom, role, cut, derives, around⟩ := explains.repeatable quantifiable
    constructor
    · rw [same.openGroups, last, cut, List.append_assoc]
      exact around.append (.repeated atom token derives kind good)
    · intro again
      simp [last] at again
  · -- So would a quantifier with nothing to repeat.
    rw [Classifier.read, kind] at clean
    simp only [readQuantifier, quantifiable] at clean
    exact absurd clean (flagged_diagnostics_ne_nil _ _ _)

/-- A bar ends an alternative, and on the outermost level that one has a term. -/
theorem Explains.read_alternator (explains : state.Explains tokens)
    (kind : token.kind = .alternator) (clean : (state.read token).diagnostics = []) :
    (state.read token).Explains (tokens ++ [token]) := by
  by_cases empty : state.last.role = .initial ∨
      (state.last.role = .alternator ∧ state.openGroups = [])
  · -- An empty alternative would have been flagged.
    rw [Classifier.read, kind] at clean
    simp only [readAlternator, Bool.or_eq_true, Bool.and_eq_true, decide_eq_true_eq,
      List.isEmpty_iff, empty, if_true] at clean
    exact absurd clean (flagged_diagnostics_ne_nil _ _ _)
  · -- The alternative has a term, or the bar stands inside a group.
    obtain ⟨started, inside⟩ := not_or.mp empty
    have inside := fun role outermost => inside ⟨role, outermost⟩
    obtain ⟨same, last⟩ := state.read_alternator kind started inside
    constructor
    · rw [same.openGroups, last]
      exact explains.standing.append_bar kind started inside
    · intro quantifiable
      simp [last] at quantifiable

/-- A token that is read without a fault extends what was read so far by a step of the grammar. -/
theorem Explains.read (explains : state.Explains tokens) (shaped : token.Shaped)
    (clean : (state.read token).diagnostics = []) : (state.read token).Explains (tokens ++ [token]) := by
  have form := shaped.form
  cases kind : token.kind with
  -- The cases are those of the kinds, and each kind has its rule of the grammar.
  | characterClass =>
    rw [kind] at form
    obtain ⟨⟨tail, text⟩, _⟩ := form.of_characterClass
    -- The faults of the class are faults of the pattern.
    have good : GoodClass token.text := by
      rw [text, ← annotateClass_eq_nil_iff tail token.start, ← text]
      rw [Classifier.read, kind] at clean
      exact (List.append_eq_nil_iff.mp clean).2
    obtain ⟨same, last⟩ := state.read_atom (.inr (.inr (.inl ⟨kind, good⟩))) shaped
    exact explains.append_atom (.characterClass token kind good) same (by simp [last])
  | groupOpen => exact explains.read_groupOpen kind shaped clean
  | groupClose => exact explains.read_groupClose kind clean
  | escape =>
    rw [kind] at form
    obtain ⟨sequence, text⟩ := form.of_escape
    rw [Classifier.read, kind] at clean ⊢
    -- Only an escape that is flagged fits into no rule.
    rcases state.readEscape_cases text with ⟨test, same, last⟩ | ⟨good, same, last⟩ | ⟨_, _, faulty⟩
    · exact explains.append_test (.boundary token kind test) same last
    · exact explains.append_atom (.escape token kind good) same (by simp [last])
    · exact absurd clean faulty
  | quantifier => exact explains.read_quantifier kind shaped clean
  -- An anchor is a test.
  | anchor =>
    obtain ⟨same, last⟩ := state.read_test (.inl kind) shaped
    exact explains.append_test (.anchor token kind) same last
  | dot =>
    obtain ⟨same, last⟩ := state.read_atom (.inr (.inl kind)) shaped
    exact explains.append_atom (.dot token kind) same (by simp [last])
  | alternator => exact explains.read_alternator kind clean
  | literal =>
    obtain ⟨same, last⟩ := state.read_atom (.inl kind) shaped
    exact explains.append_atom (.literal token kind) same (by simp [last])

/-- Nothing is taken back: a token only adds faults. -/
theorem diagnostics_of_read (clean : (state.read token).diagnostics = []) :
    state.diagnostics = [] := by
  have grows := (state.grows_read token).diagnostics
  rw [clean] at grows
  exact List.prefix_nil.mp grows

/-- Many tokens only add faults. -/
theorem diagnostics_of_run (clean : (tokens.foldl Classifier.read state).diagnostics = []) :
    state.diagnostics = [] := by
  induction tokens generalizing state with
  | nil => exact clean
  -- What is clean at the end was clean behind the first token, and so before it.
  | cons token rest ih => exact diagnostics_of_read (ih clean)

/-- Tokens that are read without a fault extend what was read so far along the grammar. -/
theorem Explains.run {rest : List Token} (explains : state.Explains tokens)
    (shaped : ∀ token ∈ rest, token.Shaped)
    (clean : (rest.foldl Classifier.read state).diagnostics = []) :
    (rest.foldl Classifier.read state).Explains (tokens ++ rest) := by
  induction rest generalizing state tokens with
  | nil => rwa [List.append_nil]
  | cons token rest ih =>
    -- No fault at the end means none behind the first token either.
    have first := explains.read (shaped token (by simp)) (diagnostics_of_run clean)
    have whole := ih first (fun other member => shaped other (by simp [member])) clean
    rwa [List.append_assoc, List.singleton_append] at whole

/-- Before the first token nothing has been read. -/
theorem explains_initial : initial.Explains [] where
  standing := .start
  repeatable quantifiable := by contradiction

/-- The end of a pattern is no fault when no group is open and there was none before. -/
theorem finish_diagnostics_eq_nil (state : Classifier) :
    state.finish.diagnostics = [] ↔ state.diagnostics = [] ∧ state.openGroups = [] := by
  -- Sorting neither adds nor removes faults.
  have sorted := (List.mergeSort_perm (state.openGroups.reverse.foldl abandon state).diagnostics
    fun first second => first.offset ≤ second.offset)
  have same : state.finish.diagnostics = [] ↔
      (state.openGroups.reverse.foldl abandon state).diagnostics = [] := by
    constructor
    · intro clean
      exact (sorted.symm.trans (.of_eq clean)).eq_nil
    · intro clean
      exact (sorted.trans (.of_eq clean)).eq_nil
  -- The faults at the end are those that were known and one for each open group.
  rw [same, foldl_abandon_diagnostics]
  simp

end Classifier

/-- The tokens of a pattern without faults are derived by the grammar. -/
theorem derives_of_accepted {pattern : Text} (accepted : (classify pattern).diagnostics = []) :
    Derives .pattern (scan pattern) := by
  -- No fault was found on the way, and no group is left open at the end.
  obtain ⟨clean, closed⟩ := (Classifier.finish_diagnostics_eq_nil _).mp accepted
  have standing := (Classifier.explains_initial.run (scan_shaped pattern) clean).standing
  rw [closed, List.nil_append] at standing
  generalize scan pattern = tokens at standing
  generalize (tokens.foldl Classifier.read .initial).last.role = role at standing
  cases standing with
  | start => exact .empty
  | branches _ body => exact .closed _ body
  | trailing before bar body kind => exact .trailing before bar body kind

/-- Tokens that the grammar derives are those of a pattern without faults. -/
theorem accepted_of_derives {pattern : Text} (derives : Derives .pattern (scan pattern)) :
    (classify pattern).diagnostics = [] := by
  -- The pattern is read from the start, where no group is open.
  obtain ⟨same, _⟩ := Classifier.read_derived derives (scan_shaped pattern) .initial rfl
  exact (Classifier.finish_diagnostics_eq_nil _).mpr ⟨same.diagnostics, same.openGroups⟩

/-- A pattern is classified without faults exactly when the grammar derives its tokens. -/
theorem classify_accepts_iff_derives (pattern : Text) :
    (classify pattern).diagnostics = [] ↔ Derives .pattern (scan pattern) :=
  ⟨derives_of_accepted, accepted_of_derives⟩

end RegexLens
