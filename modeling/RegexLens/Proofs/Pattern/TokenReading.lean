import RegexLens.Proofs.Pattern.Grammar

/-! What reading a token does when it is no fault, and the phrases that are read without one. -/

namespace RegexLens

/-- The tests for a boundary, by the letter behind the backslash. -/
theorem isBoundary_cons {sequence : Text} :
    IsBoundary ('\\' :: sequence) ↔ sequence = ['b'] ∨ sequence = ['B'] := by
  -- The backslash is the same on both sides.
  simp [IsBoundary]

/-- The escapes that match characters, by what follows the backslash. -/
theorem goodEscape_cons {sequence : Text} :
    GoodEscape ('\\' :: sequence) ↔
      sequence ≠ [] ∧ isIncomplete sequence = false ∧ sequence ≠ ['b'] ∧ sequence ≠ ['B'] := by
  simp only [GoodEscape, isIncomplete, List.contains_eq_mem, decide_eq_false_iff_not,
    List.mem_cons, List.cons.injEq, true_and, List.not_mem_nil, or_false, not_or]
  -- The conditions are the same, in another order.
  constructor
  · rintro ⟨lower, upper, dangling, incomplete⟩
    exact ⟨dangling, incomplete, lower, upper⟩
  · rintro ⟨dangling, incomplete, lower, upper⟩
    exact ⟨lower, upper, dangling, incomplete⟩

/-- A sequence that is a number is complete and tests for no boundary. -/
theorem startsNumbered_excludes {sequence : Text} (numbered : startsNumbered sequence = true) :
    isIncomplete sequence = false ∧ sequence ≠ ['b'] ∧ sequence ≠ ['B'] := by
  -- All the sequences in question start with a letter.
  have excluded : ∀ letter, startsNumbered [letter] = false → sequence ≠ [letter] := by
    rintro letter plain rfl
    rw [plain] at numbered
    contradiction
  refine ⟨?_, excluded _ (by decide), excluded _ (by decide)⟩
  simp [isIncomplete, excluded 'c' (by decide), excluded 'u' (by decide), excluded 'x' (by decide)]

namespace Classifier

/-- A reading that neither finds a fault nor opens or closes a group. -/
structure Undisturbed (before after : Classifier) : Prop where
  diagnostics : after.diagnostics = before.diagnostics
  openGroups : after.openGroups = before.openGroups

variable {before middle after : Classifier}

/-- Two readings that disturb nothing are one. -/
theorem Undisturbed.trans (first : Undisturbed before middle) (second : Undisturbed middle after) :
    Undisturbed before after where
  diagnostics := second.diagnostics.trans first.diagnostics
  openGroups := second.openGroups.trans first.openGroups

/-- Flagging a token leaves a fault behind. -/
theorem flagged_diagnostics_ne_nil (state : Classifier) (fault : Fault) (token : Token) :
    (state.flagged fault token).diagnostics ≠ [] := by
  simp [flagged]

/-- An escape is a test, or it matches characters, or it is flagged. -/
theorem readEscape_cases (state : Classifier) {token : Token} {sequence : Text}
    (text : token.text = '\\' :: sequence) :
    (IsBoundary token.text ∧ Undisturbed state (state.readEscape token) ∧
        (state.readEscape token).last = ⟨false, .ordinary, none⟩) ∨
      (GoodEscape token.text ∧ Undisturbed state (state.readEscape token) ∧
        (state.readEscape token).last = ⟨true, .ordinary, none⟩) ∨
      (¬ IsBoundary token.text ∧ ¬ GoodEscape token.text ∧
        (state.readEscape token).diagnostics ≠ []) := by
  -- All three answers are about what follows the backslash.
  rw [text, isBoundary_cons, goodEscape_cons]
  cases sequence with
  | nil =>
    -- Nothing follows the backslash.
    refine .inr (.inr ⟨by simp, by simp, ?_⟩)
    rw [readEscape, text]
    exact flagged_diagnostics_ne_nil _ _ _
  | cons first rest =>
    simp only [readEscape, text, List.drop_succ_cons, List.drop_zero]
    -- A number always matches something.
    by_cases numbered : startsNumbered (first :: rest) = true
    · obtain ⟨complete, notTest⟩ := startsNumbered_excludes numbered
      rw [if_pos numbered]
      exact .inr (.inl ⟨⟨by simp, complete, notTest⟩, ⟨rfl, rfl⟩, rfl⟩)
    · rw [if_neg numbered]
      -- A letter without what it needs is flagged, and a test is none of these letters.
      by_cases incomplete : isIncomplete (first :: rest) = true
      · rw [if_pos incomplete]
        refine .inr (.inr ⟨?_, by simp [incomplete], flagged_diagnostics_ne_nil _ _ _⟩)
        rintro (test | test) <;> rw [test] at incomplete <;> contradiction
      · rw [if_neg incomplete]
        by_cases test : first :: rest = ['b'] ∨ first :: rest = ['B']
        · refine .inl ⟨test, ?_⟩
          -- Both tests start with a letter that is special.
          rcases test with test | test <;> obtain ⟨rfl, rfl⟩ := List.cons.inj test <;>
            exact ⟨⟨rfl, rfl⟩, rfl⟩
        · -- What is left matches characters, whether it is special or stands for itself.
          refine .inr (.inl ⟨⟨by simp, by simpa using incomplete, by simpa using test⟩, ?_⟩)
          split
          · refine ⟨⟨rfl, rfl⟩, ?_⟩
            simp [follow, not_or.mp test]
          · exact ⟨⟨rfl, rfl⟩, rfl⟩

variable {token : Token}

/-- An atom of one token is read without a fault and can be repeated. -/
theorem read_atom (state : Classifier)
    (atom : token.kind = .literal ∨ token.kind = .dot ∨
      (token.kind = .characterClass ∧ GoodClass token.text) ∨
      (token.kind = .escape ∧ GoodEscape token.text))
    (shaped : token.Shaped) :
    Undisturbed state (state.read token) ∧ (state.read token).last = ⟨true, .ordinary, none⟩ := by
  have form := shaped.form
  -- A literal and a dot are never flagged.
  rcases atom with kind | kind | ⟨kind, good⟩ | ⟨kind, good⟩
  · rw [read, kind]
    exact ⟨⟨rfl, rfl⟩, rfl⟩
  · rw [read, kind]
    exact ⟨⟨rfl, rfl⟩, rfl⟩
  · -- A good class adds no faults of its own.
    rw [kind] at form
    obtain ⟨⟨tail, text⟩, _⟩ := form.of_characterClass
    rw [read, kind]
    refine ⟨⟨?_, rfl⟩, rfl⟩
    rw [text] at good
    simp only [readClass, follow, text, (annotateClass_eq_nil_iff tail _).mpr good, List.append_nil]
  · -- An escape that matches characters is neither a test nor flagged.
    rw [kind] at form
    obtain ⟨tail, text⟩ := form.of_escape
    rw [read, kind]
    rcases state.readEscape_cases text with ⟨test, _⟩ | ⟨_, read⟩ | ⟨_, bad, _⟩
    · rw [text, isBoundary_cons] at test
      rw [text, goodEscape_cons] at good
      exact absurd test (not_or.mpr good.2.2)
    · exact read
    · exact absurd good bad

/-- A test of one token is read without a fault. -/
theorem read_test (state : Classifier)
    (test : token.kind = .anchor ∨ (token.kind = .escape ∧ IsBoundary token.text))
    (shaped : token.Shaped) :
    Undisturbed state (state.read token) ∧ (state.read token).last = ⟨false, .ordinary, none⟩ := by
  have form := shaped.form
  -- An anchor is always a test.
  rcases test with kind | ⟨kind, boundary⟩
  · rw [read, kind]
    exact ⟨⟨rfl, rfl⟩, rfl⟩
  · rw [kind] at form
    obtain ⟨tail, text⟩ := form.of_escape
    rw [read, kind]
    rcases state.readEscape_cases text with ⟨_, read⟩ | ⟨good, _⟩ | ⟨bad, _⟩
    · exact read
    · rw [text, isBoundary_cons] at boundary
      rw [text, goodEscape_cons] at good
      exact absurd boundary (not_or.mpr good.2.2)
    · exact absurd boundary bad

/-- The opening of a group with a known type opens a group. -/
theorem read_opening (state : Classifier) (kind : token.kind = .groupOpen)
    (known : token.text ≠ ['(', '?']) :
    (state.read token).diagnostics = state.diagnostics ∧
      (∃ group, group.opening = token.text ∧
        (state.read token).openGroups = group :: state.openGroups) ∧
      (state.read token).last = ⟨false, .ordinary, none⟩ := by
  -- Every opening but the malformed one adds a group in front of those that are open.
  rw [read, kind]
  simp only [readGroupOpen, if_neg known]
  exact ⟨rfl, ⟨_, rfl, rfl⟩, rfl⟩

/-- A closing parenthesis closes the innermost group, which can be repeated if it matches. -/
theorem read_closing (state : Classifier) (kind : token.kind = .groupClose) {group : OpenGroup}
    {outer : List OpenGroup} (opened : state.openGroups = group :: outer) :
    (state.read token).diagnostics = state.diagnostics ∧ (state.read token).openGroups = outer ∧
      ((state.read token).last.quantifiable = true ↔ ¬ OpensLookahead group.opening) ∧
      (state.read token).last.role = .ordinary := by
  -- The innermost group is the one that closes.
  rw [read, kind]
  simp only [readGroupClose, opened]
  simp [styled, OpensLookahead]

/-- A quantifier with acceptable bounds is read without a fault where one may stand. -/
theorem read_quantifier (state : Classifier) (kind : token.kind = .quantifier)
    (allowed : state.last.quantifiable = true) (good : GoodQuantifier token.text) :
    Undisturbed state (state.read token) ∧ (state.read token).last = ⟨false, .ordinary, none⟩ := by
  -- The bounds are acceptable, so the quantifier has no fault of its own.
  obtain ⟨bounds, isLazy, repeats, acceptable⟩ := good
  rw [read, kind]
  simp only [readQuantifier, allowed, Bool.not_true, Bool.false_eq_true, if_false,
    (intervalFault?_eq_none repeats).mpr acceptable]
  exact ⟨⟨rfl, rfl⟩, rfl⟩

/-- An alternator is read without a fault unless it leaves an outermost alternative empty. -/
theorem read_alternator (state : Classifier) (kind : token.kind = .alternator)
    (started : state.last.role ≠ .initial)
    (inside : state.last.role = .alternator → state.openGroups ≠ []) :
    Undisturbed state (state.read token) ∧ (state.read token).last = ⟨false, .alternator, none⟩ := by
  rw [read, kind]
  -- None of the two reasons to flag a bar applies.
  have fits : (state.last.role = .initial ∨
      (state.last.role = .alternator ∧ state.openGroups.isEmpty = true)) ↔ False := by
    rw [List.isEmpty_iff]
    simp only [started, false_or, iff_false, not_and]
    exact inside
  simp only [readAlternator, Bool.or_eq_true, Bool.and_eq_true, decide_eq_true_eq, fits, if_false]
  -- Inside a group and on the outermost level only the style differs.
  split
  · exact ⟨⟨rfl, rfl⟩, trivial⟩
  · exact ⟨⟨rfl, rfl⟩, trivial⟩

/-- The states in which a phrase can be read. -/
def Allows (state : Classifier) : Phrase → Prop
  -- Inside a group an alternator may follow anything, and on the outermost level only a term.
  | .alternatives => state.openGroups ≠ [] ∧ state.last.role ≠ .initial
  | .branches | .pattern => state.openGroups = []
  | .atom | .term | .sequence => True

/-- What the state behind a phrase knows of it. -/
def Follows (state : Classifier) (tokens : List Token) : Phrase → Prop
  | .atom => state.last.quantifiable = true ∧ state.last.role = .ordinary
  | .term | .branches => state.last.role = .ordinary
  | .sequence => tokens ≠ [] → state.last.role = .ordinary
  | .alternatives | .pattern => True

/-- Reading a group, with what stands in it, disturbs nothing. -/
theorem read_group (state : Classifier) {opening closing : Token} {inner : List Token}
    (opens : opening.kind = .groupOpen) (known : opening.text ≠ ['(', '?'])
    (closes : closing.kind = .groupClose)
    (body : ∀ entered : Classifier, entered.openGroups ≠ [] → entered.last.role ≠ .initial →
      Undisturbed entered (inner.foldl read entered)) :
    Undisturbed state ((opening :: (inner ++ [closing])).foldl read state) ∧
      (((opening :: (inner ++ [closing])).foldl read state).last.quantifiable = true ↔
        ¬ OpensLookahead opening.text) ∧
      ((opening :: (inner ++ [closing])).foldl read state).last.role = .ordinary := by
  rw [List.foldl_cons, List.foldl_append, List.foldl_cons, List.foldl_nil]
  obtain ⟨diagnostics, ⟨group, text, opened⟩, last⟩ := state.read_opening opens known
  -- The group is open while its contents are read, and then it is the innermost one.
  have within := body (state.read opening) (by simp [opened]) (by simp [last])
  obtain ⟨same, outer, quantifiable, role⟩ :=
    (inner.foldl read (state.read opening)).read_closing closes (within.openGroups.trans opened)
  rw [text] at quantifiable
  exact ⟨⟨same.trans (within.diagnostics.trans diagnostics), outer⟩, quantifiable, role⟩

/-- A phrase of the grammar is read without a fault in every state that allows it. -/
theorem read_derived {phrase : Phrase} {tokens : List Token} (derives : Derives phrase tokens)
    (shaped : ∀ token ∈ tokens, token.Shaped) (state : Classifier) (allows : state.Allows phrase) :
    Undisturbed state (tokens.foldl read state) ∧ (tokens.foldl read state).Follows tokens phrase := by
  -- The state stays quantified, since each phrase is read behind the ones in front of it.
  induction derives generalizing state with
  | literal token kind =>
    obtain ⟨same, last⟩ := state.read_atom (.inl kind) (shaped token (by simp))
    exact ⟨same, by simp [Follows, last]⟩
  | dot token kind =>
    obtain ⟨same, last⟩ := state.read_atom (.inr (.inl kind)) (shaped token (by simp))
    exact ⟨same, by simp [Follows, last]⟩
  | characterClass token kind good =>
    obtain ⟨same, last⟩ :=
      state.read_atom (.inr (.inr (.inl ⟨kind, good⟩))) (shaped token (by simp))
    exact ⟨same, by simp [Follows, last]⟩
  | escape token kind good =>
    obtain ⟨same, last⟩ :=
      state.read_atom (.inr (.inr (.inr ⟨kind, good⟩))) (shaped token (by simp))
    exact ⟨same, by simp [Follows, last]⟩
  | group opening closing inner opens type closes body ih =>
    -- The group matches what stands in it, so its type is no look-ahead.
    have known : opening.text ≠ ['(', '?'] := by
      rcases type with text | text <;> simp [text]
    have matching : ¬ OpensLookahead opening.text := by
      rcases type with text | text <;> simp [OpensLookahead, text]
    obtain ⟨same, quantifiable, role⟩ := state.read_group opens known closes
      fun entered opened started => (ih (fun token member => shaped token (by simp [member]))
        entered ⟨opened, started⟩).1
    exact ⟨same, quantifiable.mpr matching, role⟩
  | anchor token kind =>
    obtain ⟨same, last⟩ := state.read_test (.inl kind) (shaped token (by simp))
    exact ⟨same, by simp [Follows, last]⟩
  | boundary token kind test =>
    obtain ⟨same, last⟩ := state.read_test (.inr ⟨kind, test⟩) (shaped token (by simp))
    exact ⟨same, by simp [Follows, last]⟩
  | lookahead opening closing inner opens type closes body ih =>
    have known : opening.text ≠ ['(', '?'] := by
      rcases type with text | text <;> simp [text]
    obtain ⟨same, _, role⟩ := state.read_group opens known closes
      fun entered opened started => (ih (fun token member => shaped token (by simp [member]))
        entered ⟨opened, started⟩).1
    exact ⟨same, role⟩
  | once atom body ih =>
    -- The atom leaves the role of its last token to the term.
    obtain ⟨same, _, role⟩ := ih shaped state trivial
    exact ⟨same, role⟩
  | repeated atom quantifier body kind good ih =>
    -- The quantifier may stand behind the atom, because the atom can be repeated.
    obtain ⟨same, quantifiable, _⟩ :=
      ih (fun token member => shaped token (by simp [member])) state trivial
    rw [List.foldl_append]
    obtain ⟨after, last⟩ := (atom.foldl read state).read_quantifier kind quantifiable good
    exact ⟨same.trans after, by simp [Follows, last]⟩
  | nil => exact ⟨⟨rfl, rfl⟩, by simp [Follows]⟩
  | cons term rest first others ihFirst ihOthers =>
    obtain ⟨same, role⟩ := ihFirst (fun token member => shaped token (by simp [member])) state trivial
    obtain ⟨after, last⟩ := ihOthers (fun token member => shaped token (by simp [member]))
      (term.foldl read state) trivial
    rw [List.foldl_append]
    refine ⟨same.trans after, fun _ => ?_⟩
    -- The last term decides, and that is the first one when no other follows.
    cases rest with
    | nil => exact role
    | cons _ _ => exact last (by simp)
  | last sequence only ih =>
    exact ⟨(ih shaped state trivial).1, trivial⟩
  | more sequence rest bar first kind others ihFirst ihOthers =>
    obtain ⟨same, role⟩ := ihFirst (fun token member => shaped token (by simp [member])) state trivial
    rw [List.foldl_append, List.foldl_cons]
    -- In front of the bar stands a term, or else the opening of the group.
    have started : (sequence.foldl read state).last.role ≠ .initial := by
      cases sequence with
      | nil => exact allows.2
      | cons leading following =>
        have ordinary : ((leading :: following).foldl read state).last.role = .ordinary := role (by simp)
        rw [ordinary]
        simp
    have opened : (sequence.foldl read state).openGroups ≠ [] := by
      rw [same.openGroups]
      exact allows.1
    obtain ⟨after, last⟩ :=
      (sequence.foldl read state).read_alternator kind started fun _ => opened
    obtain ⟨onward, _⟩ := ihOthers (fun token member => shaped token (by simp [member]))
      ((sequence.foldl read state).read bar) ⟨by rwa [after.openGroups], by simp [last]⟩
    exact ⟨same.trans (after.trans onward), trivial⟩
  | branch sequence only full ih =>
    -- The only branch is not empty, so a term is behind it.
    obtain ⟨same, role⟩ := ih shaped state trivial
    exact ⟨same, role full⟩
  | branches sequence rest bar first full kind others ihFirst ihOthers =>
    obtain ⟨same, role⟩ := ihFirst (fun token member => shaped token (by simp [member])) state trivial
    rw [List.foldl_append, List.foldl_cons]
    -- The bar stands behind a term, so nothing is empty on the outermost level.
    have ordinary : (sequence.foldl read state).last.role = .ordinary := role full
    obtain ⟨after, last⟩ := (sequence.foldl read state).read_alternator kind
      (by simp [ordinary]) (by simp [ordinary])
    have outermost := (same.trans after).openGroups.trans allows
    obtain ⟨onward, ended⟩ :=
      ihOthers (fun token member => shaped token (by simp [member])) _ outermost
    exact ⟨same.trans (after.trans onward), ended⟩
  | empty => exact ⟨⟨rfl, rfl⟩, trivial⟩
  | closed tokens body ih => exact ⟨(ih shaped state allows).1, trivial⟩
  | trailing tokens bar body kind ih =>
    -- Behind the branches one more bar is allowed.
    obtain ⟨same, role⟩ := ih (fun token member => shaped token (by simp [member])) state allows
    rw [List.foldl_append]
    have ordinary : (tokens.foldl read state).last.role = .ordinary := role
    obtain ⟨after, _⟩ := (tokens.foldl read state).read_alternator kind
      (by simp [ordinary]) (by simp [ordinary])
    exact ⟨same.trans after, trivial⟩

end Classifier

end RegexLens
