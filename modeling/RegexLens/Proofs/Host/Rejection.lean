import RegexLens.Proofs.Host.Hollow
import RegexLens.Proofs.Host.Translation
import RegexLens.Proofs.Host.WellFormed
import RegexLens.Proofs.Pattern.TrailingAlternator

/-! A pattern without faults is well formed for the host, which can only reject it for its limits. -/

namespace RegexLens

/-- Once the units are read, an expression is rejected as its units are. -/
theorem ofText_eq_error {limits : Limits} {text : Text} {lexemes : List Lexeme} {cause : Rejection}
    (spelled : Lexeme.readAll false text = .ok lexemes) (other : cause ≠ .unterminatedGroup) :
    Expression.ofText limits text = .error cause ↔
      ExpressionReader.initial.readAll limits lexemes = .error cause := by
  -- The units come first, and then the expression is read off them.
  have whole : Expression.ofText limits text =
      ExpressionReader.initial.readAll limits lexemes >>= ExpressionReader.finish := by
    rw [Expression.ofText, spelled]
    rfl
  rw [whole]
  -- Either the units are rejected, or the end of the expression is.
  cases ExpressionReader.initial.readAll limits lexemes with
  | error => simp [Bind.bind, Except.bind]
  | ok next =>
    -- The end of the expression can only miss the end of a group.
    simp only [Bind.bind, Except.bind, ExpressionReader.finish]
    split
    · simp
    · simp [Ne.symm other]

/-- A pattern of the grammar that names no surrogate is rejected for a limit that it exceeds. -/
theorem exceeds_of_rejected {pattern : Text} {cause : Rejection}
    (derives : Derives .pattern (scan pattern))
    (encodable : ∀ token ∈ scan pattern, token.Encodable)
    (rejected : Matcher.ofPattern pattern = .error cause) :
    (cause = .notRepeatable ∧ RepeatsHollow (scan pattern)) ∨
      (cause = .nestedTooDeep ∧ ∃ lexemes, Lexeme.readAll false (hostForm pattern) = .ok lexemes ∧
        NestsTo nestingLimit lexemes) := by
  obtain ⟨tree, reads, spelled⟩ := exists_readAll_hostForm derives encodable
  -- The matcher is rejected when its expression is.
  have refused : Expression.ofText .host (hostForm pattern) = .error cause := by
    unfold Matcher.ofPattern at rejected
    cases read : Expression.ofText .host (hostForm pattern) with
    | ok => simp [read, Except.map] at rejected
    | error => simpa [read, Except.map] using rejected
  -- Only the two limits can be exceeded.
  have limit : cause = .nestedTooDeep ∨ cause = .notRepeatable := by
    have known := reads.ofText spelled .host
    rw [refused] at known
    split at known
    · contradiction
    · simpa using known
  -- Each limit that is exceeded shows in the tokens or in the units.
  rcases limit with rfl | rfl
  · refine .inr ⟨rfl, tree.lexemes, spelled, ?_⟩
    exact ExpressionReader.exists_deep_of_readAll ((ofText_eq_error spelled (by simp)).mp refused)
  · refine .inl ⟨rfl, ?_⟩
    -- Without the limit for depth the pattern would still be rejected.
    have still := ExpressionReader.readAll_anyDepth (by simp)
      ((ofText_eq_error spelled (by simp)).mp refused)
    -- The tree exceeds a limit other than depth, or else it would be accepted at any depth.
    have exceeds : tree.fits Limits.host.anyDepth 0 = false := by
      rw [← Bool.not_eq_true]
      intro fits
      have accepted := reads.ofText spelled Limits.host.anyDepth
      rw [if_pos fits, (ofText_eq_error spelled (by simp)).mpr still] at accepted
      contradiction
    -- What exceeds it is repeated somewhere, and there the tokens are hollow.
    obtain ⟨body, member, refused⟩ := PatternTree.exists_of_fits_anyDepth exceeds
    exact reads.repeatsHollow (scan_shaped pattern) (by simpa using member) refused

/-- A pattern without faults is spelled, but for its last alternator, as a well-formed expression of
the host, with its parentheses in pairs, its classes closed and filled, its ranges in order, its
quantifiers behind single atoms, its codes in bounds and its references to groups opened before; the
host can only reject it for a surrogate, for a quantifier behind a group in which nothing is left to
be repeated, or for groups that nest too deep. -/
theorem rejection_exceeds_limits (pattern : Text) (accepted : (classify pattern).diagnostics = []) :
    let kept := sansTrailingAlternator pattern
    HostSyntax .alternatives 0 (hostForm kept) (capturesIn (scan kept)) ∧
      ∀ cause, Matcher.ofPattern kept = .error cause →
        (∃ token ∈ scan pattern, ¬ token.Encodable) ∨
          (cause = .notRepeatable ∧ RepeatsHollow (scan pattern)) ∨
          (cause = .nestedTooDeep ∧ ∃ lexemes, Lexeme.readAll false (hostForm kept) = .ok lexemes ∧
            NestsTo 64 lexemes) := by
  intro kept
  -- What is left without the alternator is still a pattern, at the front of the other one.
  obtain ⟨derives, dropped, tokens⟩ := derives_sansTrailingAlternator (derives_of_accepted accepted)
  refine ⟨hostForm_wellFormed derives, fun cause rejected => ?_⟩
  -- A token that the host has no character for is one of the three reasons.
  by_cases surrogate : ∃ token ∈ scan pattern, ¬ token.Encodable
  · exact .inl surrogate
  · have encodable : ∀ token ∈ scan kept, token.Encodable := by
      intro token member
      have known := not_exists.mp surrogate token
      exact Classical.not_not.mp fun names => known ⟨by simp [tokens, kept, member], names⟩
    rcases exceeds_of_rejected derives encodable rejected with ⟨same, repeats⟩ | deep
    · -- What is repeated in front of the last alternator is repeated in the whole pattern.
      refine .inr (.inl ⟨same, ?_⟩)
      rw [tokens]
      exact repeats.around [] dropped
    · exact .inr (.inr deep)

/-- A quantifier with nothing to repeat is rejected when an empty group stands beside a look-ahead,
also in front of a last alternator. -/
theorem rejection_exceeds_limits_hollow :
    let pattern : Text := ['(', '?', ':', '(', '?', ':', ')', '(', '?', '=', 'a', ')', ')', '+', '|']
    (classify pattern).diagnostics = [] ∧
      Matcher.ofPattern (sansTrailingAlternator pattern) = .error .notRepeatable ∧
      HostSyntax .alternatives 0 (hostForm (sansTrailingAlternator pattern)) 0 ∧
      RepeatsHollow (scan pattern) := by
  intro pattern
  have accepted : (classify pattern).diagnostics = [] := by cbv
  have kept : sansTrailingAlternator pattern = pattern.dropLast := rfl
  -- The pattern is scanned once, and the rest is read off its tokens.
  have scanned : scan pattern = [⟨.groupOpen, 0, ['(', '?', ':']⟩, ⟨.groupOpen, 3, ['(', '?', ':']⟩,
      ⟨.groupClose, 6, [')']⟩, ⟨.groupOpen, 7, ['(', '?', '=']⟩, ⟨.literal, 10, ['a']⟩,
      ⟨.groupClose, 11, [')']⟩, ⟨.groupClose, 12, [')']⟩, ⟨.quantifier, 13, ['+']⟩,
      ⟨.alternator, 14, ['|']⟩] := by cbv
  have front : scan pattern.dropLast = (scan pattern).dropLast := by
    rw [scanned]
    cbv
  have spelled : hostForm pattern.dropLast = pattern.dropLast := by
    rw [hostForm, front, scanned]
    decide
  -- The host is given the pattern as it is.
  have rejected : Matcher.ofPattern pattern.dropLast = .error .notRepeatable := by
    have read : Expression.ofText .host pattern.dropLast = .error .notRepeatable := by cbv
    rw [Matcher.ofPattern, spelled, read]
    rfl
  obtain ⟨formed, causes⟩ := rejection_exceeds_limits pattern accepted
  rw [kept] at formed causes ⊢
  -- No group captures.
  have captures : capturesIn (scan pattern.dropLast) = 0 := by
    rw [front, scanned]
    decide
  rw [captures] at formed
  refine ⟨accepted, rejected, formed, ?_⟩
  -- No token is at fault, and no group is too deep, so the repeated group is hollow.
  rcases causes .notRepeatable rejected with ⟨token, member, surrogate⟩ | ⟨_, hollow⟩ | ⟨deep, _⟩
  · refine absurd ?_ surrogate
    rw [scanned] at member
    simp only [List.mem_cons, List.not_mem_nil, or_false] at member
    rcases member with rfl | rfl | rfl | rfl | rfl | rfl | rfl | rfl | rfl <;> trivial
  · exact hollow
  · contradiction

/-- The contents of a group that is empty, or that holds only such a group or only a look-ahead. -/
inductive Bare : List Token → Prop
  | nil : Bare []
  | group (opening closing : Token) (inner : List Token) (opens : opening.kind = .groupOpen)
      (type : opening.text = ['(', '?', ':']) (closes : closing.kind = .groupClose)
      (body : Bare inner) : Bare (opening :: (inner ++ [closing]))
  | lookahead (opening closing : Token) (inner : List Token) (opens : opening.kind = .groupOpen)
      (type : OpensLookahead opening.text) (closes : closing.kind = .groupClose)
      (body : Balanced inner) : Bare (opening :: (inner ++ [closing]))

/-- Bare contents begin with an opening, if at all. -/
theorem Bare.opens {first : Token} {rest : List Token} (bare : Bare (first :: rest)) :
    first.kind = .groupOpen := by
  cases bare <;> assumption

/-- What a quantifier cannot repeat need not be empty or a single look-ahead: an empty group may
stand beside the look-ahead. -/
theorem rejection_not_bare :
    let pattern : Text := ['(', '?', ':', '(', '?', ':', ')', '(', '?', '=', 'a', ')', ')', '+']
    let kept := sansTrailingAlternator pattern
    pattern ≠ [] ∧ (classify pattern).diagnostics = [] ∧
      Matcher.ofPattern kept = .error .notRepeatable ∧
      ¬ ((∃ token ∈ scan pattern, ¬ token.Encodable) ∨ RepeatsPlainGroup Bare (scan pattern) ∨
        ∃ lexemes, Lexeme.readAll false (hostForm kept) = .ok lexemes ∧ NestsTo 64 lexemes) := by
  intro pattern kept
  -- The pattern has the same tokens without an alternator at its end.
  have scanned : scan pattern = [⟨.groupOpen, 0, ['(', '?', ':']⟩, ⟨.groupOpen, 3, ['(', '?', ':']⟩,
      ⟨.groupClose, 6, [')']⟩, ⟨.groupOpen, 7, ['(', '?', '=']⟩, ⟨.literal, 10, ['a']⟩,
      ⟨.groupClose, 11, [')']⟩, ⟨.groupClose, 12, [')']⟩, ⟨.quantifier, 13, ['+']⟩] := by cbv
  have same : kept = pattern := rfl
  have spelled : hostForm pattern = pattern := by
    rw [hostForm, scanned]
    decide
  have read : Lexeme.readAll false pattern = .ok [.openGroup .plain, .openGroup .plain, .closeGroup,
      .openGroup (.lookAhead true), .atom (.char 'a'), .closeGroup, .closeGroup,
      .quantifier ⟨1, none⟩ false false] := by cbv
  have rejected : Matcher.ofPattern pattern = .error .notRepeatable := by
    rw [Matcher.ofPattern, spelled, Expression.ofText, read]
    rfl
  refine ⟨by simp [pattern], by cbv, rejected, ?_⟩
  rw [same, spelled, read]
  -- The three reasons of the list are excluded one by one.
  rintro (⟨token, member, surrogate⟩ | bare | ⟨lexemes, units, deep⟩)
  · -- None of the tokens names a surrogate.
    refine absurd ?_ surrogate
    rw [scanned] at member
    simp only [List.mem_cons, List.not_mem_nil, or_false] at member
    rcases member with rfl | rfl | rfl | rfl | rfl | rfl | rfl | rfl <;> trivial
  · obtain ⟨before, _, quantifier, after, cut, repeats, opening, inner, closing, rfl, opens, type,
      closes, holds⟩ := bare
    rw [scanned] at cut
    clear scanned
    -- Only the first two tokens open a group without a number.
    rcases before with _ | ⟨_, _ | ⟨_, before⟩⟩ <;>
      simp only [List.nil_append, List.cons_append, List.append_assoc, List.cons.injEq] at cut
    · obtain ⟨rfl, cut⟩ := cut
      -- An empty group would be followed by its closing parenthesis.
      cases holds with
      | nil =>
        obtain ⟨rfl, -⟩ := List.cons.inj cut
        contradiction
      | group first last body _ _ _ holds =>
        -- The inner group would have to be the only one in the outer group.
        cases body with
        | nil =>
          obtain ⟨rfl, rfl, rfl, -⟩ := by simpa using cut
          contradiction
        | cons next rest =>
          obtain ⟨rfl, rfl, -⟩ := by simpa using cut
          exact absurd holds.opens (by decide)
      -- The inner group is no lookahead.
      | lookahead first last body _ type =>
        obtain ⟨rfl, -⟩ := List.cons.inj cut
        simp [OpensLookahead] at type
    · -- The inner group is not repeated, since another group stands behind it.
      obtain ⟨-, rfl, cut⟩ := cut
      cases inner with
      | nil =>
        obtain ⟨-, rfl, -⟩ := by simpa using cut
        contradiction
      | cons next rest =>
        obtain ⟨rfl, -⟩ := by simpa using cut
        exact absurd holds.opens (by decide)
    · -- No other token opens a group without a number.
      have member : opening ∈ before ++ opening :: (inner ++ [closing] ++ quantifier :: after) := by simp
      simp only [List.append_assoc, List.cons_append, List.nil_append, ← cut.2.2, List.mem_cons,
        List.not_mem_nil, or_false] at member
      rcases member with rfl | rfl | rfl | rfl | rfl | rfl <;> contradiction
  · -- There are fewer units than levels are allowed.
    rw [← Except.ok.inj units] at deep
    exact absurd deep.le_length (by decide)

end RegexLens
