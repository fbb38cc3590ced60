import Mathlib.Tactic
import RegexLens.Proofs.Host.BoundaryMatching
import RegexLens.Proofs.Host.TreeReading
import RegexLens.Proofs.Host.TreeSpelling
import RegexLens.Proofs.Host.TreeUniqueness
import RegexLens.Proofs.Pattern.Acceptance
import RegexLens.Proofs.Pattern.References

/-! The host form of a pattern without faults means what the pattern means. -/

namespace RegexLens

/-- The expression of a tree is made from its units, unless that exceeds one of the limits. -/
theorem Reads.ofText {text : Text} {tokens : List Token} {tree : PatternTree}
    (reads : Reads .pattern 0 tokens [tree])
    (spelled : Lexeme.readAll false text = .ok tree.lexemes) (limits : Limits) :
    if tree.fits limits 0 then Expression.ofText limits text = .ok tree.expression
    else Expression.ofText limits text = .error .nestedTooDeep ∨
      Expression.ofText limits text = .error .notRepeatable := by
  have whole : Expression.ofText limits text =
      ExpressionReader.initial.readAll limits tree.lexemes >>= ExpressionReader.finish := by
    rw [Expression.ofText, spelled]
    rfl
  -- Reading the units reaches the pieces of the tree, or it fails for a limit.
  have reached : ExpressionReader.Reaches limits .initial _ _ _ := reads.reaches .initial rfl
  rw [List.flatMap_singleton, List.all_cons, List.all_nil, Bool.and_true] at reached
  rw [whole]
  unfold ExpressionReader.Reaches at reached
  cases read : ExpressionReader.initial.readAll limits tree.lexemes with
  | error rejection =>
    rw [read] at reached
    -- A rejection is one for a limit.
    obtain ⟨exceeds, limit⟩ := reached
    have outside : tree.fits limits 0 = false := exceeds
    rw [outside, if_neg (by simp)]
    rcases limit with rfl | rfl
    · exact .inl rfl
    · exact .inr rfl
  | ok next =>
    rw [read] at reached
    obtain ⟨within, follows⟩ := reached
    have inside : tree.fits limits 0 = true := within
    obtain ⟨first, rest, complete, same⟩ := follows.changes rfl
    have closed : next.frames = [] := follows.frames
    have own : tree.expression = .choiceOf first rest := by simpa using same
    -- Every group is closed, and the alternatives of the outermost level are the expression.
    have finished : next.finish = .ok tree.expression := by
      rw [ExpressionReader.finish, closed, Branches.expression, complete, own]
      simp [ExpressionReader.initial, Branches.start]
    rw [inside, if_pos rfl]
    exact finished

/-- A pattern without faults is spelled for the host so that the pattern's own tree, which is the
only one up to the ways in which sets are written, is read back. -/
theorem hostForm_preserves_tree (pattern : Text) (accepted : (classify pattern).diagnostics = [])
    (encodable : ∀ token ∈ scan pattern, token.Encodable) :
    ∃ tree, Reads .pattern 0 (scan pattern) [tree] ∧
      (∀ other, Reads .pattern 0 (scan pattern) [other] → other.Same tree) ∧
      Lexeme.readAll false (hostForm pattern) = .ok tree.lexemes ∧
      Expression.ofText .none (hostForm pattern) = .ok tree.expression ∧
      -- The limits of the host engine can only turn the reading into a rejection.
      (if tree.fits .host 0 then Expression.ofText .host (hostForm pattern) = .ok tree.expression
      else Expression.ofText .host (hostForm pattern) = .error .nestedTooDeep ∨
        Expression.ofText .host (hostForm pattern) = .error .notRepeatable) ∧
      tree.references = (classify pattern).backreferences ∧
      ∀ (wanted : Bool) (referenced : List Nat) (isLast : Bool) (label : Nat),
        ((PatternTree.boundary wanted).expression.planFrom referenced isLast label).1.Tests
          fun cursor => cursor.isBoundary == wanted := by
  obtain ⟨tree, reads, spelled⟩ :=
    exists_readAll_hostForm (derives_of_accepted accepted) encodable
  -- Without limits the reading cannot be rejected.
  have free := reads.ofText spelled .none
  rw [tree.fits_none 0, if_pos rfl] at free
  have references := reads.references
  rw [List.flatMap_singleton] at references
  refine ⟨tree, reads, fun _ again => again.unique reads, spelled, free,
    reads.ofText spelled .host, ?_, ?_⟩
  · -- The tree and the classification both refer to what the tokens refer to.
    rw [references, classify_backreferences]
  · exact fun wanted referenced isLast label =>
      boundaryExpression_tests wanted referenced isLast label

/-- A quantifier behind a number repeats the digit that the number leaves over. -/
theorem hostForm_preserves_tree_numbered :
    let pattern : Text := ['(', 'a', '|', '\\', 'B', '[', '^', 'x', '-', 'z', ']', ')', '\\', '1', '2', '+', '?']
    ∃ tree, Reads .pattern 0 (scan pattern) [tree] ∧ tree.references = [1] ∧
      Expression.ofText .none (hostForm pattern) = .ok tree.expression := by
  intro pattern
  have accepted : (classify pattern).diagnostics = [] := by cbv
  have referred : (classify pattern).backreferences = [1] := by cbv
  -- The pattern is scanned once, and the rest is read off its tokens.
  have scanned : scan pattern = [⟨.groupOpen, 0, ['(']⟩, ⟨.literal, 1, ['a']⟩,
      ⟨.alternator, 2, ['|']⟩, ⟨.escape, 3, ['\\', 'B']⟩,
      ⟨.characterClass, 5, ['[', '^', 'x', '-', 'z', ']']⟩, ⟨.groupClose, 11, [')']⟩,
      ⟨.escape, 12, ['\\', '1', '2']⟩, ⟨.quantifier, 15, ['+', '?']⟩] := by cbv
  have atoms : classAtoms ['[', '^', 'x', '-', 'z', ']'] = [.run 'x' [], .hyphen, .run 'z' []] := by
    cbv
  -- None of the tokens names a surrogate.
  have encodable : ∀ token ∈ scan pattern, token.Encodable := by
    simp [scanned, Token.Encodable, atoms, ClassItem.Encodable, namesSurrogate]
  obtain ⟨tree, reads, _, _, free, _, references, _⟩ :=
    hostForm_preserves_tree pattern accepted encodable
  exact ⟨tree, reads, references.trans referred, free⟩

end RegexLens
