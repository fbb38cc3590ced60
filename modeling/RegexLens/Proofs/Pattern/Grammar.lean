import RegexLens.Proofs.Pattern.ClassReading
import RegexLens.Proofs.Pattern.Quantifiers

/-! The grammar of patterns over their tokens, and the places in it where a pattern can grow. -/

namespace RegexLens

/-- The escapes that test for a word boundary, or for the lack of one. -/
def IsBoundary (text : Text) : Prop :=
  text = ['\\', 'b'] ∨ text = ['\\', 'B']

/-- The escapes that match characters: complete ones that are not tests for a boundary. -/
def GoodEscape (text : Text) : Prop :=
  text ∉ [['\\', 'b'], ['\\', 'B'], ['\\'], ['\\', 'c'], ['\\', 'u'], ['\\', 'x']]

/-- The openings of groups that match what stands in them. -/
def OpensGroup (text : Text) : Prop :=
  text = ['('] ∨ text = ['(', '?', ':']

/-- The openings of groups that only look at what follows. -/
def OpensLookahead (text : Text) : Prop :=
  text = ['(', '?', '='] ∨ text = ['(', '?', '!']

/-- The phrases of the grammar. -/
inductive Phrase
  | atom
  | term
  | sequence
  | alternatives
  | branches
  | pattern
deriving DecidableEq, Repr

/-- The derivations of the grammar: the lists of tokens that each phrase stands for. -/
inductive Derives : Phrase → List Token → Prop
  -- Atoms are what a quantifier can repeat.
  | literal (token : Token) (kind : token.kind = .literal) : Derives .atom [token]
  | dot (token : Token) (kind : token.kind = .dot) : Derives .atom [token]
  | characterClass (token : Token) (kind : token.kind = .characterClass)
      (good : GoodClass token.text) : Derives .atom [token]
  | escape (token : Token) (kind : token.kind = .escape) (good : GoodEscape token.text) :
      Derives .atom [token]
  | group (opening closing : Token) (inner : List Token) (opens : opening.kind = .groupOpen)
      (type : OpensGroup opening.text) (closes : closing.kind = .groupClose)
      (body : Derives .alternatives inner) : Derives .atom (opening :: (inner ++ [closing]))
  -- Terms are tests, and atoms with at most one quantifier.
  | anchor (token : Token) (kind : token.kind = .anchor) : Derives .term [token]
  | boundary (token : Token) (kind : token.kind = .escape) (test : IsBoundary token.text) :
      Derives .term [token]
  | lookahead (opening closing : Token) (inner : List Token) (opens : opening.kind = .groupOpen)
      (type : OpensLookahead opening.text) (closes : closing.kind = .groupClose)
      (body : Derives .alternatives inner) : Derives .term (opening :: (inner ++ [closing]))
  | once (atom : List Token) (body : Derives .atom atom) : Derives .term atom
  | repeated (atom : List Token) (quantifier : Token) (body : Derives .atom atom)
      (kind : quantifier.kind = .quantifier) (good : GoodQuantifier quantifier.text) :
      Derives .term (atom ++ [quantifier])
  -- A sequence is any number of terms.
  | nil : Derives .sequence []
  | cons (term rest : List Token) (first : Derives .term term)
      (others : Derives .sequence rest) : Derives .sequence (term ++ rest)
  -- Inside groups an alternative may be empty.
  | last (sequence : List Token) (only : Derives .sequence sequence) :
      Derives .alternatives sequence
  | more (sequence rest : List Token) (bar : Token) (first : Derives .sequence sequence)
      (kind : bar.kind = .alternator) (others : Derives .alternatives rest) :
      Derives .alternatives (sequence ++ bar :: rest)
  -- On the outermost level it may not.
  | branch (sequence : List Token) (only : Derives .sequence sequence) (full : sequence ≠ []) :
      Derives .branches sequence
  | branches (sequence rest : List Token) (bar : Token) (first : Derives .sequence sequence)
      (full : sequence ≠ []) (kind : bar.kind = .alternator) (others : Derives .branches rest) :
      Derives .branches (sequence ++ bar :: rest)
  -- A pattern is empty, or it consists of branches with at most one alternator behind them.
  | empty : Derives .pattern []
  | closed (tokens : List Token) (body : Derives .branches tokens) : Derives .pattern tokens
  | trailing (tokens : List Token) (bar : Token) (body : Derives .branches tokens)
      (kind : bar.kind = .alternator) : Derives .pattern (tokens ++ [bar])

namespace Derives

variable {tokens term : List Token} {bar : Token}

/-- A phrase that must match something has a token. -/
theorem ne_nil {phrase : Phrase} (derives : Derives phrase tokens)
    (solid : phrase = .atom ∨ phrase = .term ∨ phrase = .branches) : tokens ≠ [] := by
  -- A branch has a token by its own condition, and every other phrase in question by its shape.
  induction derives with
  | branch _ _ full => exact full
  | once _ _ ih => exact ih (.inl rfl)
  | nil | cons | last | more | empty | closed | trailing => simp at solid
  | _ => simp

/-- A sequence goes on with another term. -/
theorem sequence_append (sequence : Derives .sequence tokens) (last : Derives .term term) :
    -- The term goes to the end, behind the terms that are there.
    Derives .sequence (tokens ++ term) := by
  generalize phrase : Phrase.sequence = own at sequence
  induction sequence with
  | nil =>
    have whole := Derives.cons term [] last .nil
    rwa [List.append_nil] at whole
  | cons first rest head _ _ ih =>
    rw [List.append_assoc]
    exact .cons first _ head (ih phrase)
  | _ => contradiction

/-- The last alternative goes on with another term. -/
theorem alternatives_append (alternatives : Derives .alternatives tokens)
    (last : Derives .term term) : Derives .alternatives (tokens ++ term) := by
  -- Only the last alternative grows, and those in front of it stay as they are.
  generalize phrase : Phrase.alternatives = own at alternatives
  induction alternatives with
  | last sequence only => exact .last _ (only.sequence_append last)
  | more sequence rest bar first kind _ _ ih =>
    rw [List.append_assoc, List.cons_append]
    exact .more sequence _ bar first kind (ih phrase)
  | _ => contradiction

/-- An alternator starts an alternative that is empty so far. -/
theorem alternatives_bar (alternatives : Derives .alternatives tokens)
    (kind : bar.kind = .alternator) : Derives .alternatives (tokens ++ [bar]) := by
  -- Behind the last alternative an empty one begins.
  generalize phrase : Phrase.alternatives = own at alternatives
  induction alternatives with
  | last sequence only => exact .more sequence [] bar only kind (.last [] .nil)
  | more sequence rest other first known _ _ ih =>
    rw [List.append_assoc, List.cons_append]
    exact .more sequence _ other first known (ih phrase)
  | _ => contradiction

/-- The last branch goes on with another term. -/
theorem branches_append (branches : Derives .branches tokens) (last : Derives .term term) :
    Derives .branches (tokens ++ term) := by
  -- Only the last branch grows, and it stays full.
  generalize phrase : Phrase.branches = own at branches
  induction branches with
  | branch sequence only full => exact .branch _ (only.sequence_append last) (by simp [full])
  | branches sequence rest bar first full kind _ _ ih =>
    rw [List.append_assoc, List.cons_append]
    exact .branches sequence _ bar first full kind (ih phrase)
  | _ => contradiction

/-- A term alone is a branch. -/
theorem branches_term (only : Derives .term term) : Derives .branches term := by
  -- A term has a token, so the branch is not empty.
  have sequence := Derives.nil.sequence_append only
  exact .branch term sequence (only.ne_nil (.inr (.inl rfl)))

/-- Behind an alternator another branch starts with a term. -/
theorem branches_bar_term (branches : Derives .branches tokens) (kind : bar.kind = .alternator)
    (next : Derives .term term) : Derives .branches (tokens ++ bar :: term) := by
  -- The new branch comes behind the last one.
  generalize phrase : Phrase.branches = own at branches
  induction branches with
  | branch sequence only full => exact .branches sequence term bar only full kind (branches_term next)
  | branches sequence rest other first full known _ _ ih =>
    rw [List.append_assoc, List.cons_append]
    exact .branches sequence _ other first full known (ih phrase)
  | _ => contradiction

end Derives

end RegexLens
