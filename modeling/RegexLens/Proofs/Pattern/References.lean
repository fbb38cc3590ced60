import RegexLens.Proofs.Pattern.Tree

/-! The references that the classification of a pattern counts are those of the pattern's tree. -/

namespace RegexLens

/-- The group that a token refers to, given the number of groups opened before it. -/
def Token.references (groups : Nat) (token : Token) : List Nat :=
  if token.kind = .escape ∧ startsNumbered (token.text.drop 1) = true then
    (NumberedEscape.resolve groups (token.text.drop 1)).group?.toList
  else []

/-- The groups that tokens refer to, given the number of groups opened before them. -/
def referencesIn (groups : Nat) : List Token → List Nat
  | [] => []
  | token :: rest => token.references groups ++ referencesIn (groups + capturesIn [token]) rest

/-- Tokens that follow one another refer to what each part does. -/
theorem referencesIn_append (groups : Nat) (first second : List Token) :
    referencesIn groups (first ++ second) =
      referencesIn groups first ++ referencesIn (groups + capturesIn first) second := by
  induction first generalizing groups with
  | nil => rfl
  | cons token rest ih =>
    simp only [List.cons_append, referencesIn, ih, List.append_assoc, capturesIn_cons,
      capturesIn_nil, Nat.zero_add, Nat.add_assoc]
    -- The groups are added up in another order on the two sides.
    rw [Nat.add_comm (capturesIn rest)]

/-- A token that is no escape refers to nothing. -/
theorem Token.references_of_kind {token : Token} (groups : Nat) (other : token.kind ≠ .escape) :
    token.references groups = [] := by
  -- Only an escape can be a number.
  simp [references, other]

namespace Classifier

/-- Reading a token counts the group that it opens and the group that it refers to. -/
theorem read_references (state : Classifier) (token : Token) :
    (state.read token).captures = state.captures + capturesIn [token] ∧
      (state.read token).backreferences =
        state.backreferences ++ token.references state.captures := by
  cases kind : token.kind with
  | groupOpen =>
    simp only [read, kind, readGroupOpen]
    split
    · rename_i malformed
      simp [flagged, styled, follow, Token.captures, Token.references, kind, malformed]
    · -- The plain parenthesis is the one opening that captures.
      by_cases plain : token.text = ['(']
      · simp [follow, styled, Token.captures, Token.references, kind, plain]
      · simp [follow, styled, Token.captures, Token.references, kind, plain]
  | escape =>
    simp only [read, kind, readEscape]
    split
    · rename_i nothing
      simp [flagged, styled, follow, Token.captures, Token.references, kind, nothing,
        startsNumbered]
    · rename_i first rest sequence
      split
      · rename_i numbered
        simp [readNumberedEscape_eq, follow, plain, styled, Token.captures, Token.references, kind,
          sequence, numbered]
      · rename_i unnumbered
        -- Whatever else the escape is, it changes neither count.
        split
        · simp [flagged, styled, follow, Token.captures, Token.references, kind, sequence, unnumbered]
        · split <;> simp [plain, styled, follow, Token.captures, Token.references, kind, sequence,
            unnumbered]
  | groupClose =>
    simp only [read, kind, readGroupClose]
    split <;> simp [flagged, styled, follow, Token.captures, Token.references, kind]
  | quantifier =>
    simp only [read, kind, readQuantifier, follow]
    split
    · simp [flagged, styled, Token.captures, Token.references, kind]
    · split <;> simp [flagged, styled, Token.captures, Token.references, kind]
  | alternator =>
    simp only [read, kind, readAlternator]
    split
    · simp [flagged, styled, Token.captures, Token.references, kind]
    · split <;> simp [styled, Token.captures, Token.references, kind]
  -- Every other token is shown in one way, and it neither opens nor refers.
  | _ => simp [read, kind, readClass, styled, plain, follow, Token.captures, Token.references]

/-- Reading tokens counts the groups that they open and collects the groups that they refer to. -/
theorem run_references (state : Classifier) (tokens : List Token) :
    (tokens.foldl read state).captures = state.captures + capturesIn tokens ∧
      (tokens.foldl read state).backreferences =
        state.backreferences ++ referencesIn state.captures tokens := by
  induction tokens generalizing state with
  | nil => simp [referencesIn]
  | cons token rest ih =>
    obtain ⟨captures, references⟩ := state.read_references token
    -- The other tokens count on from where the first one stops.
    obtain ⟨further, others⟩ := ih (state.read token)
    rw [List.foldl_cons, further, others, captures, references]
    refine ⟨?_, by simp [referencesIn]⟩
    simp only [capturesIn_cons, capturesIn_nil]
    omega

/-- The end of a pattern adds no references. -/
theorem finish_backreferences (state : Classifier) :
    state.finish.backreferences = state.backreferences := by
  -- A group that is abandoned is a fault and no reference.
  have each (groups : List OpenGroup) (state : Classifier) :
      (groups.foldl abandon state).backreferences = state.backreferences := by
    induction groups generalizing state with
    | nil => rfl
    | cons group rest ih => rw [List.foldl_cons, ih]; rfl
  exact each _ state

end Classifier

/-- The references of a classified pattern are those of its tokens. -/
theorem classify_backreferences (pattern : Text) :
    (classify pattern).backreferences = referencesIn 0 (scan pattern) := by
  rw [classify, Classifier.finish_backreferences, (Classifier.run_references _ _).2]
  rfl

/-- The trees of a phrase refer to the groups that its tokens refer to. -/
theorem Reads.references {phrase : Phrase} {groups : Nat} {tokens : List Token}
    {trees : List PatternTree} (reads : Reads phrase groups tokens trees) :
    trees.flatMap PatternTree.references = referencesIn groups tokens := by
  -- Characters refer to nothing, and neither do tokens that are no numbers.
  have characters (text : Text) : (text.map PatternTree.char).flatMap PatternTree.references = [] := by
    induction text with
    | nil => rfl
    | cons first rest ih => simp [PatternTree.references, ih]
  have plain (token : Token) (groups : Nat) (other : token.kind ≠ .escape) :
      referencesIn groups [token] = [] := by
    simp [referencesIn, token.references_of_kind groups other]
  -- The parentheses around a group refer to nothing themselves.
  have enclosed (groups : Nat) (opening closing : Token) (inner : List Token)
      (opens : opening.kind = .groupOpen) (closes : closing.kind = .groupClose) :
      referencesIn groups (opening :: (inner ++ [closing])) =
        referencesIn (groups + capturesIn [opening]) inner := by
    rw [referencesIn, referencesIn_append, plain closing _ (by simp [closes]),
      opening.references_of_kind groups (by simp [opens])]
    simp
  induction reads with
  | literal groups token kind => rw [characters, plain token groups (by simp [kind])]
  | dot groups token kind => rw [plain token groups (by simp [kind])]; rfl
  | characterClass groups token kind => rw [plain token groups (by simp [kind])]; rfl
  | shorthand groups token kind sequence text named =>
    simp [referencesIn, Token.references, text, named.unnumbered, PatternTree.references]
  | character groups token kind sequence text good unnumbered symbol code =>
    rw [not_isNumbered_iff] at unnumbered
    simp [referencesIn, Token.references, text, unnumbered, PatternTree.references]
  | reference groups token kind digits text numbered group length read =>
    rw [isNumbered_iff] at numbered
    -- The digits are read in one way only, which is the one that the classifier follows.
    obtain ⟨_, resolved⟩ := (numberReads_iff numbered).mp read
    rw [List.flatMap_cons, characters]
    simp [referencesIn, Token.references, kind, text, numbered, ← resolved, PatternTree.references,
      NumberedEscape.group?]
  | code groups token kind digits text numbered symbol length read =>
    rw [isNumbered_iff] at numbered
    obtain ⟨_, resolved⟩ := (numberReads_iff numbered).mp read
    rw [List.flatMap_cons, characters]
    simp [referencesIn, Token.references, kind, text, numbered, ← resolved, PatternTree.references,
      NumberedEscape.group?]
  | group groups opening closing inner opens type closes body inside ih =>
    rw [enclosed groups opening closing inner opens closes]
    simpa [Token.captures, type, PatternTree.references] using ih
  | capture groups opening closing inner opens type closes body inside ih =>
    rw [enclosed groups opening closing inner opens closes]
    simpa [Token.captures, opens, type, PatternTree.references] using ih
  | textStart groups token kind text => rw [plain token groups (by simp [kind])]; rfl
  | textEnd groups token kind text => rw [plain token groups (by simp [kind])]; rfl
  | boundary groups token kind wanted text =>
    cases wanted <;> simp [referencesIn, Token.references, text, startsNumbered, PatternTree.references]
  | lookahead groups opening closing inner opens wanted type closes body inside ih =>
    rw [enclosed groups opening closing inner opens closes]
    simpa [Token.captures, type, PatternTree.references] using ih
  | once groups tokens trees atom ih => exact ih
  | repeated groups tokens quantifier front last atom kind bounds isLazy text accepted ih =>
    -- The quantifier refers to nothing, and what it repeats refers to what it did before.
    rw [referencesIn_append, plain quantifier _ (by simp [kind]), ← ih]
    simp [PatternTree.references]
  | nil groups => rfl
  | cons groups term rest trees others first behind ihFirst ihBehind =>
    rw [referencesIn_append, ← ihFirst, ← ihBehind, List.flatMap_append]
  | last groups tokens trees only ih =>
    rw [← ih, List.flatMap_singleton, PatternTree.references_chain]
  | more groups tokens rest bar trees other first kind behind ihFirst ihBehind =>
    -- The bar neither opens a group nor refers to one.
    have barPlain : bar.captures = false := Token.captures_of_kind (by simp [kind])
    rw [referencesIn_append, referencesIn, bar.references_of_kind _ (by simp [kind]), ← ihFirst]
    have none : capturesIn [bar] = 0 := by simp [barPlain]
    rw [none, Nat.add_zero, List.nil_append, ← ihBehind]
    simp [PatternTree.references, PatternTree.references_chain]
  | whole groups tokens tree body ih => exact ih

end RegexLens
