import RegexLens.Proofs.Host.TokenSpelling

/-! The host form of every phrase of a pattern spells the trees that the phrase stands for. -/

namespace RegexLens

open Lexeme

/-- A group is spelled as its opening, what stands in it, and its end. -/
theorem Spelled.enclosed {phrase : Phrase} {groups : Nat} {opening closing : Token}
    {inner : List Token} {type : GroupType} {tree body : PatternTree} {more : Text}
    (reads : Reads phrase groups (opening :: (inner ++ [closing])) [tree])
    (units : tree.lexemes = .openGroup type :: (body.lexemes ++ [.closeGroup]))
    (opens : opening.kind = .groupOpen) (text : opening.text = '(' :: more)
    (start : Spells Calm opening.text [.openGroup type]) (closes : closing.kind = .groupClose)
    (shaped : closing.Shaped)
    (inside : Spelled .alternatives (groups + capturesIn [opening]) inner [body]) :
    Spelled phrase groups (opening :: (inner ++ [closing])) [tree] := by
  -- The opening stands in front of what is inside, and the end behind it.
  have form : tokensForm groups (opening :: (inner ++ [closing])) =
      opening.text ++ (tokensForm (groups + capturesIn [opening]) inner ++ [')']) := by
    rw [tokensForm_group groups opens closes shaped, List.append_assoc]
  have behind : [body].flatMap PatternTree.lexemes = body.lexemes := List.flatMap_singleton ..
  -- Neither the contents nor the end of the group start with the mark of a quantifier.
  have closer (rest : Text) : Calm ([')'] ++ rest) := calm_of_cons rest (by decide)
  have contents := inside.spells.append spells_closing fun rest _ => .inr (closer rest)
  rw [behind] at contents
  -- The three parts follow one another without a mark of a quantifier in between.
  have whole : Spells (fun _ => True) (tokensForm groups (opening :: (inner ++ [closing])))
      (.openGroup type :: (body.lexemes ++ [.closeGroup])) := by
    rw [form]
    refine start.append contents fun rest _ => ?_
    rw [List.append_assoc]
    exact inside.calm _ (.inr (closer rest))
  refine ⟨reads, ?_, ?_, ?_⟩
  · rw [List.flatMap_singleton, units]
    exact whole.weaken
  · -- The opening starts with a parenthesis.
    intro rest _
    rw [form, text]
    exact calm_of_cons _ (by decide)
  · -- Whatever stands in a group, a repetition can follow its end.
    intro _ before
    rw [List.flatMap_singleton, units, ← List.cons_append, leaves_append]
    rfl

/-- The opening of a group without a type captures, since its contents start with no type. -/
theorem spells_parenthesis : Spells Calm ['('] [.openGroup .capturing] :=
  fun repeatable rest calm => spells_capturing repeatable rest calm.1

/-- A group that matches what stands in it is spelled around it. -/
theorem exists_spelled_group (groups : Nat) {opening closing : Token} {inner : List Token}
    (opens : opening.kind = .groupOpen) (type : OpensGroup opening.text)
    (closes : closing.kind = .groupClose) (shaped : closing.Shaped)
    (inside : ∀ groups, ∃ body, Spelled .alternatives groups inner [body]) :
    ∃ trees, Spelled .atom groups (opening :: (inner ++ [closing])) trees := by
  obtain ⟨body, spelled⟩ := inside (groups + capturesIn [opening])
  rcases type with text | text
  · -- A parenthesis alone counts as one more group.
    have one : capturesIn [opening] = 1 := by simp [Token.captures, opens, text]
    have reads : Reads .alternatives (groups + 1) inner [body] := one ▸ spelled.reads
    refine ⟨_, .enclosed (.capture groups opening closing inner opens text closes body reads) rfl
      opens text ?_ closes shaped spelled⟩
    rw [text]
    exact spells_parenthesis
  · -- A group with a type is not counted.
    have none : capturesIn [opening] = 0 := by simp [Token.captures, text]
    have reads : Reads .alternatives (groups + 0) inner [body] := none ▸ spelled.reads
    refine ⟨_, .enclosed (.group groups opening closing inner opens text closes body reads) rfl
      opens text ?_ closes shaped spelled⟩
    have known : ("(?:".toList, GroupType.plain) ∈ groupTypes := by simp [groupTypes]
    rw [text]
    exact (spells_opening known).weaken

/-- A look-ahead is spelled around what it looks for. -/
theorem exists_spelled_lookahead (groups : Nat) {opening closing : Token} {inner : List Token}
    (opens : opening.kind = .groupOpen) (type : OpensLookahead opening.text)
    (closes : closing.kind = .groupClose) (shaped : closing.Shaped)
    (inside : ∀ groups, ∃ body, Spelled .alternatives groups inner [body]) :
    ∃ trees, Spelled .term groups (opening :: (inner ++ [closing])) trees := by
  -- The two look-aheads differ in their last characters only.
  obtain ⟨wanted, text⟩ : ∃ wanted : Bool, opening.text = ['(', '?', if wanted then '=' else '!'] := by
    rcases type with text | text
    · exact ⟨true, text⟩
    · exact ⟨false, text⟩
  -- What it looks for is spelled with the groups that are open, to which it adds none.
  obtain ⟨body, spelled⟩ := inside (groups + capturesIn [opening])
  have none : capturesIn [opening] = 0 := by simp [Token.captures, text]
  have reads : Reads .alternatives (groups + 0) inner [body] := none ▸ spelled.reads
  refine ⟨_, .enclosed (.lookahead groups opening closing inner opens wanted text closes body reads)
    rfl opens text ?_ closes shaped spelled⟩
  -- Both openings are in the table of the host.
  have known : (['(', '?', if wanted then '=' else '!'], GroupType.lookAhead wanted) ∈ groupTypes := by
    cases wanted <;> simp [groupTypes]
  rw [text]
  exact (spells_opening known).weaken

namespace Spelled

variable {groups : Nat} {tokens rest term : List Token} {trees others : List PatternTree}

/-- An atom is a term. -/
theorem once (atom : Spelled .atom groups tokens trees) : Spelled .term groups tokens trees where
  reads := .once groups tokens trees atom.reads
  spells := fun before rest _ => atom.spells before rest (.inl rfl)
  calm rest _ := atom.calm rest (.inl rfl)
  repeatable same := by contradiction

/-- A quantifier behind an atom repeats the last tree of the atom. -/
theorem repeated (atom : Spelled .atom groups tokens trees)
    (shaped : ∀ token ∈ tokens, token.Shaped) {quantifier : Token}
    (kind : quantifier.kind = .quantifier) (good : GoodQuantifier quantifier.text) :
    ∃ trees, Spelled .term groups (tokens ++ [quantifier]) trees := by
  obtain ⟨bounds, isLazy, text, accepted⟩ := good
  -- An atom has a last tree, and that is what the quantifier repeats.
  obtain ⟨front, last, rfl⟩ : ∃ front last, trees = front ++ [last] :=
    ⟨_, _, (List.dropLast_concat_getLast (atom.reads.ne_nil shaped)).symm⟩
  have form := tokensForm_quantifier groups tokens kind
  refine ⟨front ++ [.repeated bounds isLazy last], ?_, ?_, ?_, by simp⟩
  · exact .repeated groups tokens quantifier front last atom.reads kind bounds isLazy text accepted
  · intro before rest ends
    have calm : Calm rest := ends.resolve_left (by simp)
    rw [form, List.append_assoc, atom.spells before (quantifier.text ++ rest) (.inl rfl),
      atom.repeatable rfl before, readAll_quantifier text calm]
    -- The quantifier is one more unit behind those of the atom.
    have units : (front ++ [PatternTree.repeated bounds isLazy last]).flatMap PatternTree.lexemes =
        (front ++ [last]).flatMap PatternTree.lexemes ++ [.quantifier bounds isLazy false] := by
      simp [PatternTree.lexemes]
    rw [units, leaves_append]
    simp only [leaves, List.foldl_cons, List.foldl_nil, allowsRepetition]
    cases readAll false rest <;> simp [Except.map]
  · intro rest _
    rw [form, List.append_assoc]
    exact atom.calm _ (.inl rfl)

/-- A term in front of a sequence continues it. -/
theorem cons (first : Spelled .term groups term trees)
    (behind : Spelled .sequence (groups + capturesIn term) rest others) :
    Spelled .sequence groups (term ++ rest) (trees ++ others) where
  reads := .cons groups term rest trees others first.reads behind.reads
  spells := by
    rw [tokensForm_append, List.flatMap_append]
    -- Whatever stands behind the term starts with no mark of a quantifier.
    exact first.spells.append behind.spells fun text ends =>
      .inr (behind.calm text ends)
  calm text ends := by
    rw [tokensForm_append, List.append_assoc]
    exact first.calm _ (.inr (behind.calm text ends))
  repeatable same := by contradiction

/-- A sequence is the last alternative. -/
theorem last (only : Spelled .sequence groups tokens trees) :
    Spelled .alternatives groups tokens [.chain trees] where
  reads := .last groups tokens trees only.reads
  spells before rest ends := by
    rw [List.flatMap_singleton, PatternTree.lexemes_chain]
    -- What ends the alternatives ends the sequence as well.
    exact only.spells before rest (.inr (ends.resolve_left (by simp)))
  calm rest ends := only.calm rest (.inr (ends.resolve_left (by simp)))
  repeatable same := by contradiction

/-- A sequence in front of a bar is the first of several alternatives. -/
theorem more {bar : Token} {other : PatternTree} (first : Spelled .sequence groups tokens trees)
    (kind : bar.kind = .alternator) (shaped : bar.Shaped)
    (behind : Spelled .alternatives (groups + capturesIn tokens) rest [other]) :
    Spelled .alternatives groups (tokens ++ bar :: rest) [.choice (.chain trees) other] := by
  -- The alternatives are written around the bar.
  have form : tokensForm groups (tokens ++ bar :: rest) =
      tokensForm groups tokens ++ (['|'] ++ tokensForm (groups + capturesIn tokens) rest) :=
    tokensForm_bar groups tokens rest kind shaped
  have units : [PatternTree.choice (.chain trees) other].flatMap PatternTree.lexemes =
      trees.flatMap PatternTree.lexemes ++ ([.alternator] ++ [other].flatMap PatternTree.lexemes) := by
    simp [PatternTree.lexemes, PatternTree.lexemes_chain]
  have calm (text : Text) : Calm (['|'] ++ text) := calm_of_cons text (by decide)
  refine ⟨.more groups tokens rest bar trees other first.reads kind behind.reads, ?_, ?_, by simp⟩
  · -- A bar is no mark of a quantifier, so it can stand behind the first alternative.
    rw [form, units]
    refine first.spells.append (spells_bar.followed behind.spells) fun text _ => ?_
    rw [List.append_assoc]
    exact .inr (calm _)
  · -- The first alternative is calm in front of the bar.
    intro text _
    rw [form, List.append_assoc, List.append_assoc]
    exact first.calm _ (.inr (calm _))

end Spelled

/-- The branches of a pattern are alternatives none of which is empty. -/
theorem Derives.alternatives_of_branches {tokens : List Token} (branches : Derives .branches tokens) :
    Derives .alternatives tokens := by
  -- Branches are built by two rules, which are those of alternatives without empty ones.
  generalize phrase : Phrase.branches = own at branches
  induction branches with
  | branch sequence only => exact .last sequence only
  | branches sequence rest bar first full kind _ _ ih =>
    exact .more sequence rest bar first kind (ih phrase)
  | _ => contradiction

/-- A pattern is a list of alternatives, the last of which may be empty. -/
theorem Derives.alternatives_of_pattern {tokens : List Token} (pattern : Derives .pattern tokens) :
    Derives .alternatives tokens := by
  -- Only the last alternative can be without a term.
  cases pattern with
  | empty => exact .last [] .nil
  | closed _ body => exact body.alternatives_of_branches
  | trailing tokens bar body kind => exact body.alternatives_of_branches.alternatives_bar kind

/-- What the host form of a phrase spells, with one tree for all alternatives together. -/
def Phrase.IsSpelled (phrase : Phrase) (tokens : List Token) : Prop :=
  match phrase with
  | .atom | .term | .sequence => ∀ groups, ∃ trees, Spelled phrase groups tokens trees
  | .alternatives => ∀ groups, ∃ tree, Spelled .alternatives groups tokens [tree]
  -- The outermost level is made of alternatives like any other.
  | .branches | .pattern => True

/-- Whatever the grammar derives is spelled by its host form. -/
theorem Derives.isSpelled {phrase : Phrase} {tokens : List Token} (derives : Derives phrase tokens)
    (sound : ∀ token ∈ tokens, token.Shaped ∧ token.Encodable) : phrase.IsSpelled tokens := by
  -- Each rule of the grammar has its own way of being spelled.
  induction derives with
  -- Atoms of one token are spelled by the form of the token.
  | literal token kind =>
    have shaped := (sound token (by simp)).1
    exact fun groups => exists_spelled_literal groups kind shaped
  | dot token kind => exact fun groups => exists_spelled_dot groups kind
  | characterClass token kind good =>
    obtain ⟨shaped, encodable⟩ := sound token (by simp)
    exact fun groups => exists_spelled_class groups kind good shaped encodable
  | escape token kind good =>
    obtain ⟨shaped, encodable⟩ := sound token (by simp)
    exact fun groups => exists_spelled_escape groups kind good shaped encodable
  -- A group is spelled around its contents, which do not depend on the number of groups.
  | group opening closing inner opens type closes body ih =>
    have shaped := (sound closing (by simp)).1
    have inside := ih fun token member => sound token (by simp [member])
    exact fun groups => exists_spelled_group groups opens type closes shaped inside
  | anchor token kind =>
    have shaped := (sound token (by simp)).1
    exact fun groups => exists_spelled_test groups (.inl kind) shaped
  | boundary token kind test =>
    have shaped := (sound token (by simp)).1
    exact fun groups => exists_spelled_test groups (.inr ⟨kind, test⟩) shaped
  | lookahead opening closing inner opens type closes body ih =>
    have shaped := (sound closing (by simp)).1
    have inside := ih fun token member => sound token (by simp [member])
    exact fun groups => exists_spelled_lookahead groups opens type closes shaped inside
  | once atom body ih =>
    intro groups
    obtain ⟨trees, spelled⟩ := ih sound groups
    exact ⟨trees, spelled.once⟩
  -- An atom with a quantifier is spelled by the units of the atom and one more.
  | repeated atom quantifier body kind good ih =>
    intro groups
    have known : ∀ token ∈ atom, token.Shaped ∧ token.Encodable :=
      fun token member => sound token (by simp [member])
    obtain ⟨trees, spelled⟩ := ih known groups
    exact spelled.repeated (fun token member => (known token member).1) kind good
  | nil =>
    intro groups
    exact ⟨[], .nil groups, Spells.nil, fun rest ends => ends.resolve_left (by simp), by simp⟩
  -- The second part counts the groups of the first one.
  | cons term rest first others ihFirst ihOthers =>
    intro groups
    obtain ⟨trees, spelled⟩ := ihFirst (fun token member => sound token (by simp [member])) groups
    obtain ⟨behind, spelledBehind⟩ :=
      ihOthers (fun token member => sound token (by simp [member])) (groups + capturesIn term)
    exact ⟨_, spelled.cons spelledBehind⟩
  | last sequence only ih =>
    intro groups
    obtain ⟨trees, spelled⟩ := ih sound groups
    exact ⟨_, spelled.last⟩
  -- The alternatives behind the bar count the groups in front of it.
  | more sequence rest bar first kind others ihFirst ihOthers =>
    intro groups
    have shaped := (sound bar (by simp)).1
    obtain ⟨trees, spelled⟩ := ihFirst (fun token member => sound token (by simp [member])) groups
    obtain ⟨other, spelledBehind⟩ :=
      ihOthers (fun token member => sound token (by simp [member])) (groups + capturesIn sequence)
    exact ⟨_, spelled.more kind shaped spelledBehind⟩
  -- Patterns as a whole are spelled by their branches.
  | branch | branches | empty | closed | trailing => trivial

/-- The host form of a pattern without faults is read as the units of the pattern's tree. -/
theorem exists_readAll_hostForm {pattern : Text} (derives : Derives .pattern (scan pattern))
    (encodable : ∀ token ∈ scan pattern, token.Encodable) :
    ∃ tree, Reads .pattern 0 (scan pattern) [tree] ∧
      readAll false (hostForm pattern) = .ok tree.lexemes := by
  have sound : ∀ token ∈ scan pattern, token.Shaped ∧ token.Encodable :=
    fun token member => ⟨scan_shaped pattern token member, encodable token member⟩
  -- The whole pattern is one list of alternatives, with no group opened before it.
  obtain ⟨tree, spelled⟩ := derives.alternatives_of_pattern.isSpelled sound 0
  refine ⟨tree, .whole 0 _ tree spelled.reads, ?_⟩
  -- Nothing follows the form, so no mark of a quantifier does.
  have read := spelled.spells false [] (.inr (by simp [Calm]))
  rw [List.append_nil, List.flatMap_singleton] at read
  rw [hostForm, read, readAll]
  simp [Except.map]

end RegexLens
