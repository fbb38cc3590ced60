import RegexLens.Proofs.Host.UnitReading

/-! What a rejection for a limit says about the units that were read, and about a pattern's tree. -/

namespace RegexLens

/-- The number of groups that are open behind a unit, given how many are open in front of it. -/
def Lexeme.nest (depth : Nat) : Lexeme → Nat
  | openGroup _ => depth + 1
  | closeGroup => depth - 1
  | atom _ | quantifier _ _ _ | alternator => depth

/-- Whether so many groups are open at once somewhere in an expression. -/
def NestsTo (depth : Nat) (lexemes : List Lexeme) : Prop :=
  ∃ front rest, lexemes = front ++ rest ∧ depth ≤ front.foldl Lexeme.nest 0

/-- Units open no more groups than there are units. -/
theorem Lexeme.foldl_nest_le (lexemes : List Lexeme) (depth : Nat) :
    lexemes.foldl nest depth ≤ depth + lexemes.length := by
  -- Each unit adds one level at most, whatever the level in front of it is.
  induction lexemes generalizing depth with
  | nil => exact Nat.le_refl _
  | cons lexeme rest ih =>
    have step : nest depth lexeme ≤ depth + 1 := by cases lexeme <;> simp only [nest] <;> omega
    have behind := ih (nest depth lexeme)
    rw [List.foldl_cons, List.length_cons]
    omega

/-- An expression of few units does not nest groups deep. -/
theorem NestsTo.le_length {depth : Nat} {lexemes : List Lexeme} (nests : NestsTo depth lexemes) :
    depth ≤ lexemes.length := by
  -- The depth is reached in front of some unit, and no sooner than the units allow.
  obtain ⟨front, rest, rfl, deep⟩ := nests
  have bounded := Lexeme.foldl_nest_le front 0
  rw [List.length_append]
  omega

/-- The same limits for quantifiers, and none for the depth of groups. -/
def Limits.anyDepth (limits : Limits) : Limits :=
  { limits with allowsDepth := fun _ => true }

namespace ExpressionReader

variable {limits : Limits} {reader next : ExpressionReader} {lexeme : Lexeme} {lexemes : List Lexeme}
  {cause : Rejection}

/-- The open groups are those that the units leave open. -/
theorem frames_of_read (read : reader.read limits lexeme = .ok next) :
    next.frames.length = lexeme.nest reader.frames.length := by
  -- Only the opening and the end of a group change how many are open.
  cases lexeme with
  | atom expression =>
    -- Whatever matches on its own is pushed, if it is allowed at all.
    have pushed : next = reader.push expression := by
      simp only [ExpressionReader.read, readAtom] at read
      split at read
      · split at read
        · exact (Except.ok.inj read).symm
        · contradiction
      · exact (Except.ok.inj read).symm
    rw [pushed]
    rfl
  | quantifier bounds isLazy isPossessive =>
    -- A quantifier is rejected in three ways, and otherwise it repeats what is there.
    simp only [ExpressionReader.read, readQuantifier] at read
    split at read
    · contradiction
    · split at read
      · contradiction
      · split at read
        · contradiction
        · rw [← Except.ok.inj read]
          rfl
  | openGroup type =>
    simp only [ExpressionReader.read, readOpen] at read
    split at read
    · contradiction
    · rw [← Except.ok.inj read]
      rfl
  | closeGroup =>
    -- The end of a group takes away the frame that the opening has pushed.
    simp only [ExpressionReader.read, readClose] at read
    split at read
    · contradiction
    · rename_i frame frames opened
      -- What the group becomes can be rejected, but the frame is gone either way.
      cases piece : frame.piece reader.inside.expression with
      | error => simp [piece, Bind.bind, Except.bind] at read
      | ok body =>
        simp only [piece, Bind.bind, Except.bind, Pure.pure, Except.pure] at read
        rw [← Except.ok.inj read, opened]
        rfl
  | alternator =>
    rw [← Except.ok.inj read]
    rfl

/-- A unit that is rejected for its depth opens one group too many. -/
theorem deep_of_read (rejected : reader.read .host lexeme = .error .nestedTooDeep) :
    nestingLimit ≤ lexeme.nest reader.frames.length := by
  cases lexeme with
  | openGroup type =>
    -- The opening is the unit that asks for a level more.
    simp only [ExpressionReader.read, readOpen] at rejected
    split at rejected
    · rename_i deep
      simpa [Limits.host, Lexeme.nest] using deep
    · contradiction
  -- No other unit is rejected for its depth.
  | atom expression =>
    -- An atom asks for the references and the sizes that are allowed.
    simp only [ExpressionReader.read, readAtom] at rejected
    repeat' split at rejected
    all_goals simp at rejected
  | quantifier bounds isLazy isPossessive =>
    simp only [ExpressionReader.read, readQuantifier] at rejected
    repeat' split at rejected
    all_goals simp at rejected
  | closeGroup =>
    simp only [ExpressionReader.read, readClose] at rejected
    split at rejected
    · simp at rejected
    · rename_i frame frames opened
      -- The end of a group is rejected for what the group would look at, and for nothing else.
      have other : frame.piece reader.inside.expression ≠ .error .nestedTooDeep := by
        unfold GroupFrame.piece
        split <;> try simp
        split <;> simp
      cases piece : frame.piece reader.inside.expression with
      | error cause =>
        simp only [piece, Bind.bind, Except.bind] at rejected
        rw [Except.error.inj rejected] at piece
        exact absurd piece other
      | ok body => simp [piece, Bind.bind, Except.bind, Pure.pure, Except.pure] at rejected
  | alternator => contradiction

/-- Units that are rejected for their depth nest their groups to the limit. -/
theorem exists_deep_of_readAll (rejected : reader.readAll .host lexemes = .error .nestedTooDeep) :
    ∃ front rest, lexemes = front ++ rest ∧
      nestingLimit ≤ front.foldl Lexeme.nest reader.frames.length := by
  -- The unit that is rejected is the last one of the front that is looked for.
  induction lexemes generalizing reader with
  | nil => simp [readAll] at rejected
  | cons lexeme rest ih =>
    rw [readAll] at rejected
    cases read : reader.read .host lexeme with
    | error cause =>
      simp only [read, Bind.bind, Except.bind] at rejected
      rw [Except.error.inj rejected] at read
      -- It is the first unit that is rejected, in the state that the ones in front have left.
      exact ⟨[lexeme], rest, rfl, deep_of_read read⟩
    | ok next =>
      simp only [read, Bind.bind, Except.bind] at rejected
      obtain ⟨front, behind, rfl, deep⟩ := ih rejected
      -- Up to the next unit the groups that are open are counted by the nesting.
      rw [frames_of_read read] at deep
      exact ⟨lexeme :: front, behind, rfl, deep⟩

/-- Units that some depth of groups allows are read in the same way at any depth. -/
theorem read_anyDepth (read : reader.read limits lexeme ≠ .error .nestedTooDeep) :
    reader.read limits.anyDepth lexeme = reader.read limits lexeme := by
  -- Only an opening asks how deep the groups are.
  cases lexeme with
  | openGroup type =>
    simp only [ExpressionReader.read, readOpen] at read ⊢
    cases shallow : limits.allowsDepth (reader.frames.length + 1) with
    | true => simp [Limits.anyDepth]
    | false => simp [shallow] at read
  | atom | quantifier | closeGroup | alternator => rfl

/-- A rejection for something else than depth does not depend on the depth that is allowed. -/
theorem readAll_anyDepth (other : cause ≠ .nestedTooDeep)
    (rejected : reader.readAll limits lexemes = .error cause) :
    reader.readAll limits.anyDepth lexemes = .error cause := by
  -- Until something is rejected the two readings go side by side.
  induction lexemes generalizing reader with
  | nil => simp [readAll] at rejected
  | cons lexeme rest ih =>
    rw [readAll] at rejected ⊢
    have same : reader.read limits.anyDepth lexeme = reader.read limits lexeme := by
      -- If the first unit were rejected for its depth, this would be the reason for all of them.
      refine read_anyDepth fun deep => other ?_
      simp only [deep, Bind.bind, Except.bind] at rejected
      exact (Except.error.inj rejected).symm
    rw [same]
    cases read : reader.read limits lexeme with
    | error => simpa [read, Bind.bind, Except.bind] using rejected
    | ok next =>
      simp only [read, Bind.bind, Except.bind] at rejected ⊢
      exact ih rejected

end ExpressionReader

namespace PatternTree

/-- What the quantifiers of a tree repeat. -/
def repeatedBodies : PatternTree → List PatternTree
  | empty | char _ | set _ | textStart | textEnd | boundary _ | reference _ => []
  | group body | capture _ body | look _ body => body.repeatedBodies
  | repeated _ _ body => body :: body.repeatedBodies
  | sequence first rest | choice first rest => first.repeatedBodies ++ rest.repeatedBodies

/-- What the quantifiers of a sequence repeat is what those of its parts do. -/
theorem repeatedBodies_chain (trees : List PatternTree) :
    (chain trees).repeatedBodies = trees.flatMap repeatedBodies := by
  -- A sequence of trees is nested to the right, one tree at a time.
  induction trees with
  | nil => rfl
  | cons first rest ih =>
    rw [List.flatMap_cons, ← ih]
    rfl

/-- A tree that exceeds a limit other than depth repeats what the limits do not allow. -/
theorem exists_of_fits_anyDepth {limits : Limits} {tree : PatternTree} {depth : Nat}
    (exceeds : tree.fits limits.anyDepth depth = false) :
    ∃ body ∈ tree.repeatedBodies, limits.allowsRepetition body.expression = false := by
  -- The tree is searched for the part that exceeds the limits.
  induction tree generalizing depth with
  | empty | char | set | textStart | textEnd => simp [fits] at exceeds
  | boundary | reference => simp [fits, Limits.anyDepth] at exceeds
  | group body ih | capture _ body ih | look _ body ih =>
    -- A group itself is allowed at any depth.
    have inside : body.fits limits.anyDepth (depth + 1) = false := by
      simpa [fits, Limits.anyDepth] using exceeds
    exact ih inside
  -- A repetition can exceed a limit inside, or in what it repeats as a whole.
  | repeated bounds isLazy body ih =>
    simp only [fits, Bool.and_eq_false_iff] at exceeds
    rcases exceeds with inside | refused
    · obtain ⟨other, member, refused⟩ := ih inside
      exact ⟨other, List.mem_cons_of_mem _ member, refused⟩
    · exact ⟨body, by simp [repeatedBodies], refused⟩
  | sequence first rest ihFirst ihRest | choice first rest ihFirst ihRest =>
    -- Of two parts one exceeds the limits, and its bodies are bodies of the whole.
    simp only [fits, Bool.and_eq_false_iff] at exceeds
    rcases exceeds with front | behind
    · obtain ⟨body, member, refused⟩ := ihFirst front
      exact ⟨body, List.mem_append_left _ member, refused⟩
    · obtain ⟨body, member, refused⟩ := ihRest behind
      exact ⟨body, List.mem_append_right _ member, refused⟩

end PatternTree

end RegexLens
