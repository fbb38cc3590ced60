import RegexLens.Proofs.Host.TreeForm

/-! What the host does with units: pieces are added one by one, and groups become pieces. -/

namespace RegexLens

namespace PatternTree

/-- Whether a tree is added to a sequence as one piece. -/
def isPiece : PatternTree → Bool
  -- A sequence inside another one adds its own pieces.
  | sequence _ _ => false
  | _ => true

/-- What is added as one piece leaves that piece, or nothing when it is empty. -/
theorem pieces_of_isPiece {tree : PatternTree} (single : tree.isPiece = true) :
    tree.pieces = tree.expression.asPieces := by
  cases tree with
  | sequence first rest => contradiction
  | group body =>
    -- Putting an empty group into a sequence leaves nothing of it.
    simp only [expression, pieces]
    cases Expression.sequenceOf body.pieces <;> rfl
  | _ => rfl

end PatternTree

/-- The trees of a phrase without bars are added one by one. -/
theorem Reads.isPiece {phrase : Phrase} {groups : Nat} {tokens : List Token}
    {trees : List PatternTree} (reads : Reads phrase groups tokens trees)
    (barless : phrase = .atom ∨ phrase = .term ∨ phrase = .sequence) :
    ∀ tree ∈ trees, tree.isPiece = true := by
  -- A character is one piece.
  have characters (text : Text) : ∀ tree ∈ text.map PatternTree.char, tree.isPiece = true := by
    simp [PatternTree.isPiece]
  induction reads with
  | literal => exact characters _
  | reference | code => exact List.forall_mem_cons.mpr ⟨rfl, characters _⟩
  | once _ _ _ _ ih => exact ih (.inl rfl)
  | repeated _ _ _ front last _ _ _ _ _ _ ih =>
    -- Only the last tree is another one, and a repetition is one piece.
    have own := ih (.inl rfl)
    simp only [List.forall_mem_append, List.forall_mem_singleton] at own ⊢
    exact ⟨own.1, rfl⟩
  | nil => simp
  | cons _ _ _ _ _ _ _ ihFirst ihBehind =>
    exact List.forall_mem_append.mpr ⟨ihFirst (.inr (.inl rfl)), ihBehind (.inr (.inr rfl))⟩
  | last | more | whole => simp at barless
  | _ => exact List.forall_mem_singleton.mpr rfl

namespace Branches

/-- Adds the pieces of trees one behind the other. -/
def pushAll (branches : Branches) (trees : List PatternTree) : Branches :=
  trees.foldl (fun others tree => others.push tree.expression) branches

/-- No quantifier reaches what is settled. -/
@[simp] theorem settled_pending? (branches : Branches) : branches.settled.pending? = none := by
  unfold settled
  split <;> simp_all

/-- Settling the last piece leaves the alternatives before it alone. -/
@[simp] theorem settled_complete (branches : Branches) :
    branches.settled.complete = branches.complete := by
  unfold settled
  split <;> rfl

/-- What is settled stays as it is. -/
@[simp] theorem settled_settled (branches : Branches) : branches.settled.settled = branches.settled := by
  rw [settled, settled_pending?]

/-- A piece is added behind what is settled. -/
@[simp] theorem settled_push (branches : Branches) (piece : Expression) :
    branches.settled.push piece = branches.push piece := by
  rw [push, push, settled_settled]

/-- The pieces of trees that follow one another are added one behind the other. -/
theorem pushAll_append (branches : Branches) (first second : List PatternTree) :
    branches.pushAll (first ++ second) = (branches.pushAll first).pushAll second :=
  List.foldl_append

/-- Whether the last piece was settled before more are added makes no difference afterwards. -/
theorem pushAll_settled (branches : Branches) (trees : List PatternTree) :
    (branches.settled.pushAll trees).settled = (branches.pushAll trees).settled := by
  cases trees with
  | nil => exact branches.settled_settled
  -- The first tree is added behind what is settled in either case.
  | cons first rest => rw [pushAll, List.foldl_cons, settled_push, pushAll, List.foldl_cons]

/-- Once it is settled, a piece stands behind the others, unless it is empty. -/
theorem push_settled (branches : Branches) (piece : Expression) :
    (branches.push piece).settled =
      ⟨branches.complete, piece.asPieces ++ branches.settled.pieces, none⟩ := by
  rw [← settled_complete branches]
  cases piece <;> rfl

/-- Once they are settled, trees have left the pieces that they contribute. -/
theorem settled_pushAll (branches : Branches) {trees : List PatternTree}
    (single : ∀ tree ∈ trees, tree.isPiece = true) :
    (branches.pushAll trees).settled =
      ⟨branches.complete, (trees.flatMap PatternTree.pieces).reverse ++ branches.settled.pieces,
        none⟩ := by
  induction trees generalizing branches with
  | nil =>
    rw [pushAll, List.foldl_nil, ← settled_complete branches, ← settled_pending? branches]
    rfl
  | cons first rest ih =>
    obtain ⟨piece, others⟩ := List.forall_mem_cons.mp single
    -- The first tree leaves its pieces, and the others are added behind them.
    have step := branches.push_settled first.expression
    rw [← PatternTree.pieces_of_isPiece piece] at step
    have front : (branches.push first.expression).complete = branches.complete := by
      rw [← settled_complete, step]
    -- The pieces are collected from the back, which matters only between trees.
    have turned : first.pieces.reverse = first.pieces := by
      rw [PatternTree.pieces_of_isPiece piece, Expression.asPieces_reverse]
    rw [pushAll, List.foldl_cons, ← pushAll, ih (branches.push first.expression) others, step, front,
      List.flatMap_cons, List.reverse_append, turned, List.append_assoc]

end Branches

namespace ExpressionReader

/-- Units that follow one another are read one behind the other. -/
theorem readAll_append (limits : Limits) (reader : ExpressionReader) (first second : List Lexeme) :
    reader.readAll limits (first ++ second) =
      reader.readAll limits first >>= fun next => next.readAll limits second := by
  induction first generalizing reader with
  | nil => rfl
  | cons lexeme rest ih =>
    -- The first unit decides in the same way on both sides.
    rw [List.cons_append, readAll, readAll]
    cases reader.read limits lexeme with
    | error rejection => rfl
    | ok next => exact ih next

/-- What reading units comes to: what is expected, or a rejection for one of the limits. -/
def Reaches (limits : Limits) (reader : ExpressionReader) (lexemes : List Lexeme) (fits : Bool)
    (after : ExpressionReader → Prop) : Prop :=
  match reader.readAll limits lexemes with
  | .ok next => fits = true ∧ after next
  -- Nothing but the depth of groups and the choice of what is repeated can be at fault.
  | .error rejection => fits = false ∧ (rejection = .nestedTooDeep ∨ rejection = .notRepeatable)

namespace Reaches

variable {limits : Limits} {reader next : ExpressionReader} {lexeme : Lexeme}
  {first second : List Lexeme} {fits others : Bool} {middle after : ExpressionReader → Prop}

/-- Without units the reader stays as it is. -/
theorem nil (here : after reader) : Reaches limits reader [] true after :=
  ⟨rfl, here⟩

/-- One unit leads to what is read from it. -/
theorem one (read : reader.read limits lexeme = .ok next) (here : after next) :
    Reaches limits reader [lexeme] true after := by
  simp only [Reaches, readAll, read, Bind.bind, Except.bind]
  exact ⟨trivial, here⟩

/-- Units are read behind what has been read before. -/
theorem append (front : Reaches limits reader first fits middle)
    (behind : ∀ next, middle next → Reaches limits next second others after) :
    Reaches limits reader (first ++ second) (fits && others) after := by
  unfold Reaches at front ⊢
  rw [readAll_append]
  -- The first rejection decides, and without one the rest goes on from where the front leads.
  cases read : reader.readAll limits first with
  | error rejection =>
    rw [read] at front
    exact ⟨by simp [front.1], front.2⟩
  | ok next =>
    rw [read] at front
    have rest := behind next front.2
    rw [front.1, Bool.true_and]
    exact rest

/-- What is reached can be described in another way. -/
theorem mono (front : Reaches limits reader first fits middle)
    (same : ∀ next, middle next → after next) :
    Reaches limits reader first fits after := by
  unfold Reaches at front ⊢
  split at front
  · exact ⟨front.1, same _ front.2⟩
  · exact front

end Reaches

variable {limits : Limits}

/-- The group that is open once its start has been read. -/
def frame (reader : ExpressionReader) (type : GroupType) : GroupFrame :=
  ⟨type, if type = .capturing then reader.captures + 1 else reader.captures, reader.inside⟩

/-- The reader inside a group that has just been opened. -/
def entered (reader : ExpressionReader) (type : GroupType) : ExpressionReader :=
  ⟨.start, reader.frame type :: reader.frames, (reader.frame type).number⟩

/-- A group adds one piece to the group around it, unless it is nested too deep. -/
theorem Reaches.group {reader : ExpressionReader} {type : GroupType} {lexemes : List Lexeme}
    {fits : Bool} {piece : Expression} {captures : Nat}
    (inside : Reaches limits (reader.entered type) lexemes fits fun next =>
      next.frames = reader.frame type :: reader.frames ∧ next.captures = captures ∧
        (reader.frame type).piece next.inside.expression = .ok piece) :
    Reaches limits reader (.openGroup type :: (lexemes ++ [.closeGroup]))
      (limits.allowsDepth (reader.frames.length + 1) && fits)
      fun next => next = ⟨reader.inside.push piece, reader.frames, captures⟩ := by
  cases shallow : limits.allowsDepth (reader.frames.length + 1) with
  | true =>
    -- The group is opened, its contents are read, and its end turns them into a piece.
    have opened : reader.read limits (.openGroup type) = .ok (reader.entered type) := by
      simp only [read, readOpen, shallow]
      rfl
    have start : Reaches limits reader [.openGroup type] true fun next => next = reader.entered type :=
      .one opened rfl
    have whole : Reaches limits reader ([.openGroup type] ++ (lexemes ++ [.closeGroup]))
        (true && (fits && true))
        fun next => next = ⟨reader.inside.push piece, reader.frames, captures⟩ := by
      refine start.append fun entered same => ?_
      rw [same]
      refine inside.append fun next ⟨frames, counted, closes⟩ => .one ?_ rfl
      simp only [read, readClose, frames, closes, Bind.bind, Except.bind, Pure.pure, Except.pure,
        counted]
      rfl
    simpa using whole
  | false =>
    -- The opening itself is rejected.
    have deep : reader.read limits (.openGroup type) = .error .nestedTooDeep := by
      simp only [read, readOpen, shallow]
      rfl
    unfold Reaches
    rw [readAll, deep]
    exact ⟨rfl, .inl rfl⟩

/-- Characters are pieces of their own. -/
theorem Reaches.chars (reader : ExpressionReader) (text : Text) :
    Reaches limits reader (text.map fun symbol => .atom (.char symbol)) true fun next =>
      next = ⟨reader.inside.pushAll (text.map .char), reader.frames, reader.captures⟩ := by
  induction text generalizing reader with
  | nil => exact .nil rfl
  | cons first rest ih =>
    -- Each character is pushed behind those before it.
    have front : Reaches limits reader [.atom (.char first)] true fun next =>
      next = reader.push (.char first) := .one rfl rfl
    refine front.append fun next same => ?_
    rw [same]
    exact ih (reader.push (.char first))

/-- A look-around that tests one word character is a piece of its own. -/
theorem Reaches.wordTest (reader : ExpressionReader) {type : GroupType} {side : Side} {wanted : Bool}
    (silent : type ≠ .capturing)
    (looks : (reader.frame type).piece (.set wordSet) = .ok (.look side wanted (.set wordSet))) :
    Reaches limits reader (PatternTree.wordTest type)
      (limits.allowsDepth (reader.frames.length + 1))
      fun next => next = reader.push (.look side wanted (.set wordSet)) := by
  -- The set is all that stands in the look-around.
  have inside : Reaches limits (reader.entered type) [.atom (.set wordSet)] true fun next =>
      next.frames = reader.frame type :: reader.frames ∧ next.captures = reader.captures ∧
        (reader.frame type).piece next.inside.expression =
          .ok (.look side wanted (.set wordSet)) :=
    .one rfl ⟨rfl, if_neg silent, looks⟩
  have whole := inside.group
  rwa [Bool.and_true] at whole

/-- The tests of both neighbours are pieces of their own. -/
theorem Reaches.neighbours (reader : ExpressionReader) (before after : Bool) :
    Reaches limits reader (PatternTree.neighbourLexemes before after)
      (limits.allowsDepth (reader.frames.length + 1)) fun next =>
        next = (reader.push (.look (.behind 1) before (.set wordSet))).push
          (.look .ahead after (.set wordSet)) := by
  rw [← Bool.and_self (limits.allowsDepth _)]
  -- The second test is read where the first one has left its piece.
  refine (wordTest reader (by simp) rfl).append fun next same => ?_
  rw [same]
  exact wordTest (reader.push (.look (.behind 1) before (.set wordSet))) (by simp) rfl

/-- The test for a boundary is a choice between two pairs of look-arounds. -/
theorem Reaches.boundary (reader : ExpressionReader) (wanted : Bool) :
    Reaches limits reader (PatternTree.boundaryLexemes wanted)
      ((PatternTree.boundary wanted).fits limits reader.frames.length)
      fun next => next = reader.push (boundaryExpression wanted) := by
  have bar (start : ExpressionReader) : Reaches limits start [.alternator] true fun next =>
      next = { start with inside := start.inside.next } := .one rfl rfl
  -- The look-arounds stand one level deeper than the group around them.
  have inside : Reaches limits (reader.entered .plain)
      (PatternTree.neighbourLexemes true (!wanted) ++
        ([.alternator] ++ PatternTree.neighbourLexemes false wanted))
      (limits.allowsDepth (reader.frames.length + 2) &&
        (true && limits.allowsDepth (reader.frames.length + 2))) fun next =>
        next.frames = reader.frame .plain :: reader.frames ∧ next.captures = reader.captures ∧
          (reader.frame .plain).piece next.inside.expression = .ok (boundaryExpression wanted) := by
    refine (neighbours (reader.entered .plain) true (!wanted)).append fun next same => ?_
    rw [same]
    refine (bar _).append fun next same => ?_
    rw [same]
    refine (neighbours _ false wanted).mono fun next same => ?_
    rw [same]
    exact ⟨rfl, rfl, rfl⟩
  have whole := inside.group
  rw [Bool.true_and, Bool.and_self] at whole
  exact whole

end ExpressionReader

end RegexLens
