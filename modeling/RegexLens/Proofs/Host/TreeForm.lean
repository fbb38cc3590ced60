import RegexLens.Host.Reader
import RegexLens.Proofs.Pattern.Tree

/-! What the host makes of a pattern's tree: its units in order, and the expression they form. -/

namespace RegexLens

/-- The set of the word characters. -/
def wordSet : CharSet :=
  ⟨false, [.family .word false]⟩

/-- The test for a word boundary, or for the lack of one, by looking to both sides. -/
def boundaryExpression (wanted : Bool) : Expression :=
  -- One side has a word character; whether the other must have one depends on what is wanted.
  .choice
    (.sequence (.look (.behind 1) true (.set wordSet))
      (.sequence (.look .ahead (!wanted) (.set wordSet)) .empty))
    (.sequence (.look (.behind 1) false (.set wordSet))
      (.sequence (.look .ahead wanted (.set wordSet)) .empty))

/-- No limits: whatever the grammar allows is read. -/
def Limits.none : Limits :=
  ⟨fun _ => true, fun _ => true⟩

/-- What an expression adds to a sequence: itself, or nothing when it is empty. -/
def Expression.asPieces : Expression → List Expression
  | .empty => []
  | piece => [piece]

/-- There is at most one piece, so that their order does not matter. -/
@[simp] theorem Expression.asPieces_reverse (piece : Expression) :
    piece.asPieces.reverse = piece.asPieces := by
  -- The pieces are none or one.
  cases piece <;> rfl

/-- A sequence of what an expression adds to it is the expression. -/
@[simp] theorem Expression.sequenceOf_asPieces (piece : Expression) :
    Expression.sequenceOf piece.asPieces = piece := by
  -- One piece alone is the sequence, and no piece is the empty one.
  cases piece <;> rfl

namespace PatternTree

/-- The pieces that a tree contributes to the sequence in which it stands. -/
def pieces : PatternTree → List Expression
  | empty => []
  | char symbol => [.char symbol]
  | set members => [.set members]
  | textStart => [.textStart]
  | textEnd => [.textEnd]
  | boundary wanted => [boundaryExpression wanted]
  | reference number => [.reference number]
  -- A group that does not capture holds things together, and leaves nothing when it is empty.
  | group body => (Expression.sequenceOf body.pieces).asPieces
  | capture number body => [.capture number (.sequenceOf body.pieces)]
  | look wanted body => [.look .ahead wanted (.sequenceOf body.pieces)]
  | repeated bounds isLazy body => [.repeated bounds isLazy (.sequenceOf body.pieces)]
  | sequence first rest => first.pieces ++ rest.pieces
  | choice first rest => [.choice (.sequenceOf first.pieces) (.sequenceOf rest.pieces)]

/-- The expression that a tree is for the host. -/
def expression (tree : PatternTree) : Expression :=
  .sequenceOf tree.pieces

/-- Whether a tree is read within limits, inside a number of open groups. -/
def fits (limits : Limits) (depth : Nat) : PatternTree → Bool
  | empty | char _ | set _ | textStart | textEnd => true
  -- References and boundaries are spelled with groups around them.
  | reference _ => limits.allowsDepth (depth + 1)
  | boundary _ => limits.allowsDepth (depth + 1) && limits.allowsDepth (depth + 2)
  | group body | capture _ body | look _ body =>
    limits.allowsDepth (depth + 1) && body.fits limits (depth + 1)
  | repeated _ _ body => body.fits limits depth && limits.allowsRepetition body.expression
  | sequence first rest | choice first rest => first.fits limits depth && rest.fits limits depth

/-- The units of a look-around that tests one word character. -/
def wordTest (type : GroupType) : List Lexeme :=
  [.openGroup type, .atom (.set wordSet), .closeGroup]

/-- The units of two look-arounds that test the characters on both sides of a position. -/
def neighbourLexemes (before after : Bool) : List Lexeme :=
  wordTest (.lookBehind before) ++ wordTest (.lookAhead after)

/-- The units in which the test for a boundary is spelled. -/
def boundaryLexemes (wanted : Bool) : List Lexeme :=
  .openGroup .plain ::
    (neighbourLexemes true (!wanted) ++ .alternator :: neighbourLexemes false wanted ++ [.closeGroup])

/-- The units in which a tree is spelled. -/
def lexemes : PatternTree → List Lexeme
  | empty => []
  | char symbol => [.atom (.char symbol)]
  | set members => [.atom (.set members)]
  | textStart => [.atom .textStart]
  | textEnd => [.atom .textEnd]
  | boundary wanted => boundaryLexemes wanted
  | reference number => [.openGroup .plain, .atom (.reference number), .closeGroup]
  | group body => .openGroup .plain :: (body.lexemes ++ [.closeGroup])
  | capture _ body => .openGroup .capturing :: (body.lexemes ++ [.closeGroup])
  | look wanted body => .openGroup (.lookAhead wanted) :: (body.lexemes ++ [.closeGroup])
  | repeated bounds isLazy body => body.lexemes ++ [.quantifier bounds isLazy false]
  | sequence first rest => first.lexemes ++ rest.lexemes
  | choice first rest => first.lexemes ++ .alternator :: rest.lexemes

/-- The units of characters are the characters. -/
theorem lexemes_chars (text : Text) :
    (text.map char).flatMap lexemes = text.map fun symbol => .atom (.char symbol) := by
  induction text with
  | nil => rfl
  | cons first rest ih =>
    -- The first character is the first unit.
    rw [List.map_cons, List.flatMap_cons, ih]
    rfl

/-- Characters are within the limits wherever they stand. -/
theorem fits_chars (limits : Limits) (depth : Nat) (text : Text) :
    (text.map char).all (fits limits depth) = true := by
  -- A character stands for itself, without a group around it.
  simp [fits]

/-- The units of a sequence are those of its parts. -/
theorem lexemes_chain (trees : List PatternTree) :
    (chain trees).lexemes = trees.flatMap lexemes := by
  induction trees with
  | nil => rfl
  | cons first rest ih =>
    rw [List.flatMap_cons, ← ih]
    rfl

/-- The pieces of a sequence are those of its parts. -/
theorem pieces_chain (trees : List PatternTree) : (chain trees).pieces = trees.flatMap pieces := by
  induction trees with
  | nil => rfl
  | cons first rest ih =>
    rw [List.flatMap_cons, ← ih]
    rfl

/-- A sequence is within the limits when its parts are. -/
theorem fits_chain (limits : Limits) (depth : Nat) (trees : List PatternTree) :
    (chain trees).fits limits depth = trees.all (fits limits depth) := by
  induction trees with
  | nil => rfl
  | cons first rest ih =>
    rw [List.all_cons, ← ih]
    rfl

/-- Without limits every tree is read. -/
theorem fits_none (depth : Nat) (tree : PatternTree) : tree.fits .none depth = true := by
  -- Each limit that a tree could meet allows everything.
  induction tree generalizing depth <;> simp_all [fits, Limits.none]

end PatternTree

end RegexLens
