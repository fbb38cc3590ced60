import RegexLens.Host.Lexeme

/-! Reading an expression of the host engine in one pass, with a stack of its open groups. -/

namespace RegexLens

/-- The number of groups that may not be nested in each other, because it is one too many. -/
def nestingLimit : Nat := 64

/-- What is rejected although the grammar of expressions allows it. -/
structure Limits where
  /-- Whether so many groups may be open at once. -/
  allowsDepth : Nat → Bool
  /-- Whether a quantifier may apply to an expression. -/
  allowsRepetition : Expression → Bool

namespace Limits

/-- The limits of the host engine. -/
def host : Limits :=
  ⟨fun depth => depth < nestingLimit, Expression.isRepeatable⟩

end Limits

namespace Expression

/-- The pieces of one alternative, in which a single piece stands for itself. -/
def sequenceOf : List Expression → Expression
  | [] => empty
  | [only] => only
  | pieces => pieces.foldr sequence empty

/-- The alternatives of one group, in which a single alternative stands for itself. -/
def choiceOf (first : Expression) : List Expression → Expression
  | [] => first
  | second :: rest => choice first (choiceOf second rest)

end Expression

/-- The alternatives of a group as far as they are read, latest first. -/
structure Branches where
  /-- The alternatives that are complete. -/
  complete : List Expression
  /-- The pieces of the current alternative that no quantifier can reach any more. -/
  pieces : List Expression
  /-- The last piece, which a quantifier may still repeat. -/
  pending? : Option Expression
deriving DecidableEq, Repr

namespace Branches

/-- A group in which nothing has been read. -/
def start : Branches :=
  ⟨[], [], none⟩

/-- Ends the reach of quantifiers; a piece that is empty leaves nothing behind. -/
def settled (branches : Branches) : Branches :=
  match branches.pending? with
  | none => branches
  | some .empty => { branches with pending? := none }
  | some piece => { branches with pieces := piece :: branches.pieces, pending? := none }

/-- Adds a piece. -/
def push (branches : Branches) (piece : Expression) : Branches :=
  { branches.settled with pending? := some piece }

/-- Ends the current alternative. -/
def next (branches : Branches) : Branches :=
  let settled := branches.settled
  ⟨.sequenceOf settled.pieces.reverse :: settled.complete, [], none⟩

/-- The expression of a group that has been read to its end. -/
def expression (branches : Branches) : Expression :=
  match branches.next.complete.reverse with
  | [] => .empty
  | first :: rest => .choiceOf first rest

end Branches

/-- A group that is not yet closed, with what surrounds it. -/
structure GroupFrame where
  /-- What its parenthesis opened. -/
  type : GroupType
  /-- The number of capturing groups opened so far, this one included. -/
  number : Nat
  /-- The surrounding group as far as it is read. -/
  outside : Branches
deriving DecidableEq, Repr

namespace GroupFrame

/-- The piece that a closed group is in the group around it. -/
def piece (frame : GroupFrame) (body : Expression) : Except Rejection Expression :=
  match frame.type with
  | .capturing => .ok (.capture frame.number body)
  | .plain => .ok body
  | .lookAhead wanted => .ok (.look .ahead wanted body)
  | .lookBehind wanted =>
    -- Stepping back needs to know how far.
    match body.width? with
    | some width => .ok (.look (.behind width) wanted body)
    | none => .error .unboundedLookBehind

end GroupFrame

/-- An expression as far as it is read. -/
structure ExpressionReader where
  /-- The innermost open group, or the outermost level. -/
  inside : Branches
  /-- The groups that are still open, innermost first. -/
  frames : List GroupFrame
  /-- The number of capturing groups opened so far. -/
  captures : Nat
deriving DecidableEq, Repr

namespace ExpressionReader

/-- The reader before the first unit. -/
def initial : ExpressionReader :=
  ⟨.start, [], 0⟩

/-- Adds a piece to the innermost open group. -/
def push (reader : ExpressionReader) (piece : Expression) : ExpressionReader :=
  { reader with inside := reader.inside.push piece }

/-- Reads something that matches on its own. -/
def readAtom (reader : ExpressionReader) (atom : Expression) :
    Except Rejection ExpressionReader :=
  match atom with
  | .reference group =>
    if 0 < group && group ≤ reader.captures then .ok (reader.push atom) else .error .unknownGroup
  | _ => .ok (reader.push atom)

/-- Repeats the last piece, after which no other quantifier can reach it. -/
def readQuantifier (limits : Limits) (reader : ExpressionReader) (bounds : Bounds)
    (isLazy isPossessive : Bool) : Except Rejection ExpressionReader :=
  match reader.inside.pending? with
  | none => .error .notRepeatable
  | some piece =>
    if !limits.allowsRepetition piece then .error .notRepeatable
    else if bounds.upper?.any fun upper => upper < bounds.lower then .error .reversedBounds
    else
      let rounds := Expression.repeated bounds isLazy piece
      let repeated := if isPossessive then .once rounds else rounds
      -- The repetition is settled, so another quantifier finds nothing to repeat.
      let inside := { reader.inside with pending? := some repeated }.settled
      .ok { reader with inside }

/-- Opens a group. -/
def readOpen (limits : Limits) (reader : ExpressionReader) (type : GroupType) :
    Except Rejection ExpressionReader :=
  if !limits.allowsDepth (reader.frames.length + 1) then .error .nestedTooDeep
  else
    let captures := if type = .capturing then reader.captures + 1 else reader.captures
    .ok ⟨.start, ⟨type, captures, reader.inside⟩ :: reader.frames, captures⟩

/-- Closes the innermost open group. -/
def readClose (reader : ExpressionReader) : Except Rejection ExpressionReader :=
  match reader.frames with
  | [] => .error .unmatchedParenthesis
  | frame :: frames => do
    let piece ← frame.piece reader.inside.expression
    return { reader with inside := frame.outside.push piece, frames }

/-- Reads one unit. -/
def read (limits : Limits) (reader : ExpressionReader) (lexeme : Lexeme) :
    Except Rejection ExpressionReader :=
  match lexeme with
  | .atom expression => reader.readAtom expression
  | .quantifier bounds isLazy isPossessive =>
    reader.readQuantifier limits bounds isLazy isPossessive
  | .openGroup type => reader.readOpen limits type
  | .closeGroup => reader.readClose
  | .alternator => .ok { reader with inside := reader.inside.next }

/-- Reads units in order. -/
def readAll (limits : Limits) (reader : ExpressionReader) :
    List Lexeme → Except Rejection ExpressionReader
  | [] => .ok reader
  | lexeme :: rest => do (← reader.read limits lexeme).readAll limits rest

/-- The expression, if every group is closed. -/
def finish (reader : ExpressionReader) : Except Rejection Expression :=
  match reader.frames with
  | [] => .ok reader.inside.expression
  | _ :: _ => .error .unterminatedGroup

end ExpressionReader

namespace Expression

/-- Reads an expression from its units. -/
def ofLexemes (limits : Limits) (lexemes : List Lexeme) : Except Rejection Expression := do
  (← ExpressionReader.initial.readAll limits lexemes).finish

/-- Reads an expression as the host engine writes it. -/
def ofText (limits : Limits) (text : Text) : Except Rejection Expression := do
  ofLexemes limits (← Lexeme.readAll false text)

end Expression

end RegexLens
