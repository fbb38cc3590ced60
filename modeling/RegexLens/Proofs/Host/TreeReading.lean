import RegexLens.Proofs.Host.UnitReading
import RegexLens.Proofs.Pattern.Numbered

/-! From the units of a pattern's tree the host builds the expression of that tree. -/

namespace RegexLens

/-- What the units of a phrase's trees make of the group in which they stand. -/
def Phrase.Changes (before after : Branches) (trees : List PatternTree) : Phrase → Prop
  -- The last piece of an atom can still be repeated, and that of a longer phrase cannot.
  | .atom => after = before.pushAll trees
  | .term | .sequence => after.settled = (before.pushAll trees).settled
  -- Alternatives begin where nothing stands in front of them.
  | .alternatives | .branches | .pattern =>
    before.settled.pieces = [] → ∃ first rest,
      after.next.complete = (first :: rest).reverse ++ before.complete ∧
        trees.map PatternTree.expression = [.choiceOf first rest]

/-- What a reader has become behind the units of a phrase's trees. -/
structure ExpressionReader.Follows (reader next : ExpressionReader) (phrase : Phrase)
    (tokens : List Token) (trees : List PatternTree) : Prop where
  frames : next.frames = reader.frames
  captures : next.captures = reader.captures + capturesIn tokens
  changes : phrase.Changes reader.inside next.inside trees

open ExpressionReader

variable {limits : Limits}

/-- A group that the grammar allows is a piece with the expression of its contents. -/
theorem ExpressionReader.Reaches.enclosed {reader : ExpressionReader} {type : GroupType}
    {opening closing : Token} {inner : List Token} {tree body : PatternTree}
    (opens : capturesIn [opening] = if type = .capturing then 1 else 0)
    (closes : closing.kind = .groupClose)
    (units : tree.lexemes = .openGroup type :: (body.lexemes ++ [.closeGroup]))
    (bounded : tree.fits limits reader.frames.length =
      (limits.allowsDepth (reader.frames.length + 1) && body.fits limits (reader.frames.length + 1)))
    (piece : (reader.frame type).piece body.expression = .ok tree.expression)
    (inside : Reaches limits (reader.entered type) ([body].flatMap PatternTree.lexemes)
      ([body].all (PatternTree.fits limits (reader.entered type).frames.length)) fun next =>
        (reader.entered type).Follows next .alternatives inner [body]) :
    Reaches limits reader ([tree].flatMap PatternTree.lexemes)
      ([tree].all (PatternTree.fits limits reader.frames.length)) fun next =>
        reader.Follows next .atom (opening :: (inner ++ [closing])) [tree] := by
  have silent : closing.captures = false := Token.captures_of_kind (by simp [closes])
  -- The opening counts when it captures, and the end never does.
  have counted : (reader.entered type).captures + capturesIn inner =
      reader.captures + capturesIn (opening :: (inner ++ [closing])) := by
    rw [← List.singleton_append, capturesIn_append, capturesIn_append, opens]
    simp only [entered, frame, capturesIn_cons, capturesIn_nil, silent]
    split <;> simp [Nat.add_assoc]
  rw [List.flatMap_singleton, units, List.all_cons, List.all_nil, Bool.and_true, bounded]
  rw [List.flatMap_singleton, List.all_cons, List.all_nil, Bool.and_true] at inside
  have enclosed : Reaches limits (reader.entered type) body.lexemes
      (body.fits limits (reader.frames.length + 1)) fun next =>
        next.frames = reader.frame type :: reader.frames ∧
          next.captures = (reader.entered type).captures + capturesIn inner ∧
            (reader.frame type).piece next.inside.expression = .ok tree.expression := by
    refine inside.mono fun next follows => ⟨follows.frames, follows.captures, ?_⟩
    -- The group starts empty, so that its alternatives are all that is in it.
    obtain ⟨first, rest, complete, same⟩ := follows.changes rfl
    have whole : next.inside.expression = body.expression := by
      have own : body.expression = .choiceOf first rest := by simpa using same
      rw [Branches.expression, complete, own]
      simp [entered, Branches.start]
    rw [whole, piece]
  refine enclosed.group.mono fun next same => ?_
  rw [same]
  exact ⟨rfl, counted, rfl⟩

/-- One unit that is added as a piece is an atom. -/
theorem ExpressionReader.Reaches.leaf {reader : ExpressionReader} {token : Token}
    {tree : PatternTree} {atom : Expression} (other : token.kind ≠ .groupOpen)
    (units : tree.lexemes = [.atom atom])
    (read : reader.readAtom atom = .ok (reader.push tree.expression)) :
    Reaches limits reader ([tree].flatMap PatternTree.lexemes) true fun next =>
      reader.Follows next .atom [token] [tree] := by
  have silent : token.captures = false := Token.captures_of_kind other
  rw [List.flatMap_singleton, units]
  exact .one read ⟨rfl, by simp [push, silent], rfl⟩

/-- A piece and the characters behind it form an atom. -/
theorem ExpressionReader.Reaches.numbered {reader : ExpressionReader} {token : Token}
    {tree : PatternTree} {digits : Text} {fits : Bool} (kind : token.kind = .escape)
    (first : Reaches limits reader tree.lexemes fits fun next => next = reader.push tree.expression) :
    Reaches limits reader ((tree :: digits.map .char).flatMap PatternTree.lexemes) fits fun next =>
      reader.Follows next .atom [token] (tree :: digits.map .char) := by
  have silent : token.captures = false := Token.captures_of_kind (by simp [kind])
  rw [List.flatMap_cons, PatternTree.lexemes_chars, ← Bool.and_true fits]
  -- The digits are pushed one by one behind the piece.
  refine first.append fun next same => ?_
  rw [same]
  refine (Reaches.chars _ digits).mono fun next same => ?_
  rw [same]
  exact ⟨rfl, by simp [push, silent], rfl⟩

/-- A quantifier repeats the last piece when that can be repeated. -/
theorem ExpressionReader.readQuantifier_push {reader : ExpressionReader} {before : Branches}
    {piece : Expression} {bounds : Bounds} (isLazy : Bool)
    (pushed : reader.inside = before.push piece) (accepted : bounds.Acceptable) :
    reader.readQuantifier limits bounds isLazy false =
      if limits.allowsRepetition piece then
        .ok { reader with inside := (before.push (.repeated bounds isLazy piece)).settled }
      else .error .notRepeatable := by
  -- Acceptable bounds are in order.
  have ordered : (bounds.upper?.any fun upper => upper < bounds.lower) = false := by
    cases upper : bounds.upper? with
    | none => rfl
    | some most =>
      have least := (accepted.2 most (by simp [upper])).2
      simpa using least
  -- The piece that was pushed last is the one that waits for a quantifier.
  have pending : reader.inside.pending? = some piece := by rw [pushed]; rfl
  simp only [readQuantifier, pending, ordered]
  cases limits.allowsRepetition piece with
  | true => simp [pushed, Branches.push]
  | false => rfl

/-- A quantifier repeats the last piece of an atom, and nothing else. -/
theorem ExpressionReader.Reaches.repeated {reader : ExpressionReader} {tokens : List Token}
    {quantifier : Token} {front : List PatternTree} {last : PatternTree} {bounds : Bounds}
    (isLazy : Bool) (kind : quantifier.kind = .quantifier) (accepted : bounds.Acceptable)
    (atom : Reaches limits reader ((front ++ [last]).flatMap PatternTree.lexemes)
      ((front ++ [last]).all (PatternTree.fits limits reader.frames.length)) fun next =>
        reader.Follows next .atom tokens (front ++ [last])) :
    Reaches limits reader ((front ++ [PatternTree.repeated bounds isLazy last]).flatMap PatternTree.lexemes)
      ((front ++ [PatternTree.repeated bounds isLazy last]).all
        (PatternTree.fits limits reader.frames.length)) fun next =>
        reader.Follows next .term (tokens ++ [quantifier]) (front ++ [.repeated bounds isLazy last]) := by
  have silent : quantifier.captures = false := Token.captures_of_kind (by simp [kind])
  -- The quantifier is the last unit, and it is the only one that is bounded anew.
  have units : (front ++ [PatternTree.repeated bounds isLazy last]).flatMap PatternTree.lexemes =
      (front ++ [last]).flatMap PatternTree.lexemes ++ [.quantifier bounds isLazy false] := by
    simp [PatternTree.lexemes]
  have bounded : (front ++ [PatternTree.repeated bounds isLazy last]).all
      (PatternTree.fits limits reader.frames.length) =
        ((front ++ [last]).all (PatternTree.fits limits reader.frames.length) &&
          limits.allowsRepetition last.expression) := by
    simp [PatternTree.fits, Bool.and_assoc]
  rw [units, bounded]
  refine atom.append fun next follows => ?_
  -- The piece that the quantifier finds is the last one of the atom.
  have pushed : next.inside = (reader.inside.pushAll front).push last.expression := by
    have all := follows.changes
    rw [Phrase.Changes, Branches.pushAll_append] at all
    exact all
  have read : next.read limits (.quantifier bounds isLazy false) = _ :=
    readQuantifier_push isLazy pushed accepted
  cases allowed : limits.allowsRepetition last.expression with
  | true =>
    rw [allowed, if_pos rfl] at read
    refine .one read ⟨follows.frames, by simp [follows.captures, silent], ?_⟩
    rw [Phrase.Changes, Branches.pushAll_append]
    exact ((reader.inside.pushAll front).push (.repeated bounds isLazy last.expression)).settled_settled
  | false =>
    rw [allowed, if_neg (by simp)] at read
    simp [Reaches, readAll, read, Bind.bind, Except.bind]

/-- The end of an alternative turns its trees into one expression. -/
theorem Branches.next_of_sequence {before after : Branches} {trees : List PatternTree}
    (single : ∀ tree ∈ trees, tree.isPiece = true) (fresh : before.settled.pieces = [])
    (changes : after.settled = (before.pushAll trees).settled) :
    after.next = ⟨(PatternTree.chain trees).expression :: before.complete, [], none⟩ := by
  have pieces : (PatternTree.chain trees).expression =
      .sequenceOf (trees.flatMap PatternTree.pieces) := by
    rw [PatternTree.expression, PatternTree.pieces_chain]
  -- The alternative held nothing before, so its pieces are those of the trees.
  rw [Branches.next, changes, before.settled_pushAll single, fresh, pieces]
  simp

namespace ExpressionReader.Follows

variable {reader middle next : ExpressionReader} {tokens term rest : List Token}
  {trees others : List PatternTree} {other : PatternTree}

/-- An atom can stand where a term does. -/
theorem once (follows : reader.Follows next .atom tokens trees) :
    reader.Follows next .term tokens trees :=
  ⟨follows.frames, follows.captures, congrArg Branches.settled follows.changes⟩

/-- A term in front of a sequence continues it. -/
theorem cons (first : reader.Follows middle .term term trees)
    (behind : middle.Follows next .sequence rest others) :
    reader.Follows next .sequence (term ++ rest) (trees ++ others) where
  frames := behind.frames.trans first.frames
  captures := by rw [behind.captures, first.captures, capturesIn_append, Nat.add_assoc]
  changes := by
    -- The last piece of the term is settled before the next one is added.
    have front : middle.inside.settled = (reader.inside.pushAll trees).settled := first.changes
    calc next.inside.settled
        = (middle.inside.pushAll others).settled := behind.changes
      _ = (middle.inside.settled.pushAll others).settled := (Branches.pushAll_settled ..).symm
      _ = ((reader.inside.pushAll trees).settled.pushAll others).settled := by rw [front]
      _ = ((reader.inside.pushAll trees).pushAll others).settled := Branches.pushAll_settled ..
      _ = (reader.inside.pushAll (trees ++ others)).settled := by rw [Branches.pushAll_append]

/-- A sequence is the last alternative. -/
theorem last (only : reader.Follows next .sequence tokens trees)
    (single : ∀ tree ∈ trees, tree.isPiece = true) :
    reader.Follows next .alternatives tokens [.chain trees] where
  frames := only.frames
  captures := only.captures
  changes fresh := by
    -- The sequence is the only alternative of the group.
    have ended := Branches.next_of_sequence single fresh only.changes
    exact ⟨(PatternTree.chain trees).expression, [], by simp [ended], rfl⟩

/-- Behind a bar another alternative begins. -/
theorem more {bar : Token} (first : reader.Follows middle .sequence tokens trees)
    (single : ∀ tree ∈ trees, tree.isPiece = true) (kind : bar.kind = .alternator)
    (behind : { middle with inside := middle.inside.next }.Follows next .alternatives rest [other]) :
    reader.Follows next .alternatives (tokens ++ bar :: rest) [.choice (.chain trees) other] where
  frames := behind.frames.trans first.frames
  captures := by
    have silent : bar.captures = false := Token.captures_of_kind (by simp [kind])
    rw [behind.captures, first.captures]
    simp [silent, Nat.add_assoc]
  changes fresh := by
    have ended := Branches.next_of_sequence single fresh first.changes
    -- Behind the bar the next alternative starts with nothing in it.
    obtain ⟨second, more, complete, same⟩ := behind.changes rfl
    refine ⟨(PatternTree.chain trees).expression, second :: more, ?_, ?_⟩
    · rw [complete, ended]
      simp
    · have chosen : other.expression = .choiceOf second more := by simpa using same
      rw [Expression.choiceOf, ← chosen]
      rfl

end ExpressionReader.Follows

/-- A reader goes through the units of a phrase's trees and adds the pieces of these trees. -/
theorem Reads.reaches {phrase : Phrase} {groups : Nat} {tokens : List Token}
    {trees : List PatternTree} (reads : Reads phrase groups tokens trees)
    (reader : ExpressionReader) (counted : reader.captures = groups) :
    Reaches limits reader (trees.flatMap PatternTree.lexemes)
      (trees.all (PatternTree.fits limits reader.frames.length)) fun next =>
        reader.Follows next phrase tokens trees := by
  -- The reader stays open, since each phrase is read behind those in front of it.
  induction reads generalizing reader with
  | literal groups token kind =>
    have silent : token.captures = false := Token.captures_of_kind (by simp [kind])
    rw [PatternTree.lexemes_chars, PatternTree.fits_chars]
    refine (Reaches.chars reader token.text).mono fun next same => ?_
    rw [same]
    exact ⟨rfl, by simp [silent], rfl⟩
  | dot groups token kind => exact .leaf (by simp [kind]) rfl rfl
  | characterClass groups token kind => exact .leaf (by simp [kind]) rfl rfl
  | shorthand groups token kind => exact .leaf (by simp [kind]) rfl rfl
  | character groups token kind => exact .leaf (by simp [kind]) rfl rfl
  | reference groups token kind digits text numbered group length read =>
    -- The reference is allowed, because a group with its number was opened before.
    have known := read.opened (isNumbered_iff.mp numbered)
    have inside : Reaches limits (reader.entered .plain) [.atom (.reference group)] true fun next =>
        next.frames = reader.frame .plain :: reader.frames ∧ next.captures = reader.captures ∧
          (reader.frame .plain).piece next.inside.expression = .ok (.reference group) := by
      have allowed : (reader.entered .plain).readAtom (.reference group) =
          .ok ((reader.entered .plain).push (.reference group)) := by
        have open' : (reader.entered .plain).captures = groups := counted
        simp [readAtom, open', known]
      exact .one allowed ⟨rfl, rfl, rfl⟩
    have whole := inside.group
    rw [List.all_cons, PatternTree.fits_chars]
    exact Reaches.numbered kind whole
  | code groups token kind digits text numbered symbol length resolved =>
    rw [List.all_cons, PatternTree.fits_chars]
    exact Reaches.numbered kind (.one rfl rfl)
  | group groups opening closing inner opens type closes body inside ih =>
    have silent : capturesIn [opening] = if GroupType.plain = .capturing then 1 else 0 := by
      simp [Token.captures, type]
    have piece : (reader.frame .plain).piece body.expression =
        .ok (PatternTree.group body).expression :=
      congrArg Except.ok (Expression.sequenceOf_asPieces body.expression).symm
    exact .enclosed silent closes rfl rfl piece (ih _ counted)
  | capture groups opening closing inner opens type closes body inside ih =>
    have one : capturesIn [opening] = if GroupType.capturing = .capturing then 1 else 0 := by
      simp [Token.captures, opens, type]
    have piece : (reader.frame .capturing).piece body.expression =
        .ok (PatternTree.capture (groups + 1) body).expression := by
      rw [← counted]
      rfl
    -- The group has the number that the reader gives it.
    have numbered : (reader.entered .capturing).captures = groups + 1 := by
      rw [← counted]
      rfl
    exact .enclosed one closes rfl rfl piece (ih _ numbered)
  | textStart groups token kind text =>
    exact (Reaches.leaf (by simp [kind]) rfl rfl).mono fun _ follows => follows.once
  | textEnd groups token kind text =>
    exact (Reaches.leaf (by simp [kind]) rfl rfl).mono fun _ follows => follows.once
  | boundary groups token kind wanted text =>
    have silent : token.captures = false := Token.captures_of_kind (by simp [kind])
    rw [List.flatMap_singleton, List.all_cons, List.all_nil, Bool.and_true]
    refine (Reaches.boundary reader wanted).mono fun next same => ?_
    rw [same]
    exact ⟨rfl, by simp [push, silent], rfl⟩
  | lookahead groups opening closing inner opens wanted type closes body inside ih =>
    have silent : capturesIn [opening] = if GroupType.lookAhead wanted = .capturing then 1 else 0 := by
      simp [Token.captures, type]
    have piece : (reader.frame (.lookAhead wanted)).piece body.expression =
        .ok (PatternTree.look wanted body).expression := rfl
    have atom := Reaches.enclosed silent closes rfl rfl piece
      (ih (reader.entered (.lookAhead wanted)) counted)
    exact atom.mono fun _ follows => follows.once
  | once groups tokens trees atom ih => exact (ih reader counted).mono fun _ follows => follows.once
  | repeated groups tokens quantifier front last atom kind bounds isLazy text accepted ih =>
    exact .repeated isLazy kind accepted (ih reader counted)
  | nil groups => exact .nil ⟨rfl, rfl, rfl⟩
  | cons groups term rest trees others first behind ihFirst ihBehind =>
    rw [List.flatMap_append, List.all_append]
    refine (ihFirst reader counted).append fun middle follows => ?_
    -- Groups opened in the term count for what stands behind it.
    have reached := ihBehind middle (by rw [follows.captures, counted])
    rw [← follows.frames]
    exact reached.mono fun next others => follows.cons others
  | last groups tokens trees only ih =>
    have single := only.isPiece (.inr (.inr rfl))
    rw [List.flatMap_singleton, PatternTree.lexemes_chain, List.all_cons, List.all_nil,
      Bool.and_true, PatternTree.fits_chain]
    exact (ih reader counted).mono fun next follows => follows.last single
  | more groups tokens rest bar trees other first kind behind ihFirst ihBehind =>
    have single := first.isPiece (.inr (.inr rfl))
    have units : [PatternTree.choice (.chain trees) other].flatMap PatternTree.lexemes =
        trees.flatMap PatternTree.lexemes ++ ([.alternator] ++ [other].flatMap PatternTree.lexemes) := by
      simp [PatternTree.lexemes, PatternTree.lexemes_chain]
    have bounded : [PatternTree.choice (.chain trees) other].all
        (PatternTree.fits limits reader.frames.length) =
          (trees.all (PatternTree.fits limits reader.frames.length) &&
            (true && [other].all (PatternTree.fits limits reader.frames.length))) := by
      simp [PatternTree.fits, PatternTree.fits_chain]
    rw [units, bounded]
    refine (ihFirst reader counted).append fun middle follows => ?_
    -- The bar completes one alternative and begins the next.
    have bar : Reaches limits middle [.alternator] true fun next =>
      next = { middle with inside := middle.inside.next } := .one rfl rfl
    refine bar.append fun barred same => ?_
    have reached := ihBehind { middle with inside := middle.inside.next }
      (by rw [follows.captures, counted])
    rw [same, ← follows.frames]
    exact reached.mono fun next others => follows.more single kind others
  | whole groups tokens tree body ih =>
    exact (ih reader counted).mono fun next follows =>
      ⟨follows.frames, follows.captures, follows.changes⟩

end RegexLens
