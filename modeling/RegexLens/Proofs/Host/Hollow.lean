import RegexLens.Proofs.Host.Limits
import RegexLens.Proofs.Pattern.Brackets

/-! The groups that the host does not repeat, because nothing in them is left to be repeated. -/

namespace RegexLens

/-- Tokens that hold nothing but groups without numbers, with so many look-aheads among them. -/
inductive Hollow : Nat → List Token → Prop
  | nil : Hollow 0 []
  -- Groups can stand inside one another and side by side.
  | group (opening closing : Token) (inner rest : List Token) (inside behind : Nat)
      (opens : opening.kind = .groupOpen) (type : opening.text = ['(', '?', ':'])
      (closes : closing.kind = .groupClose) (body : Hollow inside inner)
      (others : Hollow behind rest) :
      Hollow (inside + behind) (opening :: (inner ++ closing :: rest))
  | lookahead (opening closing : Token) (inner rest : List Token) (behind : Nat)
      (opens : opening.kind = .groupOpen) (type : OpensLookahead opening.text)
      (closes : closing.kind = .groupClose) (body : Balanced inner) (others : Hollow behind rest) :
      Hollow (behind + 1) (opening :: (inner ++ closing :: rest))

/-- Whether tokens are a group without a number whose contents satisfy a condition. -/
def IsPlainGroup (holds : List Token → Prop) (tokens : List Token) : Prop :=
  ∃ opening inner closing, tokens = opening :: (inner ++ [closing]) ∧ opening.kind = .groupOpen ∧
    opening.text = ['(', '?', ':'] ∧ closing.kind = .groupClose ∧ holds inner

/-- Whether a quantifier follows a group without a number whose contents satisfy a condition. -/
def RepeatsPlainGroup (holds : List Token → Prop) (tokens : List Token) : Prop :=
  ∃ before group quantifier after, tokens = before ++ (group ++ quantifier :: after) ∧
    quantifier.kind = .quantifier ∧ IsPlainGroup holds group

/-- Whether a quantifier follows a group that holds, through further groups without numbers, one
look-ahead at most and nothing else. -/
def RepeatsHollow (tokens : List Token) : Prop :=
  RepeatsPlainGroup (fun inner => ∃ looks, looks ≤ 1 ∧ Hollow looks inner) tokens

/-- Hollow tokens behind hollow tokens are hollow. -/
theorem Hollow.append {looks others : Nat} {first second : List Token} (one : Hollow looks first)
    (other : Hollow others second) : Hollow (looks + others) (first ++ second) := by
  -- The second tokens are put behind the last group of the first ones.
  induction one with
  | nil =>
    rw [Nat.zero_add]
    exact other
  | group opening closing inner rest inside behind opens type closes body _ _ ih =>
    rw [Nat.add_assoc, List.cons_append, List.append_assoc, List.cons_append]
    exact .group opening closing inner _ inside _ opens type closes body ih
  | lookahead opening closing inner rest behind opens type closes body _ ih =>
    rw [Nat.add_right_comm, List.cons_append, List.append_assoc, List.cons_append]
    exact .lookahead opening closing inner _ _ opens type closes body ih

/-- A hollow group is still followed by a quantifier when more tokens stand around. -/
theorem RepeatsHollow.around {tokens : List Token} (repeats : RepeatsHollow tokens)
    (front back : List Token) : RepeatsHollow (front ++ (tokens ++ back)) := by
  obtain ⟨before, group, quantifier, after, rfl, kind, hollow⟩ := repeats
  exact ⟨front ++ before, group, quantifier, after ++ back, by simp, kind, hollow⟩

/-- The brackets among the tokens of a phrase that has a meaning are partners. -/
theorem Reads.balanced {phrase : Phrase} {groups : Nat} {tokens : List Token}
    {trees : List PatternTree} (reads : Reads phrase groups tokens trees) : Balanced tokens := by
  -- Tokens that are no parentheses are balanced on their own.
  have plain {token : Token} (kind : token.kind ≠ .groupOpen ∧ token.kind ≠ .groupClose) :
      token.opens = false ∧ token.closes = false := by
    simp [Token.opens, Token.closes, kind]
  have leaf {token : Token} (kind : token.kind ≠ .groupOpen ∧ token.kind ≠ .groupClose) :
      Balanced [token] := .other token [] (plain kind) .nil
  -- A group is balanced when its contents are.
  have group {opening closing : Token} {inner : List Token} (opens : opening.kind = .groupOpen)
      (typed : opening.text ≠ ['(', '?']) (closes : closing.kind = .groupClose)
      (inside : Balanced inner) : Balanced (opening :: (inner ++ [closing])) :=
    .enclosed opening closing inner [] (by simp [Token.opens, opens, typed])
      (by simp [Token.closes, closes]) inside .nil
  -- Each rule puts balanced tokens together.
  induction reads with
  | literal _ _ kind | dot _ _ kind | characterClass _ _ kind | shorthand _ _ kind
  | character _ _ kind | reference _ _ kind | code _ _ kind | textStart _ _ kind
  | textEnd _ _ kind | boundary _ _ kind => exact leaf (by simp [kind])
  | group _ _ _ _ opens type closes _ _ ih | capture _ _ _ _ opens type closes _ _ ih =>
    exact group opens (by simp [type]) closes ih
  | lookahead _ _ _ _ opens wanted type closes _ _ ih =>
    exact group opens (by cases wanted <;> simp [type]) closes ih
  | once _ _ _ _ ih | last _ _ _ _ ih | whole _ _ _ _ ih => exact ih
  | repeated _ _ quantifier _ _ _ kind _ _ _ _ ih => exact ih.append (leaf (by simp [kind]))
  | nil => exact .nil
  | cons _ _ _ _ _ _ _ ihFirst ihBehind => exact ihFirst.append ihBehind
  | more _ _ _ bar _ _ _ kind _ ihFirst ihBehind =>
    exact ihFirst.append (.other bar _ (plain (by simp [kind])) ihBehind)

/-- Whether an expression looks at the text around it. -/
def Expression.isLook : Expression → Bool
  | look _ _ _ => true
  | _ => false

/-- No tree contributes an empty piece. -/
theorem PatternTree.empty_not_mem_pieces (tree : PatternTree) : .empty ∉ tree.pieces := by
  induction tree with
  | group body =>
    -- An empty group is left out.
    rw [pieces]
    cases Expression.sequenceOf body.pieces <;> simp [Expression.asPieces]
  | sequence first rest ihFirst ihRest => simp [pieces, ihFirst, ihRest]
  | boundary wanted => simp [pieces, boundaryExpression]
  | _ => simp [pieces]

/-- What cannot be repeated is nothing at all, or a single look-around. -/
theorem Expression.looks_of_not_isRepeatable {pieces : List Expression} (solid : .empty ∉ pieces)
    (refused : (sequenceOf pieces).isRepeatable = false) :
    pieces.length ≤ 1 ∧ ∀ piece ∈ pieces, piece.isLook = true := by
  rcases pieces with _ | ⟨only, _ | ⟨second, rest⟩⟩
  · simp
  · -- A piece alone is the whole sequence.
    rw [sequenceOf] at refused
    cases only with
    | empty => simp at solid
    | look side wanted body => simp [isLook]
    | _ => simp [isRepeatable] at refused
  · simp [sequenceOf, isRepeatable] at refused

/-- Tokens whose trees contribute only look-arounds hold only groups without numbers beside them. -/
theorem Reads.hollow {phrase : Phrase} {groups : Nat} {tokens : List Token}
    {trees : List PatternTree} (reads : Reads phrase groups tokens trees)
    (shaped : ∀ token ∈ tokens, token.Shaped)
    (looks : ∀ piece ∈ trees.flatMap PatternTree.pieces, piece.isLook = true) :
    Hollow (trees.flatMap PatternTree.pieces).length tokens := by
  -- Whatever contributes another piece is excluded.
  induction reads with
  -- A literal holds a character, which contributes a piece.
  | literal groups token kind =>
    obtain ⟨first, rest, text⟩ := List.exists_cons_of_ne_nil (shaped token (by simp)).nonempty
    simp [text, PatternTree.pieces, Expression.isLook] at looks
  | dot | characterClass | shorthand | character | reference | code | capture | textStart | textEnd
  | more => simp [PatternTree.pieces, Expression.isLook] at looks
  | boundary => simp [PatternTree.pieces, boundaryExpression, Expression.isLook] at looks
  | repeated =>
    rw [List.flatMap_append, List.forall_mem_append] at looks
    simp [PatternTree.pieces, Expression.isLook] at looks
  | group groups opening closing inner opens type closes body inside ih =>
    rw [List.flatMap_singleton, PatternTree.pieces] at looks ⊢
    -- The contents are nothing or a look-around, since the group is.
    have refused : (Expression.sequenceOf body.pieces).isRepeatable = false := by
      cases whole : Expression.sequenceOf body.pieces with
      | empty | look => rfl
      | _ => simp [whole, Expression.asPieces, Expression.isLook] at looks
    obtain ⟨short, each⟩ :=
      Expression.looks_of_not_isRepeatable body.empty_not_mem_pieces refused
    have same : (Expression.sequenceOf body.pieces).asPieces = body.pieces := by
      generalize body.pieces = pieces at short each
      rcases pieces with _ | ⟨only, _ | ⟨second, rest⟩⟩
      · rfl
      · have look := each only (by simp)
        cases only with
        | look => rfl
        | _ => simp [Expression.isLook] at look
      · simp at short
    -- The contents contribute what the group does, so they are hollow as well.
    rw [same]
    have hollow := ih (fun token member => shaped token (by simp [member]))
      (by simpa using each)
    rw [List.flatMap_singleton] at hollow
    exact .group opening closing inner [] _ 0 opens type closes hollow .nil
  -- A lookahead is a look-around whatever it looks for.
  | lookahead groups opening closing inner opens wanted type closes body inside =>
    have known : OpensLookahead opening.text := by
      cases wanted
      · exact .inr type
      · exact .inl type
    exact .lookahead opening closing inner [] 0 opens known closes inside.balanced .nil
  | once _ _ _ _ ih => exact ih shaped looks
  | nil => exact .nil
  -- The pieces of the two parts are counted together.
  | cons groups term rest trees others first behind ihFirst ihBehind =>
    rw [List.flatMap_append] at looks ⊢
    obtain ⟨front, back⟩ := List.forall_mem_append.mp looks
    rw [List.length_append]
    exact (ihFirst (fun token member => shaped token (by simp [member])) front).append
      (ihBehind (fun token member => shaped token (by simp [member])) back)
  | last groups tokens trees only ih =>
    rw [List.flatMap_singleton, PatternTree.pieces_chain] at looks ⊢
    exact ih shaped looks
  | whole _ _ _ _ ih => exact ih shaped looks

/-- An atom with a tree that cannot be repeated is a hollow group. -/
theorem Reads.isPlainGroup {groups : Nat} {tokens : List Token} {trees : List PatternTree}
    (atom : Reads .atom groups tokens trees) (shaped : ∀ token ∈ tokens, token.Shaped)
    {last : PatternTree} (member : last ∈ trees)
    (refused : last.expression.isRepeatable = false) :
    IsPlainGroup (fun inner => ∃ looks, looks ≤ 1 ∧ Hollow looks inner) tokens := by
  -- Whatever stands for a piece of its own can be repeated.
  have character {text : Text} (member : last ∈ text.map PatternTree.char) : False := by
    obtain ⟨symbol, _, rfl⟩ := List.mem_map.mp member
    simp [PatternTree.expression, PatternTree.pieces, Expression.sequenceOf,
      Expression.isRepeatable] at refused
  -- Of the atoms only a group without a number can hold nothing.
  cases atom with
  | literal => exact (character member).elim
  | dot | characterClass | shorthand | character | capture =>
    obtain rfl := List.mem_singleton.mp member
    simp [PatternTree.expression, PatternTree.pieces, Expression.sequenceOf,
      Expression.isRepeatable] at refused
  -- Neither the group that is meant nor a digit left over can be refused.
  | reference | code =>
    rcases List.mem_cons.mp member with rfl | digit
    · simp [PatternTree.expression, PatternTree.pieces, Expression.sequenceOf,
        Expression.isRepeatable] at refused
    · exact (character digit).elim
  -- What cannot be repeated is nothing or a single look-around.
  | group _ opening closing inner opens type closes body inside =>
    obtain rfl := List.mem_singleton.mp member
    rw [PatternTree.expression, PatternTree.pieces, Expression.sequenceOf_asPieces] at refused
    obtain ⟨short, each⟩ :=
      Expression.looks_of_not_isRepeatable body.empty_not_mem_pieces refused
    have hollow := inside.hollow (fun token member => shaped token (by simp [member]))
      (by simpa using each)
    rw [List.flatMap_singleton] at hollow
    exact ⟨opening, inner, closing, rfl, opens, type, closes, _, short, hollow⟩

/-- Where a quantifier repeats what cannot be repeated, it follows a hollow group. -/
theorem Reads.repeatsHollow {phrase : Phrase} {groups : Nat} {tokens : List Token}
    {trees : List PatternTree} (reads : Reads phrase groups tokens trees)
    (shaped : ∀ token ∈ tokens, token.Shaped) {body : PatternTree}
    (member : body ∈ trees.flatMap PatternTree.repeatedBodies)
    (refused : body.expression.isRepeatable = false) : RepeatsHollow tokens := by
  -- Characters repeat nothing.
  have characters (text : Text) : (text.map PatternTree.char).flatMap PatternTree.repeatedBodies = [] := by
    simp [List.flatMap_map, PatternTree.repeatedBodies]
  -- The tree that is repeated is found in one of the parts, with the tokens of that part.
  induction reads with
  | literal => simp [characters] at member
  | reference | code =>
    rw [List.flatMap_cons, characters] at member
    simp [PatternTree.repeatedBodies] at member
  | dot | characterClass | shorthand | character | textStart | textEnd | boundary | nil =>
    simp [PatternTree.repeatedBodies] at member
  | group _ opening closing inner _ _ _ _ _ ih | capture _ opening closing inner _ _ _ _ _ ih
  | lookahead _ opening closing inner _ _ _ _ _ _ ih =>
    -- The quantifier stands inside the group.
    have inside := ih (fun token inner => shaped token (by simp [inner]))
      (by simpa [PatternTree.repeatedBodies] using member)
    exact inside.around [opening] [closing]
  | once _ _ _ _ ih | whole _ _ _ _ ih => exact ih shaped member
  | repeated groups tokens quantifier front last atom kind _ _ _ _ ih =>
    have known : ∀ token ∈ tokens, token.Shaped :=
      fun token inner => shaped token (by simp [inner])
    -- It is either this quantifier, or one inside the atom.
    rw [List.flatMap_append, List.flatMap_singleton, PatternTree.repeatedBodies, List.mem_append,
      List.mem_cons] at member
    have deeper (inside : body ∈ (front ++ [last]).flatMap PatternTree.repeatedBodies) :
        RepeatsHollow (tokens ++ [quantifier]) := (ih known inside).around [] [quantifier]
    rcases member with front | rfl | inside
    · exact deeper (by simp_all)
    · exact ⟨[], tokens, quantifier, [], rfl, kind,
        atom.isPlainGroup known (by simp) refused⟩
    · exact deeper (by simp_all)
  | cons groups term rest trees others first behind ihFirst ihBehind =>
    rw [List.flatMap_append, List.mem_append] at member
    rcases member with front | back
    · -- It is in front, with the rest of the tokens behind it.
      exact (ihFirst (fun token inner => shaped token (by simp [inner])) front).around [] rest
    · have inside := ihBehind (fun token inner => shaped token (by simp [inner])) back
      simpa using inside.around term []
  | last groups tokens trees only ih =>
    rw [List.flatMap_singleton, PatternTree.repeatedBodies_chain] at member
    exact ih shaped member
  | more groups tokens rest bar trees other first kind behind ihFirst ihBehind =>
    rw [List.flatMap_singleton, PatternTree.repeatedBodies, PatternTree.repeatedBodies_chain,
      List.mem_append] at member
    -- Either alternative can hold it, with the bar on the other side.
    rcases member with front | back
    · exact (ihFirst (fun token inner => shaped token (by simp [inner])) front).around [] _
    · have inside := ihBehind (fun token inner => shaped token (by simp [inner])) (by simpa using back)
      simpa using inside.around (tokens ++ [bar]) []

end RegexLens
