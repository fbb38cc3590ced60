import RegexLens.Proofs.Pattern.ClassMeaning
import RegexLens.Proofs.Pattern.Grammar
import RegexLens.Proofs.Pattern.NumberReading

/-! What a pattern means: a tree for each phrase of its tokens, without any thought of the host. -/

namespace RegexLens

/-- The meaning of a pattern. -/
inductive PatternTree
  -- Sequences end in nothing, and the other leaves match characters or test for a place.
  | empty
  | char (symbol : Char)
  | set (members : CharSet)
  | textStart
  | textEnd
  | boundary (wanted : Bool)
  | reference (number : Nat)
  -- Groups are numbered when they capture.
  | group (body : PatternTree)
  | capture (number : Nat) (body : PatternTree)
  | look (wanted : Bool) (body : PatternTree)
  | repeated (bounds : Bounds) (isLazy : Bool) (body : PatternTree)
  | sequence (first rest : PatternTree)
  | choice (first rest : PatternTree)
deriving DecidableEq, Repr

namespace PatternTree

/-- A sequence of trees. -/
def chain (trees : List PatternTree) : PatternTree :=
  trees.foldr sequence empty

/-- The groups that a pattern refers to, in order. -/
def references : PatternTree → List Nat
  | empty | char _ | set _ | textStart | textEnd | boundary _ => []
  | reference number => [number]
  | group body | capture _ body | look _ body | repeated _ _ body => body.references
  | sequence first rest | choice first rest => first.references ++ rest.references

/-- The references of a sequence are those of its parts. -/
theorem references_chain (trees : List PatternTree) :
    (chain trees).references = trees.flatMap references := by
  induction trees with
  | nil => rfl
  | cons first rest ih =>
    -- A sequence refers to what its first part does, and then to what the rest does.
    rw [List.flatMap_cons, ← ih]
    rfl

end PatternTree

/-- Whether a token opens a group that captures. -/
def Token.captures (token : Token) : Bool :=
  token.kind = .groupOpen && token.text = ['(']

/-- A token that names no surrogate, so that every character it denotes can be encoded. -/
def Token.Encodable (token : Token) : Prop :=
  match token.kind with
  | .escape => namesSurrogate (token.text.drop 1) = false
  | .characterClass => ∀ atom ∈ classAtoms token.text, atom.Encodable
  | _ => True

/-- The number of capturing groups that tokens open. -/
def capturesIn (tokens : List Token) : Nat :=
  tokens.countP Token.captures

/-- The characters at which a line ends. -/
def lineTerminators : Text :=
  ['\n', '\r', '\u2028', '\u2029']

/-- The trees that the tokens of a phrase stand for, given the number of groups opened before. -/
inductive Reads : Phrase → Nat → List Token → List PatternTree → Prop
  -- Every character of a literal run is a tree of its own.
  | literal (groups : Nat) (token : Token) (kind : token.kind = .literal) :
      Reads .atom groups [token] (token.text.map .char)
  -- Sets are given by the characters in them.
  | dot (groups : Nat) (token : Token) (kind : token.kind = .dot) (members : CharSet)
      (contains : ∀ symbol, members.contains symbol = true ↔ symbol ∉ lineTerminators) :
      Reads .atom groups [token] [.set members]
  | characterClass (groups : Nat) (token : Token) (kind : token.kind = .characterClass)
      (members : CharSet)
      (contains : ∀ symbol, members.contains symbol = true ↔ ClassDenotes token.text symbol) :
      Reads .atom groups [token] [.set members]
  | shorthand (groups : Nat) (token : Token) (kind : token.kind = .escape) (sequence : Text)
      (text : token.text = '\\' :: sequence) (named : IsShorthand sequence)
      (members : CharSet)
      (contains : ∀ symbol, members.contains symbol = shorthandContains sequence symbol) :
      Reads .atom groups [token] [.set members]
  | character (groups : Nat) (token : Token) (kind : token.kind = .escape) (sequence : Text)
      (text : token.text = '\\' :: sequence) (good : GoodEscape token.text)
      (unnumbered : ¬ IsNumbered sequence) (symbol : Char)
      (code : EscapeCode sequence (some symbol.toNat)) :
      Reads .atom groups [token] [.char symbol]
  -- Digits that a number does not use are characters behind it.
  | reference (groups : Nat) (token : Token) (kind : token.kind = .escape) (digits : Text)
      (text : token.text = '\\' :: digits) (numbered : IsNumbered digits)
      (group length : Nat)
      (read : NumberReads (largestGroup groups) digits (.reference group length)) :
      Reads .atom groups [token] (.reference group :: (digits.drop length).map .char)
  | code (groups : Nat) (token : Token) (kind : token.kind = .escape) (digits : Text)
      (text : token.text = '\\' :: digits) (numbered : IsNumbered digits)
      (symbol : Char) (length : Nat)
      (read : NumberReads (largestGroup groups) digits (.code symbol.toNat length)) :
      Reads .atom groups [token] (.char symbol :: (digits.drop length).map .char)
  | group (groups : Nat) (opening closing : Token) (inner : List Token)
      (opens : opening.kind = .groupOpen) (type : opening.text = ['(', '?', ':'])
      (closes : closing.kind = .groupClose) (body : PatternTree)
      (inside : Reads .alternatives groups inner [body]) :
      Reads .atom groups (opening :: (inner ++ [closing])) [.group body]
  | capture (groups : Nat) (opening closing : Token) (inner : List Token)
      (opens : opening.kind = .groupOpen) (type : opening.text = ['('])
      (closes : closing.kind = .groupClose) (body : PatternTree)
      (inside : Reads .alternatives (groups + 1) inner [body]) :
      Reads .atom groups (opening :: (inner ++ [closing])) [.capture (groups + 1) body]
  | textStart (groups : Nat) (token : Token) (kind : token.kind = .anchor)
      (text : token.text = ['^']) : Reads .term groups [token] [.textStart]
  | textEnd (groups : Nat) (token : Token) (kind : token.kind = .anchor)
      (text : token.text = ['$']) : Reads .term groups [token] [.textEnd]
  | boundary (groups : Nat) (token : Token) (kind : token.kind = .escape) (wanted : Bool)
      (text : token.text = ['\\', if wanted then 'b' else 'B']) :
      Reads .term groups [token] [.boundary wanted]
  | lookahead (groups : Nat) (opening closing : Token) (inner : List Token)
      (opens : opening.kind = .groupOpen) (wanted : Bool)
      (type : opening.text = ['(', '?', if wanted then '=' else '!'])
      (closes : closing.kind = .groupClose) (body : PatternTree)
      (inside : Reads .alternatives groups inner [body]) :
      Reads .term groups (opening :: (inner ++ [closing])) [.look wanted body]
  | once (groups : Nat) (tokens : List Token) (trees : List PatternTree)
      (atom : Reads .atom groups tokens trees) : Reads .term groups tokens trees
  -- A quantifier repeats the last tree of the atom in front of it, and nothing else.
  | repeated (groups : Nat) (tokens : List Token) (quantifier : Token) (front : List PatternTree)
      (last : PatternTree) (atom : Reads .atom groups tokens (front ++ [last]))
      (kind : quantifier.kind = .quantifier) (bounds : Bounds) (isLazy : Bool)
      (text : RepeatsAs quantifier.text bounds isLazy) (accepted : bounds.Acceptable) :
      Reads .term groups (tokens ++ [quantifier]) (front ++ [.repeated bounds isLazy last])
  | nil (groups : Nat) : Reads .sequence groups [] []
  | cons (groups : Nat) (term rest : List Token) (trees others : List PatternTree)
      (first : Reads .term groups term trees)
      (behind : Reads .sequence (groups + capturesIn term) rest others) :
      Reads .sequence groups (term ++ rest) (trees ++ others)
  | last (groups : Nat) (tokens : List Token) (trees : List PatternTree)
      (only : Reads .sequence groups tokens trees) :
      Reads .alternatives groups tokens [.chain trees]
  | more (groups : Nat) (tokens rest : List Token) (bar : Token) (trees : List PatternTree)
      (other : PatternTree) (first : Reads .sequence groups tokens trees)
      (kind : bar.kind = .alternator)
      (behind : Reads .alternatives (groups + capturesIn tokens) rest [other]) :
      Reads .alternatives groups (tokens ++ bar :: rest) [.choice (.chain trees) other]
  -- On the outermost level the alternatives are read in the same way.
  | whole (groups : Nat) (tokens : List Token) (tree : PatternTree)
      (body : Reads .alternatives groups tokens [tree]) : Reads .pattern groups tokens [tree]

/-- Tokens that follow one another open as many groups as each part does. -/
@[simp] theorem capturesIn_append (first second : List Token) :
    capturesIn (first ++ second) = capturesIn first + capturesIn second :=
  List.countP_append

/-- A token opens at most one group. -/
@[simp] theorem capturesIn_cons (token : Token) (rest : List Token) :
    capturesIn (token :: rest) = capturesIn rest + if token.captures then 1 else 0 :=
  List.countP_cons

/-- No tokens open no groups. -/
@[simp] theorem capturesIn_nil : capturesIn [] = 0 := rfl

/-- Only the opening of a group can open one that captures. -/
theorem Token.captures_of_kind {token : Token} (other : token.kind ≠ .groupOpen) :
    token.captures = false := by
  -- Capturing needs the kind of an opening.
  simp [captures, other]

/-- An atom stands for at least one tree. -/
theorem Reads.ne_nil {groups : Nat} {tokens : List Token} {trees : List PatternTree}
    (reads : Reads .atom groups tokens trees) (shaped : ∀ token ∈ tokens, token.Shaped) :
    trees ≠ [] := by
  cases reads with
  | literal _ token kind =>
    -- A literal run holds a character.
    have nonempty := (shaped token (by simp)).nonempty
    simpa using nonempty
  | _ => simp

end RegexLens
