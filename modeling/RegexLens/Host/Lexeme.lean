import RegexLens.Host.Expression

/-!
The units of an expression as the host engine writes it.

A function that reads from a text also gives the number of characters that it takes from that text.
-/

namespace RegexLens

/-- Why the host engine rejects an expression. -/
inductive Rejection
  /-- A class without its closing bracket. -/
  | unterminatedClass
  /-- A class that uses a set operator or holds another class. -/
  | classOperator
  /-- A range whose endpoints are out of order or are not single characters. -/
  | badRange
  /-- A backslash with nothing behind it. -/
  | danglingBackslash
  /-- An escape that the host does not have. -/
  | unknownEscape
  /-- A character code that is incomplete or that denotes no character. -/
  | badCode
  /-- A group type that the host does not have. -/
  | unknownGroupType
  /-- A group that is not closed. -/
  | unterminatedGroup
  /-- A closing parenthesis that closes no group. -/
  | unmatchedParenthesis
  /-- Groups that are nested too deep. -/
  | nestedTooDeep
  /-- A quantifier with nothing in front of it that can be repeated. -/
  | notRepeatable
  /-- An interval whose lower bound exceeds its upper bound. -/
  | reversedBounds
  /-- A reference to a group that is not opened in front of it. -/
  | unknownGroup
  /-- A test of the text in front that has no fixed number of characters. -/
  | unboundedLookBehind
deriving DecidableEq, Repr

/-- What an opening parenthesis opens. -/
inductive GroupType
  /-- A group that captures what it matches. -/
  | capturing
  /-- A group that only holds things together. -/
  | plain
  /-- A test of the text that follows. -/
  | lookAhead (wanted : Bool)
  /-- A test of the text in front. -/
  | lookBehind (wanted : Bool)
deriving DecidableEq, Repr

/-- A unit of an expression. -/
inductive Lexeme
  /-- Something that matches on its own. -/
  | atom (expression : Expression)
  /-- A repetition of what stands in front of it. -/
  | quantifier (bounds : Bounds) (isLazy isPossessive : Bool)
  /-- The start of a group. -/
  | openGroup (type : GroupType)
  /-- The end of a group. -/
  | closeGroup
  /-- The mark between alternatives. -/
  | alternator
deriving DecidableEq, Repr

/-- The character with a code, unless the code denotes none. -/
def charOfCode (code : Nat) : Except Rejection Char :=
  if valid : code.isValidChar then .ok (Char.ofNatAux code valid) else .error .badCode

/-- Reads a character code, which has a fixed number of digits or any number of them in braces. -/
def readCode (count : Nat) (tail : Text) : Except Rejection (Char × Nat) :=
  if startsWithHex count tail then do
    return (← charOfCode (valueIn 16 (tail.take count)), count)
  else
    match tail with
    -- The digits in braces have to be there, and nothing else may stand between the braces.
    | '{' :: body =>
      let digits := body.takeWhile isHexDigit
      if digits != [] && (body.drop digits.length).head? = some '}' then do
        return (← charOfCode (valueIn 16 digits), digits.length + 2)
      else .error .badCode
    | _ => .error .badCode

/-- Reads what a backslash applies to when it denotes one character. -/
def readCharEscape (letter : Char) (tail : Text) : Except Rejection (Char × Nat) :=
  match letter with
  | 'x' => readCode 2 tail
  | 'u' => readCode 4 tail
  | 'n' => .ok ('\n', 0)
  | 'r' => .ok ('\r', 0)
  | _ =>
    -- Only a character that is no letter and no digit becomes ordinary behind a backslash.
    if letter.isAlphanum then .error .unknownEscape else .ok (letter, 0)

/-- The family that a letter names behind a backslash. -/
def escapeFamily? : Char → Option SetItem
  | 's' => some (.family .space false)
  | 'S' => some (.family .space true)
  | _ => none

/-- The names of families inside a class, as they follow an opening bracket. -/
def namedFamilies : List (Text × SetItem) :=
  [(":digit:]".toList, .family .digit false), (":^digit:]".toList, .family .digit true),
    (":word:]".toList, .family .word false), (":^word:]".toList, .family .word true)]

/-- Reads what can stand at either end of a range, although only characters may. -/
def readEndpoint (first : Char) (tail : Text) : Except Rejection (SetItem × Nat) :=
  match first, tail with
  | '\\', [] => .error .danglingBackslash
  | '\\', letter :: rest =>
    -- A family can stand at the end of a range only by mistake, which is found later.
    match escapeFamily? letter with
    | some item => .ok (item, 1)
    | none => do
      let (symbol, length) ← readCharEscape letter rest
      return (.range symbol symbol, length + 1)
  | _, _ => .ok (.range first first, 0)

/-- The range between two endpoints, which must be characters in order. -/
def rangeBetween : SetItem → SetItem → Except Rejection SetItem
  | .range low _, .range high _ =>
    if low ≤ high then .ok (.range low high) else .error .badRange
  | _, _ => .error .badRange

/-- Reads one item of a class. -/
def readSetItem (first : Char) (tail : Text) : Except Rejection (SetItem × Nat) :=
  if first = '[' then
    -- A bracket inside a class can only open the name of a family.
    match namedFamilies.find? fun named => named.1.isPrefixOf tail with
    | some (name, item) => .ok (item, name.length)
    | none => .error .classOperator
  else if ['&', '-', '~'].contains first && tail.head? = some first then .error .classOperator
  else do
    let (low, length) ← readEndpoint first tail
    match tail.drop length with
    | '-' :: next :: rest =>
      -- A hyphen in front of the closing bracket or of another hyphen forms no range.
      if next = ']' || next = '-' then return (low, length)
      else
        let (high, more) ← readEndpoint next rest
        return (← rangeBetween low high, length + 2 + more)
    | _ => return (low, length)

/-- Reads the items of a class up to its closing bracket, and counts the characters they take. -/
def readSetItems (text : Text) : Except Rejection (List SetItem × Nat) :=
  match text with
  | [] => .error .unterminatedClass
  | ']' :: _ => .ok ([], 0)
  -- Each item says how many characters it takes, and the next one starts behind them.
  | first :: tail => do
    let (item, length) ← readSetItem first tail
    let (others, more) ← readSetItems (tail.drop length)
    return (item :: others, length + 1 + more)
termination_by text.length

/-- Reads a class, given what follows its opening bracket. -/
def readSet (tail : Text) : Except Rejection (CharSet × Nat) := do
  let complement := tail.head? = some '^'
  let marked := if complement then 1 else 0
  match tail.drop marked with
  | ']' :: body =>
    -- A closing bracket right at the front is an ordinary character.
    let (items, length) ← readSetItems body
    return (⟨complement, .range ']' ']' :: items⟩, marked + 1 + length + 1)
  | body =>
    let (items, length) ← readSetItems body
    return (⟨complement, items⟩, marked + length + 1)

/-- Reads an escape outside classes. -/
def readEscape (tail : Text) : Except Rejection (Expression × Nat) :=
  match tail with
  | [] => .error .danglingBackslash
  | letter :: rest =>
    -- Digits are a reference, whether such a group exists or not.
    if letter.isDigit then
      let digits := digitRun tail
      .ok (.reference (valueIn 10 digits), digits.length)
    else
      match escapeFamily? letter with
      | some item => .ok (.set ⟨false, [item]⟩, 1)
      | none => do
        let (symbol, length) ← readCharEscape letter rest
        return (.char symbol, length + 1)

/-- The group type that follows an opening parenthesis. -/
def readGroupType : Text → Except Rejection (GroupType × Nat)
  | '?' :: ':' :: _ => .ok (.plain, 2)
  | '?' :: '=' :: _ => .ok (.lookAhead true, 2)
  | '?' :: '!' :: _ => .ok (.lookAhead false, 2)
  | '?' :: '<' :: '=' :: _ => .ok (.lookBehind true, 3)
  | '?' :: '<' :: '!' :: _ => .ok (.lookBehind false, 3)
  -- Every other type is refused.
  | '?' :: _ => .error .unknownGroupType
  | _ => .ok (.capturing, 0)

/-- The bounds that follow an opening brace, if they and the closing brace are complete. -/
def readBounds? (tail : Text) : Option (Bounds × Nat) :=
  let lower := digitRun tail
  -- Without a lower bound the brace stands for itself.
  match lower, tail.drop lower.length with
  | [], _ => none
  | _, '}' :: _ =>
    some (⟨valueIn 10 lower, some (valueIn 10 lower)⟩, lower.length + 1)
  | _, ',' :: rest =>
    let upper := digitRun rest
    match rest.drop upper.length with
    -- A missing upper bound leaves the number of rounds open.
    | '}' :: _ =>
      let upper? := if upper = [] then none else some (valueIn 10 upper)
      some (⟨valueIn 10 lower, upper?⟩, lower.length + upper.length + 2)
    | _ => none
  | _, _ => none

/-- A quantifier with the marks behind its bounds: lazy first, then possessive. -/
def markedQuantifier (bounds : Bounds) (length : Nat) (tail : Text) :
    Except Rejection (Lexeme × Nat) :=
  match tail.drop length with
  | '?' :: '+' :: _ => .ok (.quantifier bounds true true, length + 2)
  | '?' :: _ => .ok (.quantifier bounds true false, length + 1)
  | '+' :: _ => .ok (.quantifier bounds false true, length + 1)
  | _ => .ok (.quantifier bounds false false, length)

namespace Lexeme

/-- Reads the unit that a character starts, knowing whether it can be a repetition. -/
def read (repeatable : Bool) (first : Char) (tail : Text) : Except Rejection (Lexeme × Nat) :=
  match first with
  | '\\' => do
    let (expression, length) ← readEscape tail
    return (.atom expression, length)
  | '[' => do
    let (members, length) ← readSet tail
    return (.atom (.set members), length)
  | '(' => do
    let (type, length) ← readGroupType tail
    return (.openGroup type, length)
  | ')' => .ok (.closeGroup, 0)
  | '|' => .ok (.alternator, 0)
  | '^' => .ok (.atom .textStart, 0)
  | '$' => .ok (.atom .textEnd, 0)
  | '?' => markedQuantifier ⟨0, some 1⟩ 0 tail
  | '*' => markedQuantifier ⟨0, none⟩ 0 tail
  | '+' => markedQuantifier ⟨1, none⟩ 0 tail
  | '{' =>
    -- A brace is an ordinary character where nothing can be repeated.
    match repeatable, readBounds? tail with
    | true, some (bounds, length) => markedQuantifier bounds length tail
    | _, _ => .ok (.atom (.char first), 0)
  | _ => .ok (.atom (.char first), 0)

/-- Whether a repetition can follow the unit. -/
def allowsRepetition : Lexeme → Bool
  | atom _ => true
  | closeGroup => true
  | _ => false

/-- The units of an expression in order. -/
def readAll (repeatable : Bool) (text : Text) : Except Rejection (List Lexeme) :=
  match text with
  | [] => .ok []
  | first :: tail => do
    let (lexeme, length) ← read repeatable first tail
    let others ← readAll lexeme.allowsRepetition (tail.drop length)
    return lexeme :: others
termination_by text.length

end Lexeme

end RegexLens
