import RegexLens.Pattern.CharClass

/-! The styles of a whole pattern, with everything that is wrong in it. -/

namespace RegexLens

/-- The largest repetition count that an interval may ask for. -/
def maxInterval : Nat := 65535

/-- The number of group styles, after which nesting starts again with the first. -/
def groupStyles : Nat := 5

/-- The role that a token has for the token behind it. -/
inductive TokenRole
  /-- There is no token yet. -/
  | initial
  /-- Any token but an alternator. -/
  | ordinary
  /-- An alternator. -/
  | alternator
deriving DecidableEq, Repr

/-- What the next token needs to know of the last one. -/
structure LastToken where
  /-- Whether a quantifier may follow. -/
  quantifiable : Bool
  /-- The role of the token. -/
  role : TokenRole
  /-- The style that a quantifier takes over, set when a group was closed. -/
  style? : Option Style
deriving DecidableEq, Repr

/-- A group that is not yet closed. -/
structure OpenGroup where
  /-- The position of its opening among the outermost nodes of the markup. -/
  index : Nat
  /-- Its opening as it stands in the pattern. -/
  opening : Text
  /-- The byte offset of its opening. -/
  offset : Nat
deriving DecidableEq, Repr

/-- The result of classifying a pattern. -/
structure Classification where
  /-- The styled pattern. -/
  markup : Markup
  /-- One entry for each error span of the markup, in the order of their offsets. -/
  diagnostics : List Diagnostic
  /-- The number of capturing groups. -/
  capturingGroups : Nat
  /-- The group numbers of the escapes that are references, in order. -/
  backreferences : List Nat
deriving DecidableEq, Repr

namespace Classification

/-- A pattern is valid when nothing in it is wrong. -/
def isValid (classification : Classification) : Bool :=
  classification.diagnostics.isEmpty

end Classification

/-- A bound of an interval, unless it is above the limit. -/
def bound? (digits : Text) : Option Nat :=
  (parse? 10 limit32 digits).filter (· ≤ maxInterval)

/-- The bounds of an interval as they are written, of which the upper one may be missing. -/
def splitBounds (body : Text) : Text × Option Text :=
  match body.span (· != ',') with
  -- Nothing behind the comma leaves the number of repetitions open.
  | (lower, _ :: upper) => (lower, if upper = [] then none else some upper)
  | (_, []) => (body, none)

/-- The fault of bounds, of which each one written is read as a number. -/
def boundsFault? (lower : Text) (upper? : Option Text) : Option Fault :=
  match bound? lower with
  | none => some .boundTooLarge
  | some least =>
    match upper?.map bound? with
    | some none => some .boundTooLarge
    | some (some most) => if most < least then some .reversedBounds else none
    | none => none

/-- The fault of an interval; a quantifier that is no interval has none. -/
def intervalFault? (quantifier : Text) : Option Fault :=
  match quantifier with
  | '{' :: tail =>
    match tail.span (· != '}') with
    | (body, _ :: _) => boundsFault? (splitBounds body).1 (splitBounds body).2
    | (_, []) => none
  | _ => none

/-- The classification of a pattern up to some token. -/
structure Classifier where
  /-- The tokens read so far, with their styles. -/
  markup : Markup
  /-- The faults found so far. -/
  diagnostics : List Diagnostic
  /-- The last token. -/
  last : LastToken
  /-- The number of capturing groups opened so far. -/
  captures : Nat
  /-- The style level of the innermost open group, starting below the first level. -/
  level : Nat
  /-- The groups that are still open, innermost first. -/
  openGroups : List OpenGroup
  /-- The group numbers of the references found so far. -/
  backreferences : List Nat

namespace Classifier

/-- The classifier before the first token. -/
def initial : Classifier :=
  -- The first group advances the level from the last style to the first.
  ⟨.nil, [], ⟨false, .initial, none⟩, 0, groupStyles, [], []⟩

/-- Makes an ordinary token the last one. -/
def follow (state : Classifier) (quantifiable : Bool) : Classifier :=
  { state with last := ⟨quantifiable, .ordinary, none⟩ }

/-- Adds text in a style. -/
def styled (state : Classifier) (style : Style) (text : Text) : Classifier :=
  { state with markup := state.markup.pushSpan style text }

/-- Adds text without a style. -/
def plain (state : Classifier) (text : Text) : Classifier :=
  { state with markup := state.markup.pushText text }

/-- Adds a token that is an error. -/
def flagged (state : Classifier) (fault : Fault) (token : Token) : Classifier :=
  { state.styled .error token.text with
    diagnostics := state.diagnostics ++ [⟨fault, token.start, token.text⟩] }

/-- Reads a character class. -/
def readClass (state : Classifier) (token : Token) : Classifier :=
  let inner := annotateClass token.text token.start
  { state with
    markup := state.markup.pushNested .characterClass inner.markup
    diagnostics := state.diagnostics ++ inner.diagnostics }.follow true

/-- Reads an opening parenthesis with its group type. -/
def readGroupOpen (state : Classifier) (token : Token) : Classifier :=
  -- A malformed group type counts neither as nesting nor as a capture.
  if token.text = ['(', '?'] then (state.flagged .invalidGroupType token).follow false
  else
    let level := state.level % groupStyles + 1
    let group : OpenGroup := ⟨state.markup.length, token.text, token.start⟩
    { state.styled (.group level) token.text with
      captures := if token.text = ['('] then state.captures + 1 else state.captures
      level
      openGroups := group :: state.openGroups }.follow false

/-- Reads a closing parenthesis. -/
def readGroupClose (state : Classifier) (token : Token) : Classifier :=
  match state.openGroups with
  | [] => (state.flagged .unmatchedParenthesis token).follow false
  | group :: outer =>
    let style := Style.group state.level
    -- Repeating a lookahead adds nothing, so it is not accepted.
    let lookahead := group.opening = ['(', '?', '='] || group.opening = ['(', '?', '!']
    { state.styled style token.text with
      last := ⟨!lookahead, .ordinary, some style⟩
      level := if state.level = 1 then groupStyles else state.level - 1
      openGroups := outer }

/-- Reads a backslash followed by digits that do not start with zero. -/
def readNumberedEscape (state : Classifier) (digits : Text) : Classifier :=
  let named := referenceLength state.captures digits digits.length
  -- Without such a group the digits in front are an octal code, or an eight or a nine.
  let used := if 0 < named then named else max (octalLength digits) 1
  let shown := state.styled .special ('\\' :: digits.take used)
  { shown.plain (digits.drop used) with
    backreferences :=
      if 0 < named then state.backreferences ++ [groupNumber (digits.take named)]
      else state.backreferences }.follow true

/-- Whether an escaped character has a meaning of its own and does not just denote itself. -/
def isSpecialEscape (first : Char) : Bool :=
  "0bBcdDfnrsStuvwWx".toList.contains first

/-- Reads an escape. -/
def readEscape (state : Classifier) (token : Token) : Classifier :=
  match token.text.drop 1 with
  | [] => (state.flagged .danglingBackslash token).follow false
  | first :: rest =>
    let sequence := first :: rest
    if startsNumbered sequence then state.readNumberedEscape sequence
    else if isIncomplete sequence then (state.flagged .incompleteEscape token).follow false
    else if isSpecialEscape first then
      -- Word boundaries match no characters, so they cannot be repeated.
      (state.styled .special token.text).follow (sequence != ['b'] && sequence != ['B'])
    else (state.plain token.text).follow true

/-- Reads a quantifier. -/
def readQuantifier (state : Classifier) (token : Token) : Classifier :=
  let shown :=
    if !state.last.quantifiable then state.flagged .misplacedQuantifier token
    else
      match intervalFault? token.text with
      | some fault => state.flagged fault token
      | none => state.styled (state.last.style?.getD .special) token.text
  shown.follow false

/-- Reads an alternator, which must not leave an empty alternative on the outermost level. -/
def readAlternator (state : Classifier) (token : Token) : Classifier :=
  let leading := state.last.role = .initial
  let doubled := state.last.role = .alternator && state.openGroups.isEmpty
  let shown :=
    if leading || doubled then state.flagged .emptyAlternative token
    else if state.openGroups.isEmpty then state.styled .special token.text
    else state.styled (.group state.level) token.text
  { shown with last := ⟨false, .alternator, none⟩ }

/-- Reads one token. -/
def read (state : Classifier) (token : Token) : Classifier :=
  match token.kind with
  | .characterClass => state.readClass token
  | .groupOpen => state.readGroupOpen token
  | .groupClose => state.readGroupClose token
  | .escape => state.readEscape token
  | .quantifier => state.readQuantifier token
  | .anchor => (state.styled .special token.text).follow false
  | .dot => (state.styled .special token.text).follow true
  | .alternator => state.readAlternator token
  | .literal => (state.plain token.text).follow true

/-- Marks the opening of a group that was never closed. -/
def abandon (state : Classifier) (group : OpenGroup) : Classifier :=
  { state with
    markup := state.markup.restyle group.index .error
    diagnostics := state.diagnostics ++ [⟨.unterminatedGroup, group.offset, group.opening⟩] }

/-- Ends the pattern: groups still open are errors, and the faults are put in order. -/
def finish (state : Classifier) : Classification :=
  let ended := state.openGroups.reverse.foldl abandon state
  { markup := ended.markup
    diagnostics := ended.diagnostics.mergeSort fun first second => first.offset ≤ second.offset
    capturingGroups := ended.captures
    backreferences := ended.backreferences }

end Classifier

/-- Styles a pattern and finds what is wrong in it; a faulty pattern is styled to its end too. -/
def classify (pattern : Text) : Classification :=
  ((scan pattern).foldl Classifier.read .initial).finish

end RegexLens
