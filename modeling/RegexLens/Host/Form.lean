import RegexLens.Pattern.CharClass

/-! Spelling a pattern out for the host engine, which reads some constructs differently. -/

namespace RegexLens

/-- The characters that the host reads as operators outside classes. -/
def isHostOperator (symbol : Char) : Bool :=
  "\\.+*?()|[]\x7b\x7d^$#".toList.contains symbol

/-- The characters that the host reads as operators inside classes. -/
def isHostClassOperator (symbol : Char) : Bool :=
  "\\[]^-&~".toList.contains symbol

/-- A text with a backslash before each character that satisfies a test. -/
def quoteWhere (test : Char → Bool) (content : Text) : Text :=
  content.flatMap fun symbol => if test symbol then ['\\', symbol] else [symbol]

/-- A character given by its code. -/
def codePointForm (code : Nat) : Text :=
  ['\\', 'x', '{'] ++ hexDigits code ++ ['}']

/-- Any character but a line terminator. -/
def dotForm : Text :=
  "[^\\n\\r\\x\x7b2028\x7d\\x\x7b2029\x7d]".toList

/-- The test that exactly one of the neighbouring characters is a word character. -/
def wordBoundaryForm : Text :=
  "(?:(?<=[[:word:]])(?![[:word:]])|(?<![[:word:]])(?=[[:word:]]))".toList

/-- The test that both or none of the neighbouring characters are word characters. -/
def notWordBoundaryForm : Text :=
  "(?:(?<=[[:word:]])(?=[[:word:]])|(?<![[:word:]])(?![[:word:]]))".toList

/-- A shorthand class as a class item; digits and word characters are those of ASCII. -/
def metaclassForm (sequence : Text) : Text :=
  match sequence with
  | ['d'] => "[:digit:]".toList
  | ['D'] => "[:^digit:]".toList
  | ['w'] => "[:word:]".toList
  | ['W'] => "[:^word:]".toList
  | ['S'] => "\\S".toList
  | _ => "\\s".toList

/-- An escape for one character, by its code, or as it is when it denotes none. -/
def characterForm (sequence : Text) : Text :=
  match sequenceCode? sequence with
  | some code => codePointForm code
  | none => '\\' :: sequence

/-- A backslash followed by digits, given the number of groups opened so far. -/
def numberedForm (groups : Nat) (digits : Text) : Text :=
  let named := referenceLength groups digits digits.length
  if 0 < named then
    -- A group of its own keeps the digits that follow out of the number.
    "(?:\\".toList ++ digits.take named ++ ')' :: digits.drop named
  else
    let used := max (octalLength digits) 1
    characterForm (digits.take used) ++ digits.drop used

/-- An escape outside classes, given the number of groups opened so far. -/
def escapeForm (groups : Nat) (sequence : Text) : Text :=
  match sequence with
  | ['b'] => wordBoundaryForm
  | ['B'] => notWordBoundaryForm
  | _ =>
    -- A number is looked up among the groups, and what it leaves over stands for itself.
    if startsNumbered sequence then numberedForm groups sequence
    else if isMetaclass sequence then '[' :: metaclassForm sequence ++ [']']
    else characterForm sequence

namespace ClassItem

/-- A class item for the host, a hyphen being an ordinary character. -/
def hostForm : ClassItem → Text
  | run first others => quoteWhere isHostClassOperator (first :: others)
  | hyphen => ['\\', '-']
  | escape sequence =>
    if RegexLens.isMetaclass sequence then metaclassForm sequence else characterForm sequence

/-- Whether the item is a run of several characters, whose last one can open another range. -/
def isLongRun : ClassItem → Bool
  | run _ others => others != []
  | _ => false

end ClassItem

/-- The items of a class for the host, with a bare hyphen for each range and no other. -/
def classItemsForm (rangeable afterRange : Bool) : List ClassItem → Text
  | [] => []
  | item :: rest =>
    -- A hyphen needs an endpoint on both sides, and the right one cannot open another range.
    if item = .hyphen && rangeable && rest != [] then '-' :: classItemsForm false true rest
    else item.hostForm ++ classItemsForm (!afterRange || item.isLongRun) false rest

/-- A character class for the host, copied as it is when it is unterminated. -/
def classForm (text : Text) : Text :=
  let parts := ClassParts.split text
  if parts.isClosed then
    parts.opening ++ classItemsForm false false (ClassItem.all parts.contents) ++ parts.closing
  else text

/-- A token for the host, given the number of groups opened before it. -/
def tokenForm (groups : Nat) (token : Token) : Text :=
  match token.kind with
  | .characterClass => classForm token.text
  | .escape => escapeForm groups (token.text.drop 1)
  | .literal => quoteWhere isHostOperator token.text
  | .dot => dotForm
  | .groupOpen | .groupClose | .quantifier | .anchor | .alternator => token.text

/-- Tokens for the host, given the number of groups opened before them. -/
def tokensForm (groups : Nat) : List Token → Text
  | [] => []
  | token :: rest =>
    -- Only a plain parenthesis captures.
    let opened := if token.kind = .groupOpen && token.text = ['('] then 1 else 0
    tokenForm groups token ++ tokensForm (groups + opened) rest

/-- A pattern spelled for the host; what is faulty in it is copied as it is. -/
def hostForm (pattern : Text) : Text :=
  tokensForm 0 (scan pattern)

end RegexLens
