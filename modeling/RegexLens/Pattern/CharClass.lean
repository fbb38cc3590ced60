import RegexLens.Markup.Basic
import RegexLens.Pattern.Diagnostic
import RegexLens.Pattern.Escape
import RegexLens.Pattern.Scanner

/-! Character classes, read by rules of their own: no groups or quantifiers, but ranges. -/

namespace RegexLens

/-- A unit of the contents of a character class. -/
inductive ClassItem
  /-- A run of characters that are neither hyphens nor backslashes. -/
  | run (first : Char) (others : Text)
  /-- A hyphen, which may form a range. -/
  | hyphen
  /-- A backslash with the sequence it applies to, empty only at the end. -/
  | escape (sequence : Text)
deriving DecidableEq, Repr

/-- The length of what a backslash applies to inside a character class. -/
def classEscapeLength (tail : Text) : Nat :=
  -- An octal code is tried first here, and it counts a leading zero among its digits.
  if 0 < octalLength tail then octalLength tail else sequenceLength tail

namespace ClassItem

/-- The item as it stands in the class. -/
def text : ClassItem → Text
  | run first others => first :: others
  | hyphen => ['-']
  | escape sequence => '\\' :: sequence

/-- The item that a character starts, given what follows it. -/
def first (symbol : Char) (tail : Text) : ClassItem :=
  match symbol with
  | '-' => hyphen
  | '\\' => escape (tail.take (classEscapeLength tail))
  | _ => run symbol (tail.takeWhile fun next => next != '\\' && next != '-')

/-- Whether the item is a shorthand class. -/
def isMetaclass : ClassItem → Bool
  | escape sequence => RegexLens.isMetaclass sequence
  | _ => false

/-- The code of the character the item denotes as the right endpoint of a range. -/
def code? : ClassItem → Option Nat
  | run first _ => some first.toNat
  | hyphen => some '-'.toNat
  | escape sequence => sequenceCode? sequence

/-- The items of the contents of a class, in order and without loss. -/
def all (contents : Text) : List ClassItem :=
  match contents with
  | [] => []
  | symbol :: tail =>
    let item := first symbol tail
    item :: all (tail.drop (item.text.length - 1))
termination_by contents.length

end ClassItem

/-- The role that an item has for the hyphen behind it. -/
inductive ItemRole
  /-- There is no item yet. -/
  | initial
  /-- An item that denotes one character at its end. -/
  | ordinary
  /-- A shorthand class. -/
  | metaclass
  /-- A hyphen that formed a range, or tried to. -/
  | rangeHyphen
deriving DecidableEq, Repr

/-- The reading of a class up to some item. -/
structure ClassReading where
  /-- The items read so far, with their styles. -/
  markup : Markup
  /-- The faults found so far. -/
  diagnostics : List Diagnostic
  /-- The byte offset of the next item in the pattern. -/
  offset : Nat
  /-- Whether a hyphen here would form a range. -/
  rangeable : Bool
  /-- The role of the last item. -/
  role : ItemRole
  /-- The code of the last character, if it has one. -/
  code? : Option Nat

namespace ClassReading

/-- Adds an item in plain text. -/
def plain (reading : ClassReading) (item : ClassItem) : ClassReading :=
  { reading with
    markup := reading.markup.pushText item.text
    offset := reading.offset + byteSize item.text }

/-- Adds an item in a style. -/
def styled (reading : ClassReading) (style : Style) (item : ClassItem) : ClassReading :=
  { reading with
    markup := reading.markup.pushSpan style item.text
    offset := reading.offset + byteSize item.text }

/-- Adds an item that is an error. -/
def flagged (reading : ClassReading) (fault : Fault) (item : ClassItem) : ClassReading :=
  { reading.styled .error item with
    diagnostics := reading.diagnostics ++ [⟨fault, reading.offset, item.text⟩] }

/-- Makes the item just added the last one; it can open a range unless it closed one. -/
def remember (reading : ClassReading) (role : ItemRole) (code? : Option Nat) : ClassReading :=
  { reading with rangeable := reading.role != .rangeHyphen, role, code? }

/-- The fault of a range from the last item to the next one, if it has one. -/
def rangeFault? (reading : ClassReading) (next : ClassItem) : Option Fault :=
  -- Endpoints without a code cannot be out of order.
  let reversed : Bool :=
    match reading.code?, next.code? with
    | some low, some high => high < low
    | _, _ => false
  if reversed then some .reversedRange
  else if reading.role = .metaclass || next.isMetaclass then some .metaclassEndpoint
  else none

/-- Reads a hyphen, which forms a range only between two endpoints. -/
def readHyphen (reading : ClassReading) (closed : Bool) (next? : Option ClassItem) :
    ClassReading :=
  -- At the front, and behind the endpoint that ends a range, a hyphen stands for itself.
  if !reading.rangeable then
    (reading.plain .hyphen).remember .ordinary (some '-'.toNat)
  else
    match next? with
    | some next =>
      let hyphen :=
        match reading.rangeFault? next with
        | some fault => reading.flagged fault .hyphen
        | none => reading.styled .range .hyphen
      -- The endpoint that follows closes the range, so that no other one starts with it.
      { hyphen with rangeable := false, role := .rangeHyphen, code? := none }
    | none =>
      -- A last hyphen waits for its endpoint only while the class is still being written.
      if closed then reading.plain .hyphen else reading.styled .range .hyphen

/-- Reads an escape. -/
def readEscape (reading : ClassReading) (sequence : Text) : ClassReading :=
  let item := ClassItem.escape sequence
  -- What is wrong with the escape comes before what it denotes.
  if sequence = [] then reading.flagged .danglingBackslash item
  else if isIncomplete sequence then
    (reading.flagged .incompleteEscape item).remember .ordinary none
  else if isMetaclass sequence then
    (reading.styled .metaclass item).remember .metaclass none
  else
    (reading.styled .special item).remember .ordinary (sequenceCode? sequence)

/-- Reads a run, whose last character can open a range even right behind another range. -/
def readRun (reading : ClassReading) (first : Char) (others : Text) : ClassReading :=
  { reading.plain (.run first others) with
    rangeable := others != [] || reading.role != .rangeHyphen
    role := .ordinary
    code? := some (others.getLastD first).toNat }

/-- Reads the items of a class in order. -/
def readAll (reading : ClassReading) (closed : Bool) : List ClassItem → ClassReading
  | [] => reading
  | .hyphen :: rest => (reading.readHyphen closed rest.head?).readAll closed rest
  | .escape sequence :: rest => (reading.readEscape sequence).readAll closed rest
  | .run first others :: rest => (reading.readRun first others).readAll closed rest

end ClassReading

/-- A piece of a pattern with its styles and the faults found in it. -/
structure Annotated where
  /-- The styled text. -/
  markup : Markup
  /-- The faults, in the order in which they stand in the text. -/
  diagnostics : List Diagnostic
deriving DecidableEq, Repr

/-- Styles the character class at the front of a text that stands at a byte offset. -/
def annotateClass (text : Text) (offset : Nat) : Annotated :=
  let parts := ClassParts.split text
  let inside := offset + byteSize parts.opening
  -- Only the opening of an unterminated class can show that its end is missing.
  let opened : ClassReading :=
    if parts.isClosed then
      ⟨Markup.nil.pushText parts.opening, [], inside, false, .initial, none⟩
    else
      ⟨Markup.nil.pushSpan .error parts.opening,
        [⟨.unterminatedClass, offset, parts.opening⟩], inside, false, .initial, none⟩
  let reading := opened.readAll parts.isClosed (ClassItem.all parts.contents)
  ⟨reading.markup.pushText parts.closing, reading.diagnostics⟩

end RegexLens
