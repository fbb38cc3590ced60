import RegexLens.Text

/-! Positions in a text, and the stretches of it that groups capture. -/

namespace RegexLens

/-- A position in a text, with what stands on both sides of it. -/
structure Cursor where
  /-- The text in front of the position, nearest character first. -/
  before : Text
  /-- The text behind the position. -/
  after : Text
  /-- The byte offset of the position. -/
  offset : Nat
deriving DecidableEq, Repr, Inhabited

namespace Cursor

/-- The position at the start of a text. -/
def start (text : Text) : Cursor :=
  ⟨[], text, 0⟩

/-- The next character and the position behind it. -/
def next? (cursor : Cursor) : Option (Char × Cursor) :=
  match cursor.after with
  | [] => none
  | symbol :: after =>
    some (symbol, ⟨symbol :: cursor.before, after, cursor.offset + symbol.utf8Size⟩)

/-- The position a number of characters earlier. -/
def back? (cursor : Cursor) : Nat → Option Cursor
  | 0 => some cursor
  | count + 1 =>
    match cursor.before with
    | [] => none
    | symbol :: before =>
      back? ⟨before, symbol :: cursor.after, cursor.offset - symbol.utf8Size⟩ count

/-- The position behind a given number of bytes of a model, if the text agrees with them. -/
def follow? (cursor : Cursor) (model : Text) (size : Nat) : Option Cursor :=
  match size, model with
  | 0, _ => some cursor
  -- The model ends before its bytes do.
  | _ + 1, [] => none
  | _ + 1, expected :: rest =>
    match cursor.next? with
    | none => none
    | some (symbol, next) =>
      if symbol = expected then next.follow? rest (size - symbol.utf8Size) else none

end Cursor

/-- What a group has captured, complete once the group has been closed. -/
structure Capture where
  /-- Where the group was last opened. -/
  start : Cursor
  /-- The offset at which the group was last closed. -/
  stop? : Option Nat
deriving DecidableEq, Repr

/-- The captures of the groups that have been opened, latest change first. -/
abbrev Captures := List (Nat × Capture)

namespace Captures

/-- What a group has captured, if it has been opened. -/
def get? (captures : Captures) (group : Nat) : Option Capture :=
  captures.lookup group

/-- Opens a group; until it is closed again its end stays where it was. -/
def opened (captures : Captures) (group : Nat) (cursor : Cursor) : Captures :=
  let stop? := (captures.get? group).bind Capture.stop?
  (group, ⟨cursor, stop?⟩) :: captures.filter fun entry => entry.1 != group

/-- Closes a group. -/
def closed (captures : Captures) (group : Nat) (cursor : Cursor) : Captures :=
  captures.map fun entry =>
    if entry.1 = group then (group, { entry.2 with stop? := some cursor.offset }) else entry

/-- The position behind what a group has captured, if the text repeats it at a position. -/
def repeated? (captures : Captures) (group : Nat) (cursor : Cursor) : Option Cursor := do
  let capture ← captures.get? group
  let stop ← capture.stop?
  if capture.start.offset ≤ stop then
    cursor.follow? capture.start.after (stop - capture.start.offset)
  else none

end Captures

end RegexLens
