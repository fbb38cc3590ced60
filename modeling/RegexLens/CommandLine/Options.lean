import RegexLens.Text

/-! The options of the command line, read item by item from left to right. -/

namespace RegexLens

/-- Which panes are printed. -/
inductive PaneChoice
  /-- The pattern and the sample texts. -/
  | both
  /-- The pattern only. -/
  | pattern
  /-- The sample texts only. -/
  | samples
deriving DecidableEq, Repr

/-- When output is coloured for a terminal. -/
inductive ColourChoice
  /-- In every case. -/
  | always
  /-- In no case. -/
  | never
  /-- Only on a terminal. -/
  | auto
deriving DecidableEq, Repr

namespace ColourChoice

/-- Whether output is coloured, given whether it goes to a terminal. -/
def isColoured (choice : ColourChoice) (toTerminal : Bool) : Bool :=
  match choice with
  | always => true
  | never => false
  | auto => toTerminal

end ColourChoice

/-- What is wrong with the arguments. -/
inductive UsageError
  /-- There is no pattern. -/
  | missingPattern
  /-- The value that says when to colour is none of those known. -/
  | invalidColour (value : Text)
  /-- An option is not known. -/
  | unknownOption (argument : Text)
deriving DecidableEq, Repr

namespace UsageError

/-- The error in one line. -/
def message : UsageError → Text
  | missingPattern => "missing pattern, expected -E <pattern>".toList
  | invalidColour value =>
    "invalid --color value `".toList ++ value ++ "`, expected always, never or auto".toList
  | unknownOption argument => "unknown option `".toList ++ argument ++ ['`']

end UsageError

/-- The line that says how the program is used. -/
def usage : Text :=
  ("usage: regex-highlight [--syntax | --matches] [--no-syntax-highlighting] " ++
    "[--explain] [-r] [--color=always|never|auto] -E <pattern> [path...]").toList

/-- One item of the command line, which sets one thing. -/
inductive OptionItem
  /-- The pattern. -/
  | pattern (pattern : Text)
  /-- The panes to print. -/
  | panes (choice : PaneChoice)
  /-- The wish to see the pattern without its styles. -/
  | plainPattern
  /-- The wish to have the faults of the pattern listed. -/
  | explain
  /-- The wish to search the folders among the operands. -/
  | recursive
  /-- When to colour. -/
  | colour (choice : ColourChoice)
  /-- An operand. -/
  | path (path : Text)
deriving DecidableEq, Repr

namespace OptionItem

/-- The argument that is followed by the pattern. -/
def patternFlag : Text := "-E".toList

/-- The front of the argument that says when to colour. -/
def colourFlag : Text := "--color=".toList

/-- The choice that a value names. -/
def colourNamed (value : Text) : Except UsageError OptionItem :=
  if value = "always".toList then .ok (colour .always)
  else if value = "never".toList then .ok (colour .never)
  else if value = "auto".toList then .ok (colour .auto)
  else .error (.invalidColour value)

/-- The item that a single argument is. -/
def ofArgument (argument : Text) : Except UsageError OptionItem :=
  if argument = "--syntax".toList then .ok (panes .pattern)
  else if argument = "--matches".toList then .ok (panes .samples)
  else if argument = "--no-syntax-highlighting".toList then .ok plainPattern
  else if argument = "--explain".toList then .ok explain
  else if argument = "-r".toList then .ok recursive
  else if colourFlag.isPrefixOf argument then colourNamed (argument.drop colourFlag.length)
  -- A dash alone is a path, as the name of the standard input.
  else if argument.head? = some '-' && 1 < argument.length then .error (.unknownOption argument)
  else .ok (path argument)

/-- The items of a command line, or the error of the first bad one. -/
def readAll : List Text → Except UsageError (List OptionItem)
  | [] => .ok []
  | [argument] =>
    if argument = patternFlag then .error .missingPattern
    else (ofArgument argument).map fun item => [item]
  | argument :: next :: rest =>
    -- The pattern is the next argument, whatever it looks like.
    if argument = patternFlag then (readAll rest).map (pattern next :: ·)
    else
      match ofArgument argument with
      | .error error => .error error
      | .ok item => (readAll (next :: rest)).map (item :: ·)

end OptionItem

/-- What the program is asked to do. -/
structure Options where
  /-- The pattern. -/
  pattern : Text
  /-- Which panes are printed. -/
  panes : PaneChoice
  /-- Whether the pattern is printed with its styles. -/
  stylesPattern : Bool
  /-- Whether the faults of the pattern are listed. -/
  explains : Bool
  /-- Whether folders are searched for files. -/
  isRecursive : Bool
  /-- When output is coloured. -/
  colour : ColourChoice
  /-- The operands. -/
  paths : List Text
deriving DecidableEq, Repr

namespace Options

/-- The options before the first item. -/
def standard : Options :=
  ⟨[], .both, true, false, false, .never, []⟩

/-- Sets what an item says; a later item wins over an earlier one. -/
def set (options : Options) : OptionItem → Options
  | .pattern pattern => { options with pattern }
  | .panes panes => { options with panes }
  | .plainPattern => { options with stylesPattern := false }
  | .explain => { options with explains := true }
  | .recursive => { options with isRecursive := true }
  | .colour colour => { options with colour }
  | .path path => { options with paths := options.paths ++ [path] }

/-- The options that items ask for, which must include a pattern. -/
def ofItems (items : List OptionItem) : Except UsageError Options :=
  let hasPattern := items.any fun item => item matches .pattern _
  if hasPattern then .ok (items.foldl set standard) else .error .missingPattern

/-- Reads the arguments that follow the name of the program. -/
def parse (arguments : List Text) : Except UsageError Options :=
  match OptionItem.readAll arguments with
  | .error error => .error error
  | .ok items => ofItems items

end Options

end RegexLens
