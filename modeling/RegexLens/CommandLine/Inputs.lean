import RegexLens.CommandLine.FileTree

/-! The sample texts that operands stand for. -/

namespace RegexLens

/-- A source of sample text. -/
inductive Input
  /-- The standard input. -/
  | standardInput
  /-- A file. -/
  | file (name : Text) (content : Content)
deriving DecidableEq, Repr

namespace Input

/-- The name shown above the matches in an input. -/
def name : Input → Text
  | standardInput => "(standard input)".toList
  | file name _ => name

end Input

/-- The name of a file below a folder, joined with slashes to the operand that names the folder. -/
def joinNames (operand : Text) (names : List Text) : Text :=
  -- An operand that ends in a slash needs no other one.
  let separator := if operand.getLast? = some '/' then [] else ['/']
  operand ++ separator ++ ['/'].intercalate names

/-- The inputs that one operand stands for; what is no file gives none. -/
def inputsOf (find : Text → Option Place) (isRecursive : Bool) (operand : Text) : List Input :=
  -- A dash stands for the standard input.
  if operand = ['-'] then [.standardInput]
  else
    match find operand with
    | some (.folder entries) =>
      -- A folder is gone through only when it is asked for.
      if isRecursive then
        entries.sortedFiles.map fun (names, content) => .file (joinNames operand names) content
      else []
    | some (.file content) => [.file operand content]
    | none => []

/-- The inputs that operands stand for, in order; without operands it is the standard input. -/
def resolveInputs (find : Text → Option Place) (isRecursive : Bool) (operands : List Text) :
    List Input :=
  if operands = [] then [.standardInput] else operands.flatMap (inputsOf find isRecursive)

end RegexLens
