import RegexLens.CommandLine.Run

/-! The command line: reads what the program needs, runs it, and writes what it leaves behind. -/

namespace RegexLens

/-- The text that bytes encode. -/
def decode (bytes : ByteArray) : Content :=
  match String.fromUTF8? bytes with
  | some content => .text content.toList
  | none => .undecodable

/-- Adds everything below a folder to a tree, each entry with its path from the folder that is
searched; what cannot be read is left out. -/
partial def addEntries (tree : FileTree) (folder : String) (path : Text) : IO FileTree := do
  let here ← IO.currentDir
  let entries ← try (here / folder).readDir catch _ => pure #[]
  let mut tree := tree
  for entry in entries do
    let name := folder ++ "/" ++ entry.fileName
    let path := path ++ entry.fileName.toList
    if ← entry.path.isDir then
      tree ← addEntries (tree.addFolder path) name (path ++ ['/'])
    else if ← entry.path.pathExists then
      try
        tree := tree.addFile path (decode (← IO.FS.readBinFile name))
      catch _ => pure ()
  return tree

/-- What a path leads to. -/
def readPlace (path : Text) (isRecursive : Bool) : IO (Option Place) := do
  let name := String.ofList path
  let here ← IO.currentDir
  if path = [] then return none
  else if ← (here / name).isDir then
    -- Nothing asks for the entries unless folders are searched.
    if isRecursive then return some (.folder (← addEntries .nil name []))
    else return some (.folder .nil)
  else
    try return some (.file (decode (← IO.FS.readBinFile name)))
    catch _ => return none

/-- Reads the standard input to its end. -/
partial def readAllInput (input : IO.FS.Stream) (read : ByteArray) : IO ByteArray := do
  let more ← input.read 65536
  if more.isEmpty then return read else readAllInput input (read ++ more)

end RegexLens

open RegexLens in
/-- The program. -/
def main (arguments : List String) : IO UInt32 := do
  let texts := arguments.map String.toList
  let mut places : List (Text × Place) := []
  let mut needsInput := false
  -- Only what the options ask for is read.
  if let .ok options := Options.parse texts then
    if options.panes != .pattern then
      for path in options.paths do
        if let some place ← readPlace path options.isRecursive then
          places := (path, place) :: places
      let inputs := resolveInputs (fun path => places.lookup path) options.isRecursive options.paths
      needsInput := inputs.contains .standardInput
  -- The standard input is read when one of the inputs is it.
  let mut bytes := ByteArray.empty
  if needsInput then
    bytes ← readAllInput (← IO.getStdin) ByteArray.empty
  let toTerminal ← (← IO.getStdout).isTty
  let outcome := run texts (fun path => places.lookup path) (decode bytes) toTerminal
  IO.print (String.ofList outcome.output)
  IO.eprint (String.ofList outcome.errors)
  return outcome.status.toUInt32
