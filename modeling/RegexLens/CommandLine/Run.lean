import RegexLens.CommandLine.Inputs
import RegexLens.CommandLine.Options
import RegexLens.Session

/-! The whole program as a function of its arguments, its standard input, and the files it finds. -/

namespace RegexLens

/-- What a run of the program leaves behind. -/
structure Outcome where
  /-- The exit status. -/
  status : Nat
  /-- The standard output. -/
  output : Text
  /-- The standard error. -/
  errors : Text
deriving DecidableEq, Repr

/-- A text as a line of its own. -/
def line (content : Text) : Text :=
  content ++ ['\n']

/-- A text as lines, which get a line end only if it does not end with one. -/
def lines (content : Text) : Text :=
  if content.getLast? = some '\n' then content else line content

/-- What the program has done with the inputs so far. -/
structure Progress where
  /-- The printed panes. -/
  output : Text
  /-- Whether any match was marked. -/
  hasMatch : Bool
  /-- What is left of the standard input. -/
  unread : Content
  /-- Whether the standard input could not be read, which ends the run. -/
  hasFailed : Bool
deriving DecidableEq, Repr

namespace Progress

/-- Prints the pane of one sample text, under its name if there is one. -/
def printPane (progress : Progress) (engine : Engine) (options : Options) (coloured : Bool)
    (heading : Text) (sample : Text) : Progress :=
  let markup := highlightMatchesBy engine options.pattern sample
  { progress with
    output := progress.output ++ heading ++ lines (markup.render coloured)
    hasMatch := progress.hasMatch || 0 < markup.countSpans [.matched, .matchedAlt] }

/-- Reads one input and prints its pane; a file that holds no text is passed over. -/
def next (progress : Progress) (engine : Engine) (options : Options) (coloured hasHeadings : Bool)
    (input : Input) : Progress :=
  let heading := if hasHeadings then line (input.name ++ [':']) else []
  -- After a failure the inputs that are left are not read.
  if progress.hasFailed then progress
  else
    match input with
    | .file _ .undecodable => progress
    | .file _ (.text sample) => progress.printPane engine options coloured heading sample
    | .standardInput =>
      match progress.unread with
      | .undecodable => { progress with hasFailed := true }
      | .text sample =>
        -- The standard input can be read once; after that it is empty.
        { progress with unread := .text [] }.printPane engine options coloured heading sample

end Progress

/-- The lines that list the faults of a pattern. -/
def explanation (pattern : Text) : Text :=
  (classify pattern).diagnostics.flatMap fun diagnostic =>
    line (pattern ++ ": ".toList ++ diagnostic.message)

/-- Runs the program with an engine and with options that have been read. -/
def runWith (engine : Engine) (options : Options) (find : Text → Option Place)
    (standardInput : Content) (toTerminal : Bool) : Outcome :=
  let coloured := options.colour.isColoured toTerminal
  let errors := if options.explains then explanation options.pattern else []
  let pane := ((Tester.mk options.stylesPattern).patternMarkup options.pattern).render coloured
  match options.panes with
  -- Only the verdict on the pattern counts, and no input is read.
  | .pattern => ⟨if (classify options.pattern).isValid then 0 else 1, line pane, errors⟩
  | panes =>
    let inputs := resolveInputs find options.isRecursive options.paths
    let hasHeadings := 1 < inputs.length || (options.isRecursive && options.paths != [])
    let start : Progress :=
      ⟨if panes = .samples then [] else line pane, false, standardInput, false⟩
    let progress := inputs.foldl (fun done => done.next engine options coloured hasHeadings) start
    if progress.hasFailed then
      let cause := "failed to read sample text from stdin: stream did not contain valid UTF-8"
      ⟨2, progress.output, errors ++ line ("error: " ++ cause).toList⟩
    else ⟨if progress.hasMatch then 0 else 1, progress.output, errors⟩

/-- Runs the program. -/
def run (arguments : List Text) (find : Text → Option Place) (standardInput : Content)
    (toTerminal : Bool) : Outcome :=
  match Options.parse arguments with
  | .error error => ⟨2, [], line ("error: ".toList ++ error.message) ++ line usage⟩
  | .ok options => runWith hostEngine options find standardInput toTerminal

end RegexLens
