import RegexLens.CommandLine.Run
import RegexLens.Proofs.Markup.Spans
import RegexLens.Proofs.MatchMarking

/-! What a run prints and returns, pane by pane, whatever the inputs in between hold. -/

namespace RegexLens

namespace Markup

/-- A match is marked somewhere, at any depth. -/
def HoldsMatch (markup : Markup) : Prop :=
  markup.hasStyle .matched = true ∨ markup.hasStyle .matchedAlt = true

/-- A style that is counted on the outermost level occurs. -/
theorem exists_hasStyle_of_countSpans {markup : Markup} {styles : List Style}
    (some : 0 < markup.countSpans styles) : ∃ style ∈ styles, markup.hasStyle style = true := by
  -- A span that is not counted leaves the count to the nodes behind it.
  induction markup with
  | nil => cases some
  | text content rest ih => exact ih some
  | span own inner rest _ ih =>
    rw [countSpans] at some
    split at some
    · rename_i listed
      exact ⟨own, List.contains_iff_mem.mp listed, by simp [hasStyle]⟩
    · obtain ⟨style, member, occurs⟩ := ih some
      exact ⟨style, member, by simp [hasStyle, occurs]⟩

/-- Text that nothing was done to has no style. -/
theorem hasStyle_ofText (content : Text) (style : Style) :
    (ofText content).hasStyle style = false := by
  rw [← spansOf_eq_nil_iff style 0, ofText, spansOf_pushText]
  rfl

/-- Text that nothing was done to holds no match. -/
theorem not_holdsMatch_ofText (content : Text) : ¬ (ofText content).HoldsMatch := by
  rw [HoldsMatch, hasStyle_ofText, hasStyle_ofText]
  simp

end Markup

variable {engine : Engine}

/-- Markup of matches is the bare text, or it holds a match on its outermost level. -/
theorem highlightMatchesBy_bare_or_counted (pattern text : Text) :
    highlightMatchesBy engine pattern text = .ofText text ∨
      0 < (highlightMatchesBy engine pattern text).countSpans [.matched, .matchedAlt] := by
  -- Without a match to mark the text is printed as it is.
  cases result : highlightBy engine pattern text with
  | error failure => exact .inl (by rw [highlightMatchesBy, result])
  | ok markup =>
    obtain ⟨-, -, search, spans, prepared, found, rfl⟩ := highlightBy_eq_ok_iff.mp result
    rw [highlightMatchesBy, result]
    cases spans with
    | nil => exact .inl (by simp only [markSpans, markFrom, slice_whole, Markup.ofText])
    | cons span rest =>
      -- Even a span of no characters is counted.
      refine .inr ?_
      rw [markSpans, countSpans_markFrom, List.length_cons]
      exact Nat.succ_pos _

/-- Counting outermost spans finds a match exactly if there is one at any depth. -/
theorem countSpans_pos_iff (pattern text : Text) :
    0 < (highlightMatchesBy engine pattern text).countSpans [.matched, .matchedAlt] ↔
      (highlightMatchesBy engine pattern text).HoldsMatch := by
  -- Matches are marked on the outermost level, so counting there finds them all.
  constructor
  · intro counted
    obtain ⟨style, member, occurs⟩ := Markup.exists_hasStyle_of_countSpans counted
    simp only [List.mem_cons, List.not_mem_nil, or_false] at member
    rcases member with rfl | rfl
    · exact .inl occurs
    · exact .inr occurs
  · -- Bare text holds no match at any depth.
    intro holds
    rcases highlightMatchesBy_bare_or_counted pattern text with bare | counted
    · rw [bare] at holds
      exact absurd holds (Markup.not_holdsMatch_ofText text)
    · exact counted

/-- Without a pattern, or with a faulty one, no match is marked. -/
theorem not_holdsMatch {pattern : Text}
    (refused : pattern = [] ∨ (classify pattern).diagnostics ≠ []) (text : Text) :
    ¬ (highlightMatchesBy engine pattern text).HoldsMatch := by
  -- The engine is not asked, and the text is left as it is.
  have bare : highlightMatchesBy engine pattern text = .ofText text := by
    rw [highlightMatchesBy]
    rcases refused with rfl | flagged
    · rw [highlightBy_empty]
    · rw [highlightBy_flagged engine flagged]
  rw [bare]
  exact Markup.not_holdsMatch_ofText text

/-- The samples that are read from inputs, each with its name, given what is left of the standard
input. -/
def samplesRead : Content → List Input → List (Text × Text)
  | _, [] => []
  -- A file that holds no text is passed over.
  | unread, .file _ .undecodable :: rest => samplesRead unread rest
  | unread, .file name (.text sample) :: rest => (name, sample) :: samplesRead unread rest
  -- A standard input that holds none ends the reading, and what was read of it does not come again.
  | .undecodable, .standardInput :: _ => []
  | .text sample, .standardInput :: rest =>
    ("(standard input)".toList, sample) :: samplesRead (.text []) rest

/-- The standard input is asked for and cannot be read. -/
def ReadingStops (standardInput : Content) (inputs : List Input) : Prop :=
  standardInput = .undecodable ∧ .standardInput ∈ inputs

namespace Options

/-- Output is coloured when that is asked for, and on a terminal unless something else is. -/
def hasColours (options : Options) (toTerminal : Bool) : Bool :=
  options.colour = .always ∨ (options.colour = .auto ∧ toTerminal = true)

/-- The pane of the pattern, which always gets a line end. -/
def patternPane (options : Options) (toTerminal : Bool) : Text :=
  let markup :=
    if options.stylesPattern then (classify options.pattern).markup else .ofText options.pattern
  markup.render (options.hasColours toTerminal) ++ ['\n']

/-- The pane of a sample under a heading, which gets a line end only if it has none. -/
def samplePane (options : Options) (engine : Engine) (toTerminal hasHeadings : Bool)
    (sample : Text × Text) : Text :=
  let shown := (highlightMatchesBy engine options.pattern sample.2).render
    (options.hasColours toTerminal)
  (if hasHeadings then sample.1 ++ [':', '\n'] else []) ++ shown ++
    if ['\n'] <:+ shown then [] else ['\n']

/-- Panes of samples have headings when there is more than one input, and when operands are searched
for files. -/
def hasHeadings (options : Options) (inputs : List Input) : Bool :=
  1 < inputs.length ∨ (options.isRecursive = true ∧ options.paths ≠ [])

/-- The choice of colours is made as it is meant. -/
theorem isColoured_eq (options : Options) (toTerminal : Bool) :
    options.colour.isColoured toTerminal = options.hasColours toTerminal := by
  cases choice : options.colour <;> simp [hasColours, choice, ColourChoice.isColoured]

/-- The pane of the pattern is printed as a line, whatever it ends with. -/
theorem patternPane_eq (options : Options) (toTerminal : Bool) :
    line (((Tester.mk options.stylesPattern).patternMarkup options.pattern).render
      (options.colour.isColoured toTerminal)) = options.patternPane toTerminal := by
  rw [isColoured_eq]
  rfl

end Options

/-- A text that ends with a line end is printed as it is, and any other one as a line. -/
theorem lines_eq (content : Text) :
    lines content = content ++ if ['\n'] <:+ content then [] else ['\n'] := by
  -- The last character decides, which is a line end on its own.
  have ends : content.getLast? = some '\n' ↔ ['\n'] <:+ content := by
    rw [List.getLast?_eq_some_iff]
    exact exists_congr fun front => eq_comm
  rw [lines]
  -- A line end is added exactly where there is none.
  by_cases ended : ['\n'] <:+ content
  · rw [if_pos (ends.mpr ended), if_pos ended, List.append_nil]
  · rw [if_neg (mt ends.mp ended), if_neg ended, line]

section

variable {options : Options} {toTerminal hasHeadings : Bool} {before after : Progress}
  {inputs rest : List Input}

/-- What the reading of inputs adds to what was there before. -/
structure Adds (engine : Engine) (options : Options) (toTerminal hasHeadings : Bool)
    (before : Progress) (inputs : List Input) (after : Progress) : Prop where
  output : after.output = before.output ++
    (samplesRead before.unread inputs).flatMap (options.samplePane engine toTerminal hasHeadings)
  -- A match stays noted whatever comes behind it.
  hasMatch : after.hasMatch = true ↔ before.hasMatch = true ∨
    ∃ sample ∈ samplesRead before.unread inputs,
      (highlightMatchesBy engine options.pattern sample.2).HoldsMatch
  hasFailed : after.hasFailed = true ↔ ReadingStops before.unread inputs

variable {coloured : Bool}

/-- A run does not fail by printing. -/
@[simp] theorem hasFailed_printPane (heading sample : Text) :
    (before.printPane engine options coloured heading sample).hasFailed = before.hasFailed := by
  rw [Progress.printPane]

/-- A file that holds no text changes nothing. -/
theorem next_undecodable (ready : before.hasFailed = false) (name : Text) :
    before.next engine options coloured hasHeadings (.file name .undecodable) = before := by
  rw [Progress.next, ready]
  rfl

/-- The text of a file is a sample. -/
theorem next_file (ready : before.hasFailed = false) (name sample : Text) :
    before.next engine options coloured hasHeadings (.file name (.text sample)) =
      before.printPane engine options coloured (if hasHeadings then line (name ++ [':']) else [])
        sample := by
  -- No input has failed yet, so the file is read.
  rw [Progress.next, ready]
  rfl

/-- What is left of the standard input is a sample, and then nothing is left of it. -/
theorem next_standardInput (ready : before.hasFailed = false) {sample : Text}
    (unread : before.unread = .text sample) :
    before.next engine options coloured hasHeadings .standardInput =
      -- The standard input can be read once, and then nothing is left of it.
      { before with unread := .text [] }.printPane engine options coloured
        (if hasHeadings then line ("(standard input)".toList ++ [':']) else []) sample := by
  rw [Progress.next, ready, unread]
  rfl

/-- A standard input that holds no text makes the run fail. -/
theorem next_unreadable (ready : before.hasFailed = false)
    (unread : before.unread = .undecodable) :
    before.next engine options coloured hasHeadings .standardInput =
      { before with hasFailed := true } := by
  -- The run ends here, with nothing printed.
  rw [Progress.next, ready, unread]
  rfl

/-- A run that has failed reads nothing more. -/
theorem foldl_next_of_failed (failed : before.hasFailed = true) :
    inputs.foldl (fun done => done.next engine options coloured hasHeadings) before = before := by
  induction inputs with
  | nil => rfl
  | cons input rest ih => simpa [Progress.next, failed] using ih

/-- A sample that is printed adds its pane to the output. -/
theorem output_printPane (name sample : Text) :
    (before.printPane engine options (options.hasColours toTerminal)
      (if hasHeadings then line (name ++ [':']) else []) sample).output =
      before.output ++ options.samplePane engine toTerminal hasHeadings (name, sample) := by
  -- The heading and the line end are spelled in the same way.
  rw [Progress.printPane, Options.samplePane, lines_eq]
  simp [line]

/-- A sample that is read adds its pane in front of what the later inputs add. -/
theorem Adds.sample {name sample : Text} (start : Progress)
    (sameOutput : start.output = before.output) (sameMatch : start.hasMatch = before.hasMatch)
    (read : samplesRead before.unread inputs = (name, sample) :: samplesRead start.unread rest)
    (stops : ReadingStops before.unread inputs ↔ ReadingStops start.unread rest)
    (adds : Adds engine options toTerminal hasHeadings
      (start.printPane engine options (options.hasColours toTerminal)
        (if hasHeadings then line (name ++ [':']) else []) sample) rest after) :
    Adds engine options toTerminal hasHeadings before inputs after where
  output := by
    -- Printing does not touch what is left of the standard input.
    rw [adds.output, read, output_printPane, sameOutput, List.flatMap_cons, List.append_assoc]
    rfl
  hasMatch := by
    -- A sample counts as a match when its pane holds one.
    rw [adds.hasMatch, read]
    simp [Progress.printPane, countSpans_pos_iff, or_assoc, sameMatch]
  hasFailed := adds.hasFailed.trans stops.symm

/-- Inputs that are read one after the other add their panes in order. -/
theorem adds_foldl_next (ready : before.hasFailed = false) :
    Adds engine options toTerminal hasHeadings before inputs
      (inputs.foldl (fun done => done.next engine options (options.hasColours toTerminal)
        hasHeadings) before) := by
  -- The invariant of the run is that no input has failed, and it adds what was not printed yet.
  induction inputs generalizing before with
  | nil => constructor <;> simp [samplesRead, ReadingStops, ready]
  | cons input rest ih =>
    rw [List.foldl_cons]
    cases input with
    | file name content =>
      cases content with
      | undecodable =>
        -- A file that holds no text is left out.
        have behind := ih ready
        rw [next_undecodable ready name]
        exact ⟨behind.output, behind.hasMatch, by simpa [ReadingStops] using behind.hasFailed⟩
      | text sample =>
        rw [next_file ready name sample]
        -- The sample is printed in front of those of the later inputs.
        refine .sample before rfl rfl rfl (by simp [ReadingStops]) (ih ?_)
        rwa [hasFailed_printPane]
    | standardInput =>
      cases unread : before.unread with
      | undecodable =>
        -- Nothing is read any more, so the later inputs do not matter.
        rw [next_unreadable ready unread, foldl_next_of_failed rfl]
        constructor <;> simp [samplesRead, ReadingStops, unread]
      | text sample =>
        rw [next_standardInput ready unread]
        -- The standard input is a sample under its own heading, and later it is empty.
        have read : samplesRead before.unread (.standardInput :: rest) =
            ("(standard input)".toList, sample) :: samplesRead (.text []) rest := by
          rw [unread, samplesRead]
        have stops : ReadingStops before.unread (.standardInput :: rest) ↔
            ReadingStops (.text []) rest := by
          simp [ReadingStops, unread]
        refine .sample { before with unread := .text [] } rfl rfl read stops (ih ?_)
        rwa [hasFailed_printPane]

end

/-- What a run leaves behind that reads samples from inputs. -/
structure PrintsSamples (engine : Engine) (options : Options) (standardInput : Content)
    (toTerminal : Bool) (inputs : List Input) (outcome : Outcome) : Prop where
  /-- The panes are printed in order, that of the pattern first where it is wanted. -/
  output : outcome.output =
    (if options.panes = .samples then [] else options.patternPane toTerminal) ++
      (samplesRead standardInput inputs).flatMap
        (options.samplePane engine toTerminal (options.hasHeadings inputs))
  /-- A standard input that cannot be read ends the run, behind the panes that are there. -/
  stopped : ReadingStops standardInput inputs → outcome.status = 2
  /-- A match in any sample makes the run succeed. -/
  matched : ¬ ReadingStops standardInput inputs → (outcome.status = 0 ↔
    ∃ sample ∈ samplesRead standardInput inputs,
      (highlightMatchesBy engine options.pattern sample.2).HoldsMatch)
  /-- Without a match the run does not succeed. -/
  unmatched : ¬ ReadingStops standardInput inputs → outcome.status ≠ 0 → outcome.status = 1
  /-- Nothing matches an empty pattern or one with faults. -/
  refused : options.pattern = [] ∨ (classify options.pattern).diagnostics ≠ [] →
    outcome.status ≠ 0

/-- A run that reads samples starts with the pane of the pattern and goes through the inputs. -/
theorem exists_adds {options : Options} (samples : options.panes ≠ .pattern)
    (find : Text → Option Place) (standardInput : Content) (toTerminal : Bool) :
    ∃ after, Adds engine options toTerminal
        (options.hasHeadings (resolveInputs find options.isRecursive options.paths))
        ⟨if options.panes = .samples then [] else options.patternPane toTerminal, false,
          standardInput, false⟩ (resolveInputs find options.isRecursive options.paths) after ∧
      (runWith engine options find standardInput toTerminal).output = after.output ∧
      (runWith engine options find standardInput toTerminal).status =
        if after.hasFailed then 2 else if after.hasMatch then 0 else 1 := by
  refine ⟨_, adds_foldl_next rfl, ?_⟩
  -- Headings are printed in the same cases.
  have headings (inputs : List Input) : options.hasHeadings inputs =
      (decide (1 < inputs.length) || (options.isRecursive && options.paths != [])) := by
    rw [Bool.eq_iff_iff]
    simp [Options.hasHeadings]
  -- The panes and the colours are those of the specification.
  rw [headings, ← options.patternPane_eq, ← options.isColoured_eq, runWith]
  split
  · contradiction
  · -- Only a failure adds something of its own, which goes to the errors.
    dsimp only
    generalize List.foldl _ _ _ = progress
    cases progress.hasFailed with
    | true => exact ⟨rfl, rfl⟩
    | false => exact ⟨rfl, rfl⟩

/-- What a run prints and returns is determined pane by pane, whatever the engine is: without samples
nothing is read, and the verdict on the pattern counts; otherwise the inputs are taken in order. -/
theorem runWith_panes (engine : Engine) (options : Options) (find : Text → Option Place)
    (standardInput : Content) (toTerminal : Bool) :
    (options.panes = .pattern →
      (runWith engine options find standardInput toTerminal).output =
        options.patternPane toTerminal ∧
      (runWith engine options find standardInput toTerminal).status =
        (if (classify options.pattern).diagnostics = [] then 0 else 1) ∧
      ∀ otherFind otherInput, runWith engine options otherFind otherInput toTerminal =
        runWith engine options find standardInput toTerminal) ∧
    (options.panes ≠ .pattern →
      PrintsSamples engine options standardInput toTerminal
        (resolveInputs find options.isRecursive options.paths)
        (runWith engine options find standardInput toTerminal)) := by
  constructor
  · -- Only the pattern is looked at, and the verdict on it is the status.
    intro only
    simp only [runWith, only, Classification.isValid]
    exact ⟨options.patternPane_eq toTerminal, by simp only [List.isEmpty_iff], fun _ _ => trivial⟩
  · intro samples
    obtain ⟨after, adds, output, status⟩ := exists_adds samples find standardInput toTerminal
    generalize resolveInputs find options.isRecursive options.paths = inputs at adds ⊢
    generalize runWith engine options find standardInput toTerminal = outcome at output status ⊢
    -- Nothing was matched before the first input.
    have matched : after.hasMatch = true ↔ ∃ sample ∈ samplesRead standardInput inputs,
        (highlightMatchesBy engine options.pattern sample.2).HoldsMatch := by
      rw [adds.hasMatch]
      simp
    -- As long as nothing fails the status is about matches.
    have verdict (goes : ¬ ReadingStops standardInput inputs) :
        outcome.status = if after.hasMatch then 0 else 1 :=
      status.trans (if_neg fun fails => goes (adds.hasFailed.mp fails))
    -- A standard input that holds no text makes the status that of a failure.
    have stopped (stops : ReadingStops standardInput inputs) : outcome.status = 2 :=
      status.trans (if_pos (adds.hasFailed.mpr stops))
    refine ⟨output.trans adds.output, stopped, ?_, ?_, ?_⟩
    · -- The status is zero when some sample holds a match.
      intro goes
      rw [verdict goes, ← matched]
      cases after.hasMatch <;> simp
    · -- And it is one when none does.
      intro goes failed
      rw [verdict goes] at failed ⊢
      cases found : after.hasMatch <;> simp [found] at failed ⊢
    · -- A pattern that is refused marks nothing, so there is no match to be found.
      intro refused
      by_cases stops : ReadingStops standardInput inputs
      · rw [stopped stops]
        decide
      · have none : after.hasMatch ≠ true := by
          rw [ne_eq, matched]
          rintro ⟨sample, _, holds⟩
          exact not_holdsMatch refused sample.2 holds
        rw [verdict stops, if_neg none]
        decide

end RegexLens
