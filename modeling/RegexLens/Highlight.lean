import RegexLens.Host.Matcher
import RegexLens.Markup.Ansi
import RegexLens.Pattern.Classification

/-! Marking the matches of a pattern in a sample text. -/

namespace RegexLens

/-- Why matches cannot be marked. -/
inductive HighlightFailure
  /-- There is no pattern yet. -/
  | emptyPattern
  /-- The pattern has faults. -/
  | invalidPattern (diagnostics : List Diagnostic)
  /-- The host engine rejects the pattern. -/
  | rejected (cause : Rejection)
  /-- The host engine gave up the search. -/
  | gaveUp
deriving DecidableEq, Repr

namespace HighlightFailure

/-- The failure in one line. -/
def message : HighlightFailure → Text
  | emptyPattern => "empty pattern".toList
  | invalidPattern diagnostics =>
    "pattern has ".toList ++ decimalDigits diagnostics.length ++ " syntax error(s)".toList
  | rejected _ => "pattern rejected by the regex engine".toList
  | gaveUp => "regex engine failed while matching".toList

end HighlightFailure

/-- The pattern without a last alternator, behind which an alternative is still being written. -/
def sansTrailingAlternator : Text → Text
  | [] => []
  | ['|'] => []
  | '\\' :: escaped :: rest => '\\' :: escaped :: sansTrailingAlternator rest
  | symbol :: rest => symbol :: sansTrailingAlternator rest

/-- The style of a match by the number of matches in front of it. -/
def matchStyle (number : Nat) : Style :=
  if number % 2 = 0 then .matched else .matchedAlt

/-- Marks spans of a text behind an offset, given the number of spans in front of it. -/
def markFrom (markup : Markup) (text : Text) (offset number : Nat) : List Span → Markup
  | [] => markup.pushText (slice text offset (byteSize text))
  | span :: rest =>
    -- An empty match becomes an empty span and takes its turn.
    let gap := markup.pushText (slice text offset span.start)
    let marked := gap.pushSpan (matchStyle number) (slice text span.start span.stop)
    markFrom marked text span.stop (number + 1) rest

/-- Marks spans of a text in turn with the two styles of matches. -/
def markSpans (text : Text) (spans : List Span) : Markup :=
  markFrom .nil text 0 0 spans

/-- What an engine does: it rejects a pattern, or it searches texts unless it gives up. -/
abbrev Engine := Text → Except Rejection (Text → Option (List Span))

/-- The engine that matches patterns. -/
def hostEngine : Engine := fun pattern =>
  (Matcher.ofPattern pattern).map Matcher.findAll

/-- Marks every match that an engine finds, or says why that cannot be done. -/
def highlightBy (engine : Engine) (pattern text : Text) : Except HighlightFailure Markup :=
  if pattern = [] then .error .emptyPattern
  else
    let classification := classify pattern
    if !classification.isValid then .error (.invalidPattern classification.diagnostics)
    else
      -- The engine is asked only about patterns without faults.
      match engine (sansTrailingAlternator pattern) with
      | .error cause => .error (.rejected cause)
      | .ok search =>
        match search text with
        | none => .error .gaveUp
        | some spans => .ok (markSpans text spans)

/-- Marks every match that an engine finds in a text, which stays unmarked when that cannot be
done. -/
def highlightMatchesBy (engine : Engine) (pattern text : Text) : Markup :=
  match highlightBy engine pattern text with
  | .ok markup => markup
  | .error _ => .ofText text

/-- Marks every match of a pattern in a text, or says why that cannot be done. -/
def highlight (pattern text : Text) : Except HighlightFailure Markup :=
  highlightBy hostEngine pattern text

/-- Marks every match of a pattern in a text, which stays unmarked when that cannot be done. -/
def highlightMatches (pattern text : Text) : Markup :=
  highlightMatchesBy hostEngine pattern text

end RegexLens
