import RegexLens.Highlight

/-! The two panes of a tester: the pattern, and the sample text with its matches. -/

namespace RegexLens

/-- New contents for one of the panes. -/
inductive PaneUpdate
  /-- The pane of the pattern. -/
  | pattern (markup : Markup)
  /-- The pane of the sample text. -/
  | sample (markup : Markup)
deriving DecidableEq, Repr

/-- The settings of a tester, which keeps nothing else between two updates. -/
structure Tester where
  /-- Whether the pane of the pattern shows its styles. -/
  stylesPattern : Bool
deriving DecidableEq, Repr

namespace Tester

/-- A tester with its usual settings. -/
def standard : Tester :=
  ⟨true⟩

/-- The contents of the pattern's pane. -/
def patternMarkup (tester : Tester) (pattern : Text) : Markup :=
  if tester.stylesPattern then (classify pattern).markup else .ofText pattern

/-- The update of the pattern's pane. -/
def patternUpdate (tester : Tester) (pattern : Text) : PaneUpdate :=
  .pattern (tester.patternMarkup pattern)

/-- The update of the sample's pane, in which no setting has a say. -/
def sampleUpdate (_ : Tester) (pattern text : Text) : PaneUpdate :=
  .sample (highlightMatches pattern text)

/-- The updates after a change of pattern or text, the pattern's pane first. -/
def refresh (tester : Tester) (pattern text : Text) : List PaneUpdate :=
  [tester.patternUpdate pattern, tester.sampleUpdate pattern text]

end Tester

end RegexLens
