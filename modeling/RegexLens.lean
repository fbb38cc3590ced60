import RegexLens.Main
import RegexLens.Proofs.Pattern.ClassReading
import RegexLens.Proofs.Pattern.Tokens
import RegexLens.Proofs.Pattern.Quantifiers
import RegexLens.Proofs.Pattern.Grammar
import RegexLens.Proofs.Pattern.TokenReading
import RegexLens.Proofs.Pattern.Acceptance
import RegexLens.Proofs.Markup.Spans
import RegexLens.Proofs.Pattern.ErrorSpans
import RegexLens.Proofs.Host.ClassForm
import RegexLens.Proofs.Pattern.ClassSpans
import RegexLens.Proofs.Pattern.ClassRanges
import RegexLens.Proofs.Host.ClassTranslation
import RegexLens.Proofs.Pattern.References
import RegexLens.Proofs.Host.Spelling
import RegexLens.Proofs.Pattern.Numbered
import RegexLens.Proofs.Host.TreeSpelling
import RegexLens.Proofs.Host.TreeReading
import RegexLens.Proofs.Host.BoundaryMatching
import RegexLens.Proofs.Host.Translation
import RegexLens.Proofs.Pattern.ClassExtent
import RegexLens.Proofs.Pattern.Lossless
import RegexLens.Proofs.Markup.Growth
import RegexLens.Proofs.Pattern.Progress
import RegexLens.Proofs.Pattern.NumberReading
import RegexLens.Proofs.Host.NumberTranslation
import RegexLens.Proofs.Pattern.Brackets
import RegexLens.Proofs.Pattern.Nesting
import RegexLens.Proofs.Pattern.Rescanning
import RegexLens.Proofs.Pattern.TrailingAlternator
import RegexLens.Proofs.Host.HostSyntax
import RegexLens.Proofs.Host.WellFormed
import RegexLens.Proofs.Host.Limits
import RegexLens.Proofs.Host.Hollow
import RegexLens.Proofs.Host.Rejection
import RegexLens.Proofs.Pattern.Segmentation
import RegexLens.Proofs.Pattern.PendingAlternative
import RegexLens.Proofs.Pattern.Verdicts
import RegexLens.Proofs.Host.Positions
import RegexLens.Proofs.Markup.TagDocument
import RegexLens.Proofs.Markup.TagReading
import RegexLens.Proofs.Markup.OuterLevel
import RegexLens.Proofs.MatchMarking
import RegexLens.Proofs.CommandLine.Resolution
import RegexLens.Proofs.CommandLine.Panes
import RegexLens.Proofs.Markup.Terminal
import RegexLens.Proofs.Markup.History
import RegexLens.Proofs.Pattern.TrailingBar
import RegexLens.Proofs.Pattern.IntervalVerdicts
import RegexLens.Proofs.Pattern.Stability
import RegexLens.Proofs.CommandLine.Arguments
import RegexLens.Proofs.Host.EscapeCodes
import RegexLens.Proofs.Host.FaultCopying
