import Mathlib.Tactic
import RegexLens.Highlight
import RegexLens.Proofs.Host.Positions
import RegexLens.Proofs.Markup.OuterLevel

/-! Marking matches changes no text, and the marked stretches are those that the host has found. -/

namespace RegexLens

/-- The gaps around the spans of a text that are not empty, with their offsets. -/
def gaps (text : Text) (offset : Nat) (spans : List Span) : List (Nat × Text) :=
  let starts := offset :: spans.map Span.stop
  let stops := spans.map Span.start ++ [byteSize text]
  ((starts.zip stops).filter fun gap => gap.1 < gap.2).map fun gap =>
    (gap.1, slice text gap.1 gap.2)

/-- The gaps are the one in front of the first span and those behind it. -/
theorem gaps_cons (text : Text) (offset : Nat) (span : Span) (rest : List Span) :
    gaps text offset (span :: rest) =
      (if offset < span.start then [(offset, slice text offset span.start)] else []) ++
        gaps text span.stop rest := by
  -- The gap in front of the first span is kept if it is not empty.
  by_cases gap : offset < span.start
  · simp [gaps, gap]
  · simp [gaps, gap]

/-- What marking makes of a span, given the number of spans in front of it. -/
def markedSpan (text : Text) (span : Span) (number : Nat) : Nat × Style × Markup :=
  (span.start, if number % 2 = 0 then .matched else .matchedAlt,
    .text (slice text span.start span.stop) .nil)

/-- Markup of a text in which the given spans are marked in turn and nothing else is. -/
structure Markup.Marks (markup : Markup) (text : Text) (spans : List Span) : Prop where
  plainText : markup.plainText = text
  -- Each span holds one text, so that there are no spans below the outermost level.
  outerSpans : markup.outerSpans 0 =
    spans.zipIdx.map fun entry => markedSpan text entry.1 entry.2
  outerTexts : markup.outerTexts 0 = gaps text 0 spans

/-- The spans of a text that are marked in markup. -/
def Markup.markedSpans (markup : Markup) : List Span :=
  (markup.outerSpans 0).map fun (start, _, inner) =>
    ⟨start, start + byteSize inner.plainText⟩

/-- Spans that are well placed behind an offset. -/
structure WellPlacedFrom (text : Text) (offset : Nat) (spans : List Span) : Prop where
  onBoundary : OnBoundary text offset
  placed : WellPlaced text spans
  behind : ∀ span ∈ spans, offset ≤ span.start

namespace WellPlacedFrom

variable {text : Text} {offset : Nat} {span : Span} {rest spans : List Span}

/-- Well placed spans are behind the start of the text. -/
theorem ofWellPlaced (placed : WellPlaced text spans) : WellPlacedFrom text 0 spans :=
  ⟨onBoundary_zero text, placed, fun span _ => Nat.zero_le span.start⟩

/-- The spans behind the first one are well placed behind its end. -/
theorem tail (placed : WellPlacedFrom text offset (span :: rest)) :
    WellPlacedFrom text span.stop rest := by
  -- The order of the spans says that the others start behind the end of the first one.
  obtain ⟨-, ⟨inside, ordered⟩, -⟩ := placed
  obtain ⟨⟨-, stop, -⟩, others⟩ := List.forall_mem_cons.mp inside
  obtain ⟨behind, ordered⟩ := List.pairwise_cons.mp ordered
  exact ⟨stop, ⟨others, ordered⟩, behind⟩

/-- The first span is where the text can be cut, and it does not start in front of the offset. -/
theorem head (placed : WellPlacedFrom text offset (span :: rest)) :
    OnBoundary text span.start ∧ OnBoundary text span.stop ∧
      offset ≤ span.start ∧ span.start ≤ span.stop := by
  obtain ⟨start, stop, order⟩ := placed.placed.inside span List.mem_cons_self
  exact ⟨start, stop, placed.behind span List.mem_cons_self, order⟩

/-- The gap in front of a span is as long as the distance from the offset to the span. -/
theorem byteSize_gap (placed : WellPlacedFrom text offset (span :: rest)) :
    byteSize (slice text offset span.start) = span.start - offset :=
  byteSize_slice placed.onBoundary placed.head.1 placed.head.2.2.1

/-- The text of a span is as long as the span. -/
theorem byteSize_span (placed : WellPlacedFrom text offset (span :: rest)) :
    byteSize (slice text span.start span.stop) = span.stop - span.start :=
  byteSize_slice placed.head.1 placed.head.2.1 placed.head.2.2.2

end WellPlacedFrom

/-- Markup that holds a text up to an offset, and to which a span or the start comes last. -/
structure Markup.Reaches (markup : Markup) (offset : Nat) : Prop where
  size : byteSize markup.plainText = offset
  settled : markup.endsInText = false

namespace Markup

variable {markup : Markup} {text : Text} {offset : Nat} {span : Span} {rest spans : List Span}

/-- The markup with one more gap and one more marked span. -/
def marked (markup : Markup) (text : Text) (offset number : Nat) (span : Span) : Markup :=
  (markup.pushText (slice text offset span.start)).pushSpan (matchStyle number)
    (slice text span.start span.stop)

/-- Marking a span reaches its end. -/
theorem Reaches.marked (reaches : markup.Reaches offset)
    (placed : WellPlacedFrom text offset (span :: rest)) (number : Nat) :
    (markup.marked text offset number span).Reaches span.stop := by
  obtain ⟨-, -, order, more⟩ := placed.head
  refine ⟨?_, endsInText_pushNested _ _ _⟩
  -- The sizes of the gap and of the span add up to the end of the span.
  rw [Markup.marked, plainText_pushSpan, plainText_pushText, byteSize_append, byteSize_append,
    reaches.size, placed.byteSize_gap, placed.byteSize_span]
  omega

/-- Marking a span adds one outermost span, at the place where the span is in the text. -/
theorem Reaches.outerSpans_marked (reaches : markup.Reaches offset)
    (placed : WellPlacedFrom text offset (span :: rest)) (number : Nat) :
    (markup.marked text offset number span).outerSpans 0 =
      markup.outerSpans 0 ++ [markedSpan text span number] := by
  obtain ⟨-, -, order, -⟩ := placed.head
  -- The markup reaches the offset, and the gap reaches from there to the span.
  have place : 0 + (offset + (span.start - offset)) = span.start := by omega
  rw [Markup.marked, pushSpan, outerSpans_pushNested, outerSpans_pushText, plainText_pushText,
    byteSize_append, reaches.size, placed.byteSize_gap, place]
  rfl

/-- Text in front of a span that is to be marked adds the gap if there is one. -/
theorem Reaches.outerTexts_pushText (reaches : markup.Reaches offset)
    (first : OnBoundary text offset) {stop : Nat} (second : OnBoundary text stop)
    (order : offset ≤ stop) :
    (markup.pushText (slice text offset stop)).outerTexts 0 =
      markup.outerTexts 0 ++ if offset < stop then [(offset, slice text offset stop)] else [] := by
  rw [Markup.outerTexts_pushText reaches.settled, reaches.size, Nat.zero_add]
  -- A gap is there when the span does not begin where the last one has ended.
  by_cases gap : offset < stop
  · have some : slice text offset stop ≠ [] := by
      simpa [gap] using slice_eq_nil_iff first second order
    rw [if_neg some, if_pos gap]
  · rw [if_pos ((slice_eq_nil_iff first second order).mpr gap), if_neg gap]

/-- Marking spans from an offset on adds the text behind that offset. -/
theorem plainText_markFrom (placed : WellPlacedFrom text offset spans) (markup : Markup)
    (number : Nat) :
    (markFrom markup text offset number spans).plainText =
      markup.plainText ++ slice text offset (byteSize text) := by
  -- The gap, the span and what is behind it make up the text behind the offset.
  -- The markup, the offset and the number of the span change from one span to the next.
  induction spans generalizing markup offset number with
  | nil => exact plainText_pushText markup _
  | cons span rest ih =>
    obtain ⟨start, stop, order, more⟩ := placed.head
    have ended := stop.le_byteSize
    have whole := onBoundary_byteSize text
    show (markFrom (markup.marked text offset number span) text span.stop (number + 1)
      rest).plainText = _
    rw [ih placed.tail, Markup.marked, plainText_pushSpan, plainText_pushText, List.append_assoc,
      List.append_assoc, slice_append_slice start stop whole more ended,
      slice_append_slice placed.onBoundary start whole order (Nat.le_trans more ended)]

/-- Marking spans adds an outermost span for each of them. -/
theorem Reaches.outerSpans_markFrom (reaches : markup.Reaches offset)
    (placed : WellPlacedFrom text offset spans) (number : Nat) :
    (markFrom markup text offset number spans).outerSpans 0 =
      markup.outerSpans 0 ++
        (spans.zipIdx number).map fun entry => markedSpan text entry.1 entry.2 := by
  -- The markup so far ends where the last span did, so the next offset is right.
  induction spans generalizing markup offset number with
  | nil => simp [markFrom, outerSpans_pushText]
  | cons span rest ih =>
    show (markFrom (markup.marked text offset number span) text span.stop (number + 1)
      rest).outerSpans 0 = _
    rw [ih (reaches.marked placed number) placed.tail, reaches.outerSpans_marked placed]
    simp

/-- Marking spans adds an outermost text for each gap. -/
theorem Reaches.outerTexts_markFrom (reaches : markup.Reaches offset)
    (placed : WellPlacedFrom text offset spans) (number : Nat) :
    (markFrom markup text offset number spans).outerTexts 0 =
      markup.outerTexts 0 ++ gaps text offset spans := by
  -- The invariant is that the markup reaches the offset, so the last gap is up to date.
  induction spans generalizing markup offset number with
  | nil =>
    have order := placed.onBoundary.le_byteSize
    -- What is left is the gap behind the last span.
    rw [markFrom, reaches.outerTexts_pushText placed.onBoundary (onBoundary_byteSize text) order]
    by_cases gap : offset < byteSize text
    · simp [gaps, gap]
    · simp [gaps, gap]
  | cons span rest ih =>
    obtain ⟨start, -, order, -⟩ := placed.head
    show (markFrom (markup.marked text offset number span) text span.stop (number + 1)
      rest).outerTexts 0 = _
    -- The span itself is no text, and the next gap begins at its end.
    rw [ih (reaches.marked placed number) placed.tail, Markup.marked, pushSpan,
      outerTexts_pushNested, reaches.outerTexts_pushText placed.onBoundary start order, gaps_cons,
      List.append_assoc]

end Markup

section Marking

variable {markup : Markup} {text : Text} {spans : List Span}

/-- Spans that are well placed are marked, and the rest of the text is kept. -/
theorem marks_markSpans (placed : WellPlaced text spans) :
    (markSpans text spans).Marks text spans := by
  have start := WellPlacedFrom.ofWellPlaced placed
  have empty : Markup.nil.Reaches 0 := ⟨rfl, rfl⟩
  -- No span has been marked yet, and nothing of the text has been written.
  refine ⟨?_, ?_, ?_⟩
  · rw [markSpans, Markup.plainText_markFrom start, slice_whole]
    rfl
  · exact empty.outerSpans_markFrom start 0
  · exact empty.outerTexts_markFrom start 0

/-- An empty match takes its turn, and a character of two bytes is not torn apart. -/
example : markSpans "aéb".toList [⟨0, 0⟩, ⟨1, 3⟩] =
    .span .matched (.text [] .nil) (.text ['a'] (.span .matchedAlt (.text ['é'] .nil)
      (.text ['b'] .nil))) := by
  decide

/-- The marked spans are read back from the markup. -/
theorem Markup.Marks.markedSpans_eq (marks : markup.Marks text spans)
    (placed : WellPlaced text spans) : markup.markedSpans = spans := by
  rw [Markup.markedSpans, marks.outerSpans, List.map_map]
  -- Each entry gives its own span back, whatever its number is.
  have each : ∀ entry ∈ spans.zipIdx, (((fun (start, _, inner) =>
      ⟨start, start + byteSize inner.plainText⟩) : Nat × Style × Markup → Span) ∘
        fun entry => markedSpan text entry.1 entry.2) entry = entry.1 := by
    intro entry member
    obtain ⟨start, stop, order⟩ := placed.inside entry.1 (List.fst_mem_of_mem_zipIdx member)
    have size := byteSize_slice start stop order
    have ended : entry.1.start + (entry.1.stop - entry.1.start) = entry.1.stop := by omega
    simp [markedSpan, Markup.plainText, size, ended]
  rw [List.map_congr_left each, List.zipIdx_map_fst]

/-- As many spans are counted as are marked, wherever they are placed. -/
theorem countSpans_markFrom (markup : Markup) (text : Text) (offset number : Nat)
    (spans : List Span) :
    (markFrom markup text offset number spans).countSpans [.matched, .matchedAlt] =
      markup.countSpans [.matched, .matchedAlt] + spans.length := by
  simp only [Markup.countSpans_eq_countP _ _ 0]
  -- Texts are not counted, and each span that is added counts once.
  induction spans generalizing markup offset number with
  | nil => rw [markFrom, Markup.outerSpans_pushText, List.length_nil, Nat.add_zero]
  | cons span rest ih =>
    -- Both styles of matches are counted, so the one whose turn it is counts as well.
    have counted : [Style.matched, .matchedAlt].contains (matchStyle number) = true := by
      unfold matchStyle
      split <;> rfl
    rw [markFrom, ih, Markup.pushSpan, Markup.outerSpans_pushNested, Markup.outerSpans_pushText,
      List.countP_append, List.countP_singleton, if_pos counted, List.length_cons]
    omega

end Marking

/-- An engine all of whose matches are well placed. -/
def Engine.Orderly (engine : Engine) : Prop :=
  ∀ pattern search, engine pattern = .ok search →
    ∀ text spans, search text = some spans → WellPlaced text spans

/-- The host finds its matches in order. -/
theorem hostEngine_orderly : hostEngine.Orderly := by
  intro pattern search prepared text spans found
  -- The engine has found something only when the host has accepted the pattern.
  cases matcher : Matcher.ofPattern pattern with
  | error cause => simp [hostEngine, matcher, Except.map] at prepared
  | ok matcher =>
    obtain rfl := by simpa [hostEngine, matcher, Except.map] using prepared
    exact Matcher.findAll_wellPlaced found

/-- Marking succeeds for a pattern without faults in which an engine finds spans of the text. -/
theorem highlightBy_eq_ok_iff {engine : Engine} {pattern text : Text} {markup : Markup} :
    highlightBy engine pattern text = .ok markup ↔
      pattern ≠ [] ∧ (classify pattern).diagnostics = [] ∧
        ∃ search spans, engine (sansTrailingAlternator pattern) = .ok search ∧
          search text = some spans ∧ markSpans text spans = markup := by
  -- The two reasons to refuse come first, in the order in which they are looked for.
  by_cases empty : pattern = []
  · simp [highlightBy, empty]
  · by_cases clean : (classify pattern).diagnostics = []
    · -- What is left depends on what the engine says.
      cases prepared : engine (sansTrailingAlternator pattern) with
      | error cause => simp [highlightBy, empty, Classification.isValid, clean, prepared]
      | ok search =>
        cases found : search text <;>
          simp [highlightBy, empty, Classification.isValid, clean, prepared, found]
    · simp [highlightBy, empty, Classification.isValid, clean]

/-- An empty pattern is refused without asking the engine. -/
theorem highlightBy_empty (engine : Engine) (text : Text) :
    highlightBy engine [] text = .error .emptyPattern :=
  rfl

/-- A pattern with faults is refused without asking the engine. -/
theorem highlightBy_flagged (engine : Engine) {pattern : Text}
    (flagged : (classify pattern).diagnostics ≠ []) (text : Text) :
    highlightBy engine pattern text = .error (.invalidPattern (classify pattern).diagnostics) := by
  -- The empty pattern is without faults, so a pattern with faults is refused for them.
  have faultless : (classify []).diagnostics = [] := by cbv
  have solid : pattern ≠ [] := by
    rintro rfl
    exact flagged faultless
  simp [highlightBy, solid, Classification.isValid, flagged]

/-- A text whose matches cannot be marked is one text node, or none when it is empty. -/
theorem highlightMatchesBy_of_error {engine : Engine} {pattern text : Text}
    {failure : HighlightFailure} (fails : highlightBy engine pattern text = .error failure) :
    highlightMatchesBy engine pattern text = if text = [] then .nil else .text text .nil := by
  rw [highlightMatchesBy, fails]
  rfl

/-- Whether or not the matches can be marked, every character stays. -/
theorem plainText_highlightMatchesBy {engine : Engine} (orderly : engine.Orderly)
    (pattern text : Text) : (highlightMatchesBy engine pattern text).plainText = text := by
  -- Either the text is left as it is, or it is marked at spans that are well placed.
  cases result : highlightBy engine pattern text with
  | error failure =>
    rw [highlightMatchesBy_of_error result]
    split
    · rename_i empty
      exact empty.symm
    · exact List.append_nil text
  | ok markup =>
    obtain ⟨-, -, search, spans, prepared, found, rfl⟩ := highlightBy_eq_ok_iff.mp result
    have placed := orderly _ search prepared text spans found
    rw [highlightMatchesBy, result]
    exact (marks_markSpans placed).plainText

/-- Marking is faithful: the text is kept, and the marked spans are the matches that the engine has
found, each in its place and in its turn, with nothing but gaps around them. Without a pattern or
with a faulty one the text is left as it is, and the engine is not asked. -/
theorem highlight_faithful (pattern text : Text) :
    (highlightMatches pattern text).plainText = text ∧
    highlight pattern text = highlightBy hostEngine pattern text ∧ hostEngine.Orderly ∧
    (∀ (engine : Engine) (markup : Markup), highlightBy engine pattern text = .ok markup →
      ∃ search spans, engine (sansTrailingAlternator pattern) = .ok search ∧
        search text = some spans ∧
        (WellPlaced text spans →
          markup.Marks text spans ∧ markup.markedSpans = spans ∧
            markup.countSpans [.matched, .matchedAlt] = spans.length)) ∧
    (pattern ≠ [] → (classify pattern).diagnostics = [] → ∀ (engine : Engine) search spans,
      engine (sansTrailingAlternator pattern) = .ok search → search text = some spans →
        ∃ markup, highlightBy engine pattern text = .ok markup) ∧
    (pattern = [] →
      (∀ engine, highlightBy engine pattern text = .error .emptyPattern) ∧
        highlightMatches pattern text = if text = [] then .nil else .text text .nil) ∧
    ((classify pattern).diagnostics ≠ [] →
      (∀ engine, highlightBy engine pattern text =
        .error (.invalidPattern (classify pattern).diagnostics)) ∧
        highlightMatches pattern text = if text = [] then .nil else .text text .nil) := by
  refine ⟨plainText_highlightMatchesBy hostEngine_orderly pattern text, rfl, hostEngine_orderly,
    ?_, ?_, ?_, ?_⟩
  · -- What was marked was marked at the spans that the engine has found.
    intro engine markup succeeds
    obtain ⟨-, -, search, spans, prepared, found, rfl⟩ := highlightBy_eq_ok_iff.mp succeeds
    refine ⟨search, spans, prepared, found, ?_⟩
    intro placed
    have marks := marks_markSpans placed
    refine ⟨marks, marks.markedSpans_eq placed, ?_⟩
    exact (countSpans_markFrom .nil text 0 0 spans).trans (Nat.zero_add spans.length)
  · -- None of the reasons to refuse is there.
    intro solid clean engine search spans prepared found
    exact ⟨_, highlightBy_eq_ok_iff.mpr ⟨solid, clean, search, spans, prepared, found, rfl⟩⟩
  · -- Without a pattern the engine is not asked.
    rintro rfl
    exact ⟨fun engine => highlightBy_empty engine text,
      highlightMatchesBy_of_error (highlightBy_empty hostEngine text)⟩
  · -- Nor is it with faults.
    intro flagged
    exact ⟨fun engine => highlightBy_flagged engine flagged text,
      highlightMatchesBy_of_error (highlightBy_flagged hostEngine flagged text)⟩

/-- An empty match at the start and two matches side by side, of a letter that takes two bytes. -/
theorem highlight_faithful_adjacent :
    let pattern : Text := ['é', '|']
    let text : Text := ['a', 'é', 'é']
    let spans : List Span := [⟨0, 0⟩, ⟨1, 3⟩, ⟨3, 5⟩]
    let engine : Engine := fun _ => .ok fun _ => some spans
    pattern ≠ [] ∧ (classify pattern).diagnostics = [] ∧ WellPlaced text spans ∧
      ∃ markup, highlightBy engine pattern text = .ok markup ∧ markup.Marks text spans ∧
        markup.markedSpans = spans ∧ markup.countSpans [.matched, .matchedAlt] = 3 := by
  intro pattern text spans engine
  have solid : pattern ≠ [] := List.cons_ne_nil _ _
  have clean : (classify pattern).diagnostics = [] := by cbv
  -- The spans are put together from the last one to the first.
  have placed : WellPlaced text spans := by
    have start : OnBoundary text 0 := onBoundary_zero text
    have middle : OnBoundary text 1 := ⟨['a'], ['é', 'é'], rfl, rfl⟩
    have later : OnBoundary text 3 := ⟨['a', 'é'], ['é'], rfl, rfl⟩
    have ended : OnBoundary text 5 := onBoundary_byteSize text
    have empty : WellPlaced text [] := ⟨by simp, .nil⟩
    have last : WellPlaced text [⟨3, 5⟩] := empty.cons later ended (by decide) (by simp)
    have both : WellPlaced text [⟨1, 3⟩, ⟨3, 5⟩] := last.cons middle later (by decide) (by simp)
    exact both.cons start start (by decide) (by simp)
  -- The engine is known, so its search and its spans are those given.
  obtain ⟨-, -, -, right, succeeds, -, -⟩ := highlight_faithful pattern text
  obtain ⟨markup, marked⟩ := succeeds solid clean engine _ spans rfl rfl
  obtain ⟨search, found, prepared, given, marks⟩ := right engine markup marked
  obtain rfl := Except.ok.inj prepared
  obtain rfl := Option.some.inj given
  obtain ⟨shown, read, count⟩ := marks placed
  exact ⟨solid, clean, placed, markup, marked, shown, read, count⟩

end RegexLens
