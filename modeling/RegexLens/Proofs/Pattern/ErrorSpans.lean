import RegexLens.Pattern.Classification
import RegexLens.Proofs.Markup.Spans
import RegexLens.Proofs.Pattern.ClassReading

/-! The faults of a pattern are the error spans of its markup, entry by entry. -/

namespace RegexLens

/-- The place of a fault: the byte offset of the faulty text, and the text. -/
def Diagnostic.place (diagnostic : Diagnostic) : Nat × Text :=
  (diagnostic.offset, diagnostic.text)

/-- Markup of a text from a byte offset on, with one fault for each error span, in their order. -/
structure Accounts (offset : Nat) (text : Text) (markup : Markup) (faults : List Diagnostic) :
    Prop where
  text : markup.plainText = text
  spans : markup.spansOf .error offset = faults.map Diagnostic.place
  separate : markup.Separate .error

namespace Accounts

variable {offset : Nat} {text content : Text} {markup inner : Markup} {style : Style}
  {faults innerFaults : List Diagnostic}

/-- Nothing accounts for nothing. -/
theorem nil : Accounts offset [] .nil [] := ⟨rfl, rfl, trivial⟩

/-- Text that is no error needs no fault. -/
theorem pushText (accounts : Accounts offset text markup faults) :
    Accounts offset (text ++ content) (markup.pushText content) faults where
  text := by simp [accounts.text]
  spans := by simp [accounts.spans]
  separate := accounts.separate.pushText content

/-- A span that is no error adds what it holds. -/
theorem pushNested (accounts : Accounts offset text markup faults) (harmless : style ≠ .error)
    (within : Accounts (offset + byteSize text) content inner innerFaults) :
    Accounts offset (text ++ content) (markup.pushNested style inner) (faults ++ innerFaults) where
  text := by simp [accounts.text, within.text]
  spans := by
    -- The span itself is not counted, so what it holds is all that it adds.
    rw [Markup.spansOf_pushNested, if_neg harmless, accounts.text, accounts.spans, within.spans]
    simp
  separate := accounts.separate.pushNested (fun same => absurd same harmless) within.separate

/-- A text in a style that is no error needs no fault. -/
theorem pushSpan (accounts : Accounts offset text markup faults) (harmless : style ≠ .error) :
    Accounts offset (text ++ content) (markup.pushSpan style content) faults where
  text := by simp [accounts.text]
  spans := by simp [Markup.spansOf_pushSpan, harmless, accounts.spans]
  separate := accounts.separate.pushSpan fun same => absurd same harmless

/-- An error comes with the fault that it shows. -/
theorem pushError (accounts : Accounts offset text markup faults) (fault : Fault)
    (solid : content ≠ []) :
    Accounts offset (text ++ content) (markup.pushSpan .error content)
      (faults ++ [⟨fault, offset + byteSize text, content⟩]) where
  text := by simp [accounts.text]
  spans := by
    -- The new span starts where the text so far ends, which is the offset of the fault.
    rw [Markup.spansOf_pushSpan, accounts.text, accounts.spans]
    simp [Diagnostic.place]
  separate := accounts.separate.pushSpan fun _ => solid

end Accounts

namespace ClassReading

/-- The reading of a class from a byte offset on, with its faults and its place. -/
structure Accounted (reading : ClassReading) (offset : Nat) (text : Text) : Prop where
  shown : Accounts offset text reading.markup reading.diagnostics
  place : reading.offset = offset + byteSize text

variable {reading : ClassReading} {offset : Nat} {text : Text}

/-- Showing an item keeps the account, since an error is only shown with its fault. -/
theorem Accounted.emit (accounted : reading.Accounted offset text) (item : ClassItem)
    {mark : ItemMark} (harmless : mark ≠ .styled .error) :
    (reading.emit (item, mark)).Accounted offset (text ++ item.text) := by
  -- The next item stands behind this one.
  have next : offset + byteSize (text ++ item.text) = reading.offset + byteSize item.text := by
    rw [byteSize_append, accounted.place, Nat.add_assoc]
  cases mark with
  | plain => exact ⟨accounted.shown.pushText, next.symm⟩
  | styled style =>
    -- The only style that would need a fault is excluded.
    have other : style ≠ .error := fun same => harmless (congrArg _ same)
    exact ⟨accounted.shown.pushSpan other, next.symm⟩
  | flagged fault =>
    refine ⟨?_, next.symm⟩
    have shown := accounted.shown.pushError fault item.text_ne_nil
    -- The fault names the offset at which the reading stands.
    rw [← accounted.place] at shown
    exact shown

/-- Showing any number of items keeps the account. -/
theorem Accounted.foldl {shown : List (ClassItem × ItemMark)}
    (accounted : reading.Accounted offset text)
    (harmless : ∀ entry ∈ shown, entry.2 ≠ .styled .error) :
    (shown.foldl ClassReading.emit reading).Accounted offset
      (text ++ (shown.map Prod.fst).flatMap ClassItem.text) := by
  induction shown generalizing reading text with
  | nil => simpa using accounted
  | cons entry rest ih =>
    -- The first item keeps the account, and from there the others do.
    have first := accounted.emit entry.1 (harmless entry (by simp))
    have all := ih first fun other member => harmless other (by simp [member])
    simpa using all

end ClassReading

/-- The markup of a class accounts for the faults of the class. -/
theorem annotateClass_accounts (tail : Text) (offset : Nat) :
    Accounts offset (ClassParts.split ('[' :: tail)).text (annotateClass ('[' :: tail) offset).markup
      (annotateClass ('[' :: tail) offset).diagnostics := by
  have solid : (ClassParts.split ('[' :: tail)).opening ≠ [] := by
    simp only [ClassParts.split]
    split <;> simp
  -- The opening is shown first, as an error when the class is unterminated.
  have start : (ClassReading.entered ('[' :: tail) offset).Accounted offset
      (ClassParts.split ('[' :: tail)).opening := by
    refine ⟨?_, rfl⟩
    simp only [ClassReading.entered]
    cases (ClassParts.split ('[' :: tail)).isClosed with
    | true => exact Accounts.nil.pushText
    | false => exact Accounts.nil.pushError .unterminatedClass solid
  -- The atoms of the class are shown one by one, closed or not, and they are its contents.
  have read := start.foldl (atomMarks_ne_styled_error (ClassParts.split ('[' :: tail)).isClosed
    (classAtoms ('[' :: tail)))
  rw [atomMarks_items, classAtoms_text] at read
  rw [annotateClass_shows]
  exact read.shown.pushText

namespace Classifier

/-- A classification up to some token that accounts for its faults and knows its open groups. -/
structure Accounted (state : Classifier) (text : Text) : Prop where
  shown : Accounts 0 text state.markup state.diagnostics
  -- A group that turns out to be unterminated is found again as a span of its own.
  located : ∀ group ∈ state.openGroups, group.opening ≠ [] ∧ ∃ style, style ≠ .error ∧
    state.markup.spanAt? group.index 0 = some (group.offset, style, .text group.opening .nil)
  distinct : state.openGroups.Pairwise fun inner outer => outer.index ≠ inner.index
  harmless : state.last.style? ≠ some .error

variable {state after : Classifier} {text : Text} {token : Token}

/-- The account is kept by whatever accounts for its own part and leaves the groups in place. -/
theorem Accounted.advance (accounted : state.Accounted text) {further : Text}
    (shown : Accounts 0 further after.markup after.diagnostics)
    (keeps : ∀ {index found}, state.markup.spanAt? index 0 = some found →
      after.markup.spanAt? index 0 = some found)
    (groups : after.openGroups = state.openGroups) (harmless : after.last.style? ≠ some .error) :
    after.Accounted further where
  shown := shown
  located := by
    intro group member
    rw [groups] at member
    -- A group that is open was open before, and its span has not moved.
    obtain ⟨solid, style, other, there⟩ := accounted.located group member
    exact ⟨solid, style, other, keeps there⟩
  -- No group was opened or closed, so their positions are as distinct as before.
  distinct := by
    rw [groups]
    exact accounted.distinct
  harmless := harmless

/-- Any last token without a style of its own keeps the account. -/
theorem Accounted.follow (accounted : state.Accounted text) (quantifiable : Bool) :
    (state.follow quantifiable).Accounted text :=
  ⟨accounted.shown, accounted.located, accounted.distinct, by simp [Classifier.follow]⟩

/-- A token in a style that is no error keeps the account. -/
theorem Accounted.styled (accounted : state.Accounted text) (style : Style) (content : Text)
    (other : style ≠ .error) : (state.styled style content).Accounted (text ++ content) :=
  accounted.advance (accounted.shown.pushSpan other) (Markup.spanAt?_pushNested · _ _) rfl
    accounted.harmless

/-- A token without a style keeps the account. -/
theorem Accounted.plain (accounted : state.Accounted text) (content : Text) :
    (state.plain content).Accounted (text ++ content) :=
  accounted.advance accounted.shown.pushText (Markup.spanAt?_pushText · _) rfl accounted.harmless

/-- A flagged token keeps the account. -/
theorem Accounted.flagged (accounted : state.Accounted text) (fault : Fault)
    (start : token.start = byteSize text) (solid : token.text ≠ []) :
    (state.flagged fault token).Accounted (text ++ token.text) := by
  -- The error is the only thing that is added, and it is in front of no node.
  have shown := accounted.shown.pushError fault solid
  rw [Nat.zero_add, ← start] at shown
  exact accounted.advance shown (Markup.spanAt?_pushNested · _ _) rfl accounted.harmless

/-- Opening a group keeps the account, and the group is found where its opening was added. -/
theorem Accounted.readGroupOpen (accounted : state.Accounted text)
    (start : token.start = byteSize text) (solid : token.text ≠ []) :
    (state.readGroupOpen token).Accounted (text ++ token.text) := by
  unfold Classifier.readGroupOpen
  split
  · -- An unknown group type is flagged and opens nothing.
    exact (accounted.flagged _ start solid).follow false
  · have shown := accounted.styled (.group (state.level % groupStyles + 1)) token.text (by simp)
    refine ⟨shown.shown, ?_, ?_, by simp [Classifier.follow]⟩
    · intro group member
      rcases List.mem_cons.mp member with rfl | member
      · -- The new group is the last node so far.
        have there := state.markup.spanAt?_length (.group (state.level % groupStyles + 1))
          (.text token.text .nil) 0
        rw [Nat.zero_add, accounted.shown.text, ← start] at there
        exact ⟨solid, _, by simp, there⟩
      · exact shown.located group member
    · refine List.pairwise_cons.mpr ⟨?_, accounted.distinct⟩
      -- The groups around it are found at positions that the markup already had.
      intro outer member
      obtain ⟨_, style, _, there⟩ := accounted.located outer member
      exact Nat.ne_of_lt (Markup.spanAt?_lt_length there)

/-- Closing a group keeps the account. -/
theorem Accounted.readGroupClose (accounted : state.Accounted text)
    (start : token.start = byteSize text) (solid : token.text ≠ []) :
    (state.readGroupClose token).Accounted (text ++ token.text) := by
  unfold Classifier.readGroupClose
  split
  · -- A parenthesis that closes nothing is flagged.
    exact (accounted.flagged _ start solid).follow false
  · rename_i group outer opened
    have shown := accounted.styled (.group state.level) token.text (by simp)
    refine ⟨shown.shown, ?_, ?_, by simp⟩
    · intro other member
      exact shown.located other (by simp [Classifier.styled, opened, member])
    · -- One group less is open, and the others are as far apart as before.
      have distinct := accounted.distinct
      rw [opened] at distinct
      exact distinct.tail

/-- Reading an escape keeps the account. -/
theorem Accounted.readEscape (accounted : state.Accounted text) {sequence : Text}
    (form : token.text = '\\' :: sequence) (start : token.start = byteSize text) :
    (state.readEscape token).Accounted (text ++ token.text) := by
  have solid : token.text ≠ [] := by simp [form]
  simp only [Classifier.readEscape, form, List.drop_succ_cons, List.drop_zero]
  rw [← form]
  cases sequence with
  -- A backslash at the end is flagged, since it applies to nothing.
  | nil => exact (accounted.flagged _ start solid).follow false
  | cons first rest =>
    dsimp only
    split
    · -- The digits that the number does not use stand behind it as text.
      simp only [Classifier.readNumberedEscape]
      generalize ite (0 < referenceLength state.captures (first :: rest) (first :: rest).length) _ _
        = used
      have shown := (accounted.styled .special ('\\' :: (first :: rest).take used) (by simp)).plain
        ((first :: rest).drop used)
      rw [List.append_assoc, List.cons_append, List.take_append_drop, ← form] at shown
      exact ⟨shown.shown, shown.located, shown.distinct,
        by simp [Classifier.follow]⟩
    · split
      · -- An incomplete sequence is flagged.
        exact (accounted.flagged _ start solid).follow false
      · split
        · -- The other escapes are special, or text.
          exact (accounted.styled _ _ (by simp)).follow _
        · exact (accounted.plain _).follow true

/-- Reading a token keeps the account, whatever the token is. -/
theorem Accounted.read (accounted : state.Accounted text) (shaped : token.Shaped)
    (start : token.start = byteSize text) : (state.read token).Accounted (text ++ token.text) := by
  have form := shaped.form
  have solid := shaped.nonempty
  -- Each kind is shown in its own way, and what is shown is accounted for.
  cases kind : token.kind with
  | characterClass =>
    rw [kind] at form
    obtain ⟨⟨tail, opens⟩, whole⟩ := form.of_characterClass
    have inner := annotateClass_accounts tail token.start
    -- The class is the whole token, and it starts where the text so far ends.
    rw [← opens, whole, ← Nat.zero_add token.start, start] at inner
    have other : Style.characterClass ≠ .error := by simp
    have shown := accounted.shown.pushNested other inner
    rw [← start, Nat.zero_add] at shown
    rw [Classifier.read, kind]
    exact accounted.advance shown (Markup.spanAt?_pushNested · _ _) rfl
      (by simp [readClass, Classifier.follow])
  | groupOpen =>
    rw [Classifier.read, kind]
    exact accounted.readGroupOpen start solid
  | groupClose =>
    rw [Classifier.read, kind]
    exact accounted.readGroupClose start solid
  | escape =>
    rw [kind] at form
    obtain ⟨sequence, opens⟩ := form.of_escape
    rw [Classifier.read, kind]
    exact accounted.readEscape opens start
  | quantifier =>
    rw [Classifier.read, kind]
    -- A quantifier is shown in one style, or it is flagged.
    refine Accounted.follow ?_ false
    split
    · exact accounted.flagged _ start solid
    · split
      · exact accounted.flagged _ start solid
      · refine accounted.styled _ _ ?_
        -- A quantifier takes over the style of the group in front of it, if there is one.
        cases style : state.last.style? with
        | none => simp
        | some own =>
          intro same
          exact accounted.harmless (style.trans (congrArg some same))
  -- The other tokens are shown in a style that is not the one of errors.
  | anchor =>
    rw [Classifier.read, kind]
    exact (accounted.styled _ _ (by simp)).follow false
  | dot =>
    rw [Classifier.read, kind]
    exact (accounted.styled _ _ (by simp)).follow true
  | alternator =>
    rw [Classifier.read, kind]
    -- A bar is flagged, special, or in the style of its group, and opens and closes nothing.
    simp only [Classifier.readAlternator]
    split
    · have shown := accounted.flagged .emptyAlternative start solid
      exact ⟨shown.shown, shown.located, shown.distinct, by simp⟩
    · split
      · have shown := accounted.styled .special token.text (by simp)
        exact ⟨shown.shown, shown.located, shown.distinct, by simp⟩
      · have shown := accounted.styled (.group state.level) token.text (by simp)
        exact ⟨shown.shown, shown.located, shown.distinct, by simp⟩
  | literal =>
    rw [Classifier.read, kind]
    exact (accounted.plain _).follow true

/-- Reading consecutive tokens keeps the account. -/
theorem Accounted.run {tokens : List Token} (accounted : state.Accounted text)
    (shaped : ∀ token ∈ tokens, token.Shaped) (contiguous : Contiguous (byteSize text) tokens) :
    (tokens.foldl Classifier.read state).Accounted (text ++ tokens.flatMap Token.text) := by
  induction tokens generalizing state text with
  | nil => simpa using accounted
  | cons token rest ih =>
    obtain ⟨start, others⟩ := contiguous
    -- The next token starts where this one ends.
    have first := accounted.read (shaped token (by simp)) start
    rw [← byteSize_append] at others
    have all := ih first (fun other member => shaped other (by simp [member])) others
    simpa using all

/-- Before the first token there is nothing to account for. -/
theorem accounted_initial : initial.Accounted [] where
  shown := .nil
  located := by simp [initial]
  distinct := .nil
  harmless := by simp [initial]

/-- A classification whose open groups are being abandoned, up to the order of its faults. -/
structure Abandoning (state : Classifier) (groups : List OpenGroup) (text : Text) : Prop where
  text : state.markup.plainText = text
  spans : (state.markup.spansOf .error 0).Perm (state.diagnostics.map Diagnostic.place)
  separate : state.markup.Separate .error
  located : ∀ group ∈ groups, group.opening ≠ [] ∧ ∃ style, style ≠ .error ∧
    state.markup.spanAt? group.index 0 = some (group.offset, style, .text group.opening .nil)
  distinct : groups.Pairwise fun first second => first.index ≠ second.index

/-- Abandoning a group turns its opening into an error, and adds the fault that goes with it. -/
theorem Abandoning.abandon {group : OpenGroup} {groups : List OpenGroup}
    (abandoning : state.Abandoning (group :: groups) text) :
    (state.abandon group).Abandoning groups text := by
  -- The group is found where its opening was added.
  obtain ⟨solid, style, other, there⟩ := abandoning.located group (by simp)
  obtain ⟨apart, distinct⟩ := List.pairwise_cons.mp abandoning.distinct
  constructor
  · simp [Classifier.abandon, abandoning.text]
  · have found := (Markup.spansOf_restyle there other).trans (abandoning.spans.cons _)
    simp only [Classifier.abandon, List.map_append, List.map_cons, List.map_nil]
    refine found.trans ?_
    -- The new fault stands behind the others.
    simpa [Diagnostic.place, Markup.plainText] using (List.perm_append_singleton _ _).symm
  · exact abandoning.separate.restyle there (by simpa [Markup.plainText, Markup.hasStyle] using solid)
  · intro remaining member
    obtain ⟨solid, style, other, there⟩ := abandoning.located remaining (by simp [member])
    refine ⟨solid, style, other, ?_⟩
    -- The other groups stand elsewhere.
    rw [← there]
    exact Markup.spanAt?_restyle (Ne.symm (apart remaining member)) _ _ _
  · exact distinct

/-- Abandoning all groups leaves none to look for. -/
theorem Abandoning.foldl {groups : List OpenGroup} (abandoning : state.Abandoning groups text) :
    (groups.foldl Classifier.abandon state).Abandoning [] text := by
  induction groups generalizing state with
  -- Each group that is abandoned leaves the others to be found.
  | nil => exact abandoning
  | cons group rest ih => exact ih abandoning.abandon

/-- At the end of a pattern the groups that are still open can be abandoned. -/
theorem Accounted.abandoning (accounted : state.Accounted text) :
    state.Abandoning state.openGroups.reverse text where
  -- What is shown is accounted for, and each open group has its span.
  text := accounted.shown.text
  spans := .of_eq accounted.shown.spans
  separate := accounted.shown.separate
  located group member := accounted.located group (List.mem_reverse.mp member)
  distinct := List.pairwise_reverse.mpr accounted.distinct

/-- The faults of a pattern are those found in it, in another order. -/
theorem finish_diagnostics_perm (state : Classifier) :
    state.finish.diagnostics.Perm
      (state.openGroups.reverse.foldl Classifier.abandon state).diagnostics :=
  List.mergeSort_perm _ _

/-- The faults of a pattern are in the order of their offsets. -/
theorem finish_diagnostics_sorted (state : Classifier) :
    state.finish.diagnostics.Pairwise fun first second => first.offset ≤ second.offset := by
  -- The order by offsets is transitive and total, so sorting puts the faults into it.
  have sorted := List.pairwise_mergeSort
    (fun (first second third : Diagnostic) (below : decide (first.offset ≤ second.offset) = true)
      (above : decide (second.offset ≤ third.offset) = true) => by
        simp only [decide_eq_true_eq] at below above ⊢
        exact Nat.le_trans below above)
    (fun first second => by
      simp only [Bool.or_eq_true, decide_eq_true_eq]
      exact Nat.le_total _ _)
    (state.openGroups.reverse.foldl Classifier.abandon state).diagnostics
  exact sorted.imp fun below => of_decide_eq_true below

end Classifier

/-- Stretches that precede one another and hold some text start at different offsets. -/
theorem eq_of_place_eq {entries : List (Nat × Text)} (ordered : entries.Pairwise Markup.Precedes)
    (solid : ∀ entry ∈ entries, entry.2 ≠ []) {first second : Nat × Text}
    (firstMember : first ∈ entries) (secondMember : second ∈ entries)
    (same : first.1 = second.1) : first = second := by
  -- The entry in front is the one that both are, or one of them lies behind it.
  induction entries with
  | nil => contradiction
  | cons entry rest ih =>
    obtain ⟨precedes, ordered⟩ := List.pairwise_cons.mp ordered
    have occupied : byteSize entry.2 ≠ 0 := fun empty =>
      solid entry (by simp) (byteSize_eq_zero.mp empty)
    rcases List.mem_cons.mp firstMember with rfl | firstLater <;>
      rcases List.mem_cons.mp secondMember with rfl | secondLater
    · rfl
    · -- The later stretch starts behind the earlier one, which has at least one byte.
      have after := precedes second secondLater
      simp only [Markup.Precedes] at after
      omega
    · have after := precedes first firstLater
      simp only [Markup.Precedes] at after
      omega
    · exact ih ordered (fun other member => solid other (by simp [member])) firstLater secondLater

/-- The markup of a pattern holds the pattern, and its error spans are its faults in order. -/
theorem classify_accounts (pattern : Text) :
    Accounts 0 pattern (classify pattern).markup (classify pattern).diagnostics := by
  -- Reading all tokens keeps the account up to the last one.
  have read := Classifier.accounted_initial.run (scan_shaped pattern) (scan_contiguous pattern)
  rw [List.nil_append, scan_text] at read
  have ended := read.abandoning.foldl
  refine ⟨ended.text, ?_, ended.separate⟩
  -- Both lists are sorted by their offsets, and no two error spans have the same offset.
  have apart := ended.separate.pairwise 0
  have ordered := apart.imp fun {first second : Nat × Text} precedes =>
    show first.1 ≤ second.1 from Nat.le_trans (Nat.le_add_right _ _) precedes
  have sorted := Classifier.finish_diagnostics_sorted ((scan pattern).foldl Classifier.read .initial)
  have same := ended.spans.trans ((Classifier.finish_diagnostics_perm _).symm.map Diagnostic.place)
  refine List.Perm.eq_of_pairwise ?_ ordered (List.pairwise_map.mpr sorted) same
  intro first second firstMember secondMember below above
  exact eq_of_place_eq apart (fun _ => ended.separate.nonempty) firstMember
    (same.mem_iff.mpr secondMember) (Nat.le_antisymm below above)

/-- The error spans of a classified pattern are its faults, entry by entry and in order; each
holds some text of the pattern, none overlaps another, and there are none in a valid pattern. -/
theorem error_spans_eq_diagnostics (pattern : Text) :
    (classify pattern).markup.spansOf .error 0 =
        (classify pattern).diagnostics.map (fun fault => (fault.offset, fault.text)) ∧
      (∀ fault ∈ (classify pattern).diagnostics, fault.text ≠ [] ∧
        slice pattern fault.offset (fault.offset + byteSize fault.text) = fault.text ∧
        ∃ before after, pattern = before ++ fault.text ++ after ∧
          byteSize before = fault.offset) ∧
      (classify pattern).diagnostics.Pairwise (fun first second =>
        first.offset < second.offset ∧ first.offset + byteSize first.text ≤ second.offset) ∧
      ((classify pattern).markup.hasError = true ↔ (classify pattern).isValid = false) := by
  have accounts := classify_accounts pattern
  have listed (fault : Diagnostic) (member : fault ∈ (classify pattern).diagnostics) :
      fault.place ∈ (classify pattern).markup.spansOf .error 0 := by
    -- Every fault is shown by some error span.
    rw [accounts.spans]
    exact List.mem_map_of_mem member
  have solid (fault : Diagnostic) (member : fault ∈ (classify pattern).diagnostics) :
      fault.text ≠ [] := accounts.separate.nonempty (listed fault member)
  refine ⟨accounts.spans, ?_, ?_, ?_⟩
  · intro fault member
    -- The text of the span stands in the pattern at its offset.
    obtain ⟨before, after, cut, place⟩ := Markup.mem_spansOf (listed fault member)
    simp only [accounts.text, Diagnostic.place, Nat.zero_add] at cut place
    refine ⟨solid fault member, ?_, before, after, cut, place.symm⟩
    have window := slice_append before fault.text after
    rwa [← place, ← cut] at window
  · -- The spans follow one another without an overlap.
    have ordered := accounts.separate.pairwise 0
    rw [accounts.spans, List.pairwise_map] at ordered
    refine ordered.imp_of_mem ?_
    intro first second firstMember _ precedes
    have occupied : byteSize first.text ≠ 0 := fun empty =>
      solid first firstMember (byteSize_eq_zero.mp empty)
    simp only [Markup.Precedes, Diagnostic.place] at precedes
    omega
  · -- There is an error span exactly when there is a fault.
    have found := Markup.spansOf_eq_nil_iff .error 0 (classify pattern).markup
    rw [accounts.spans, List.map_eq_nil_iff] at found
    simp only [Markup.hasError, Classification.isValid, List.isEmpty_eq_false_iff]
    rw [Ne, found, Bool.not_eq_false]

end RegexLens
