import RegexLens.Proofs.Pattern.ClassExtent
import RegexLens.Proofs.Pattern.ErrorSpans

/-! Nothing of a pattern or of a class is lost, added or read twice when it is styled. -/

namespace RegexLens

/-- What stands behind a closed class has no influence on its styles and faults. -/
theorem annotateClass_append {tail : Text} {parts : ClassParts} (cuts : parts.Cuts ('[' :: tail))
    (closed : parts.closing = [']']) (further : Text) (offset : Nat) :
    annotateClass (parts.text ++ further) offset = annotateClass parts.text offset := by
  -- Both texts are cut into the parts of the class and what is left behind it.
  have alone := cuts.kept closed []
  have behind := cuts.kept closed further
  obtain ⟨rest, starts⟩ : ∃ rest, parts.text = '[' :: rest := by
    rcases cuts.opening with marked | ⟨plain, _⟩
    · exact ⟨_, by rw [ClassParts.text, marked]; rfl⟩
    · exact ⟨_, by rw [ClassParts.text, plain]; rfl⟩
  rw [starts, List.append_nil] at alone
  rw [starts, List.cons_append] at behind ⊢
  -- Up to the rest, the cut is the same with the further text and without it.
  have shorter := ClassParts.cuts_iff.mp alone
  have longer := ClassParts.cuts_iff.mp behind
  apply annotateClass_congr
  · rw [← longer, ← shorter]
  · rw [← longer, ← shorter]
  · rw [← longer, ← shorter]

/-- Styling loses nothing: the plain text of a pattern's styles is the pattern, that of a class is
the class at the front of its text, and text behind a closed class changes neither styles nor
faults. -/
theorem classify_lossless (pattern : Text) :
    (classify pattern).markup.plainText = pattern ∧
      ∀ (tail : Text) (offset : Nat), ∃ parts : ClassParts,
        parts.Cuts ('[' :: tail) ∧ (∀ other : ClassParts, other.Cuts ('[' :: tail) → other = parts) ∧
        (annotateClass ('[' :: tail) offset).markup.plainText =
          parts.opening ++ parts.contents ++ parts.closing ∧
        (parts.closing = [']'] → ∀ further,
          annotateClass (parts.text ++ further) offset = annotateClass parts.text offset) := by
  -- The text of the whole pattern comes with the account of its error spans.
  refine ⟨(classify_accounts pattern).text, fun tail offset => ?_⟩
  -- A class is cut in one way, and its text is the one that its account is for.
  refine ⟨ClassParts.split ('[' :: tail), ClassParts.cuts_split tail, fun _ => ClassParts.cuts_iff.mp,
    (annotateClass_accounts tail offset).text, fun closed further => ?_⟩
  exact annotateClass_append (ClassParts.cuts_split tail) closed further offset

end RegexLens
