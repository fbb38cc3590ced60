import RegexLens.Proofs.Pattern.Verdicts

/-! The verdict on the bounds of a quantifier, which are judged as numbers however they are
written. -/

namespace RegexLens

/-- The faults that share a byte with a token. -/
def Classification.faultsIn (classification : Classification) (token : Token) : List Diagnostic :=
  classification.diagnostics.filter fun found =>
    found.offset < token.start + byteSize token.text ∧
      token.start < found.offset + byteSize found.text

/-- What is said about a quantifier with some bounds, which for a single number are the same. -/
structure BoundsVerdict (classification : Classification) (token : Token) (bounds : Bounds) :
    Prop where
  /-- It is accepted when the bounds are small and in order. -/
  accepted : classification.faultsIn token = [] ↔ bounds.lower ≤ 65535 ∧
    ∀ upper ∈ bounds.upper?, upper ≤ 65535 ∧ bounds.lower ≤ upper
  /-- Otherwise there is one fault, which is the whole token. -/
  refused : classification.faultsIn token ≠ [] → ∃ fault, fault.kind = .range ∧
    classification.faultsIn token = [⟨fault, token.start, token.text⟩]
  /-- It is said to have too large a bound when it has one. -/
  tooLarge : (∃ found ∈ classification.faultsIn token,
      found.fault.reason = "interval bound above 65535".toList) ↔
    65535 < bounds.lower ∨ ∃ upper ∈ bounds.upper?, 65535 < upper
  /-- It is said to have its bounds in the wrong order when they are only that. -/
  reversed : (∃ found ∈ classification.faultsIn token,
      found.fault.reason = "interval bounds out of order".toList) ↔
    bounds.lower ≤ 65535 ∧ ∃ upper ∈ bounds.upper?, upper ≤ 65535 ∧ upper < bounds.lower

variable {pattern : Text} {before after : List Token} {token : Token} {fault : Fault}

/-- A token that is flagged as a whole has no other fault. -/
theorem faultsIn_of_flagged
    (flagged : ⟨fault, token.start, token.text⟩ ∈ (classify pattern).diagnostics) :
    (classify pattern).faultsIn token = [⟨fault, token.start, token.text⟩] := by
  have size := fault_occupies flagged
  -- Faults stand one behind the other, so none of them is listed twice.
  have distinct : ((classify pattern).faultsIn token).Nodup := by
    refine List.Nodup.filter _ ((faults_ordered pattern).imp_of_mem ?_)
    rintro first second member - ordered rfl
    have occupied := fault_occupies member
    omega
  -- A list without duplicates is known by its members.
  apply List.perm_singleton.mp
  rw [List.perm_ext_iff_of_nodup distinct (List.nodup_singleton _)]
  intro found
  simp only [Classification.faultsIn, List.mem_filter, decide_eq_true_eq, List.mem_singleton]
  constructor
  · -- Whatever else is faulty in the token would share a byte with its fault.
    rintro ⟨member, starts, ends⟩
    exact eq_of_overlap member flagged starts ends
  · rintro rfl
    exact ⟨flagged, Nat.lt_add_of_pos_right size, Nat.lt_add_of_pos_right size⟩

/-- A token that is shown in a style other than that of errors has no fault. -/
theorem faultsIn_of_shows {style : Style} (shows : (classify pattern).markup.Shows style token)
    (harmless : style ≠ .error) : (classify pattern).faultsIn token = [] := by
  obtain ⟨index, there⟩ := shows
  rw [Classification.faultsIn, List.filter_eq_nil_iff]
  intro found member overlap
  obtain ⟨starts, ends⟩ := of_decide_eq_true overlap
  -- The fault would be an error span that shares a byte with the token.
  have listed : found.place ∈ (classify pattern).markup.spansOf .error 0 := by
    rw [(classify_accounts pattern).spans]
    exact List.mem_map_of_mem member
  exact harmless (Markup.eq_of_mem_spansOf there listed starts ends).1

/-- A quantifier in its place has the fault of its bounds and no other one. -/
theorem faultsIn_quantifier (cut : scan pattern = before ++ token :: after)
    (kind : token.kind = .quantifier) (free : ¬ Unrepeatable before) :
    (classify pattern).faultsIn token =
      (intervalFault? token.text).toList.map (⟨·, token.start, token.text⟩) := by
  -- Either the bounds are flagged, or the quantifier is shown in a style.
  cases bad : intervalFault? token.text with
  | some fault => exact faultsIn_of_flagged (flagged_bounds cut kind free bad)
  | none => exact faultsIn_of_shows (shows_quantifier cut kind free bad) (style?_ne_error cut)

/-- A quantifier behind something that can be repeated is judged by the numbers that its digits
spell, of which there can be any number and which can start with zeros: it has no fault when they
are at most 65535 and in order, and otherwise one fault, which names what is wrong. -/
theorem classify_judges_bounds (cut : scan pattern = before ++ token :: after)
    (kind : token.kind = .quantifier) (free : ¬ Unrepeatable before) :
    (∃ bounds isLazy, RepeatsAs token.text bounds isLazy) ∧
      ∀ bounds isLazy, RepeatsAs token.text bounds isLazy →
        BoundsVerdict (classify pattern) token bounds := by
  have form := (shaped_of_cut cut).form
  rw [kind] at form
  refine ⟨repeatsAs_of_form form, fun bounds isLazy repeats => ?_⟩
  have faults := faultsIn_quantifier cut kind free
  -- The fault that is found is the fault of the numbers that the interval spells.
  rw [intervalFault?_eq repeats] at faults
  have different : Fault.boundTooLarge.reason ≠ Fault.reversedBounds.reason := by decide
  -- What is said of the token is said of the fault of its bounds.
  have said (fault : Fault) (known : fault = .boundTooLarge ∨ fault = .reversedBounds) :
      (∃ found ∈ (classify pattern).faultsIn token, found.fault.reason = fault.reason) ↔
        bounds.fault? = some fault := by
    rw [faults]
    -- Bounds are fine, too large, or in the wrong order, and only one of the three.
    rcases bounds.fault?_cases with fine | large | reversed
    · simp [fine]
    · rcases known with rfl | rfl <;> simp [large, different]
    · rcases known with rfl | rfl <;> simp [reversed, Ne.symm different]
  refine ⟨?_, ?_, ?_, ?_⟩
  · rw [faults, List.map_eq_nil_iff, Option.toList_eq_nil_iff, Bounds.fault?_eq_none]
    rfl
  · -- A fault is found exactly when the bounds have one, and there is at most one.
    intro some
    have bad : bounds.fault? ≠ none := fun none => some (by rw [faults, none]; rfl)
    obtain ⟨fault, bad⟩ := Option.ne_none_iff_exists'.mp bad
    refine ⟨fault, intervalFault?_kind (by rw [intervalFault?_eq repeats, bad]), ?_⟩
    rw [faults, bad]
    rfl
  · exact (said _ (.inl rfl)).trans Bounds.fault?_eq_boundTooLarge
  · exact (said _ (.inr rfl)).trans Bounds.fault?_eq_reversedBounds

/-- Zeros in front do not matter, and a bound that is too large matters more than the order. -/
theorem classify_judges_bounds_zeros :
    let interval : Text := ['{', '0', '6', '5', '5', '3', '6', ',', '0', '3', '}', '?']
    let token : Token := ⟨.quantifier, 1, interval⟩
    scan ('a' :: interval) = [⟨.literal, 0, ['a']⟩] ++ token :: [] ∧
      token.kind = .quantifier ∧ ¬ Unrepeatable [⟨.literal, 0, ['a']⟩] ∧
      RepeatsAs interval ⟨65536, some 3⟩ true ∧
      ∃ found ∈ (classify ('a' :: interval)).faultsIn token,
        found.fault.reason = "interval bound above 65535".toList := by
  intro interval token
  -- The quantifier is the second of two tokens.
  have cut : scan ('a' :: interval) = [⟨.literal, 0, ['a']⟩] ++ token :: [] := by cbv
  -- Its bounds are numbers, whatever the zeros in front of them are.
  have lower : valueIn 10 ['0', '6', '5', '5', '3', '6'] = 65536 := by decide
  have upper : valueIn 10 ['0', '3'] = 3 := by decide
  have repetition := Repetition.between ['0', '6', '5', '5', '3', '6'] ['0', '3']
    ⟨by simp, by simp⟩ ⟨by simp, by simp⟩
  rw [lower, upper] at repetition
  have written : RepeatsAs interval ⟨65536, some 3⟩ true := ⟨_, repetition, rfl⟩
  clear_value interval
  -- A literal can be repeated.
  have free : ¬ Unrepeatable [⟨.literal, 0, ['a']⟩] := by
    rintro (nothing | ⟨before, last, same, bars⟩)
    · contradiction
    · obtain ⟨-, ends⟩ := List.append_inj' ((List.nil_append _).trans same) rfl
      rw [← List.singleton_inj.mp ends] at bars
      exact bars
  have verdict := (classify_judges_bounds cut rfl free).2 _ _ written
  exact ⟨cut, rfl, free, written, verdict.tooLarge.mpr (.inl (by decide))⟩

end RegexLens
