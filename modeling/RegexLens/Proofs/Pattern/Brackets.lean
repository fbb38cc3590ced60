import RegexLens.Proofs.Pattern.Progress

/-! Openings and closing parentheses as brackets, matched by a stack of the openings left open. -/

namespace RegexLens

/-- The openings that are open behind a token, innermost first, given those in front of it. -/
def Token.nest (stack : List Token) (token : Token) : List Token :=
  if token.opens then token :: stack
  else if token.closes then stack.tail
  else stack

/-- The openings that tokens leave open, innermost first. -/
def unclosed (tokens : List Token) : List Token :=
  tokens.foldl Token.nest []

/-- Tokens in which every bracket has its partner. -/
inductive Balanced : List Token → Prop
  /-- No tokens at all. -/
  | nil : Balanced []
  /-- A token that is no bracket. -/
  | other (token : Token) (rest : List Token) (plain : token.opens = false ∧ token.closes = false)
      (body : Balanced rest) : Balanced (token :: rest)
  /-- Two partners around tokens that are balanced. -/
  | enclosed (opening closing : Token) (inner rest : List Token) (opens : opening.opens = true)
      (closes : closing.closes = true) (inside : Balanced inner) (body : Balanced rest) :
      Balanced (opening :: (inner ++ closing :: rest))

/-- Whether the token behind some tokens has its partner among them, if it closes a group. -/
def HasOpening (before : List Token) : Prop :=
  ∃ front opening inner, before = front ++ opening :: inner ∧ opening.opens = true ∧ Balanced inner

/-- Whether the token in front of some tokens has its partner among them, if it opens a group. -/
def HasClosing (after : List Token) : Prop :=
  ∃ inner closing rest, after = inner ++ closing :: rest ∧ closing.closes = true ∧ Balanced inner

/-- No token both opens and closes a group. -/
theorem Token.opens_of_closes {token : Token} (closes : token.closes = true) :
    token.opens = false := by
  simp only [Token.closes, decide_eq_true_eq] at closes
  simp [Token.opens, closes]

namespace Balanced

variable {first second inner : List Token}

/-- Balanced tokens behind balanced tokens are balanced. -/
theorem append (one : Balanced first) (other : Balanced second) : Balanced (first ++ second) := by
  -- The second tokens are put behind the last bracket of the first ones.
  induction one with
  | nil => exact other
  | other token rest plain body ih => exact .other token _ plain ih
  | enclosed opening closing inner rest opens closes inside body _ ih =>
    rw [List.cons_append, List.append_assoc, List.cons_append]
    exact .enclosed opening closing inner _ opens closes inside ih

/-- Balanced tokens leave open what was open before them. -/
theorem foldl_nest (balanced : Balanced inner) (stack : List Token) :
    inner.foldl Token.nest stack = stack := by
  induction balanced generalizing stack with
  | nil => rfl
  | other token rest plain body ih => simp [Token.nest, plain, ih]
  | enclosed opening closing inner rest opens closes inside body ihInside ihBody =>
    -- The closing token takes off the opening that stands on the stack again behind the inside.
    simp [Token.nest, opens, closes, Token.opens_of_closes closes, ihInside, ihBody]

end Balanced

/-- One more token nests on top of what the others leave open. -/
theorem unclosed_concat (tokens : List Token) (token : Token) :
    unclosed (tokens ++ [token]) = token.nest (unclosed tokens) := by
  simp [unclosed]

/-- The innermost opening that is left open has only balanced tokens behind it. -/
theorem exists_of_unclosed {tokens outer : List Token} {opening : Token}
    (left : unclosed tokens = opening :: outer) :
    ∃ front inner, tokens = front ++ opening :: inner ∧ opening.opens = true ∧ Balanced inner ∧
      unclosed front = outer := by
  -- The tokens are taken off from the end, several at a time when the last one closes a group.
  induction size : tokens.length using Nat.strongRecOn generalizing tokens opening outer with
  | ind count ih =>
    -- Only the last token can have been put on the stack last.
    rcases List.eq_nil_or_concat tokens with rfl | ⟨init, last, rfl⟩
    · simp [unclosed] at left
    · rw [List.concat_eq_append] at left size ⊢
      rw [unclosed_concat] at left
      simp only [List.length_append, List.length_singleton] at size
      by_cases opens : last.opens = true
      · -- The last token is the opening in question.
        obtain ⟨rfl, rest⟩ := by simpa [Token.nest, opens] using left
        exact ⟨init, [], rfl, opens, .nil, rest⟩
      · rw [Bool.not_eq_true] at opens
        by_cases closes : last.closes = true
        · -- The last token closes a group inside, and that group is skipped.
          obtain ⟨partner, known⟩ : ∃ partner, unclosed init = partner :: opening :: outer := by
            simp only [Token.nest, opens, closes, if_true, Bool.false_eq_true, if_false] at left
            cases stack : unclosed init with
            | nil => simp [stack] at left
            | cons partner below => exact ⟨partner, by simpa [stack] using left⟩
          obtain ⟨middle, inside, rfl, partnerOpens, insideBalanced, remaining⟩ :=
            ih init.length (by omega) known rfl
          simp only [List.length_append, List.length_cons] at size
          obtain ⟨front, inner, rfl, opened, balanced, below⟩ :=
            ih middle.length (by omega) remaining rfl
          refine ⟨front, inner ++ partner :: (inside ++ [last]), by simp, opened, ?_, below⟩
          exact balanced.append (.enclosed partner last inside [] partnerOpens closes insideBalanced
            .nil)
        · -- Any other token leaves the stack as it was in front of it.
          rw [Bool.not_eq_true] at closes
          rw [Token.nest, opens, closes] at left
          obtain ⟨front, inner, rfl, opened, balanced, below⟩ := ih init.length (by omega) left rfl
          exact ⟨front, inner ++ [last], by simp, opened,
            balanced.append (.other last [] ⟨opens, closes⟩ .nil), below⟩

/-- An opening with only balanced tokens behind it is the innermost one that is left open. -/
theorem unclosed_of_balanced (front : List Token) {opening : Token} {inner : List Token}
    (opens : opening.opens = true) (balanced : Balanced inner) :
    unclosed (front ++ opening :: inner) = opening :: unclosed front := by
  have left := balanced.foldl_nest (opening :: unclosed front)
  simpa only [unclosed, List.foldl_append, List.foldl_cons, Token.nest, opens, if_true] using left

/-- A closing parenthesis has a partner when some group is left open in front of it. -/
theorem hasOpening_iff {before : List Token} : HasOpening before ↔ unclosed before ≠ [] := by
  constructor
  · rintro ⟨front, opening, inner, rfl, opens, balanced⟩
    -- The opening stands on the stack, whatever is below it.
    rw [unclosed_of_balanced front opens balanced]
    exact List.cons_ne_nil _ _
  · intro left
    -- What stands on the stack has been put there by an opening with balanced tokens behind it.
    obtain ⟨opening, outer, some⟩ := List.exists_cons_of_ne_nil left
    obtain ⟨front, inner, cut, opens, balanced, _⟩ := exists_of_unclosed some
    exact ⟨front, opening, inner, cut, opens, balanced⟩

/-- An opening without a partner behind it stays open, and so do those around it. -/
theorem hasClosing_or_suffix (after : List Token) :
    HasClosing after ∨ ∀ stack, stack <:+ after.foldl Token.nest stack := by
  -- The tokens are taken off from the front, several at a time when the first one opens a group.
  induction size : after.length using Nat.strongRecOn generalizing after with
  | ind count ih =>
    cases after with
    | nil => exact .inr fun stack => List.suffix_refl stack
    | cons token rest =>
      rw [List.length_cons] at size
      by_cases closes : token.closes = true
      · -- The first parenthesis that closes what is not opened here is the partner.
        exact .inl ⟨[], token, rest, rfl, closes, .nil⟩
      · rw [Bool.not_eq_true] at closes
        by_cases opens : token.opens = true
        · rcases ih rest.length (by omega) rest rfl with ⟨inside, partner, behind, rfl, partnerCloses,
            insideBalanced⟩ | kept
          · -- The group that the token opens is closed, so what follows it decides.
            simp only [List.length_append, List.length_cons] at size
            rcases ih behind.length (by omega) behind rfl with ⟨inner, closing, further, rfl,
              closingCloses, balanced⟩ | kept
            · -- A partner further on has the whole group in front of it.
              refine .inl ⟨token :: (inside ++ partner :: inner), closing, further, by simp,
                closingCloses, ?_⟩
              exact .enclosed token partner inside inner opens partnerCloses insideBalanced balanced
            · -- Otherwise the group leaves the stack as it was.
              refine .inr fun stack => ?_
              have whole := (Balanced.enclosed token partner inside [] opens partnerCloses
                insideBalanced .nil).foldl_nest stack
              have cut : token :: (inside ++ partner :: behind) =
                  (token :: (inside ++ partner :: [])) ++ behind := by simp
              rw [cut, List.foldl_append, whole]
              exact kept stack
          · -- The token stays open, and with it everything below.
            refine .inr fun stack => ?_
            rw [List.foldl_cons, Token.nest, if_pos opens]
            exact (List.suffix_cons token stack).trans (kept _)
        · rw [Bool.not_eq_true] at opens
          rcases ih rest.length (by omega) rest rfl with ⟨inner, closing, further, rfl, closingCloses,
            balanced⟩ | kept
          · -- Any other token stands in front of a partner, or leaves the stack to the tokens
            -- behind it.
            exact .inl ⟨token :: inner, closing, further, rfl, closingCloses,
              .other token inner ⟨opens, closes⟩ balanced⟩
          · refine .inr fun stack => ?_
            rw [List.foldl_cons, Token.nest, opens, closes]
            exact kept stack

end RegexLens
