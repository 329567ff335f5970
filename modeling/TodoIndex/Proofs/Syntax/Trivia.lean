import TodoIndex.Proofs.Syntax.Rounds
import TodoIndex.Syntax.Lexeme

/-! # Blanks and comments between tokens

Behind the blanks and comments no more of them can be read, so reading them twice is reading them
once.
-/

namespace TodoIndex

namespace Syntax

namespace Parser

variable {s : List Char}

/-- What a reader of one lexeme of a known length does. -/
theorem lexeme_apply (p : Nat → Parser Unit) (length : List Char → Nat) :
    (remaining >>= fun s => guard (length s != 0) >>= fun _ => p (length s)) s =
      if length s = 0 then none else p (length s) s := by
  rw [remaining_bind]
  by_cases hzero : length s = 0
  · rw [if_pos hzero, hzero]
    rfl
  · rw [if_neg hzero, bne_iff_ne.mpr hzero, guard_true_bind]

theorem isEmpty_take {p : List Char → Nat} (hnil : p [] = 0) (h : p s ≠ 0) :
    (s.take (p s)).isEmpty = false := by
  cases s with
  | nil => exact absurd hnil h
  | cons c s => simp [List.isEmpty_eq_false_iff, h]

/-- No blank and no comment is without text. -/
theorem spansTextAny_of_lexeme {commentLength : List Char → Nat} (hnil : commentLength [] = 0)
    {step : Step Unit s} (h : orElse blanks (comment commentLength) s = some step) :
    Tree.spansTextAny step.output = true := by
  unfold orElse at h
  split at h
  · next blank hblanks =>
      cases h
      rw [blanks, lexeme_apply] at hblanks
      split at hblanks
      · cases hblanks
      · next hlength =>
          rw [take, if_neg hlength] at hblanks
          cases hblanks
          have htaken : (s.take (lengthWhile isSpacing s)).isEmpty = false :=
            isEmpty_take (p := lengthWhile isSpacing) rfl hlength
          simp [Tree.spansTextAny, Tree.spansText, htaken]
  · rw [comment, lexeme_apply] at h
    split at h
    · cases h
    · next hlength =>
        cases h
        simp [Tree.spansTextAny, Tree.spansText, isEmpty_take hnil hlength]

end Parser

namespace Lexis

open Parser

variable {lexis : Lexis} {s : List Char}

/-- Read blanks or one comment. -/
def gap (lexis : Lexis) : Parser Bool := do
  orElse blanks (comment lexis.commentLength)
  pure true

theorem trivia_apply (lexis : Lexis) (s : List Char) :
    lexis.trivia s = some (rounds lexis.gap s) := rfl

/-- Behind the blanks and comments there are no more of them. -/
theorem none_of_trivia (hnil : lexis.commentLength [] = 0) {step : Step Unit s}
    (h : lexis.trivia s = some step) :
    orElse blanks (comment lexis.commentLength) step.rest = none := by
  cases h
  refine none_of_many (fun s lexeme hlexeme => ?_) s
  exact spansTextAny_of_lexeme hnil hlexeme

theorem trivia_of_trivia (hnil : lexis.commentLength [] = 0) {step : Step Unit s}
    (h : lexis.trivia s = some step) :
    lexis.trivia step.rest = some ⟨(), [], step.rest, by simp⟩ := by
  rw [trivia_apply, gap, rounds_of_none (bind_of_none _ (none_of_trivia hnil h))]

/-- What begins with blanks begins with all of them. -/
theorem rounds_gap_of_blanks (lexis : Lexis) (h : lengthWhile isSpacing s ≠ 0) :
    (rounds lexis.gap s).output = .token (s.take (lengthWhile isSpacing s)) ::
        (rounds lexis.gap (s.drop (lengthWhile isSpacing s))).output ∧
      (rounds lexis.gap s).rest = (rounds lexis.gap (s.drop (lengthWhile isSpacing s))).rest := by
  have hblanks : blanks s = some ⟨(), [.token (s.take (lengthWhile isSpacing s))],
      s.drop (lengthWhile isSpacing s), by simp⟩ := by
    rw [blanks, lexeme_apply, if_neg h, take, if_neg h]
  have hround : lexis.gap s = some ⟨true, [.token (s.take (lengthWhile isSpacing s))],
      s.drop (lengthWhile isSpacing s), by simp⟩ := by
    rw [gap, bind_apply, orElse_of_some hblanks]
    rfl
  have hgoes : (s.take (lengthWhile isSpacing s)).isEmpty = false :=
    isEmpty_take (p := lengthWhile isSpacing) rfl h
  rw [rounds_eq, hround]
  simp [goesOn, Tree.spansTextAny, Tree.spansText, hgoes, Step.andThen]

theorem lengths_of_none {commentLength : List Char → Nat}
    (h : orElse blanks (comment commentLength) s = none) :
    lengthWhile isSpacing s = 0 ∧ commentLength s = 0 := by
  unfold orElse at h
  split at h
  · cases h
  · next hblanks =>
      rw [blanks, lexeme_apply] at hblanks
      rw [comment, lexeme_apply] at h
      constructor
      · refine Decidable.byContradiction fun hlength => ?_
        rw [if_neg hlength, take, if_neg hlength] at hblanks
        cases hblanks
      · refine Decidable.byContradiction fun hlength => ?_
        rw [if_neg hlength] at h
        cases h

theorem symbol_nil (lexis : Lexis) (c : Char) (lead : List Char) :
    lexis.symbol (no_index (String.ofList (c :: lead))) [] = none :=
  bind_nil fun _ => by
    rw [remaining_bind, begins, String.toList_ofList]
    rfl

theorem word_nil (lexis : Lexis) (hnil : lexis.wordAt [] = []) : lexis.word [] = none :=
  bind_nil fun _ => by
    rw [remaining_bind, hnil]
    rfl

end Lexis

end Syntax

end TodoIndex
