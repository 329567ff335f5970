import TodoIndex.Proofs.Syntax.Agreement
import TodoIndex.Proofs.Syntax.Trivia
import TodoIndex.Syntax.Go

/-! # The depth of nesting does not matter

A group in brackets begins with a bracket, and a type with a bracket, a mark or a word, so readers
whose depth is more than the length of a text do what all deeper ones do.
-/

namespace TodoIndex

namespace Syntax

namespace Go

open TodoIndex.Syntax.Parser

-- An instance grows with the reader it is about.
set_option synthInstance.maxSize 100000

variable {m n d : Nat}

instance agree_token {p p' : Parser Unit} [Agree n p p'] : Agree n (token p) (token p') := by
  unfold token
  refine .bind_of fun _ => .bind_of fun s => ?_
  cases s <;> dsimp only <;> infer_instance

theorem bracketed_nil (d : Nat) : bracketed d [] = none := by
  cases d with
  | zero => rfl
  | succ d => exact bind_nil fun _ => rfl

theorem agree_bracketed_succ (hd : n ≤ d) : Agree n (bracketed d) (bracketed (d + 1)) := by
  induction n generalizing d with
  | zero => exact .zero (bracketed_nil d) (bracketed_nil (d + 1))
  | succ n ih =>
      obtain ⟨d, rfl⟩ : ∃ e, d = e + 1 := ⟨d - 1, by omega⟩
      have hbelow : Agree n (bracketed d) (bracketed (d + 1)) := ih (by omega)
      unfold bracketed
      refine .bind_of fun _ => .bind_of fun _ => ?_
      split <;> infer_instance

instance advances_bracketed (d : Nat) : Advances (bracketed d) := by
  cases d with
  | zero => exact Advances.fail
  | succ d =>
      unfold bracketed
      refine @Advances.bind_right _ _ _ _ fun _ => @Advances.bind_right _ _ _ _ fun s => ?_
      split <;> infer_instance

theorem type_nil (d : Nat) : type d [] = none := by
  cases d with
  | zero => rfl
  | succ d =>
      exact bind_nil fun _ => (remaining_bind _ _).trans (bind_of_none _ (lexis.word_nil rfl))

theorem agree_type_succ (hd : n + 1 ≤ d) : Agree n (type d) (type (d + 1)) := by
  induction n generalizing d with
  | zero => exact .zero (type_nil d) (type_nil (d + 1))
  | succ n ih =>
      obtain ⟨d, rfl⟩ : ∃ e, d = e + 1 := ⟨d - 1, by omega⟩
      have hbracketed : Agree (n + 1) (bracketed d) (bracketed (d + 1)) :=
        agree_bracketed_succ (by omega)
      have hnext : Agree n (bracketed d) (bracketed (d + 1)) := hbracketed.mono (by omega)
      have hbelow : Agree n (type d) (type (d + 1)) := ih (by omega)
      unfold type
      refine .bind_of fun _ => .bind_of fun _ => ?_
      split <;> infer_instance

section

variable [Agree n (bracketed d) (bracketed (d + 1))] [Agree n (type d) (type (d + 1))]

instance agree_function : Agree n (function d) (function (d + 1)) := by
  unfold function
  dsimp only
  infer_instance

instance agree_sourceFile : Agree n (sourceFile d) (sourceFile (d + 1)) := by
  unfold sourceFile otherDeclaration
  infer_instance

end

/-- A source is read in the same way at all depths beyond its length. -/
theorem parse_eq (source : List Char) (hd : source.length + 1 ≤ d) :
    parse source = wholeTree (sourceFile d) source := by
  refine wholeTree_eq_of_succ (f := sourceFile) hd fun e he => ?_
  have hbracketed := agree_bracketed_succ (Nat.le_of_succ_le he)
  have htype := agree_type_succ he
  exact agree_sourceFile

end Go

end Syntax

end TodoIndex
