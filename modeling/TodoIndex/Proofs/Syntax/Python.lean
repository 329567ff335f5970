import TodoIndex.Proofs.Syntax.Agreement
import TodoIndex.Proofs.Syntax.Trivia
import TodoIndex.Syntax.Python

/-! # The depth of nesting does not matter

A group in brackets begins with a bracket, and a block comes behind a line with something on it, so
readers whose depth is more than the length of a text do what all deeper ones do.
-/

namespace TodoIndex

namespace Syntax

namespace Python

open TodoIndex.Syntax.Parser

-- An instance grows with the reader it is about.
set_option synthInstance.maxSize 100000

/-- The readers of what stands between brackets agree. -/
class Rules.AgreeBrackets (n : Nat) (r r' : Rules) : Prop where
  bracketed : Parser.Agree n r.bracketed r'.bracketed
  advances_bracketed : Advances r.bracketed
  interpolation : Parser.Agree n r.interpolation r'.interpolation

/-- All readers agree. -/
class Rules.Agree (n : Nat) (r r' : Rules) : Prop extends r.AgreeBrackets n r' where
  block : ∀ indent, Parser.Agree n (r.block indent) (r'.block indent)

attribute [instance] Rules.AgreeBrackets.bracketed Rules.AgreeBrackets.interpolation
  Rules.Agree.block

variable {m n : Nat} {r r' : Rules}

/-! ## Tokens -/

section

variable [h : r.AgreeBrackets n r']
include h

instance agree_formattedRest (close : List Char) :
    Agree n (formattedRest r close) (formattedRest r' close) := by
  unfold formattedRest
  refine .repeatWhile_of <| .bind_of fun _ => .bind_of fun _ => .bind_of fun _ => ?_
  split <;> infer_instance

instance agree_stringLiteral : Agree n (stringLiteral r) (stringLiteral r') := by
  unfold stringLiteral
  refine .bind_of fun s => ?_
  split <;> infer_instance

instance agree_token : Agree n (token r) (token r') := by
  unfold token
  refine .bind_of fun s => ?_
  split <;> infer_instance

instance agree_lineToken : Agree n (lineToken r) (lineToken r') := by
  unfold lineToken
  refine .bind_of fun s => ?_
  split <;> infer_instance

end

section

variable [hless : OneLess m n] [h : r.AgreeBrackets n r']
include hless h

theorem agree_bracketed : Agree m (bracketed r) (bracketed r') := by
  unfold bracketed
  refine .bind_of fun _ => ?_
  split <;> infer_instance

theorem agree_interpolation : Agree m (interpolation r) (interpolation r') := by
  unfold interpolation
  dsimp only
  refine .bind_of fun _ => .bind_of fun _ => .after_of fun _ => ?_
  refine @Agree.bind _ _ _ _ _ _ _ inferInstance fun _ => .bind_of fun colon => ?_
  split
  · refine @Agree.bind _ _ _ _ _ _ _ (.repeatWhile_of ?_) fun _ => inferInstance
    refine .bind_of fun _ => .bind_of fun _ => .bind_of fun _ => ?_
    split <;> infer_instance
  · infer_instance

end

/-! ## Lines -/

theorem quotesAt_ne_nil {s lead : List Char} (h : stringPrefix? s = some lead) :
    quotesAt (s.drop lead.length) ≠ [] := by
  unfold stringPrefix? at h
  dsimp only at h
  split at h
  · next c tail hdrop =>
      split at h
      · cases h
        rw [hdrop]
        unfold quotesAt
        split
        · split <;> simp
        · simp
        · next hnil => cases hnil
      · cases h
  · cases h

theorem advances_stringLiteral (r : Rules) : Advances (stringLiteral r) := by
  unfold stringLiteral
  refine @Advances.bind_right _ _ _ _ fun s => ?_
  split
  · infer_instance
  · next lead hlead =>
      have hquotes := List.length_pos_iff.mpr (quotesAt_ne_nil hlead)
      dsimp only
      have hopening : ∀ k,
          Advances (take (lead.length + (quotesAt (s.drop lead.length)).length + k)) :=
        fun k => .of_take (by omega)
      have hopen := hopening 0
      rw [Nat.add_zero] at hopen
      infer_instance

theorem length_takeWhile_pos {p : Char → Bool} {c : Char} {s : List Char} (h : p c = true) :
    lengthWhile p (c :: s) ≠ 0 := by
  simp [lengthWhile, h]

theorem advances_token (hbracketed : Advances r.bracketed) : Advances (token r) := by
  have hstring := advances_stringLiteral r
  unfold token
  refine @Advances.bind_right _ _ _ _ fun s => ?_
  split
  · infer_instance
  · next c tail =>
      by_cases hword : isWordChar c = true
      · have htake : Advances (take (lengthWhile isWordChar (c :: tail))) :=
          .of_take (length_takeWhile_pos hword)
        infer_instance
      · simp only [if_neg hword]
        infer_instance

theorem advances_comment (commentLength : List Char → Nat) : Advances (comment commentLength) where
  shortens s step h := by
    rw [comment, lexeme_apply] at h
    split at h
    · cases h
    · next hlength =>
        cases h
        change (s.drop _).length ≤ _
        rw [List.length_drop]
        omega

theorem advances_lineToken (hbracketed : Advances r.bracketed) : Advances (lineToken r) := by
  have htoken := advances_token hbracketed
  have hcomment := advances_comment commentLength
  unfold lineToken
  refine @Advances.bind_right _ _ _ _ fun s => ?_
  split
  · infer_instance
  · infer_instance
  · infer_instance
  · infer_instance
  · infer_instance
  · next c tail hfeed _ _ _ =>
      by_cases hspacing : isSpacing c = true
      · have hblank : (isSpacing c && c != '\n') = true := by
          rw [hspacing, Bool.true_and, bne_iff_ne]
          rintro rfl
          exact hfeed rfl
        have htake := Advances.of_take
          (length_takeWhile_pos (p := fun x => isSpacing x && x != '\n') (s := tail) hblank)
        infer_instance
      · simp only [if_neg hspacing]
        infer_instance

/-- Where no blank and no comment comes next, a line has a token. -/
theorem exists_of_lineToken {s : List Char} (hs : s ≠ [])
    (hsettled : orElse blanks (comment commentLength) s = none) :
    ∃ step, lineToken r s = some step := by
  obtain ⟨hspacing, hcomment⟩ := Lexis.lengths_of_none hsettled
  have hunspaced : ∀ c tail, s = c :: tail → isSpacing c = false := by
    rintro c tail rfl
    refine Bool.eq_false_iff.mpr fun hc => length_takeWhile_pos hc hspacing
  unfold lineToken
  rw [remaining_bind]
  split
  · exact absurd rfl hs
  · exact absurd (hunspaced _ _ rfl) (by decide)
  · exact absurd hcomment (length_takeWhile_pos (by decide))
  · exact ⟨_, rfl⟩
  · exact ⟨_, rfl⟩
  · next c tail _ _ _ _ =>
      rw [hunspaced c tail rfl, if_neg Bool.false_ne_true]
      cases htoken : token r (c :: tail) with
      | none => exact ⟨_, orElse_of_none htoken⟩
      | some step => exact ⟨_, orElse_of_some htoken⟩

/-! ## Blocks -/

section

variable [hless : OneLess m n] [h : r.Agree n r'] [hbrackets : r.AgreeBrackets m r']
include hless h hbrackets

instance agree_function (indent : Nat) : Agree m (function r indent) (function r' indent) := by
  have hline : Agree n (lineAndBlock r indent) (lineAndBlock r' indent) := by
    unfold lineAndBlock
    infer_instance
  unfold function
  infer_instance

/-- Behind a line there is less text, so its block is read from less text. -/
theorem lineAndBlock_eq {indent : Nat} {s : List Char} (hs : s.length ≤ m) (hnonempty : s ≠ [])
    (hsettled : orElse blanks (comment commentLength) s = none) :
    lineAndBlock r indent s = lineAndBlock r' indent s := by
  have hmany : Agree m (many (lineToken r)) (many (lineToken r')) := inferInstance
  refine bind_congr (hmany.read s hs) fun first hfirst => ?_
  obtain ⟨token, htoken⟩ := exists_of_lineToken (r := r) hnonempty hsettled
  have hshort := (advances_lineToken hbrackets.advances_bracketed).length_rest_of_many htoken
  rw [many_apply] at hfirst
  cases hfirst
  have hbound := hless.le
  exact Agree.read (n := n) _ (by omega)

theorem agree_statement (indent : Nat) : Agree m (statement r indent) (statement r' indent) := by
  refine ⟨fun s hs => bind_congr rfl fun first hfirst => ?_⟩
  have hlength : first.rest.length ≤ m := Nat.le_trans first.length_rest_le hs
  have hsettled := Lexis.none_of_trivia rfl hfirst
  generalize first.rest = s at hlength hsettled
  rw [remaining_bind, remaining_bind]
  cases hs : s with
  | nil => rfl
  | cons c tail =>
      change (guard true >>= _) _ = (guard true >>= _) _
      rw [guard_true_bind, guard_true_bind, ← hs]
      refine orElse_congr ((agree_function indent).read s hlength)
        (lineAndBlock_eq (n := n) hlength ?_ hsettled)
      simp [hs]

end

theorem agree_block {indent : Nat}
    (hstatement : Agree n (statement r indent) (statement r' indent)) :
    Agree n (block r indent) (block r' indent) := by
  unfold block
  refine .repeatWhile_of <| .bind_of fun _ => ?_
  dsimp only
  infer_instance

/-! ## Depths -/

theorem advances_bracketed_rules (d : Nat) : Advances (rules d).bracketed := by
  cases d with
  | zero => exact Advances.fail
  | succ d =>
      change Advances (bracketed (rules d))
      unfold bracketed
      refine @Advances.bind_right _ _ _ _ fun s => ?_
      split <;> infer_instance

theorem bracketed_nil (d : Nat) : (rules d).bracketed [] = none := by
  cases d with
  | zero => rfl
  | succ d => exact remaining_bind _ _

theorem interpolation_nil (d : Nat) : (rules d).interpolation [] = none := by
  cases d with
  | zero => rfl
  | succ d => exact remaining_bind _ _

theorem statement_nil (r : Rules) (indent : Nat) : statement r indent [] = none :=
  bind_nil fun _ => remaining_bind _ _

theorem agreeBrackets_rules_succ {d : Nat} (hd : n ≤ d) :
    (rules d).AgreeBrackets n (rules (d + 1)) := by
  induction n generalizing d with
  | zero =>
      exact ⟨.zero (bracketed_nil d) (bracketed_nil (d + 1)), advances_bracketed_rules d,
        .zero (interpolation_nil d) (interpolation_nil (d + 1))⟩
  | succ n ih =>
      obtain ⟨d, rfl⟩ : ∃ e, d = e + 1 := ⟨d - 1, by omega⟩
      have hbelow : (rules d).AgreeBrackets n (rules (d + 1)) := ih (by omega)
      exact ⟨agree_bracketed, advances_bracketed_rules (d + 1), agree_interpolation⟩

theorem agree_rules_succ {d : Nat} (hd : n + 1 ≤ d) : (rules d).Agree n (rules (d + 1)) := by
  induction n generalizing d with
  | zero =>
      obtain ⟨d, rfl⟩ : ∃ e, d = e + 1 := ⟨d - 1, by omega⟩
      exact
        { toAgreeBrackets := agreeBrackets_rules_succ (Nat.zero_le _)
          block := fun _ => agree_block (.zero (statement_nil _ _) (statement_nil _ _)) }
  | succ n ih =>
      obtain ⟨d, rfl⟩ : ∃ e, d = e + 1 := ⟨d - 1, by omega⟩
      have hbelow : (rules d).Agree n (rules (d + 1)) := ih (by omega)
      have hbrackets : (rules d).AgreeBrackets (n + 1) (rules (d + 1)) :=
        agreeBrackets_rules_succ (by omega)
      exact
        { toAgreeBrackets := agreeBrackets_rules_succ (by omega)
          block := fun indent => agree_block (agree_statement indent) }

theorem agree_sourceFile [r.Agree n r'] : Agree n (sourceFile r) (sourceFile r') := by
  have hstatement : Agree n (statement r 0) (statement r' 0) := agree_statement 0
  have hblock : Agree n (block r 0) (block r' 0) := agree_block hstatement
  unfold sourceFile
  infer_instance

/-- A source is read in the same way at all depths beyond its length. -/
theorem parse_eq (source : List Char) {d : Nat} (hd : source.length + 1 ≤ d) :
    parse source = wholeTree (sourceFile (rules d)) source := by
  refine wholeTree_eq_of_succ (f := fun d => sourceFile (rules d)) hd fun e he => ?_
  have hrules : (rules e).Agree source.length (rules (e + 1)) := agree_rules_succ he
  exact agree_sourceFile

end Python

end Syntax

end TodoIndex
