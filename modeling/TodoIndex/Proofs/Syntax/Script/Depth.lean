import TodoIndex.Proofs.Syntax.Script.Agreement
import TodoIndex.Proofs.Syntax.Trivia

/-! # The depth of nesting does not matter

A text of `n` characters nests at most `n` brackets deep.  Between two brackets a construct may pass
through an operand and a statement, so readers of three times that depth do what all deeper ones do.
-/

namespace TodoIndex

namespace Syntax

namespace Script

open TodoIndex.Syntax.Parser

-- An instance grows with the reader it is about.
set_option synthInstance.maxSize 100000

variable {m n : Nat} {r r' : Rules}

/-! ## Statements behind decorators -/

theorem many_decorator_bind {s : List Char} (f : Unit → Parser Unit) (h : decorator r s = none) :
    (many (decorator r) >>= f) s = f () s := by
  refine bind_of_still (h := by simp) f ?_
  rw [many_apply, rounds_of_none (bind_of_none _ h)]

instance advances_decorator : Advances (decorator r) := by
  unfold decorator
  infer_instance

section

variable [hless : OneLess m n] [h : r.Agree n r']
include hless h

/-- Where no decorator is read, the statement behind the decorators is the whole statement; both
readers then come to what the first one does. -/
theorem decorated_eq (hbelow : ∀ s, r'.statement s = statement r s) {s : List Char}
    (hs : s.length ≤ m)
    (hstatement : statement r s = (many (decorator r) >>= fun _ => r.statement) s) :
    (many (decorator r) >>= fun _ => r.statement) s =
      (many (decorator r') >>= fun _ => r'.statement) s := by
  have hdecorator : Parser.Agree m (decorator r) (decorator r') := inferInstance
  cases hfirst : decorator r s with
  | none =>
      have hfirst' := hfirst
      rw [hdecorator.read s hs] at hfirst'
      rw [many_decorator_bind _ hfirst] at hstatement ⊢
      rw [many_decorator_bind _ hfirst', hbelow, hstatement]
  | some step =>
      have hmany : Parser.Agree m (many (decorator r)) (many (decorator r')) := inferInstance
      refine bind_congr (hmany.read s hs) fun some hsome => h.statement.read _ ?_
      have hshort := Advances.length_rest_of_many hfirst
      rw [many_apply] at hsome
      cases hsome
      have hbound := hless.le
      omega

theorem agree_statement [r.AgreeBrackets m r'] [r.AgreeOperands m r']
    (hbelow : ∀ s, r'.statement s = statement r s) :
    Parser.Agree m (statement r) (statement r') := by
  refine ⟨fun s hs => bind_congr rfl fun first hfirst => ?_⟩
  rw [remaining_bind, remaining_bind]
  have hlength : first.rest.length ≤ m := Nat.le_trans first.length_rest_le hs
  have hstill := Lexis.trivia_of_trivia rfl hfirst
  generalize first.rest = s at hlength hstill
  have hstatement : statement r s = _ := bind_of_still _ hstill
  rw [remaining_bind] at hstatement
  have hread : ∀ {p q : Parser Unit}, Parser.Agree m p q → p s = q s :=
    fun hagree => hagree.read s hlength
  cases hcase : s with
  | nil => rfl
  | cons c tail =>
      rw [hcase] at hstatement
      dsimp only at hstatement ⊢
      rw [← hcase] at hstatement ⊢
      refine ite_congr_at (fun _ => hread inferInstance) fun hexport => ?_
      refine ite_congr_at (fun _ => hread inferInstance) fun hword => ?_
      refine ite_congr_at (fun _ => rfl) fun hsemicolon => ?_
      refine ite_congr_at (fun _ => hread inferInstance) fun hbrace => ?_
      refine ite_congr_at (fun hat => decorated_eq hbelow hlength ?_) fun _ => hread inferInstance
      rw [hstatement, if_neg hexport, if_neg hword, if_neg hsemicolon, if_neg hbrace, if_pos hat]

end

/-! ## The empty text -/

/-- No construct can be read from the empty text. -/
structure Rules.FailAtEnd (r : Rules) : Prop where
  bracketed : r.bracketed [] = none
  angled : r.angled [] = none
  type : r.type [] = none
  assignment : ∀ resultType, r.assignment resultType [] = none
  operand : ∀ resultType, r.operand resultType [] = none
  element : r.element [] = none
  pattern : r.pattern [] = none
  statement : r.statement [] = none
  loose : r.loose [] = none
  block : r.block [] = none

theorem typeOperand_nil (r : Rules) (p : Parser Unit) : typeOperand r p [] = none :=
  bind_nil fun _ => rfl

theorem type_nil (r : Rules) : type r [] = none := by
  have hoperand : typeOperandUpTo r 64 [] = none := typeOperand_nil r _
  unfold type
  refine bind_nil fun first => ?_
  dsimp only
  split
  · exact bind_nil fun _ => bind_nil fun _ => bind_of_none _ hoperand
  · exact bind_of_none _ hoperand

theorem operand_nil (r : Rules) (resultType : Bool) : operand r resultType [] = none :=
  bind_of_none _ (bind_nil fun _ => rfl)

theorem pattern_nil (r : Rules) : pattern r [] = none :=
  bind_nil fun _ => (remaining_bind _ _).trans (bind_of_none _ (lexis.word_nil rfl))

theorem failAtEnd_rules (dialect : Dialect) (d : Nat) : (rules dialect d).FailAtEnd := by
  cases d with
  | zero => exact ⟨rfl, rfl, rfl, fun _ => rfl, fun _ => rfl, rfl, rfl, rfl, rfl, rfl⟩
  | succ d => exact
      { bracketed := bind_nil fun _ => rfl
        angled := bind_of_none _ (lexis.symbol_nil _ _)
        type := type_nil _
        assignment := fun resultType => bind_of_none _ (operand_nil _ resultType)
        operand := operand_nil _
        element := bind_of_none _ (lexis.symbol_nil _ _)
        pattern := pattern_nil _
        statement := bind_nil fun _ => rfl
        loose := bind_nil fun _ => rfl
        block := bind_of_none _ (lexis.symbol_nil _ _) }

/-! ## Depths -/

theorem advances_angled_rules (dialect : Dialect) (d : Nat) :
    Advances (rules dialect d).angled := by
  cases d with
  | zero => exact Advances.fail
  | succ d =>
      change Advances (angled (rules dialect d))
      unfold angled
      infer_instance

theorem agree_zero (dialect : Dialect) (d : Nat) :
    (rules dialect d).Agree 0 (rules dialect (d + 1)) :=
  have h := failAtEnd_rules dialect d
  have h' := failAtEnd_rules dialect (d + 1)
  { dialect := by cases d <;> rfl
    bracketed := .zero h.bracketed h'.bracketed
    angled := .zero h.angled h'.angled
    advances_angled := advances_angled_rules dialect d
    element := .zero h.element h'.element
    pattern := .zero h.pattern h'.pattern
    loose := .zero h.loose h'.loose
    block := .zero h.block h'.block
    type := .zero h.type h'.type
    assignment := fun resultType => .zero (h.assignment resultType) (h'.assignment resultType)
    operand := fun resultType => .zero (h.operand resultType) (h'.operand resultType)
    statement := .zero h.statement h'.statement }

section

variable {dialect : Dialect} {d : Nat}

theorem agreeBrackets_succ (h : (rules dialect d).Agree n (rules dialect (d + 1))) :
    (rules dialect (d + 1)).AgreeBrackets (n + 1) (rules dialect (d + 2)) where
  dialect := rfl
  bracketed := agree_bracketed
  angled := agree_angled
  advances_angled := advances_angled_rules dialect (d + 1)
  element := agree_element
  pattern := agree_pattern
  loose := agree_loose
  block := agree_block

theorem agreeOperands_succ (h : (rules dialect d).Agree n (rules dialect (d + 1)))
    (hbrackets : (rules dialect d).AgreeBrackets (n + 1) (rules dialect (d + 1))) :
    (rules dialect (d + 1)).AgreeOperands (n + 1) (rules dialect (d + 2)) where
  type := agree_type
  assignment := agree_assignment
  operand := agree_operand

end

theorem agree_rules_succ (dialect : Dialect) {d : Nat} (hd : 3 * n ≤ d) :
    (rules dialect d).Agree n (rules dialect (d + 1)) := by
  induction n generalizing d with
  | zero => exact agree_zero dialect d
  | succ n ih =>
      obtain ⟨e, rfl⟩ : ∃ e, d = e + 3 := ⟨d - 3, by omega⟩
      have hbrackets : ∀ i, (rules dialect (e + i + 1)).AgreeBrackets (n + 1)
          (rules dialect (e + i + 2)) := fun i => agreeBrackets_succ (ih (by omega))
      have hoperands : ∀ i, (rules dialect (e + i + 2)).AgreeOperands (n + 1)
          (rules dialect (e + i + 3)) := fun i => agreeOperands_succ (ih (by omega)) (hbrackets i)
      have hbelow : (rules dialect (e + 2)).Agree n (rules dialect (e + 3)) := ih (by omega)
      have hb := hbrackets 1
      have ho := hoperands 0
      exact
        { toAgreeBrackets := hbrackets 2
          toAgreeOperands := hoperands 1
          statement := agree_statement (fun _ => rfl) }

instance agree_sourceFile [r.Agree n r'] :
    Parser.Agree n (sourceFile r) (sourceFile r') := by
  unfold sourceFile
  infer_instance

/-- A source is read in the same way at all depths beyond the one that is chosen for it. -/
theorem parse_eq (dialect : Dialect) (source : List Char) {d : Nat}
    (hd : 4 * source.length + 16 ≤ d) :
    parse dialect source = wholeTree (sourceFile (rules dialect d)) source := by
  refine wholeTree_eq_of_succ (f := fun d => sourceFile (rules dialect d)) hd fun e he => ?_
  have hrules : (rules dialect e).Agree source.length (rules dialect (e + 1)) :=
    agree_rules_succ dialect (by omega)
  infer_instance

end Script

end Syntax

end TodoIndex
