import TodoIndex.Proofs.Syntax.Trivia
import TodoIndex.Proofs.Syntax.Agreement
import TodoIndex.Syntax.Rust

/-! # The depth of nesting does not matter

Every construct that calls for readers of a lower depth begins with a bracket, so readers whose
depth is the length of a text do what all deeper ones do.
-/

namespace TodoIndex

namespace Syntax

namespace Rust

open TodoIndex.Syntax.Parser

-- An instance grows with the reader it is about.
set_option synthInstance.maxSize 100000

/-- All readers agree. -/
class Rules.Agree (n : Nat) (r r' : Rules) : Prop where
  bracketed : Parser.Agree n r.bracketed r'.bracketed
  inert : Parser.Agree n r.inert r'.inert
  angled : Parser.Agree n r.angled r'.angled

attribute [instance] Rules.Agree.bracketed Rules.Agree.inert Rules.Agree.angled

variable {m n : Nat} {r r' : Rules}

instance agree_plainToken {p p' : Parser Unit} [Agree n p p'] :
    Agree n (plainToken p) (plainToken p') := by
  unfold plainToken
  refine .bind_of fun _ => .bind_of fun s => ?_
  cases s <;> dsimp only <;> infer_instance

theorem agree_between [OneLess m n] {p p' : Parser Unit} [Agree n p p'] :
    Agree m (between p) (between p') := by
  unfold between
  refine .bind_of fun _ => .bind_of fun _ => ?_
  split <;> infer_instance

section

variable [h : r.Agree n r']
include h

instance agree_typeToken : Agree n (typeToken r) (typeToken r') := by
  unfold typeToken
  infer_instance

theorem agree_angled [OneLess m n] : Agree m (angled r) (angled r') := by
  unfold angled
  infer_instance

instance agree_functionHead : Agree n (functionHead r) (functionHead r') := by
  unfold functionHead
  dsimp only
  infer_instance

instance agree_functionItem : Agree n (functionItem r) (functionItem r') := by
  unfold functionItem
  dsimp only
  infer_instance

instance agree_macroCall : Agree n (macroCall r) (macroCall r') := by
  unfold macroCall
  dsimp only
  infer_instance

instance agree_attributeItem : Agree n (attributeItem r) (attributeItem r') := by
  unfold attributeItem
  infer_instance

instance agree_item : Agree n (item r) (item r') := by
  unfold item
  refine .bind_of fun s => ?_
  split <;> infer_instance

instance agree_sourceFile : Agree n (sourceFile r) (sourceFile r') := by
  unfold sourceFile
  infer_instance

end

/-! ## Depths -/

theorem between_nil (p : Parser Unit) : between p [] = none :=
  bind_nil fun _ => rfl

theorem angled_nil (r : Rules) : angled r [] = none :=
  bind_of_none _ (lexis.symbol_nil _ _)

theorem agree_rules_succ {d : Nat} (hd : n ≤ d) : (rules d).Agree n (rules (d + 1)) := by
  induction n generalizing d with
  | zero =>
      cases d with
      | zero =>
          exact ⟨.zero rfl (between_nil _), .zero rfl (between_nil _), .zero rfl (angled_nil _)⟩
      | succ d =>
          exact ⟨.zero (between_nil _) (between_nil _), .zero (between_nil _) (between_nil _),
            .zero (angled_nil _) (angled_nil _)⟩
  | succ n ih =>
      obtain ⟨d, rfl⟩ : ∃ e, d = e + 1 := ⟨d - 1, by omega⟩
      have hbelow : (rules d).Agree n (rules (d + 1)) := ih (by omega)
      exact ⟨agree_between, agree_between, agree_angled⟩

/-- A source is read in the same way at all depths from its length on. -/
theorem parse_eq (source : List Char) {d : Nat} (hd : source.length + 1 ≤ d) :
    parse source = wholeTree (sourceFile (rules d)) source := by
  refine wholeTree_eq_of_succ (f := fun d => sourceFile (rules d)) hd fun e he => ?_
  have hrules : (rules e).Agree source.length (rules (e + 1)) := agree_rules_succ (by omega)
  infer_instance

end Rust

end Syntax

end TodoIndex
