import TodoIndex.Proofs.Syntax.Rounds
import TodoIndex.Syntax.Lexeme

/-! # Readers that agree on short texts

The readers of a language are tied together depth by depth, so two depths give two readers for one
construct.  `Agree n p q` says that two readers do the same on every text of at most `n`
characters.  `Agree` and `Advances` are classes: how a reader is put together from others is
followed by instances, so what is said of a construct does not depend on how it is spelled.  The one
step with an argument is `Agree.after`: behind a token the texts are shorter.
-/

namespace TodoIndex

namespace Syntax

namespace Parser

variable {α β : Type} {m n : Nat} {s : List Char}

/-! ## Readers that shorten the text -/

/-- A reader that never succeeds on a text without taking a character off it, if it has any. -/
class Advances (p : Parser α) : Prop where
  shortens : ∀ s step, p s = some step → step.rest.length ≤ s.length - 1

theorem rest_of_take {k : Nat} {step : Step Unit s} (h : take k s = some step) :
    step.rest = s.drop k := by
  unfold take at h
  split at h
  · next hzero =>
      cases h
      rw [hzero, List.drop_zero]
  · cases h
    rfl

namespace Advances

variable {p q : Parser α}

theorem of_take {k : Nat} (h : k ≠ 0) : Advances (take k) where
  shortens s step hstep := by
    rw [rest_of_take hstep, List.length_drop]
    omega

instance take (k : Nat) : Advances (take (k + 1)) :=
  .of_take (Nat.succ_ne_zero k)

instance fail : Advances (fail : Parser α) :=
  ⟨fun _ _ h => by cases h⟩

instance bind (f : α → Parser β) [hp : Advances p] : Advances (p >>= f) where
  shortens s step h := by
    obtain ⟨first, hfirst, second, -, rfl⟩ := exists_of_bind h
    exact Nat.le_trans second.length_rest_le (hp.shortens s first hfirst)

instance (priority := low) bind_right (f : α → Parser β) [hf : ∀ a, Advances (f a)] :
    Advances (p >>= f) where
  shortens s step h := by
    obtain ⟨first, -, second, hsecond, rfl⟩ := exists_of_bind h
    have hle := (hf first.value).shortens first.rest second hsecond
    have hfirst := first.length_rest_le
    change second.rest.length ≤ _
    omega

theorem guard_bind {b : Bool} {f : Unit → Parser α} (h : b = true → Advances (f ())) :
    Advances (guard b >>= f) := by
  cases b with
  | false => exact @bind _ _ Parser.fail f fail
  | true => exact @bind_right _ _ (pure ()) f fun _ => h rfl

instance ite {c : Prop} [Decidable c] [Advances p] [Advances q] :
    Advances (if c then p else q) := by
  split <;> infer_instance

instance orElse [hp : Advances p] [hq : Advances q] : Advances (orElse p q) where
  shortens s step h := by
    unfold Parser.orElse at h
    split at h
    · next hfirst =>
        cases h
        exact hp.shortens s step hfirst
    · exact hq.shortens s step h

end Advances

/-- A repetition of a reader that shortens the text shortens it, if the reader does not fail. -/
theorem Advances.length_rest_of_many {p : Parser α} [hp : Advances p] {step : Step α s}
    (h : p s = some step) : (rounds (p >>= fun _ => pure true) s).rest.length ≤ s.length - 1 := by
  have hshort := hp.shortens s step h
  have hround : (p >>= fun _ => pure true) s =
      some (step.andThen ⟨true, [], step.rest, by simp⟩) := by
    rw [bind_apply, h]
    rfl
  rw [rounds_eq, hround]
  dsimp only
  split
  · exact Nat.le_trans (rounds (p >>= fun _ => pure true) step.rest).length_rest_le hshort
  · exact hshort

end Parser

namespace Lexis

open Parser

variable (lexis : Lexis)

theorem advances_symbol_of_ne {lead : String} (h : lead ≠ "") : Advances (lexis.symbol lead) := by
  have htake : Advances (take lead.length) :=
    .of_take fun hzero => h (String.length_eq_zero_iff.mp hzero)
  unfold symbol
  infer_instance

/-- A fixed token has a first character, which is taken off the text. -/
instance advances_symbol (c : Char) (lead : List Char) :
    Advances (lexis.symbol (no_index (String.ofList (c :: lead)))) :=
  lexis.advances_symbol_of_ne (by simp)

instance advances_word : Advances lexis.word := by
  refine @Advances.bind_right _ _ _ _ fun _ => @Advances.bind_right _ _ _ _ fun s => ?_
  refine Advances.guard_bind fun hword => ?_
  have hlength : (lexis.wordAt s).length ≠ 0 := by simpa using hword
  have htake : Advances (take (lexis.wordAt s).length) := .of_take hlength
  infer_instance

instance advances_keyword (w : String) : Advances (lexis.keyword w) := by
  unfold keyword
  infer_instance

end Lexis

namespace Parser

variable {α β : Type} {m n : Nat} {s : List Char}

/-! ## Agreement -/

/-- Two readers do the same on every text of at most `n` characters. -/
class Agree (n : Nat) (p q : Parser α) : Prop where
  read : ∀ s, s.length ≤ n → p s = q s

/-- A text of at most `m` characters has at most `n` when one is taken off it. -/
class OneLess (m : Nat) (n : outParam Nat) : Prop where
  le : m ≤ n + 1

instance (priority := low) oneLess_same (n : Nat) : OneLess n n :=
  ⟨Nat.le_succ n⟩

instance oneLess_succ (n : Nat) : OneLess (n + 1) n :=
  ⟨Nat.le_refl _⟩

theorem bind_congr {p q : Parser α} {f g : α → Parser β} (h : p s = q s)
    (hnext : ∀ first, p s = some first → f first.value first.rest = g first.value first.rest) :
    (p >>= f) s = (q >>= g) s := by
  rw [bind_apply, bind_apply, ← h]
  cases hp : p s with
  | none => rfl
  | some first => rw [Option.bind_some, Option.bind_some, hnext first hp]

theorem ite_congr_at {c : Prop} [Decidable c] {p q p' q' : Parser α} (hp : c → p s = p' s)
    (hq : ¬c → q s = q' s) : (if c then p else q) s = (if c then p' else q') s := by
  split
  · next h => exact hp h
  · next h => exact hq h

theorem wholeTree_congr {p q : Parser Unit} (h : p s = q s) : wholeTree p s = wholeTree q s := by
  have hbind : (p >>= fun _ => takeRest) s = (q >>= fun _ => takeRest) s :=
    bind_congr h fun _ _ => rfl
  unfold wholeTree orElse
  rw [hbind]

namespace Agree

variable {p q p' q' : Parser α}

theorem mono (h : m ≤ n) (hagree : Agree n p q) : Agree m p q :=
  ⟨fun s hs => hagree.read s (Nat.le_trans hs h)⟩

theorem trans {t : Parser α} (hpq : Agree n p q) (hqt : Agree n q t) : Agree n p t :=
  ⟨fun s hs => (hpq.read s hs).trans (hqt.read s hs)⟩

instance (priority := low) refl (p : Parser α) : Agree n p p :=
  ⟨fun _ _ => rfl⟩

instance (priority := low) bind {f g : α → Parser β} [h : Agree n p q]
    [hnext : ∀ a, Agree n (f a) (g a)] : Agree n (p >>= f) (q >>= g) where
  read s hs := bind_congr (h.read s hs) fun first _ =>
    (hnext first.value).read first.rest (Nat.le_trans first.length_rest_le hs)

/-- Behind a reader that shortens the text, agreement on shorter texts is enough. -/
instance after {f g : α → Parser β} [hless : OneLess m n] [hp : Advances p] [h : Agree m p q]
    [hnext : ∀ a, Agree n (f a) (g a)] : Agree m (p >>= f) (q >>= g) where
  read s hs := by
    refine bind_congr (h.read s hs) fun first hfirst => (hnext first.value).read first.rest ?_
    have hshort := hp.shortens s first hfirst
    have hbound := hless.le
    omega

theorem bind_of {f g : α → Parser β} (hnext : ∀ a, Agree n (f a) (g a)) :
    Agree n (p >>= f) (p >>= g) :=
  inferInstance

theorem after_of [OneLess m n] [Advances p] {f g : α → Parser β}
    (hnext : ∀ a, Agree n (f a) (g a)) : Agree m (p >>= f) (p >>= g) :=
  inferInstance

instance orElse [hp : Agree n p p'] [hq : Agree n q q'] :
    Agree n (orElse p q) (orElse p' q') where
  read s hs := orElse_congr (hp.read s hs) (hq.read s hs)

instance ite {c : Prop} [Decidable c] [Agree n p p'] [Agree n q q'] :
    Agree n (if c then p else q) (if c then p' else q') := by
  split <;> infer_instance

instance ite_of_false [Agree n q q'] :
    Agree n (if false = true then p else q) (if false = true then p' else q') := by
  rw [if_neg Bool.false_ne_true, if_neg Bool.false_ne_true]
  infer_instance

instance optional [h : Agree n p q] : Agree n (optional p) (optional q) where
  read s hs := by
    unfold Parser.optional
    rw [h.read s hs]

instance withText [h : Agree n p q] : Agree n (withText p) (withText q) where
  read s hs := by
    unfold Parser.withText
    rw [h.read s hs]

instance group {p q : Parser (Option (Kind × Option (List Char)) × α)} [h : Agree n p q] :
    Agree n (group p) (group q) where
  read s hs := by
    unfold Parser.group
    rw [h.read s hs]

theorem rounds_eq_rounds {p q : Parser Bool} (h : Agree n p q) (hs : s.length ≤ n) :
    rounds p s = rounds q s := by
  induction hlength : s.length using Nat.strongRecOn generalizing s with
  | ind length ih =>
      rw [rounds_eq, rounds_eq, h.read s hs]
      split
      · rfl
      · next round _ =>
          split
          · next hgoes =>
              have hlt := length_rest_lt_of_goesOn hgoes
              rw [ih _ (hlength ▸ hlt) (Nat.le_trans (Nat.le_of_lt hlt) hs) rfl]
          · rfl

instance repeatWhile {p q : Parser Bool} [h : Agree n p q] :
    Agree n (repeatWhile p) (repeatWhile q) where
  read s hs := by rw [repeatWhile_apply, repeatWhile_apply, h.rounds_eq_rounds hs]

theorem repeatWhile_of {p q : Parser Bool} (h : Agree n p q) :
    Agree n (Parser.repeatWhile p) (Parser.repeatWhile q) :=
  inferInstance

instance many [Agree n p q] : Agree n (many p) (many q) := by
  unfold Parser.many
  infer_instance

/-- Readers agree on the empty text where neither can read it. -/
theorem zero (hp : p [] = none) (hq : q [] = none) : Agree 0 p q where
  read s hs := by rw [List.length_eq_zero_iff.mp (Nat.le_zero.mp hs), hp, hq]

/-- Readers that agree from one depth to the next agree from any depth to any later one. -/
theorem of_succ {f : Nat → Parser α} {d e : Nat} (hde : d ≤ e)
    (h : ∀ depth, d ≤ depth → Agree n (f depth) (f (depth + 1))) : Agree n (f d) (f e) := by
  induction hde with
  | refl => exact refl _
  | step hle ih => exact ih.trans (h _ hle)

end Agree

/-- A source is read in the same way at all depths from which on one more depth does not matter. -/
theorem wholeTree_eq_of_succ {f : Nat → Parser Unit} {d e : Nat} {source : List Char} (hde : d ≤ e)
    (h : ∀ depth, d ≤ depth → Agree source.length (f depth) (f (depth + 1))) :
    wholeTree (f d) source = wholeTree (f e) source :=
  wholeTree_congr ((Agree.of_succ hde h).read source (Nat.le_refl _))

end Parser

namespace Lexis

open Parser

variable {α : Type} {m n : Nat} (lexis : Lexis)

/-- A fixed token that was there is taken off the text. -/
theorem shortens_of_symbol? {lead : String} [hlead : Advances (lexis.symbol lead)] {s : List Char}
    {step : Step Bool s} (h : lexis.symbol? lead s = some step) (hvalue : step.value = true) :
    step.rest.length ≤ s.length - 1 := by
  obtain ⟨seen, hseen, second, hsecond, rfl⟩ := exists_of_bind h
  have hrest := seen.length_rest_le
  split at hsecond
  · have hshort := (Advances.bind (p := lexis.symbol lead) fun _ => pure true).shortens _ _ hsecond
    change second.rest.length ≤ _
    omega
  · cases hsecond
    cases hvalue

instance agree_symbol?_bind {c : Char} {lead : List Char} {f g : Bool → Parser α}
    [hless : OneLess m n] [htrue : Agree n (f true) (g true)]
    [hfalse : Agree m (f false) (g false)] :
    Agree m (lexis.symbol? (no_index (String.ofList (c :: lead))) >>= f)
      (lexis.symbol? (no_index (String.ofList (c :: lead))) >>= g) where
  read s hs := by
    refine bind_congr rfl fun first hfirst => ?_
    have hrest := first.length_rest_le
    cases hvalue : first.value with
    | true =>
        have hshort := lexis.shortens_of_symbol? hfirst hvalue
        have hbound := hless.le
        exact htrue.read first.rest (by omega)
    | false => exact hfalse.read first.rest (by omega)

instance agree_node {p q : Parser (Option (Kind × Option (List Char)) × α)} [Agree n p q] :
    Agree n (lexis.node p) (lexis.node q) := by
  unfold node
  infer_instance

instance agree_plainNode {p q : Parser α} [Agree n p q] :
    Agree n (lexis.plainNode p) (lexis.plainNode q) := by
  unfold plainNode
  infer_instance

instance agree_named {p q : Parser α} [Agree n p q] :
    Agree n (lexis.named p) (lexis.named q) := by
  unfold named
  infer_instance

end Lexis

end Syntax

end TodoIndex
