import Mathlib.Algebra.BigOperators.Group.List.Basic
import Mathlib.Algebra.GroupWithZero.Nat
import Mathlib.Algebra.Order.Group.Nat
import Mathlib.Algebra.Order.Group.Synonym
import Mathlib.Algebra.Order.Monoid.Prod
import TodoIndex.Proofs.Scan.Telling

/-! # Calls come to their end

A call that holds the lock can go on, and one that has only been made can begin unless another one
holds the lock.  So the calls of an engine never wait for each other, and since each step leaves
less to do, all of them come to their end, in whatever order they take turns.
-/

namespace TodoIndex

/-! ## What cannot be avoided -/

section

variable {State : Type} {step : State → State → Prop} {P : State → Prop}

/-- In whatever way one steps on from a state, one comes to a state of which `P` holds, and does
not get stuck before. -/
inductive Inevitable (step : State → State → Prop) (P : State → Prop) : State → Prop where
  | now {s : State} : P s → Inevitable step P s
  | later {s : State} : (∃ next, step s next) → (∀ next, step s next → Inevitable step P next) →
      Inevitable step P s

/-- It is enough that there is a step as long as `P` does not hold, and that every step leaves less
to do. -/
theorem inevitable_of_left {Left : Type} [Preorder Left] [WellFoundedLT Left] (Inv : State → Prop)
    (left : State → Left) (hkeeps : ∀ s next, Inv s → step s next → Inv next)
    (hless : ∀ s next, Inv s → step s next → left next < left s)
    (hopen : ∀ s, Inv s → ¬ P s → ∃ next, step s next) {s : State} (h : Inv s) :
    Inevitable step P s := by
  -- The induction is on what is left to do.
  induction s using (InvImage.wf left wellFounded_lt).induction with
  | _ s ih =>
      by_cases hP : P s
      · exact .now hP
      · exact .later (hopen s h hP) fun next hstep =>
          ih next (hless s next h hstep) (hkeeps s next h hstep)

end

namespace SharedEngine

variable {e : Engine} {first : Disk} {s next : SharedEngine} {who : Nat} {call : Call}
  {progress : Progress} {obstacle : Store.Obstacle}

/-! ## What is left of all calls -/

/-- What all calls have still to do. -/
def left (s : SharedEngine) : ℕ ×ₗ ℕ :=
  (s.calls.map fun call => call.2.left).sum

theorem left_advance (h : s.advance who obstacle = some next) : next.left < s.left := by
  obtain ⟨call, progress, later, news, hadvances⟩ := advances_of_advance h
  obtain ⟨hlt, hget⟩ := List.getElem?_eq_some_iff.mp hadvances.called
  obtain ⟨before, behind, hcalls, -, hset⟩ := @List.exists_of_set _ who (call, later) s.calls hlt
  rw [hget] at hcalls
  rw [left, left, hadvances.calls, hset, hcalls]
  simp only [List.map_append, List.map_cons, List.sum_append, List.sum_cons]
  exact add_lt_add_right (add_lt_add_left hadvances.onward _) _

/-! ## The lock -/

/-- The call to which the lock belongs is one that holds it. -/
def Held (s : SharedEngine) : Prop :=
  ∀ who, s.holder = some who →
    ∃ call progress, s.calls[who]? = some (call, progress) ∧ progress.holdsLock = true

theorem held_make (engine : Engine) (disk : Disk) : (make engine disk).Held := nofun

theorem Held.ask (h : s.Held) (call : Call) : (s.ask call).Held := by
  intro who hholder
  obtain ⟨holder, progress, hcalled, hlock⟩ := h who hholder
  have hlt := (List.getElem?_eq_some_iff.mp hcalled).choose
  exact ⟨holder, progress, (List.getElem?_append_left hlt).trans hcalled, hlock⟩

theorem Held.advance (h : s.Held) (hadvance : s.advance who obstacle = some next) : next.Held := by
  obtain ⟨call, progress, later, news, hadvances⟩ := advances_of_advance hadvance
  have hlt := (List.getElem?_eq_some_iff.mp hadvances.called).choose
  intro holder hholder
  rw [hadvances.calls]
  by_cases hwho : holder = who
  · subst hwho
    refine ⟨call, later, List.getElem?_set_self hlt, ?_⟩
    rcases hadvances.lock with ⟨hkeeps, hsame⟩ | ⟨htakes, -⟩ | hnone
    · obtain ⟨_, _, hcalled, hlock⟩ := h holder (hsame ▸ hholder)
      cases hcalled.symm.trans hadvances.called
      exact hkeeps hlock
    · exact htakes
    · cases hnone.symm.trans hholder
  · rw [List.getElem?_set_ne (Ne.symm hwho)]
    rcases hadvances.lock with ⟨-, hsame⟩ | ⟨-, htakes⟩ | hnone
    · exact h holder (hsame ▸ hholder)
    · cases htakes.symm.trans hholder
      exact absurd rfl hwho
    · cases hnone.symm.trans hholder

/-! ## Nobody waits for ever -/

theorem advance_of_holdsLock (hcall : s.calls[who]? = some (call, progress))
    (hlock : progress.holdsLock = true) (obstacle : Store.Obstacle) :
    ∃ next, s.advance who obstacle = some next := by
  unfold SharedEngine.advance
  rw [hcall]
  cases progress with
  | asked => cases hlock
  | finished answer => cases hlock
  | _ => exact ⟨_, rfl⟩

theorem advance_of_free (hcall : s.calls[who]? = some (call, .asked)) (hfree : s.holder = none)
    (obstacle : Store.Obstacle) : ∃ next, s.advance who obstacle = some next := by
  unfold SharedEngine.advance
  rw [hcall]
  by_cases hload : call = .load
  · subst hload
    exact ⟨_, rfl⟩
  · exact ⟨_, enter_of_free hload hfree⟩

/-- As long as some call has not come to its end, some call can go on, whatever is in its way. -/
theorem Held.advance_of_open (h : s.Held) (hcall : s.calls[who]? = some (call, progress))
    (hopen : progress.answer? = none) (obstacle : Store.Obstacle) :
    ∃ other next, s.advance other obstacle = some next := by
  cases hlock : progress.holdsLock with
  | true => exact ⟨who, advance_of_holdsLock hcall hlock obstacle⟩
  | false =>
      cases progress with
      | asked =>
          cases hholder : s.holder with
          | none => exact ⟨who, advance_of_free hcall hholder obstacle⟩
          | some holder =>
              obtain ⟨_, _, hcalled, hholds⟩ := h holder hholder
              exact ⟨holder, advance_of_holdsLock hcalled hholds obstacle⟩
      | finished answer => cases hopen
      | _ => cases hlock

theorem Reachable.held (h : Reachable e first s) : s.Held := by
  induction h with
  | make => exact held_make e first
  | move m _ hm ih =>
      cases m with
      | ask call =>
          cases hm
          exact ih.ask call
      | advance who obstacle => exact ih.advance hm

/-- **All calls come to their end.**  When no more calls are made, those that were made are answered
in the end, in whatever order they do their steps and whatever is in the way of their saves. -/
theorem calls_answered (h : Reachable e first s) :
    Inevitable (fun s next => ∃ who obstacle, s.advance who obstacle = some next)
      (fun s => ∀ who < s.calls.length, (s.answer? who).isSome = true) s := by
  refine inevitable_of_left Held left ?_ ?_ ?_ h.held
  · rintro s next hheld ⟨who, obstacle, hadvance⟩
    exact hheld.advance hadvance
  · rintro s next - ⟨who, obstacle, hadvance⟩
    exact left_advance hadvance
  · intro s hheld hmissing
    simp only [not_forall, Bool.not_eq_true, Option.isSome_eq_false_iff, Option.isNone_iff_eq_none]
      at hmissing
    obtain ⟨who, hlt, hopen⟩ := hmissing
    have hcall := List.getElem?_eq_getElem hlt
    rw [answer?, progress?, hcall] at hopen
    obtain ⟨other, next, hadvance⟩ := hheld.advance_of_open hcall hopen .none
    exact ⟨next, other, .none, hadvance⟩

end SharedEngine

end TodoIndex
