import TodoIndex.Proofs.Scan.Ending
import TodoIndex.Proofs.Watch.Draining

/-! # Watchers can stop

A watcher that was told to stop waits for its rescans, and a rescan can wait for the lock of the
engine, which other calls hold.  None of them waits for the watcher.  So when nobody asks for more,
the watcher comes to its end, in whatever order the calls do their steps and rescans are joined.
-/

namespace TodoIndex

namespace Company

variable {c d : Company} {w : Watcher} {who : Nat}

/-! ## Companies in order -/

/-- The lock belongs to a call that holds it, the rescans are calls of the engine, and no rescan is
due that has not begun. -/
structure Orderly (c : Company) : Prop where
  held : c.shared.Held
  known : ∀ who ∈ c.running, who < c.shared.calls.length
  begun : c.watcher.rescans = []

theorem orderly_make (engine : Engine) (disk : Disk) (h : w.rescans = []) :
    Orderly (.make w (.make engine disk)) :=
  ⟨SharedEngine.held_make engine disk, nofun, h⟩

/-- The engine goes on and forgets no call. -/
theorem Orderly.later {shared : SharedEngine} (h : Orderly c) (hheld : shared.Held)
    (hknown : c.shared.calls.length ≤ shared.calls.length) : Orderly { c with shared } :=
  ⟨hheld, fun who hwho => (h.known who hwho).trans_le hknown, h.begun⟩

theorem Orderly.ask (h : Orderly c) (call : Call) :
    Orderly { c with shared := c.shared.ask call } :=
  h.later (h.held.ask call) (List.length_append ▸ Nat.le_add_right _ _)

theorem Orderly.advance {obstacle : Store.Obstacle} {shared : SharedEngine} (h : Orderly c)
    (hadvance : c.shared.advance who obstacle = some shared) : Orderly { c with shared } := by
  obtain ⟨_, _, _, _, hadvances⟩ := SharedEngine.advances_of_advance hadvance
  refine h.later (h.held.advance hadvance) (Nat.le_of_eq ?_)
  rw [hadvances.calls, List.length_set]

theorem Orderly.launch (h : Orderly c) (rescan : String × Path) : Orderly (c.launch rescan) := by
  have hasked := h.ask (.scan rescan.2 rescan.1)
  refine ⟨hasked.held, fun who hwho => ?_, h.begun⟩
  rcases List.mem_append.mp hwho with hwho | hwho
  · exact hasked.known who hwho
  · rw [List.mem_singleton.mp hwho]
    exact List.length_append ▸ Nat.lt_succ_self _

/-- All rescans that were due have begun. -/
theorem rescans_unburdened (w : Watcher) : (unburdened w).rescans = [] := by
  cases w <;> rfl

theorem Orderly.follow (h : Orderly c) (w : Watcher) : Orderly (c.follow w) :=
  List.foldlRecOn w.rescans Company.launch ⟨h.held, h.known, rescans_unburdened w⟩
    fun _ hlaunched rescan _ => hlaunched.launch rescan

theorem Orderly.join (h : Orderly c) (hd : c.join? who = some d) : Orderly d := by
  obtain ⟨-, -, rfl⟩ := join_cases hd
  exact ⟨h.held, fun other hother => h.known other (List.mem_of_mem_erase hother), h.begun⟩

/-- A watcher stops if no rescan is due. -/
theorem finish_draining {loop : Loop} (h : (Watcher.draining loop).rescans = []) :
    (Watcher.draining loop).finish.value = .stopped loop.source := by
  replace h : loop.rescans = [] := h
  simp [Watcher.finish, h]

/-- The last move of a watcher leaves it stopped. -/
theorem Orderly.finish (h : Orderly c) (hd : c.finish? = some d) : Orderly d ∧
    c.watcher.state = .shuttingDown ∧ c.running = [] ∧ d.running = [] ∧ d.shared = c.shared ∧
      d.watcher.state = .stopped := by
  obtain ⟨loop, hw, hidle, rfl⟩ := finish_cases hd
  have hstopped : c.watcher.finish.value = .stopped loop.source := by
    rw [hw]
    exact finish_draining (hw ▸ h.begun)
  dsimp only
  rw [hstopped]
  exact ⟨⟨h.held, h.known, rfl⟩, by rw [hw]; rfl, hidle, hidle, rfl, rfl⟩

theorem Orderly.move (h : Orderly c) (m : Move) (hd : c.move? m = some d) : Orderly d := by
  cases m with
  | ask call => cases hd; exact h.ask call
  | advance who obstacle =>
      obtain ⟨shared, hadvance, rfl⟩ := Option.map_eq_some_iff.mp hd
      exact h.advance hadvance
  | edit disk => cases hd; exact h.later h.held (Nat.le_refl _)
  | join who => exact h.join hd
  | finish => exact (h.finish hd).1
  | _ => cases hd; exact h.follow _

theorem Reachable.orderly {first : Company} (h : Orderly first) (hc : Reachable first c) :
    Orderly c := by
  induction hc with
  | start => exact h
  | move m _ hd ih => exact ih.move m hd

/-! ## What goes on by itself -/

/-- A call does its next step, a rescan is joined, or the watcher stops. -/
def Move.goesOn : Move → Bool
  | .advance .. | .join _ | .finish => true
  | _ => false

/-- What goes on when nobody asks for more. -/
def GoesOn (c d : Company) : Prop :=
  ∃ m : Move, m.goesOn = true ∧ c.move? m = some d

/-- What is left to do: by the calls, for the rescans to be joined, and for the watcher to stop. -/
def left (c : Company) : ℕ ×ₗ ℕ :=
  c.shared.left + toLex (c.running.length + if c.watcher.state = .shuttingDown then 1 else 0, 0)

theorem Orderly.left_lt (h : Orderly c) (hd : GoesOn c d) : d.left < c.left := by
  have hless : ∀ {a b : ℕ}, a < b → c.shared.left + toLex (a, 0) < c.shared.left + toLex (b, 0) :=
    fun hlt => add_lt_add_right (Prod.Lex.toLex_lt_toLex.mpr (.inl hlt)) _
  obtain ⟨m, hgoes, hd⟩ := hd
  cases m with
  | advance who obstacle =>
      obtain ⟨shared, hadvance, rfl⟩ := Option.map_eq_some_iff.mp hd
      exact add_lt_add_left (SharedEngine.left_advance hadvance) _
  | join who =>
      obtain ⟨hrunning, -, rfl⟩ := join_cases hd
      refine hless (Nat.add_lt_add_right ?_ _)
      rw [List.length_erase_of_mem hrunning]
      exact Nat.sub_lt (List.length_pos_of_mem hrunning) Nat.one_pos
  | finish =>
      obtain ⟨-, hdraining, hidle, hnone, hshared, hstopped⟩ := h.finish hd
      rw [left, left, hshared, hidle, hnone, hdraining, hstopped]
      exact hless (by decide)
  | _ => cases hgoes

/-- A watcher that was told to stop goes on to stop, or has stopped. -/
def Stopping (c : Company) : Prop :=
  c.watcher.state = .shuttingDown ∨ c.watcher.state = .stopped

theorem Stopping.goesOn (h : Orderly c) (hstopping : Stopping c) (hd : GoesOn c d) :
    Stopping d := by
  obtain ⟨m, hgoes, hd⟩ := hd
  cases m with
  | advance who obstacle =>
      obtain ⟨shared, -, rfl⟩ := Option.map_eq_some_iff.mp hd
      exact hstopping
  | join who =>
      obtain ⟨-, -, rfl⟩ := join_cases hd
      exact hstopping
  | finish => exact .inr (h.finish hd).2.2.2.2.2
  | _ => cases hgoes

/-- As long as the watcher has not stopped, it can stop, or join a rescan, or a call can go on. -/
theorem Orderly.goesOn (h : Orderly c) (hw : c.watcher.state = .shuttingDown) :
    ∃ d, GoesOn c d := by
  cases hrunning : c.running with
  | nil =>
      refine ⟨{ c with watcher := c.watcher.finish.value }, .finish, rfl, ?_⟩
      rw [move?, finish?]
      split
      · rw [hrunning]
        rfl
      · rename_i hnot
        cases hw' : c.watcher with
        | draining loop => exact absurd hw' (hnot loop)
        | _ => rw [hw'] at hw; cases hw
  | cons who rest =>
      have hmem : who ∈ c.running := hrunning ▸ List.mem_cons_self
      cases hanswer : c.shared.answer? who with
      | some answer =>
          refine ⟨{ c with running := c.running.erase who }, .join who, rfl, ?_⟩
          rw [move?, join?, hanswer, List.contains_iff_mem.mpr hmem]
          rfl
      | none =>
          have hcall := List.getElem?_eq_getElem (h.known who hmem)
          rw [SharedEngine.answer?, SharedEngine.progress?, hcall] at hanswer
          obtain ⟨other, shared, hadvance⟩ := h.held.advance_of_open hcall hanswer .none
          exact ⟨{ c with shared }, .advance other .none, rfl,
            Option.map_eq_some_iff.mpr ⟨shared, hadvance, rfl⟩⟩

/-- **A watcher that is told to stop stops.**  When nobody asks for more, it comes to its end in
whatever order the calls of the engine do their steps, its rescans are joined and saves fail. -/
theorem stops_of_draining {engine : Engine} {source : Source} {first disk : Disk}
    {options : Watcher.Options}
    (hc : Reachable
      (.make (Watcher.ofEngine engine source first options).value (.make engine disk)) c)
    (hw : c.watcher.state = .shuttingDown) :
    Inevitable GoesOn (fun d => d.watcher.state = .stopped) c := by
  have horderly := hc.orderly (orderly_make engine disk rfl)
  refine inevitable_of_left (fun c => Orderly c ∧ Stopping c) left ?_ ?_ ?_
    ⟨horderly, .inl hw⟩
  · rintro c d ⟨horderly, hstopping⟩ hd
    have hd' := hd
    obtain ⟨m, -, hmove⟩ := hd
    exact ⟨horderly.move m hmove, hstopping.goesOn horderly hd'⟩
  · rintro c d ⟨horderly, -⟩ hd
    exact horderly.left_lt hd
  · rintro c ⟨horderly, hstopping⟩ hopen
    exact horderly.goesOn (hstopping.resolve_right hopen)

end Company

end TodoIndex
