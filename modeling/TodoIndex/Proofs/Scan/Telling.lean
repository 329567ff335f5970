import Mathlib.Data.Prod.Lex
import TodoIndex.Proofs.Scan.Locking

/-! # What a scan tells

A scan sends one event, after it has come to its outcome and before it gives the lock back, and the
event is that of its outcome.  How far a scan has come decides what it has sent, whatever other
calls do and whatever happens to the disk in between.
-/

namespace TodoIndex

/-! ## What is left of a call -/

namespace Progress

/-- What a call has still to do: its stages, and the states of the disk in a save that has begun.
How many states a save will have is not known before. -/
def left : Progress → ℕ ×ₗ ℕ
  | .asked => toLex (7, 0)
  | .locked => toLex (6, 0)
  | .gathered _ => toLex (5, 0)
  | .prepared .. => toLex (4, 0)
  | .saving _ ahead _ _ => toLex (3, ahead.length)
  | .telling .. => toLex (2, 0)
  | .leaving _ => toLex (1, 0)
  | .finished _ => toLex (0, 0)

/-- A call that has come so far holds the lock and has no more than these stages to do. -/
structure Within (stages : ℕ) (p : Progress) : Prop where
  locked : p.holdsLock = true
  left : p.left ≤ toLex (stages, 0)

theorem Within.of_eq {stages rest : ℕ} {p : Progress} (hlock : p.holdsLock = true)
    (hleft : p.left = toLex (rest, 0)) (hle : rest ≤ stages) : p.Within stages :=
  ⟨hlock, hleft ▸ Prod.Lex.toLex_mono ⟨hle, Nat.le_refl 0⟩⟩

theorem Within.mono {stages more : ℕ} {p : Progress} (h : p.Within stages) (hle : stages ≤ more) :
    p.Within more :=
  ⟨h.locked, h.left.trans (Prod.Lex.toLex_mono ⟨hle, Nat.le_refl 0⟩)⟩

theorem Within.lt {stages more states : ℕ} {p : Progress} (h : p.Within stages)
    (hlt : stages < more) : p.left < toLex (more, states) :=
  h.left.trans_lt (Prod.Lex.toLex_lt_toLex.mpr (.inl hlt))

theorem within_giveUp (cause : ScanError) (call : Call) : (call.giveUp cause).Within 2 := by
  cases call <;> exact .of_eq rfl rfl (by decide)

theorem within_succeed (answer : Answer) (call : Call) : (call.succeed answer).Within 2 := by
  cases call with
  | scan root name => cases answer <;> exact .of_eq rfl rfl (by decide)
  | _ => exact .of_eq rfl rfl (by decide)

theorem within_gather (e : Engine) (disk : Disk) (call : Call) : (call.gather e disk).Within 5 := by
  unfold Call.gather
  split
  · split
    · exact .of_eq rfl rfl (by decide)
    · exact (within_giveUp _ _).mono (by decide)
  · exact .of_eq rfl rfl (by decide)

theorem within_prepare (e : Engine) (disk : Disk) (found : Gathered) (call : Call) :
    (call.prepare e disk found).Within 4 := by
  rcases Call.prepare_cases e disk found call with ⟨commit, store, answer, hprepare⟩ |
    ⟨event, answer, hprepare, -⟩ | ⟨answer, hprepare⟩
  all_goals
    rw [hprepare]
    exact .of_eq rfl rfl (by decide)

end Progress

/-! ## What a scan has told -/

namespace SharedEngine

variable {s next : SharedEngine} {who other : Nat} {call : Call} {progress : Progress}
  {root : Path} {name : String}

/-- The events that tell of one call, the first one first. -/
def eventsOf (s : SharedEngine) (who : Nat) : List ScanEvent :=
  (s.events.filter (·.1 = who)).map Prod.snd

theorem mem_eventsOf {event : Nat × ScanEvent} (h : event ∈ s.events) :
    event.2 ∈ s.eventsOf event.1 :=
  List.mem_map_of_mem (List.mem_filter.mpr ⟨h, by simp⟩)

/-- What a scan has told, as far as it has come: nothing at first, and in the end its outcome. -/
inductive HasTold (root : Path) (name : String) : Progress → List ScanEvent → Prop where
  | asked : HasTold root name .asked []
  | locked : HasTold root name .locked []
  | gathered (found : Gathered) : HasTold root name (.gathered found) []
  | prepared (commit : Commit) (store : Store) (outcome : Except ScanError Report) :
      HasTold root name (.prepared commit store (.scanned outcome)) []
  | saving (commit : Commit) (ahead : List Disk) (ending : Except StoreError Unit)
      (outcome : Except ScanError Report) :
      HasTold root name (.saving commit ahead ending (.scanned outcome)) []
  | telling (outcome : Except ScanError Report) :
      HasTold root name (Call.endScan root name outcome) []
  | leaving (outcome : Except ScanError Report) : HasTold root name (.leaving (.scanned outcome))
      [Engine.eventOf root (Engine.nameOf root name) outcome]
  | finished (outcome : Except ScanError Report) : HasTold root name (.finished (.scanned outcome))
      [Engine.eventOf root (Engine.nameOf root name) outcome]

/-- All events tell of calls that were made, and every scan has told what it has to. -/
structure Announced (s : SharedEngine) : Prop where
  known : ∀ event ∈ s.events, event.1 < s.calls.length
  scans : ∀ who root name progress, s.calls[who]? = some (.scan root name, progress) →
    HasTold root name progress (s.eventsOf who)

theorem announced_make (engine : Engine) (disk : Disk) : (make engine disk).Announced where
  known := by
    intro event hevent
    cases hevent
  scans := by
    intro who root name progress hcall
    cases hcall

/-- What becomes of the disk does not matter. -/
theorem Announced.edit (h : s.Announced) (disk : Disk) : ({ s with disk } : SharedEngine).Announced :=
  ⟨h.known, h.scans⟩

theorem Announced.ask (h : s.Announced) (call : Call) : (s.ask call).Announced := by
  have hlength : (s.ask call).calls.length = s.calls.length + 1 := List.length_append
  refine ⟨fun event hevent => ?_, fun who root name progress hcall => ?_⟩
  · rw [hlength]
    exact Nat.lt_succ_of_lt (h.known event hevent)
  · rcases Nat.lt_or_ge who s.calls.length with hlt | hge
    · exact h.scans who root name progress ((List.getElem?_append_left hlt).symm.trans hcall)
    · -- The new call has told nothing: all events tell of older ones.
      have hnone : (s.ask call).eventsOf who = [] := by
        refine List.map_eq_nil_iff.mpr (List.filter_eq_nil_iff.mpr fun event hevent => ?_)
        have hlt := h.known event hevent
        simp only [decide_eq_true_eq]
        omega
      have hcall' := hcall
      rw [SharedEngine.ask, List.getElem?_append_right hge] at hcall'
      cases List.mem_singleton.mp (List.mem_of_getElem? hcall')
      rw [hnone]
      exact .asked

/-! ## Steps of calls -/

/-- A step of a call to `later`, with which it sends some events. -/
structure Advances (s : SharedEngine) (who : Nat) (call : Call) (progress later : Progress)
    (news : List ScanEvent) (next : SharedEngine) : Prop where
  called : s.calls[who]? = some (call, progress)
  calls : next.calls = s.calls.set who (call, later)
  onward : later.left < progress.left
  /-- The lock stays where it is, the call takes it, or nobody has it after the step. -/
  lock : (progress.holdsLock = true → later.holdsLock = true) ∧ next.holder = s.holder ∨
    later.holdsLock = true ∧ next.holder = some who ∨ next.holder = none
  events : next.events = s.events ++ news.map (Prod.mk who)
  scan : ∀ root name told, call = .scan root name → HasTold root name progress told →
    HasTold root name later (told ++ news)

theorem Advances.put {later : Progress} (hcall : s.calls[who]? = some (call, progress))
    (honward : later.left < progress.left)
    (hlock : progress.holdsLock = true → later.holdsLock = true)
    (hscan : ∀ root name told, call = .scan root name → HasTold root name progress told →
      HasTold root name later told) :
    Advances s who call progress later [] (s.put who call later) := by
  refine ⟨hcall, rfl, honward, .inl ⟨hlock, rfl⟩, (List.append_nil _).symm, ?_⟩
  simpa using hscan

theorem hasTold_gather (e : Engine) (disk : Disk) (root : Path) (name : String) :
    HasTold root name (Call.gather e disk (.scan root name)) [] := by
  unfold Call.gather
  dsimp only
  split
  · exact .gathered _
  · exact .telling _

theorem hasTold_prepare (e : Engine) (disk : Disk) (found : Gathered) (root : Path)
    (name : String) : HasTold root name (Call.prepare e disk found (.scan root name)) [] := by
  unfold Call.prepare
  split
  · exact .telling _
  · exact .prepared _ _ _

theorem advances_enter (hcall : s.calls[who]? = some (call, .asked))
    (h : s.enter who call = some next) : ∃ later, Advances s who call .asked later [] next := by
  by_cases hload : call = .load
  · subst hload
    cases h
    refine ⟨_, .put hcall (show toLex (0, 0) < toLex (7, 0) by decide) nofun ?_⟩
    rintro root name told ⟨⟩
  · cases hholder : s.holder with
    | some other => rw [enter_of_held hload hholder] at h; cases h
    | none =>
        rw [enter_of_free hload hholder] at h
        cases h
        refine ⟨.locked, hcall, rfl, ?_, .inr (.inl ⟨rfl, rfl⟩), (List.append_nil _).symm, ?_⟩
        · exact (show toLex (6, 0) < toLex (7, 0) by decide)
        · rintro root name told - ⟨⟩
          exact .locked

theorem advances_saveStep {commit : Commit} {answer : Answer} {ending : Except StoreError Unit}
    {ahead : List Disk} (hcall : s.calls[who]? = some (call, .saving commit ahead ending answer)) :
    ∃ later, Advances s who call (.saving commit ahead ending answer) later []
      (s.saveStep who call commit answer ending ahead) := by
  unfold saveStep
  split
  · split
    · have hwithin := Progress.within_succeed answer call
      refine ⟨_, .put hcall (hwithin.lt (by decide)) (fun _ => hwithin.locked) ?_⟩
      rintro root name told rfl ⟨⟩
      exact .telling _
    · rename_i cause
      have hwithin := Progress.within_giveUp (.store cause) call
      refine ⟨_, .put hcall (hwithin.lt (by decide)) (fun _ => hwithin.locked) ?_⟩
      rintro root name told rfl ⟨⟩
      exact .telling _
  · rename_i d ahead
    have honward : toLex (3, ahead.length) < toLex (3, (d :: ahead).length) :=
      Prod.Lex.toLex_lt_toLex.mpr (.inr ⟨rfl, Nat.lt_succ_self _⟩)
    have hscan : ∀ root name told, call = .scan root name →
        HasTold root name (.saving commit (d :: ahead) ending answer) told →
        HasTold root name (.saving commit ahead ending answer) (told ++ []) := by
      rintro root name told - ⟨⟩
      exact .saving _ _ _ _
    refine ⟨.saving commit ahead ending answer, ?_⟩
    dsimp only
    split <;> exact ⟨hcall, rfl, honward, .inl ⟨id, rfl⟩, (List.append_nil _).symm, hscan⟩

/-- Every step of a call is one with which a scan tells what it has to. -/
theorem advances_of_advance {obstacle : Store.Obstacle} (h : s.advance who obstacle = some next) :
    ∃ call progress later news, Advances s who call progress later news next := by
  unfold advance at h
  split at h
  · cases h
  rename_i call progress hcall
  refine ⟨call, progress, ?_⟩
  cases progress with
  | asked =>
      obtain ⟨later, hadvances⟩ := advances_enter hcall h
      exact ⟨later, [], hadvances⟩
  | locked =>
      cases h
      have hwithin := Progress.within_gather s.engine s.disk call
      refine ⟨_, [], .put hcall (hwithin.lt (by decide)) (fun _ => hwithin.locked) ?_⟩
      rintro root name told rfl ⟨⟩
      exact hasTold_gather _ _ _ _
  | gathered found =>
      cases h
      have hwithin := Progress.within_prepare s.engine s.disk found call
      refine ⟨_, [], .put hcall (hwithin.lt (by decide)) (fun _ => hwithin.locked) ?_⟩
      rintro root name told rfl ⟨⟩
      exact hasTold_prepare _ _ _ _ _
  | prepared commit store answer =>
      cases h
      have honward : ∀ states, toLex (3, states) < toLex (4, 0) := fun _ =>
        Prod.Lex.toLex_lt_toLex.mpr (.inl (Nat.lt_succ_self 3))
      refine ⟨_, [], .put hcall (honward _) (fun _ => rfl) ?_⟩
      rintro root name told - ⟨⟩
      exact .saving _ _ _ _
  | saving commit ahead ending answer =>
      cases h
      obtain ⟨later, hadvances⟩ := advances_saveStep hcall
      exact ⟨later, [], hadvances⟩
  | telling event answer =>
      cases h
      refine ⟨.leaving answer, [event], hcall, rfl, ?_, .inl ⟨id, rfl⟩, rfl, ?_⟩
      · exact (show toLex (1, 0) < toLex (2, 0) by decide)
      · rintro root name told - ⟨⟩
        exact .leaving _
  | leaving answer =>
      cases h
      refine ⟨.finished answer, [], hcall, rfl, ?_, .inr (.inr rfl), (List.append_nil _).symm, ?_⟩
      · exact (show toLex (0, 0) < toLex (1, 0) by decide)
      · rintro root name told - ⟨⟩
        exact .finished _
  | finished answer => cases h

theorem eventsOf_append_self {news : List ScanEvent} :
    ((s.events ++ news.map (Prod.mk who)).filter (·.1 = who)).map Prod.snd =
      s.eventsOf who ++ news := by
  simp [eventsOf, List.filter_map, Function.comp_def]

theorem eventsOf_append_other {news : List ScanEvent} (h : other ≠ who) :
    ((s.events ++ news.map (Prod.mk who)).filter (·.1 = other)).map Prod.snd =
      s.eventsOf other := by
  simp [eventsOf, List.filter_map, Function.comp_def, Ne.symm h]

theorem Announced.advances {later : Progress} {news : List ScanEvent} (h : s.Announced)
    (hadvances : Advances s who call progress later news next) : next.Announced := by
  have hlength : next.calls.length = s.calls.length := by
    rw [hadvances.calls, List.length_set]
  have hlt : who < s.calls.length := (List.getElem?_eq_some_iff.mp hadvances.called).choose
  refine ⟨fun event hevent => ?_, fun other root name otherProgress hother => ?_⟩
  · rw [hadvances.events] at hevent
    rw [hlength]
    rcases List.mem_append.mp hevent with hevent | hevent
    · exact h.known event hevent
    · obtain ⟨_, -, rfl⟩ := List.mem_map.mp hevent
      exact hlt
  · rw [eventsOf, hadvances.events]
    rw [hadvances.calls] at hother
    by_cases hwho : other = who
    · subst hwho
      rw [eventsOf_append_self]
      cases (List.getElem?_set_self hlt).symm.trans hother
      exact hadvances.scan root name _ rfl (h.scans other root name progress hadvances.called)
    · rw [eventsOf_append_other hwho]
      rw [List.getElem?_set_ne (Ne.symm hwho)] at hother
      exact h.scans other root name otherProgress hother

/-- Whatever call does a step, every scan has told what it has to. -/
theorem Announced.advance {obstacle : Store.Obstacle} (h : s.Announced)
    (hadvance : s.advance who obstacle = some next) : next.Announced := by
  obtain ⟨call, progress, later, news, hadvances⟩ := advances_of_advance hadvance
  exact h.advances hadvances

/-! ## On the way -/

/-- Calls stay what they are, and those that have come to their end stay there. -/
def Precedes (s t : SharedEngine) : Prop :=
  ∀ (who : Nat) (call : Call) (progress : Progress), s.calls[who]? = some (call, progress) →
    ∃ later, t.calls[who]? = some (call, later) ∧ (progress.answer?.isSome → later = progress)

theorem precedes_ask (s : SharedEngine) (call : Call) : s.Precedes (s.ask call) := by
  intro who other progress hother
  have hlt := (List.getElem?_eq_some_iff.mp hother).choose
  exact ⟨progress, (List.getElem?_append_left hlt).trans hother, fun _ => rfl⟩

theorem precedes_edit (s : SharedEngine) (disk : Disk) : s.Precedes { s with disk } :=
  fun _ _ progress hcall => ⟨progress, hcall, fun _ => rfl⟩

theorem precedes_advance {obstacle : Store.Obstacle} (h : s.advance who obstacle = some next) :
    s.Precedes next := by
  intro other call progress hother
  obtain ⟨_, old, later, _, hadvances⟩ := advances_of_advance h
  by_cases hwho : other = who
  · subst hwho
    have hlt := (List.getElem?_eq_some_iff.mp hother).choose
    cases hadvances.called.symm.trans hother
    refine ⟨later, by rw [hadvances.calls, List.getElem?_set_self hlt], fun hended => ?_⟩
    -- A call that has come to its end has no next step.
    cases progress with
    | finished answer => simp [advance, hother] at h
    | _ => cases hended
  · exact ⟨progress, by rw [hadvances.calls, List.getElem?_set_ne (Ne.symm hwho), hother],
      fun _ => rfl⟩

theorem Precedes.answer?_isSome (h : s.Precedes next) (hended : (s.answer? who).isSome = true) :
    (next.answer? who).isSome = true := by
  unfold answer? progress? at hended ⊢
  cases hcall : s.calls[who]? with
  | none => simp [hcall] at hended
  | some call =>
      rw [hcall] at hended
      obtain ⟨later, hlater, hsame⟩ := h who call.1 call.2 hcall
      rw [hlater]
      exact hsame hended ▸ hended

/-! ## At the end -/

/-- A scan that has come to its end has sent one event, that of its outcome. -/
theorem Announced.of_finished {answer : Answer} (h : s.Announced)
    (hcall : s.calls[who]? = some (.scan root name, .finished answer)) :
    ∃ outcome, answer = .scanned outcome ∧
      s.eventsOf who = [Engine.eventOf root (Engine.nameOf root name) outcome] := by
  have htold := h.scans who root name _ hcall
  generalize s.eventsOf who = told at htold ⊢
  cases htold with
  | finished outcome => exact ⟨outcome, rfl, rfl⟩

/-- If each of some calls has sent one event, there are as many events of them as calls. -/
theorem length_events_of_calls {calls : List Nat} (honce : calls.Nodup)
    (hone : ∀ who ∈ calls, (s.eventsOf who).length = 1) :
    (s.events.filter fun event => calls.contains event.1).length = calls.length := by
  have hperm : ((s.events.filter fun event => calls.contains event.1).map Prod.fst).Perm calls := by
    refine List.perm_iff_count.mpr fun who => ?_
    rw [honce.count, List.count, List.countP_map, List.countP_filter]
    split
    · rename_i hwho
      rw [← hone who hwho, eventsOf, List.length_map, ← List.countP_eq_length_filter]
      refine List.countP_congr fun event _ => ?_
      simp only [Function.comp_apply, List.contains_eq_mem, Bool.and_eq_true, beq_iff_eq,
        decide_eq_true_eq]
      exact ⟨And.left, fun hsame => ⟨hsame, hsame ▸ hwho⟩⟩
    · rename_i hwho
      refine List.countP_eq_zero.mpr fun event _ hboth => hwho ?_
      simp only [Function.comp_apply, List.contains_eq_mem, Bool.and_eq_true, beq_iff_eq,
        decide_eq_true_eq] at hboth
      exact hboth.1 ▸ hboth.2
  simpa using hperm.length_eq

end SharedEngine

end TodoIndex
