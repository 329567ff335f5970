import TodoIndex.Proofs.Scan.Telling
import TodoIndex.Proofs.Watch.Freshness

/-! # Stopped watchers

A watcher that is told to stop closes its source and joins all its rescans before it has stopped.
So when it has stopped, every rescan that it ever spawned has come to its end, and of each of them
one event was sent, in whatever order all this went on.
-/

namespace TodoIndex

/-- Whether an event tells how a scan ended. -/
def ScanEvent.endsScan : ScanEvent → Bool
  | .completed .. | .failed .. => true
  | .removed _ => false

theorem endsScan_eventOf (root : Path) (project : String)
    (outcome : Except ScanError Report) : (Engine.eventOf root project outcome).endsScan = true := by
  cases outcome <;> rfl

namespace Company

open SharedEngine (Announced Precedes)

variable {c d : Company} {who : Nat}

theorem join_cases (h : c.join? who = some d) : who ∈ c.running ∧
    (c.shared.answer? who).isSome = true ∧ d = { c with running := c.running.erase who } := by
  unfold join? at h
  split at h
  · rename_i hjoined
    obtain ⟨hrunning, hended⟩ := Bool.and_eq_true_iff.mp hjoined
    exact ⟨List.contains_iff_mem.mp hrunning, hended, (Option.some.inj h).symm⟩
  · cases h

theorem finish_cases (h : c.finish? = some d) : ∃ loop, c.watcher = .draining loop ∧
    c.running = [] ∧ d = { c with watcher := c.watcher.finish.value } := by
  unfold finish? at h
  split at h
  · rename_i loop hw
    split at h
    · rename_i hnone
      exact ⟨loop, hw, List.isEmpty_iff.mp hnone, (Option.some.inj h).symm⟩
    · cases h
  · cases h

/-! ## Rescans -/

/-- What is known of the rescans of a watcher: they are different scans of the engine, and each of
them has come to its end or is still running. -/
structure Accounts (c : Company) : Prop where
  announced : c.shared.Announced
  once : c.spawned.Nodup
  scans : ∀ who ∈ c.spawned, ∃ root name progress,
    c.shared.calls[who]? = some (.scan root name, progress)
  joined : ∀ who ∈ c.spawned, who ∈ c.running ∨ (c.shared.answer? who).isSome = true

theorem accounts_make (watcher : Watcher) (engine : Engine) (disk : Disk) :
    Accounts (.make watcher (.make engine disk)) :=
  ⟨SharedEngine.announced_make engine disk, List.nodup_nil, by simp [make], by simp [make]⟩

/-- Whatever happens at the engine, the rescans stay what they are. -/
theorem Accounts.later {shared : SharedEngine} (h : Accounts c) (hannounced : shared.Announced)
    (hprecedes : c.shared.Precedes shared) : Accounts { c with shared } := by
  refine ⟨hannounced, h.once, fun who hwho => ?_, fun who hwho => ?_⟩
  · obtain ⟨root, name, progress, hcall⟩ := h.scans who hwho
    obtain ⟨later, hlater, -⟩ := hprecedes who _ progress hcall
    exact ⟨root, name, later, hlater⟩
  · exact (h.joined who hwho).imp_right hprecedes.answer?_isSome

/-- One more rescan begins; it gets a number that no call had. -/
theorem Accounts.launch (h : Accounts c) (rescan : String × Path) : Accounts (c.launch rescan) := by
  have hlater := h.later (h.announced.ask (.scan rescan.2 rescan.1))
    (SharedEngine.precedes_ask c.shared _)
  have hfresh : c.shared.nextCall ∉ c.spawned := by
    intro hold
    obtain ⟨root, name, progress, hcall⟩ := h.scans _ hold
    exact Nat.lt_irrefl _ (List.getElem?_eq_some_iff.mp hcall).choose
  refine ⟨hlater.announced, ?_, fun who hwho => ?_, fun who hwho => ?_⟩
  · exact List.nodup_append.mpr ⟨h.once, List.nodup_singleton _, by
      rintro who hwho other hother rfl
      exact hfresh (List.mem_singleton.mp hother ▸ hwho)⟩
  · rcases List.mem_append.mp hwho with hwho | hwho
    · exact hlater.scans who hwho
    · refine ⟨rescan.2, rescan.1, .asked, ?_⟩
      rw [List.mem_singleton.mp hwho]
      exact List.getElem?_concat_length
  · rcases List.mem_append.mp hwho with hwho | hwho
    · exact (hlater.joined who hwho).imp_left (List.mem_append_left _)
    · exact .inl (List.mem_append_right _ hwho)

theorem Accounts.follow (h : Accounts c) (watcher : Watcher) : Accounts (c.follow watcher) := by
  exact List.foldlRecOn watcher.rescans Company.launch ⟨h.announced, h.once, h.scans, h.joined⟩
    fun _ hlaunched rescan _ => hlaunched.launch rescan

theorem Accounts.join (h : Accounts c) (hd : c.join? who = some d) : Accounts d := by
  obtain ⟨-, hended, rfl⟩ := join_cases hd
  refine ⟨h.announced, h.once, h.scans, fun other hother => ?_⟩
  by_cases hwho : other = who
  · exact .inr (hwho ▸ hended)
  · exact (h.joined other hother).imp_left (List.mem_erase_of_ne hwho).mpr

theorem Accounts.move (h : Accounts c) (m : Move) (hd : c.move? m = some d) : Accounts d := by
  cases m with
  | ask call =>
      cases hd
      exact h.later (h.announced.ask call) (SharedEngine.precedes_ask _ _)
  | advance who obstacle =>
      obtain ⟨shared, hadvance, rfl⟩ := Option.map_eq_some_iff.mp hd
      exact h.later (h.announced.advance hadvance) (SharedEngine.precedes_advance hadvance)
  | edit disk =>
      cases hd
      exact h.later (h.announced.edit disk) (SharedEngine.precedes_edit _ _)
  | join who => exact h.join hd
  | finish =>
      obtain ⟨_, -, -, rfl⟩ := finish_cases hd
      exact ⟨h.announced, h.once, h.scans, h.joined⟩
  | _ =>
      cases hd
      exact h.follow _

theorem Reachable.accounts {first : Company} (h : Accounts first) (hc : Reachable first c) :
    Accounts c := by
  induction hc with
  | start => exact h
  | move m _ hd ih => exact ih.move m hd

/-! ## The watcher -/

/-- How a watcher goes on that has been started: it watches, or its source is closed, and when it
has stopped, none of its rescans is running. -/
inductive Quits (running : List Nat) : Watcher → Prop where
  | watching (loop : Loop) : Quits running (.watching loop)
  | draining {loop : Loop} : loop.source.closed = true → Quits running (.draining loop)
  | stopped {source : Source} : source.closed = true → running = [] →
      Quits running (.stopped source)

variable {running : List Nat} {w next : Watcher}

/-- The rescans that a watcher has spawned begin; one that has stopped spawns none. -/
theorem Quits.follow (h : Quits c.running next) :
    Quits (c.follow next).running (c.follow next).watcher := by
  rw [Loop.watcher_follow]
  cases h with
  | watching loop => exact .watching _
  | draining hclosed => exact .draining hclosed
  | stopped hclosed hidle => exact .stopped hclosed hidle

theorem Quits.acts (h : Quits running w) (hacts : Loop.Acts w next) : Quits running next := by
  cases h with
  | watching loop =>
      cases hacts with
      | nothing => exact .watching loop
      | reacts _ e => exact .watching _
      | closes => exact .draining rfl
  | draining hclosed =>
      cases hacts with
      | nothing => exact .draining hclosed
  | stopped hclosed hidle =>
      cases hacts with
      | nothing => exact .stopped hclosed hidle

/-- A watcher that has stopped has nothing left to join. -/
theorem Quits.join (h : Quits c.running c.watcher) (hd : c.join? who = some d) :
    Quits d.running d.watcher := by
  obtain ⟨hrunning, -, rfl⟩ := join_cases hd
  generalize c.watcher = w at h ⊢
  cases h with
  | watching loop => exact .watching loop
  | draining hclosed => exact .draining hclosed
  | stopped hclosed hidle => exact absurd (hidle ▸ hrunning) List.not_mem_nil

theorem Quits.finish (h : Quits c.running c.watcher) (hd : c.finish? = some d) :
    Quits d.running d.watcher := by
  obtain ⟨loop, hw, hidle, rfl⟩ := finish_cases hd
  rw [hw] at h ⊢
  cases h with
  | draining hclosed =>
      dsimp only [Watcher.finish]
      split
      · exact .stopped hclosed hidle
      · exact .draining hclosed

theorem Quits.move (h : Quits c.running c.watcher) (m : Move) (hd : c.move? m = some d) :
    Quits d.running d.watcher := by
  cases m with
  | start tracked => cases hd; exact (h.acts (Loop.acts_start _ _ _)).follow
  | track name root => cases hd; exact (h.acts (Loop.acts_track _ _ _ _)).follow
  | untrack name => cases hd; exact (h.acts (Loop.acts_untrack _ _)).follow
  | receive now message => cases hd; exact (h.acts (Loop.acts_receive _ _ _ _)).follow
  | sweep now => cases hd; exact (h.acts (Loop.acts_sweep _ _)).follow
  | close => cases hd; exact (h.acts (Loop.acts_close _)).follow
  | ask call => cases hd; exact h
  | advance who obstacle =>
      obtain ⟨shared, -, rfl⟩ := Option.map_eq_some_iff.mp hd
      exact h
  | edit disk => cases hd; exact h
  | join who => exact h.join hd
  | finish => exact h.finish hd

theorem Reachable.quits {first : Company} (h : Quits first.running first.watcher)
    (hc : Reachable first c) : Quits c.running c.watcher := by
  induction hc with
  | start => exact h
  | move m _ hd ih => exact ih.move m hd

theorem Reachable.trans {first : Company} (hc : Reachable first c) (hd : Reachable c d) :
    Reachable first d := by
  induction hd with
  | start => exact hc
  | move m _ hmove ih => exact ih.move m hmove

/-! ## At the end -/

/-- The source is closed and no rescan is running.  Every rescan that was spawned has come to its
end and one event was sent of it, that of its outcome; so the events that tell how rescans ended
are as many as the rescans. -/
structure Drained (c : Company) : Prop where
  closed : c.watcher.source.closed = true
  idle : c.running = []
  ended : ∀ who ∈ c.spawned, ∃ root name outcome,
    c.shared.calls[who]? = some (.scan root name, .finished (.scanned outcome)) ∧
      c.shared.eventsOf who = [Engine.eventOf root (Engine.nameOf root name) outcome]
  counted : (c.shared.events.filter fun event =>
    c.spawned.contains event.1 && event.2.endsScan).length = c.spawned.length

/-- Every rescan that has been joined has come to its end. -/
theorem Accounts.ended (h : Accounts c) (hidle : c.running = []) (hwho : who ∈ c.spawned) :
    ∃ root name outcome,
      c.shared.calls[who]? = some (.scan root name, .finished (.scanned outcome)) ∧
        c.shared.eventsOf who = [Engine.eventOf root (Engine.nameOf root name) outcome] := by
  obtain ⟨root, name, progress, hcall⟩ := h.scans who hwho
  have hended : (c.shared.answer? who).isSome = true := by
    rcases h.joined who hwho with hrunning | hended
    · rw [hidle] at hrunning
      cases hrunning
    · exact hended
  rw [SharedEngine.answer?, SharedEngine.progress?, hcall] at hended
  cases progress with
  | finished answer =>
      obtain ⟨outcome, rfl, htold⟩ := h.announced.of_finished hcall
      exact ⟨root, name, outcome, hcall, htold⟩
  | _ => cases hended

theorem Accounts.counted (h : Accounts c) (hidle : c.running = []) :
    (c.shared.events.filter fun event =>
      c.spawned.contains event.1 && event.2.endsScan).length = c.spawned.length := by
  have hone : ∀ who ∈ c.spawned, (c.shared.eventsOf who).length = 1 := by
    intro who hwho
    obtain ⟨root, name, outcome, -, htold⟩ := h.ended hidle hwho
    rw [htold]
    rfl
  rw [← SharedEngine.length_events_of_calls h.once hone]
  refine congrArg List.length (List.filter_congr fun event hevent => ?_)
  cases hspawned : c.spawned.contains event.1 with
  | false => rfl
  | true =>
      obtain ⟨root, name, outcome, -, htold⟩ := h.ended hidle (List.contains_iff_mem.mp hspawned)
      have hmem := SharedEngine.mem_eventsOf hevent
      rw [htold, List.mem_singleton] at hmem
      rw [Bool.true_and, hmem, endsScan_eventOf]

/-- **A watcher that has stopped has drained.**  After a watcher was started, its reactions, the
steps of its rescans and of other calls, changes of the files and the request to stop come in any
order.  When it has stopped, its source is closed, no rescan is running, and of each rescan that
it ever spawned one event was sent. -/
theorem drained_of_stopped {engine : Engine} {source last : Source} {first disk : Disk}
    {options : Watcher.Options} {started stopped : Company} {loop : Loop}
    (hstart : Reachable
      (.make (Watcher.ofEngine engine source first options).value (.make engine disk)) started)
    (hwatching : started.watcher = .watching loop) (hrun : Reachable started stopped)
    (hstopped : stopped.watcher = .stopped last) : Drained stopped := by
  have haccounts := (hstart.trans hrun).accounts (accounts_make _ _ _)
  have hquits : Quits stopped.running stopped.watcher :=
    hrun.quits (hwatching ▸ .watching loop)
  rw [hstopped] at hquits
  cases hquits with
  | stopped hclosed hidle =>
      refine ⟨?_, hidle, fun who hwho => haccounts.ended hidle hwho, haccounts.counted hidle⟩
      rw [hstopped]
      exact hclosed

/-! ## A watcher that is stopped while it scans -/

/-- What comes of some moves one after another, if all of them are possible. -/
def moves? (c : Company) : List Move → Option Company
  | [] => some c
  | m :: rest => (c.move? m).bind (·.moves? rest)

theorem reachable_of_moves {moves : List Move} (h : c.moves? moves = some d) : Reachable c d := by
  induction moves generalizing c with
  | nil =>
      obtain rfl : c = d := Option.some.inj h
      exact .start
  | cons m rest ih =>
      obtain ⟨next, hmove, hrest⟩ := Option.bind_eq_some_iff.mp h
      exact (Reachable.start.move m hmove).trans (ih hrest)

/-- A watcher that rescans at once. -/
def hasty : Company :=
  .make (Watcher.ofEngine Loop.readingEngine (.make fun _ _ => none) Loop.nestedDisk
    ⟨some 0, none, some true, []⟩).value (.make Loop.readingEngine Loop.nestedDisk)

/-- One rescan is spawned for a change and one for a project that is tracked; the watcher is told
to stop while the first one saves the store, and the files change before the second one begins. -/
def halting : List Move :=
  List.flatten
    [[.receive 0 (.ok ⟨Loop.nestedPath, .modified⟩), .track "inner" (.ofString "w/sub")],
      List.replicate 5 (.advance 0 .none), [.close], List.replicate 9 (.advance 0 .none),
      [.join 0, .edit Loop.nestedDisk], List.replicate 14 (.advance 1 .none), [.join 1, .finish]]

theorem drained_halting :
    ∃ started stopped, Reachable hasty started ∧ started.watcher.state = .watching ∧
      Reachable started stopped ∧ stopped.watcher.state = .stopped ∧
      stopped.spawned = [0, 1] ∧ Drained stopped := by
  have hopened : (hasty.moves? [.start (.ok [("outer", .ofString "w")])]).any (fun started =>
      started.watcher.state = .watching && (started.moves? halting).any fun stopped =>
        stopped.watcher.state = .stopped && stopped.spawned = [0, 1]) = true := by
    decide +kernel
  obtain ⟨started, hstart, hrest⟩ := (Option.any_eq_true _ _).mp hopened
  obtain ⟨hwatching, hhalted⟩ := Bool.and_eq_true_iff.mp hrest
  obtain ⟨stopped, hrun, hends⟩ := (Option.any_eq_true _ _).mp hhalted
  simp only [Bool.and_eq_true, decide_eq_true_eq] at hwatching hends
  have hstart := reachable_of_moves hstart
  have hrun := reachable_of_moves hrun
  refine ⟨started, stopped, hstart, hwatching, hrun, hends.1, hends.2, ?_⟩
  cases hw : started.watcher with
  | watching loop =>
      cases hs : stopped.watcher with
      | stopped last => exact drained_of_stopped hstart hw hrun hs
      | _ => rw [hs] at hends; cases hends.1
  | _ => rw [hw] at hwatching; cases hwatching

end Company

end TodoIndex
