import TodoIndex.Proofs.Watch.Pending
import TodoIndex.Watch.Session

/-! # The life of a watcher

A watcher is idle, watches, is being stopped and has stopped, in this order.  What a call may do is
decided by the state alone, and whatever happens between calls does not take the state back.
-/

namespace TodoIndex

namespace Session

variable {s next first : Session}

/-! ## Calls -/

/-- What can be asked of a watcher. -/
inductive Call where
  | start (tracked : Except RegistryError (List (String × Path)))
  | track (name : String) (root : Path)
  | untrack (name : String)
  | stop

/-- The answer to a call, without the number or the truth value in it, and the session after it.
There is no error with which a watcher could refuse to stop. -/
def call (s : Session) : Call → Except WatchError Unit × Session
  | .start tracked => ((s.start tracked).value.1.map fun _ => (), (s.start tracked).value.2)
  | .track name root => ((s.track name root).value.1.map fun _ => (), (s.track name root).value.2)
  | .untrack name => ((s.untrack name).value.1.map fun _ => (), (s.untrack name).value.2)
  | .stop => (.ok (), s.stop.value.1)

/-- A call that is meant for a watcher that watches. -/
def Call.isCommand : Call → Bool
  | .track .. | .untrack _ => true
  | .start _ | .stop => false

/-- What can come of a call, with its answer and the session after it. -/
inductive Outcome (s : Session) : Call → Except WatchError Unit → Session → Prop where
  | started {tracked : Except RegistryError (List (String × Path))} {next : Session} :
      s.watcher.state = .idle → next.watcher.state = .watching →
      Outcome s (.start tracked) (.ok ()) next
  | unstarted {tracked : Except RegistryError (List (String × Path))} {e : WatchError}
      {next : Session} : s.watcher.state = .idle → next.watcher.state = .idle →
      Outcome s (.start tracked) (.error e) next
  | commanded {call : Call} {next : Session} : call.isCommand = true →
      s.watcher.state = .watching → next.watcher.state = .watching → Outcome s call (.ok ()) next
  | refused {call : Call} : call ≠ .stop →
      (if call.isCommand then s.watcher.state ≠ .watching else s.watcher.state ≠ .idle) →
      Outcome s call (.error (.invalidState s.watcher.state)) s
  | stopped {next : Session} : s.watcher.state ≠ .stopped → next.watcher.state = .stopped →
      Outcome s .stop (.ok ()) next
  | still : s.watcher.state = .stopped → Outcome s .stop (.ok ()) s

theorem outcome_start (s : Session) (tracked : Except RegistryError (List (String × Path))) :
    Outcome s (.start tracked) (s.call (.start tracked)).1 (s.call (.start tracked)).2 := by
  obtain ⟨disk, watcher, waiting, sending, listening, now⟩ := s
  cases watcher with
  | idle loop =>
      cases tracked with
      | error e => exact .unstarted rfl rfl
      | ok projects =>
          cases hstream : loop.source.takeStream? with
          | none =>
              simp only [call, start, Watcher.start, hstream]
              exact .unstarted rfl rfl
          | some source =>
              simp only [call, start, Watcher.start, hstream]
              exact .started rfl rfl
  | spent source => cases tracked <;> exact .unstarted rfl rfl
  | watching loop =>
      cases tracked <;> exact .refused (by simp) (by simp [Call.isCommand, Watcher.state])
  | draining loop =>
      cases tracked <;> exact .refused (by simp) (by simp [Call.isCommand, Watcher.state])
  | stopped source =>
      cases tracked <;> exact .refused (by simp) (by simp [Call.isCommand, Watcher.state])

theorem outcome_track (s : Session) (name : String) (root : Path) :
    Outcome s (.track name root) (s.call (.track name root)).1 (s.call (.track name root)).2 := by
  obtain ⟨disk, watcher, waiting, sending, listening, now⟩ := s
  cases watcher with
  | watching loop => exact .commanded rfl rfl rfl
  | _ => exact .refused (by simp) (by simp [Call.isCommand, Watcher.state])

theorem outcome_untrack (s : Session) (name : String) :
    Outcome s (.untrack name) (s.call (.untrack name)).1 (s.call (.untrack name)).2 := by
  obtain ⟨disk, watcher, waiting, sending, listening, now⟩ := s
  cases watcher with
  | watching loop => exact .commanded rfl rfl rfl
  | _ => exact .refused (by simp) (by simp [Call.isCommand, Watcher.state])

theorem outcome_stop (s : Session) : Outcome s .stop (s.call .stop).1 (s.call .stop).2 := by
  obtain ⟨disk, watcher, waiting, sending, listening, now⟩ := s
  cases watcher with
  | stopped source => exact .still rfl
  | idle loop => exact .stopped (by simp [Watcher.state]) rfl
  | spent source => exact .stopped (by simp [Watcher.state]) rfl
  | watching loop =>
      refine .stopped (by simp [Watcher.state]) ?_
      simp only [call, stop, Noted.value_bind, Loop.close_watching]
      rfl
  | draining loop => exact .stopped (by simp [Watcher.state]) rfl

theorem outcome_call (s : Session) (call : Call) :
    Outcome s call (s.call call).1 (s.call call).2 := by
  cases call with
  | start tracked => exact outcome_start s tracked
  | track name root => exact outcome_track s name root
  | untrack name => exact outcome_untrack s name
  | stop => exact outcome_stop s

/-! ## Runs -/

/-- What can happen between calls: messages, the clock, rescans, and changes of the files. -/
inductive Meanwhile (s : Session) : Session → Prop where
  | send (message : Message) : Meanwhile s (s.send message).2
  | closeStream : Meanwhile s s.closeStream
  | wait (time : Nat) : Meanwhile s (s.wait time)
  | sweep : Meanwhile s s.sweep.value
  | takeMessages : Meanwhile s s.takeMessages.value
  | takeRescans : Meanwhile s s.takeRescans.value.1
  | settle : Meanwhile s s.settle.value.1
  | edit (disk : Disk) : Meanwhile s { s with disk }

/-- A call with the session before it, its answer, and the session after it. -/
structure Entry where
  before : Session
  call : Call
  answer : Except WatchError Unit
  after : Session

/-- The entry of a call. -/
def entry (s : Session) (call : Call) : Entry :=
  ⟨s, call, (s.call call).1, (s.call call).2⟩

/-- The runs of a session, with the calls in them and whatever happens between these. -/
inductive Run (first : Session) : List Entry → Session → Prop where
  | start : Run first [] first
  | call {log : List Entry} {s : Session} (call : Call) : Run first log s →
      Run first (log ++ [s.entry call]) (s.call call).2
  | meanwhile {log : List Entry} {s next : Session} : Run first log s → Meanwhile s next →
      Run first log next

namespace Entry

/-- The states that the watcher is in from the beginning of a call to its end. -/
def states (e : Entry) : List WatcherState :=
  match e.call with
  | .stop => [e.before.watcher.state, e.before.watcher.close.value.state, e.after.watcher.state]
  | _ => [e.before.watcher.state, e.after.watcher.state]

/-- The watcher has started. -/
def Starts (e : Entry) : Prop :=
  (∃ tracked, e.call = .start tracked) ∧ e.answer = .ok ()

/-- The call changes nothing, and is answered in the state in which the watcher is. -/
def Refused (e : Entry) : Prop :=
  e.answer = .error (.invalidState e.before.watcher.state) ∧ e.after = e.before

/-- What is left to a watcher that has stopped. -/
structure Late (e : Entry) : Prop where
  stopped : e.before.watcher.state = .stopped
  still : e.after = e.before
  stop : e.call = .stop → e.answer = .ok ()
  refused : e.call ≠ .stop → e.Refused

end Entry

/-- The law of a watcher's life. -/
structure Lawful (log : List Entry) (s : Session) : Prop where
  /-- The state only moves forward, also within a call. -/
  forward : (log.flatMap Entry.states ++ [s.watcher.state]).Pairwise (·.rank ≤ ·.rank)
  /-- Only an idle watcher starts. -/
  idle : ∀ e ∈ log, e.Starts → e.before.watcher.state = .idle
  /-- No watcher starts twice. -/
  once : log.Pairwise fun e later => e.Starts → ¬ later.Starts
  /-- Commands are carried out just while the watcher watches. -/
  commands : ∀ e ∈ log, e.call.isCommand = true →
    if e.before.watcher.state = .watching then e.answer = .ok () else e.Refused
  /-- To stop never fails. -/
  stops : ∀ e ∈ log, e.call = .stop → e.answer = .ok () ∧ e.after.watcher.state = .stopped
  /-- Nothing more happens to a watcher after it was stopped. -/
  late : log.Pairwise fun e later => e.call = .stop → later.Late
  /-- It has stopped for ever. -/
  stopped : (∃ e ∈ log, e.call = .stop) → s.watcher.state = .stopped

/-! ## What an outcome says -/

variable {call : Call} {answer : Except WatchError Unit}

theorem Outcome.rank_le (h : Outcome s call answer next) :
    s.watcher.state.rank ≤ next.watcher.state.rank := by
  cases h with
  | started hbefore hafter => simp [hbefore, hafter, WatcherState.rank]
  | unstarted hbefore hafter => simp [hbefore, hafter]
  | commanded _ hbefore hafter => simp [hbefore, hafter]
  | refused _ _ => exact Nat.le_refl _
  | stopped _ hafter => rw [hafter]; cases s.watcher.state <;> decide
  | still _ => exact Nat.le_refl _

theorem Outcome.of_start {tracked : Except RegistryError (List (String × Path))}
    (h : Outcome s (.start tracked) (.ok ()) next) :
    s.watcher.state = .idle ∧ next.watcher.state = .watching := by
  cases h with
  | started hbefore hafter => exact ⟨hbefore, hafter⟩
  | commanded hcommand _ _ => cases hcommand

theorem Outcome.of_command (h : Outcome s call answer next) (hcommand : call.isCommand = true) :
    if s.watcher.state = .watching then answer = .ok ()
    else answer = .error (.invalidState s.watcher.state) ∧ next = s := by
  cases h with
  | commanded _ hbefore _ => rw [if_pos hbefore]
  | refused _ hbefore =>
      rw [if_pos hcommand] at hbefore
      rw [if_neg hbefore]
      exact ⟨rfl, rfl⟩
  | _ => cases hcommand

theorem Outcome.of_stop (h : Outcome s .stop answer next) :
    answer = .ok () ∧ next.watcher.state = .stopped := by
  cases h with
  | stopped _ hafter => exact ⟨rfl, hafter⟩
  | still hstopped => exact ⟨rfl, hstopped⟩
  | commanded hcommand _ _ => cases hcommand
  | refused hstop _ => exact absurd rfl hstop

theorem Outcome.of_stopped (h : Outcome s call answer next)
    (hstopped : s.watcher.state = .stopped) :
    next = s ∧ (call = .stop ∧ answer = .ok () ∨
      call ≠ .stop ∧ answer = .error (.invalidState s.watcher.state)) := by
  cases h with
  | refused hstop _ => exact ⟨rfl, .inr ⟨hstop, rfl⟩⟩
  | still _ => exact ⟨rfl, .inl ⟨rfl, rfl⟩⟩
  | started hbefore _ => simp [hstopped] at hbefore
  | unstarted hbefore _ => simp [hstopped] at hbefore
  | commanded _ hbefore _ => simp [hstopped] at hbefore
  | stopped hbefore _ => exact absurd hstopped hbefore

/-! ## No way back -/

theorem state_receive (w : Watcher) (disk : Disk) (now : Nat) (message : Message) :
    (w.receive disk now message).value.state = w.state := by
  cases w <;> rfl

theorem state_takeMessages (s : Session) :
    s.takeMessages.value.watcher.state = s.watcher.state := by
  have hall : ∀ (messages : List Message) (w : Watcher), (messages.foldlM
      (fun (w : Watcher) m => w.receive s.disk s.now m) w).value.state = w.state := by
    intro messages w
    rw [Noted.value_foldlM]
    induction messages generalizing w with
    | nil => rfl
    | cons message messages ih => rw [List.foldl_cons, ih, state_receive]
  unfold takeMessages
  split
  · simp only [Noted.value_bind]
    split <;> exact hall s.waiting s.watcher
  · rfl

theorem state_takeRescans (s : Session) :
    s.takeRescans.value.1.watcher.state = s.watcher.state := by
  obtain ⟨disk, watcher, waiting, sending, listening, now⟩ := s
  cases watcher <;> rfl

theorem rank_le_finish (w : Watcher) : w.state.rank ≤ w.finish.value.state.rank := by
  cases w with
  | draining loop =>
      unfold Watcher.finish
      dsimp only
      split <;> simp [Watcher.state, WatcherState.rank]
  | _ => exact Nat.le_refl _

theorem rank_le_close (w : Watcher) : w.state.rank ≤ w.close.value.state.rank := by
  cases w with
  | watching loop => simp [Loop.close_watching, Watcher.state, WatcherState.rank]
  | _ => simp [Watcher.close, Watcher.state, WatcherState.rank]

theorem rank_le_stopped (state : WatcherState) : state.rank ≤ WatcherState.stopped.rank := by
  cases state <;> decide

theorem eq_stopped_of_rank_le {state : WatcherState} (h : WatcherState.stopped.rank ≤ state.rank) :
    state = .stopped := by
  cases state with
  | stopped => rfl
  | _ => exact absurd h (by decide)

theorem Meanwhile.rank_le (h : Meanwhile s next) :
    s.watcher.state.rank ≤ next.watcher.state.rank := by
  cases h with
  | send message =>
      unfold Session.send
      split <;> exact Nat.le_refl _
  | sweep =>
      obtain ⟨disk, watcher, waiting, sending, listening, now⟩ := s
      cases watcher <;> exact Nat.le_refl _
  | takeMessages => exact Nat.le_of_eq (by rw [state_takeMessages])
  | takeRescans => exact Nat.le_of_eq (by rw [state_takeRescans])
  | settle =>
      have hfinish := rank_le_finish s.takeMessages.value.takeRescans.value.1.watcher
      rw [state_takeRescans, state_takeMessages] at hfinish
      exact hfinish
  | closeStream => exact Nat.le_refl _
  | wait time => exact Nat.le_refl _
  | edit disk => exact Nat.le_refl _

/-! ## The law of a run -/

variable {log : List Entry}

/-- The states of a call lead from the one before it to the one behind it. -/
theorem forward_entry (s : Session) (call : Call) :
    ((s.entry call).states ++ [(s.call call).2.watcher.state]).Pairwise (·.rank ≤ ·.rank) ∧
      ∀ state ∈ (s.entry call).states ++ [(s.call call).2.watcher.state],
        s.watcher.state.rank ≤ state.rank := by
  have hwhole := (outcome_call s call).rank_le
  cases call with
  | stop =>
      have hclose := rank_le_close s.watcher
      have hend := rank_le_stopped s.watcher.close.value.state
      have hstop := (outcome_stop s).of_stop.2
      rw [← hstop] at hend
      simp [entry, Entry.states, hwhole, hclose, hend]
  | _ => simp [entry, Entry.states, hwhole]

/-- Whatever states come after the last one, and never go back behind it, continue a forward run. -/
theorem forward_append {states more : List WatcherState} {state : WatcherState}
    (h : (states ++ [state]).Pairwise (·.rank ≤ ·.rank)) (hmore : more.Pairwise (·.rank ≤ ·.rank))
    (hle : ∀ later ∈ more, state.rank ≤ later.rank) :
    (states ++ more).Pairwise (·.rank ≤ ·.rank) := by
  obtain ⟨hstates, -, hlast⟩ := List.pairwise_append.mp h
  refine List.pairwise_append.mpr ⟨hstates, hmore, fun earlier hearlier later hlater => ?_⟩
  exact Nat.le_trans (hlast earlier hearlier state (List.mem_singleton_self _)) (hle later hlater)

/-- Every entry of a run is what came of its call. -/
theorem Run.outcome (h : Run first log s) {e : Entry} (he : e ∈ log) :
    Outcome e.before e.call e.answer e.after := by
  induction h with
  | start => cases he
  | @call log s call _ ih =>
      rcases List.mem_append.mp he with he | he
      · exact ih he
      · rw [List.mem_singleton.mp he]
        exact outcome_call s call
  | meanwhile _ _ ih => exact ih he

theorem Run.forward (h : Run first log s) :
    (log.flatMap Entry.states ++ [s.watcher.state]).Pairwise (·.rank ≤ ·.rank) := by
  induction h with
  | start => exact List.pairwise_singleton _ _
  | @call log s call _ ih =>
      obtain ⟨hstates, hle⟩ := forward_entry s call
      rw [List.flatMap_append, List.flatMap_singleton, List.append_assoc]
      exact forward_append ih hstates hle
  | meanwhile _ hnext ih =>
      apply forward_append ih (List.pairwise_singleton _ _)
      intro later hlater
      rw [List.mem_singleton.mp hlater]
      exact hnext.rank_le

/-- Behind a call the state never goes back. -/
theorem Run.rank_after_le (h : Run first log s) {e : Entry} (he : e ∈ log) :
    e.after.watcher.state.rank ≤ s.watcher.state.rank := by
  have hmem : e.after.watcher.state ∈ e.states := by
    unfold Entry.states
    split <;> simp
  have hlast := (List.pairwise_append.mp h.forward).2.2 e.after.watcher.state
    (List.mem_flatMap.mpr ⟨e, he, hmem⟩)
  exact hlast s.watcher.state (List.mem_singleton_self _)

theorem Run.not_idle (h : Run first log s) {e : Entry} (he : e ∈ log) (hstarts : e.Starts) :
    s.watcher.state ≠ .idle := by
  have houtcome := h.outcome he
  obtain ⟨⟨tracked, hcall⟩, hanswer⟩ := hstarts
  rw [hcall, hanswer] at houtcome
  have hrank := h.rank_after_le he
  rw [houtcome.of_start.2] at hrank
  intro hidle
  rw [hidle] at hrank
  exact absurd hrank (by decide)

theorem Run.stopped (h : Run first log s) {e : Entry} (he : e ∈ log) (hstop : e.call = .stop) :
    s.watcher.state = .stopped := by
  have houtcome := h.outcome he
  rw [hstop] at houtcome
  have hrank := h.rank_after_le he
  rw [houtcome.of_stop.2] at hrank
  exact eq_stopped_of_rank_le hrank

theorem late_entry (hstopped : s.watcher.state = .stopped) (call : Call) :
    (s.entry call).Late := by
  obtain ⟨hstill, hanswer⟩ := (outcome_call s call).of_stopped hstopped
  refine ⟨hstopped, hstill, ?_, ?_⟩
  · intro hstop
    exact (hanswer.resolve_right fun h => h.1 hstop).2
  · intro hstop
    exact ⟨(hanswer.resolve_left fun h => hstop h.1).2, hstill⟩

/-- What holds between every earlier call and the next one holds between all calls of a run. -/
theorem Run.pairwise {R : Entry → Entry → Prop}
    (hnext : ∀ {log s}, Run first log s → ∀ e ∈ log, ∀ call, R e (s.entry call))
    (h : Run first log s) : log.Pairwise R := by
  induction h with
  | start => exact .nil
  | @call log s call hrun ih =>
      refine List.pairwise_append.mpr ⟨ih, List.pairwise_singleton _ _, ?_⟩
      intro e he later hlater
      rw [List.mem_singleton.mp hlater]
      exact hnext hrun e he call
  | meanwhile _ _ ih => exact ih

/-- The entries of some calls one after another, and the session after them. -/
def callAll (s : Session) : List Call → List Entry × Session
  | [] => ([], s)
  | call :: rest =>
      let later := callAll (s.call call).2 rest
      (s.entry call :: later.1, later.2)

theorem Run.callAll (h : Run first log s) (calls : List Call) :
    Run first (log ++ (s.callAll calls).1) (s.callAll calls).2 := by
  induction calls generalizing log s with
  | nil =>
      rw [Session.callAll, List.append_nil]
      exact h
  | cons call rest ih =>
      have hrest := ih (h.call call)
      rw [List.append_assoc] at hrest
      exact hrest

/-- A watcher that was just built. -/
def fresh : Session :=
  .make Loop.nestedDisk
    (Watcher.ofEngine Loop.nestedEngine (.make fun _ _ => none) Loop.nestedDisk default).value

/-- A start for which the projects cannot be listed, commands in several states, and two stops. -/
def visits : List Call :=
  [.start (.error (.malformed (.ofString "projects.json"))), .track "inner" (.ofString "w/sub"),
    .start (.ok [("outer", .ofString "w")]), .start (.ok []), .track "inner" (.ofString "w/sub"),
    .untrack "outer", .stop, .stop, .untrack "inner", .start (.ok [])]

end Session

end TodoIndex
