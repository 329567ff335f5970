import TodoIndex.Proofs.Scan.Alone

/-! # What the lock keeps

The steps of many calls come in between each other.  Between the moment at which a call with the
lock finds the disk and the one at which its document is in place, no other call changes
anything; so an invariant says for each progress of this call what the document is.
-/

namespace TodoIndex

open Text (Bytes)
open Store (Obstacle Steady)

namespace SharedEngine

/-! ## States on the way to a state -/

/-- The first state comes before the second one, or they are the same. -/
inductive Before (t : SharedEngine) : SharedEngine → Prop where
  | same : Before t t
  | move {s next : SharedEngine} (m : Move) : Before t s → s.move? m = some next → Before t next

/-- A state that was passed on the way from the beginning to the present state. -/
def Passed (e : Engine) (first : Disk) (t s : SharedEngine) : Prop :=
  Reachable e first t ∧ t.Before s

variable {e : Engine} {first : Disk} {s t next : SharedEngine} {who other : Nat} {call : Call}
  {progress : Progress} {m : Move}

theorem Passed.move (h : Passed e first t s) (hm : s.move? m = some next) :
    Passed e first t next :=
  ⟨h.1, h.2.move m hm⟩

/-! ## Commits and events -/

/-- The events that tell of commits. -/
def told (s : SharedEngine) : List (Nat × ScanEvent) :=
  s.events.filter fun event => !event.2.isFailure

/-- Events tell of commits in their order, each with the call it came of. -/
def Tells (commits : List (Nat × Commit)) (events : List (Nat × ScanEvent)) : Prop :=
  List.Forall₂ (fun c event => event.1 = c.1 ∧ c.2.ToldBy event.2) commits events

theorem Tells.concat {commits : List (Nat × Commit)} {events : List (Nat × ScanEvent)}
    {commit : Commit} {event : Nat × ScanEvent} (h : Tells commits events) (hwho : event.1 = who)
    (hby : commit.ToldBy event.2) : Tells (commits ++ [(who, commit)]) (events ++ [event]) := by
  induction h with
  | nil => exact .cons ⟨hwho, hby⟩ .nil
  | cons hfirst _ ih => exact .cons hfirst ih

/-- All commits were told. -/
def AllTold (s : SharedEngine) : Prop :=
  Tells s.commits s.told

/-- All commits were told but the last one, of this call. -/
def ToldBut (s : SharedEngine) (who : Nat) (commit : Commit) : Prop :=
  ∃ earlier, s.commits = earlier ++ [(who, commit)] ∧ Tells earlier s.told

/-- The call with the lock has not made its commit. -/
structure Waits (s : SharedEngine) (who : Nat) : Prop where
  told : s.AllTold
  order : ∃ earlier, s.admitted = earlier ++ [who] ∧ (s.commits.map Prod.fst).Sublist earlier

theorem Waits.put {later : Progress} (h : s.Waits who) : (s.put who call later).Waits who :=
  ⟨h.told, h.order⟩

/-- A commit came of its call as it would have come of the call alone, on the disk that the call
found when it had the lock. -/
def CameAlone (e : Engine) (first : Disk) (s : SharedEngine) (earlier : List (Nat × Commit))
    (who : Nat) (commit : Commit) : Prop :=
  ∃ t call progress obstacle answer event last old,
    Passed e first t s ∧ t.holder = some who ∧ t.calls[who]? = some (call, progress) ∧
    t.commits = earlier ∧ Store.load t.disk e.storePath = .ok old ∧
    call.alone e obstacle t.disk = (answer, [event], last) ∧ commit.ToldBy event ∧
    last.contents e.storePath = .ok (commit.apply old).document

/-! ## The call with the lock -/

/-- What is known of the call with the lock by its progress. -/
inductive Stage (e : Engine) (first : Disk) (s : SharedEngine) (who : Nat) (call : Call) :
    Progress → Prop where
  | locked : s.Waits who → Steady s.disk e.storePath → Stage e first s who call .locked
  | gathered {found : Gathered} : s.Waits who → Steady s.disk e.storePath →
      call.gather e s.disk = .gathered found → Stage e first s who call (.gathered found)
  | prepared {commit : Commit} {store : Store} {answer : Answer} :
      s.Waits who → Steady s.disk e.storePath → call.Prepares e s.disk commit store answer →
      Stage e first s who call (.prepared commit store answer)
  /-- The document is as it was when the save began. -/
  | saving {t : SharedEngine} {found : Progress} {obstacle : Obstacle} {commit : Commit}
      {store : Store} {answer : Answer} {before ahead : List Disk}
      {outcome : Except StoreError Unit} :
      s.Waits who → Passed e first t s → t.holder = some who → t.calls[who]? = some (call, found) →
      t.commits = s.commits → Steady t.disk e.storePath →
      t.disk.contents e.storePath = s.disk.contents e.storePath →
      call.Prepares e t.disk commit store answer →
      store.savingUnder obstacle t.disk e.storePath = ⟨before ++ ahead, outcome⟩ →
      s.disk = before.getLast?.getD t.disk → ¬ (outcome = .ok () ∧ ahead = []) →
      Stage e first s who call (.saving commit ahead outcome answer)
  /-- The new document is in place. -/
  | saved {commit : Commit} {event : ScanEvent} {answer : Answer} :
      s.ToldBut who commit → Steady s.disk e.storePath → commit.ToldBy event →
      call.succeed answer = .telling event answer →
      Stage e first s who call (.saving commit [] (.ok ()) answer)
  | telling {commit : Commit} {event : ScanEvent} {answer : Answer} :
      s.ToldBut who commit → Steady s.disk e.storePath → commit.ToldBy event →
      Stage e first s who call (.telling event answer)
  | failing {event : ScanEvent} {answer : Answer} :
      s.AllTold → Steady s.disk e.storePath → event.isFailure = true →
      Stage e first s who call (.telling event answer)
  | leaving {answer : Answer} : s.AllTold → Steady s.disk e.storePath →
      Stage e first s who call (.leaving answer)

/-- What holds in every state. -/
structure Invariant (e : Engine) (first : Disk) (s : SharedEngine) : Prop where
  engine : s.engine = e
  reachable : Reachable e first s
  /-- No call but one holds the lock. -/
  alone : ∀ who call progress, s.calls[who]? = some (call, progress) →
    progress.holdsLock = true → s.holder = some who
  stage : ∀ who, s.holder = some who → ∃ call progress,
    s.calls[who]? = some (call, progress) ∧ call ≠ .load ∧ Stage e first s who call progress
  free : s.holder = none → s.AllTold ∧ Steady s.disk e.storePath
  document : s.disk.contents e.storePath =
    Commit.writeAll e.storePath s.commits (first.contents e.storePath)
  came : ∀ earlier who commit later, s.commits = earlier ++ (who, commit) :: later →
    CameAlone e first s earlier who commit
  order : (s.commits.map Prod.fst).Sublist s.admitted
  once : s.admitted.Nodup
  begun : ∀ who ∈ s.admitted, ∃ call progress,
    s.calls[who]? = some (call, progress) ∧ progress ≠ .asked
  loads : ∀ (who : Nat) (answer : Answer), s.calls[who]? = some (.load, .finished answer) →
    ∃ t, Passed e first t s ∧ answer = .loaded (e.loadStore t.disk).value

/-! ## Steps that leave the store alone -/

theorem calls_put_self {old : Call × Progress} (h : s.calls[who]? = some old) :
    (s.put who call progress).calls[who]? = some (call, progress) := by
  have hlt : who < s.calls.length := (List.getElem?_eq_some_iff.mp h).choose
  exact List.getElem?_set_self hlt

theorem calls_put_other (h : other ≠ who) :
    (s.put who call progress).calls[other]? = s.calls[other]? :=
  List.getElem?_set_ne (Ne.symm h)

theorem CameAlone.move {earlier : List (Nat × Commit)} {commit : Commit}
    (h : CameAlone e first s earlier who commit) (hm : s.move? m = some next) :
    CameAlone e first next earlier who commit := by
  obtain ⟨t, call, progress, obstacle, answer, event, last, old, hpassed, hrest⟩ := h
  exact ⟨t, call, progress, obstacle, answer, event, last, old, hpassed.move hm, hrest⟩

theorem Invariant.came_move (inv : Invariant e first s) (hm : s.move? m = some next) :
    ∀ earlier who commit later, s.commits = earlier ++ (who, commit) :: later →
      CameAlone e first next earlier who commit :=
  fun earlier who commit later hcommits => (inv.came earlier who commit later hcommits).move hm

/-- A step that changes nothing but how far calls have come keeps what is known of the call with
the lock. -/
theorem Stage.of_calls {calls : List (Call × Progress)} (h : Stage e first s who call progress)
    (hm : s.move? m = some { s with calls := calls }) :
    Stage e first { s with calls := calls } who call progress := by
  cases h with
  | locked hwaits hsteady => exact .locked ⟨hwaits.told, hwaits.order⟩ hsteady
  | gathered hwaits hsteady hgather => exact .gathered ⟨hwaits.told, hwaits.order⟩ hsteady hgather
  | prepared hwaits hsteady hprepares =>
      exact .prepared ⟨hwaits.told, hwaits.order⟩ hsteady hprepares
  | saving hwaits hpassed hholder hcall hcommits hsteady hcontents hprepares hsaving hdisk hopen =>
      exact .saving ⟨hwaits.told, hwaits.order⟩ (hpassed.move hm) hholder hcall hcommits hsteady
        hcontents hprepares hsaving hdisk hopen
  | saved htold hsteady hby hsucceed => exact .saved htold hsteady hby hsucceed
  | telling htold hsteady hby => exact .telling htold hsteady hby
  | failing htold hsteady hfailure => exact .failing htold hsteady hfailure
  | leaving htold hsteady => exact .leaving htold hsteady

/-- A step without the lock keeps what holds: a call is asked, or the store is loaded. -/
theorem Invariant.of_calls {calls : List (Call × Progress)} (inv : Invariant e first s)
    (hm : s.move? m = some { s with calls := calls })
    (hkeep : ∀ (who : Nat) (call : Call) (progress : Progress),
      s.calls[who]? = some (call, progress) → (call ≠ .load ∨ progress ≠ .asked) →
        calls[who]? = some (call, progress))
    (hback : ∀ (who : Nat) (call : Call) (progress : Progress),
      calls[who]? = some (call, progress) →
        s.calls[who]? = some (call, progress) ∨ progress = .asked ∨
          progress = .finished (.loaded (e.loadStore s.disk).value)) :
    Invariant e first { s with calls := calls } := by
  refine ⟨inv.engine, inv.reachable.move m hm, ?_, ?_, inv.free, inv.document, inv.came_move hm,
    inv.order, inv.once, ?_, ?_⟩
  · intro who call progress hcall hlocked
    rcases hback who call progress hcall with hold | rfl | rfl
    · exact inv.alone who call progress hold hlocked
    · cases hlocked
    · cases hlocked
  · intro who hholder
    obtain ⟨call, progress, hcall, hload, hstage⟩ := inv.stage who hholder
    exact ⟨call, progress, hkeep who call progress hcall (.inl hload), hload, hstage.of_calls hm⟩
  · intro who hwho
    obtain ⟨call, progress, hcall, hasked⟩ := inv.begun who hwho
    exact ⟨call, progress, hkeep who call progress hcall (.inr hasked), hasked⟩
  · intro who answer hcall
    rcases hback who .load (.finished answer) hcall with hold | hasked | hnow
    · obtain ⟨t, hpassed, hanswer⟩ := inv.loads who answer hold
      exact ⟨t, hpassed.move hm, hanswer⟩
    · cases hasked
    · cases hnow
      exact ⟨s, ⟨inv.reachable, Before.same.move m hm⟩, rfl⟩

theorem Invariant.ask (inv : Invariant e first s) (call : Call) :
    Invariant e first (s.ask call) := by
  have hm : s.move? (.ask call) = some (s.ask call) := rfl
  refine inv.of_calls hm (fun who other progress hother _ => ?_) fun who other progress hother => ?_
  · exact List.getElem?_append_left (List.getElem?_eq_some_iff.mp hother).choose |>.trans hother
  · rcases Nat.lt_or_ge who s.calls.length with hlt | hge
    · exact .inl ((List.getElem?_append_left hlt).symm.trans hother)
    · rw [List.getElem?_append_right hge] at hother
      have hmem := List.mem_of_getElem? hother
      cases List.mem_singleton.mp hmem
      exact .inr (.inl rfl)

theorem Invariant.load (inv : Invariant e first s) (hcall : s.calls[who]? = some (.load, .asked))
    (hm : s.move? m = some (s.put who .load (.finished (.loaded (e.loadStore s.disk).value)))) :
    Invariant e first (s.put who .load (.finished (.loaded (e.loadStore s.disk).value))) := by
  refine inv.of_calls hm (fun other call progress hother hnot => ?_)
    fun other call progress hother => ?_
  · by_cases hwho : other = who
    · subst hwho
      cases hcall.symm.trans hother
      simp at hnot
    · exact (calls_put_other hwho).trans hother
  · by_cases hwho : other = who
    · subst hwho
      cases (calls_put_self hcall).symm.trans hother
      exact .inr (.inr rfl)
    · exact .inl ((calls_put_other hwho).symm.trans hother)

/-! ## Steps of the call with the lock -/

/-- A step of a call that changes the store keeps what holds, if nobody else has the lock and it
keeps what is said of the lock, the document, the commits and the call. -/
theorem Invariant.step {later : Progress} (inv : Invariant e first s)
    (hnobody : ∀ other, s.holder = some other → other = who)
    (hcall : s.calls[who]? = some (call, progress)) (hload : call ≠ .load)
    (hm : s.move? m = some next) (hcalls : next.calls = s.calls.set who (call, later))
    (hengine : next.engine = s.engine) (hlater : later ≠ .asked)
    (hlock : later.holdsLock = true → next.holder = some who)
    (hstage : ∀ other, next.holder = some other → other = who ∧ Stage e first next who call later)
    (hfree : next.holder = none → next.AllTold ∧ Steady next.disk e.storePath)
    (hdocument : next.disk.contents e.storePath =
      Commit.writeAll e.storePath next.commits (first.contents e.storePath))
    (hcame : ∀ earlier who commit later, next.commits = earlier ++ (who, commit) :: later →
      CameAlone e first next earlier who commit)
    (horder : (next.commits.map Prod.fst).Sublist next.admitted) (honce : next.admitted.Nodup)
    (hadmitted : ∀ other ∈ next.admitted, other ≠ who → other ∈ s.admitted) :
    Invariant e first next := by
  have hself : next.calls[who]? = some (call, later) := by
    rw [hcalls]
    exact calls_put_self hcall
  have hothers : ∀ {other}, other ≠ who → next.calls[other]? = s.calls[other]? := by
    intro other hother
    rw [hcalls]
    exact calls_put_other hother
  refine ⟨hengine.trans inv.engine, inv.reachable.move m hm, ?_, ?_, hfree, hdocument, hcame,
    horder, honce, ?_, ?_⟩
  · intro other otherCall otherProgress hother hlocked
    by_cases hwho : other = who
    · subst hwho
      cases hself.symm.trans hother
      exact hlock hlocked
    · rw [hothers hwho] at hother
      exact absurd (hnobody other (inv.alone other otherCall otherProgress hother hlocked)) hwho
  · intro other hother
    obtain ⟨rfl, hnow⟩ := hstage other hother
    exact ⟨call, later, hself, hload, hnow⟩
  · intro other hother
    by_cases hwho : other = who
    · subst hwho
      exact ⟨call, later, hself, hlater⟩
    · rw [hothers hwho]
      exact inv.begun other (hadmitted other hother hwho)
  · intro other answer hother
    by_cases hwho : other = who
    · subst hwho
      cases hself.symm.trans hother
      exact absurd rfl hload
    · rw [hothers hwho] at hother
      obtain ⟨t, hpassed, hanswer⟩ := inv.loads other answer hother
      exact ⟨t, hpassed.move hm, hanswer⟩

/-- The lock stays with its call. -/
theorem Invariant.hold {later : Progress} (inv : Invariant e first s)
    (hholder : s.holder = some who) (hcall : s.calls[who]? = some (call, progress))
    (hload : call ≠ .load) (hm : s.move? m = some next)
    (hcalls : next.calls = s.calls.set who (call, later)) (hengine : next.engine = s.engine)
    (hsame : next.holder = s.holder) (hadmitted : next.admitted = s.admitted)
    (hlock : later.holdsLock = true) (hstage : Stage e first next who call later)
    (hdocument : next.disk.contents e.storePath =
      Commit.writeAll e.storePath next.commits (first.contents e.storePath))
    (hcame : ∀ earlier who commit later, next.commits = earlier ++ (who, commit) :: later →
      CameAlone e first next earlier who commit)
    (horder : (next.commits.map Prod.fst).Sublist next.admitted) : Invariant e first next := by
  have hheld : next.holder = some who := hsame.trans hholder
  have honly : ∀ {other}, some who = some other → other = who := by
    intro other hother
    exact (Option.some.inj hother).symm
  refine inv.step ?_ hcall hload hm hcalls hengine ?_ (fun _ => hheld) ?_ ?_ hdocument hcame horder
    ?_ ?_
  · intro other hother
    exact honly (hholder.symm.trans hother)
  · rintro rfl
    cases hlock
  · intro other hother
    exact ⟨honly (hheld.symm.trans hother), hstage⟩
  · intro hnone
    cases hheld.symm.trans hnone
  · rw [hadmitted]
    exact inv.once
  · intro other hother _
    rw [← hadmitted]
    exact hother

/-- The same for a step that changes nothing but how far the call has come. -/
theorem Invariant.put {later : Progress} (inv : Invariant e first s)
    (hholder : s.holder = some who) (hcall : s.calls[who]? = some (call, progress))
    (hload : call ≠ .load) (hm : s.move? m = some (s.put who call later))
    (hlock : later.holdsLock = true)
    (hstage : Stage e first (s.put who call later) who call later) :
    Invariant e first (s.put who call later) :=
  inv.hold hholder hcall hload hm rfl rfl rfl rfl hlock hstage inv.document
    (inv.came_move hm) inv.order

/-- The lock is taken. -/
theorem Invariant.lock (inv : Invariant e first s) (hfree : s.holder = none)
    (hcall : s.calls[who]? = some (call, .asked)) (hload : call ≠ .load)
    (hm : s.move? m = some { s.put who call .locked with
      holder := some who, admitted := s.admitted ++ [who] }) :
    Invariant e first { s.put who call .locked with
      holder := some who, admitted := s.admitted ++ [who] } := by
  have hnew : who ∉ s.admitted := by
    intro hmem
    obtain ⟨other, progress, hbegun, hasked⟩ := inv.begun who hmem
    cases hcall.symm.trans hbegun
    exact hasked rfl
  obtain ⟨htold, hsteady⟩ := inv.free hfree
  refine inv.step ?_ hcall hload hm rfl rfl ?_ (fun _ => rfl) ?_ ?_ inv.document
    (inv.came_move hm) ?_ ?_ ?_
  · intro other hother
    cases hfree.symm.trans hother
  · intro hasked
    cases hasked
  · intro other hother
    cases hother
    exact ⟨rfl, .locked ⟨htold, s.admitted, rfl, inv.order⟩ hsteady⟩
  · intro hnone
    cases hnone
  · exact inv.order.trans (List.sublist_append_left _ _)
  · have hapart : ∀ old ∈ s.admitted, ∀ last ∈ [who], old ≠ last := by
      intro old hold last hlast
      rw [List.mem_singleton.mp hlast]
      exact ne_of_mem_of_not_mem hold hnew
    exact List.nodup_append.mpr ⟨inv.once, List.nodup_singleton who, hapart⟩
  · intro other hother hwho
    exact (List.mem_append.mp hother).resolve_right (by simpa using hwho)

/-- The lock is given back. -/
theorem Invariant.unlock {answer : Answer} (inv : Invariant e first s)
    (hholder : s.holder = some who) (hcall : s.calls[who]? = some (call, .leaving answer))
    (hload : call ≠ .load) (hfree : s.AllTold ∧ Steady s.disk e.storePath)
    (hm : s.move? m = some { s.put who call (.finished answer) with holder := none }) :
    Invariant e first { s.put who call (.finished answer) with holder := none } := by
  refine inv.step ?_ hcall hload hm rfl rfl ?_ ?_ ?_ (fun _ => hfree) inv.document
    (inv.came_move hm) inv.order inv.once (fun _ hother _ => hother)
  · intro other hother
    exact (Option.some.inj (hholder.symm.trans hother)).symm
  · intro hasked
    cases hasked
  · intro hlock
    cases hlock
  · intro other hother
    cases hother

/-! ## Steps before a save -/

theorem enter_of_held (hload : call ≠ .load) (hheld : s.holder = some other) :
    s.enter who call = none := by
  cases call with
  | load => exact absurd rfl hload
  | _ => simp only [SharedEngine.enter, hheld]

theorem enter_of_free (hload : call ≠ .load) (hfree : s.holder = none) :
    s.enter who call = some { s.put who call .locked with
      holder := some who, admitted := s.admitted ++ [who] } := by
  cases call with
  | load => exact absurd rfl hload
  | _ => simp only [SharedEngine.enter, hfree]

/-- A call begins: it loads the store, or takes the lock if nobody has it. -/
theorem Invariant.enter (inv : Invariant e first s) (hcall : s.calls[who]? = some (call, .asked))
    (henter : s.enter who call = some next) (hm : s.move? m = some next) :
    Invariant e first next := by
  by_cases hload : call = .load
  · subst hload
    have hengine : s.engine = e := inv.engine
    obtain rfl : s.put who .load (.finished (.loaded (e.loadStore s.disk).value)) = next := by
      rw [← hengine]
      exact Option.some.inj henter
    exact inv.load hcall hm
  · cases hholder : s.holder with
    | some other =>
        rw [enter_of_held hload hholder] at henter
        cases henter
    | none =>
        rw [enter_of_free hload hholder] at henter
        cases henter
        exact inv.lock hholder hcall hload hm

/-- The project is read. -/
theorem Invariant.gather (inv : Invariant e first s) (hholder : s.holder = some who)
    (hcall : s.calls[who]? = some (call, .locked)) (hload : call ≠ .load)
    (hm : s.move? m = some (s.put who call (call.gather s.engine s.disk)))
    (hwaits : s.Waits who) (hsteady : Steady s.disk e.storePath) :
    Invariant e first (s.put who call (call.gather s.engine s.disk)) := by
  rw [inv.engine] at hm ⊢
  rcases Call.gather_cases e s.disk hload with ⟨found, hgather⟩ | ⟨event, answer, hgather, hfailure⟩
  · rw [hgather] at hm ⊢
    exact inv.put hholder hcall hload hm rfl (.gathered hwaits.put hsteady hgather)
  · rw [hgather] at hm ⊢
    exact inv.put hholder hcall hload hm rfl (.failing hwaits.told hsteady hfailure)

/-- The store is loaded. -/
theorem Invariant.prepare {found : Gathered} (inv : Invariant e first s)
    (hholder : s.holder = some who) (hcall : s.calls[who]? = some (call, .gathered found))
    (hload : call ≠ .load)
    (hm : s.move? m = some (s.put who call (call.prepare s.engine s.disk found)))
    (hwaits : s.Waits who) (hsteady : Steady s.disk e.storePath)
    (hgather : call.gather e s.disk = .gathered found) :
    Invariant e first (s.put who call (call.prepare s.engine s.disk found)) := by
  rw [inv.engine] at hm ⊢
  rcases Call.prepare_cases e s.disk found call with ⟨commit, store, answer, hprepare⟩ |
    ⟨event, answer, hprepare, hfailure⟩ | ⟨answer, hprepare⟩
  · rw [hprepare] at hm ⊢
    have hprepares : call.Prepares e s.disk commit store answer := ⟨found, hgather, hprepare⟩
    exact inv.put hholder hcall hload hm rfl (.prepared hwaits.put hsteady hprepares)
  · rw [hprepare] at hm ⊢
    exact inv.put hholder hcall hload hm rfl (.failing hwaits.told hsteady hfailure)
  · rw [hprepare] at hm ⊢
    exact inv.put hholder hcall hload hm rfl (.leaving hwaits.told hsteady)

/-! ## The steps of a save -/

/-- The save begins: all its states are still to come. -/
theorem Invariant.beginSave {obstacle : Obstacle} {commit : Commit} {store : Store}
    {answer : Answer} (inv : Invariant e first s) (hholder : s.holder = some who)
    (hcall : s.calls[who]? = some (call, .prepared commit store answer)) (hload : call ≠ .load)
    (hm : s.move? m = some (s.put who call
      (.saving commit (store.savingUnder obstacle s.disk s.engine.storePath).passed
        (store.savingUnder obstacle s.disk s.engine.storePath).outcome answer)))
    (hwaits : s.Waits who) (hsteady : Steady s.disk e.storePath)
    (hprepares : call.Prepares e s.disk commit store answer) :
    Invariant e first (s.put who call
      (.saving commit (store.savingUnder obstacle s.disk s.engine.storePath).passed
        (store.savingUnder obstacle s.disk s.engine.storePath).outcome answer)) := by
  rw [inv.engine] at hm ⊢
  have hcourse := Store.course_savingUnder obstacle store s.disk e.storePath
  refine inv.put hholder hcall hload hm rfl ?_
  have hsplit : store.savingUnder obstacle s.disk e.storePath =
      ⟨[] ++ (store.savingUnder obstacle s.disk e.storePath).passed,
        (store.savingUnder obstacle s.disk e.storePath).outcome⟩ := rfl
  refine .saving hwaits.put ⟨inv.reachable, Before.same.move m hm⟩ hholder hcall rfl hsteady rfl
    hprepares hsplit rfl ?_
  rintro ⟨hok, hnone⟩
  exact hcourse.passed_ne_nil hok hnone

theorem saveStep_open {commit : Commit} {d : Disk} {ahead : List Disk} {answer : Answer}
    {outcome : Except StoreError Unit} (h : ¬ (outcome = .ok () ∧ ahead = [])) :
    s.saveStep who call commit answer outcome (d :: ahead) =
      { s.put who call (.saving commit ahead outcome answer) with disk := d } := by
  unfold saveStep
  dsimp only
  split
  · exact absurd ⟨rfl, rfl⟩ h
  · rfl

/-- A commit is one more that came alone. -/
theorem came_concat {commits : List (Nat × Commit)} {commit : Commit}
    (h : ∀ earlier who commit rest, commits = earlier ++ (who, commit) :: rest →
      CameAlone e first s earlier who commit)
    (hnew : CameAlone e first s commits who commit) :
    ∀ earlier other last rest, commits ++ [(who, commit)] = earlier ++ (other, last) :: rest →
      CameAlone e first s earlier other last := by
  intro earlier other last rest heq
  rcases List.eq_nil_or_concat rest with rfl | ⟨init, final, rfl⟩
  · obtain ⟨rfl, hend⟩ := List.append_inj' heq rfl
    cases hend
    exact hnew
  · have hsplit : commits ++ [(who, commit)] = (earlier ++ (other, last) :: init) ++ [final] := by
      rw [heq]
      simp
    exact h earlier other last init (List.append_inj' hsplit rfl).1

/-- A state of a save is reached, which is the last one if the save ends well. -/
theorem Invariant.pass {commit : Commit} {d : Disk} {ahead : List Disk} {answer : Answer}
    {outcome : Except StoreError Unit} (inv : Invariant e first s)
    (hholder : s.holder = some who)
    (hcall : s.calls[who]? = some (call, .saving commit (d :: ahead) outcome answer))
    (hload : call ≠ .load)
    (hm : s.move? m = some (s.saveStep who call commit answer outcome (d :: ahead)))
    (hstage : Stage e first s who call (.saving commit (d :: ahead) outcome answer)) :
    Invariant e first (s.saveStep who call commit answer outcome (d :: ahead)) := by
  cases hstage with
  | @saving t found obstacle _ store _ before _ _ hwaits hpassed hfound hasked hcommits hsteady
      hcontents hprepares hsaving hdisk hopen =>
      obtain ⟨old, event, hfrom, rfl, hsucceed, hby, halone⟩ := hprepares.spec
      have hcourse := Store.course_savingUnder obstacle (commit.apply old) t.disk e.storePath
      replace halone := halone obstacle
      rw [hsaving] at hcourse halone
      have hwritten := Commit.write_of_load commit hfrom
      rcases hcourse.contents_eq hsteady hfrom rfl with ⟨hok, rfl, hnew⟩ | ⟨hnot, hsame⟩
      · -- The commit is made: its call found the disk on which nothing has changed since.
        obtain rfl : outcome = .ok () := hok
        have hdocument : d.contents e.storePath = Commit.writeAll e.storePath
            (s.commits ++ [(who, commit)]) (first.contents e.storePath) := by
          rw [Commit.writeAll_concat, ← inv.document, ← hcontents, hnew, hwritten]
        have hcame : CameAlone e first (s.saveStep who call commit answer (.ok ()) [d])
            s.commits who commit := by
          refine ⟨t, call, found, obstacle, answer, event, d, old, hpassed.move hm, hfound, hasked,
            hcommits, ?_, ?_, hby, hnew⟩
          · rw [Store.load_eq, hfrom]
          · rw [halone rfl, Store.getLast?_disk]
        refine inv.hold hholder hcall hload hm rfl rfl rfl rfl rfl ?_ hdocument ?_ ?_
        · refine .saved ⟨s.commits, rfl, hwaits.told⟩ ?_ hby hsucceed
          intro hnone
          cases hnone.symm.trans hnew
        · exact came_concat (inv.came_move hm) hcame
        · obtain ⟨earlier, hadmitted, hsublist⟩ := hwaits.order
          change ((s.commits ++ [(who, commit)]).map Prod.fst).Sublist s.admitted
          rw [List.map_append, hadmitted]
          exact hsublist.append (List.Sublist.refl _)
      · replace hnot : ¬ (outcome = .ok () ∧ ahead = []) := hnot
        have hsplit : (commit.apply old).savingUnder obstacle t.disk e.storePath =
            ⟨(before ++ [d]) ++ ahead, outcome⟩ := by
          rw [hsaving, List.append_assoc, List.singleton_append]
        have hlast : d = (before ++ [d]).getLast?.getD t.disk := by simp
        rw [saveStep_open hnot] at hm ⊢
        refine inv.hold hholder hcall hload hm rfl rfl rfl rfl rfl ?_ ?_ ?_ inv.order
        · exact .saving ⟨hwaits.told, hwaits.order⟩ (hpassed.move hm) hfound hasked hcommits
            hsteady hsame.symm hprepares hsplit hlast hnot
        · rw [hsame, hcontents]
          exact inv.document
        · exact inv.came_move hm

/-- A save is over: the call tells of its commit, or gives up. -/
theorem Invariant.endSave {commit : Commit} {answer : Answer} {outcome : Except StoreError Unit}
    (inv : Invariant e first s) (hholder : s.holder = some who)
    (hcall : s.calls[who]? = some (call, .saving commit [] outcome answer)) (hload : call ≠ .load)
    (hm : s.move? m = some (s.saveStep who call commit answer outcome []))
    (hstage : Stage e first s who call (.saving commit [] outcome answer)) :
    Invariant e first (s.saveStep who call commit answer outcome []) := by
  cases hstage with
  | @saving t found obstacle _ store _ before _ _ hwaits hpassed hfound hasked hcommits hsteady
      hcontents hprepares hsaving hdisk hopen =>
      cases outcome with
      | ok => exact absurd ⟨rfl, rfl⟩ hopen
      | error cause =>
          obtain ⟨old, event, hfrom, rfl, -⟩ := hprepares.spec
          have hcourse := Store.course_savingUnder obstacle (commit.apply old) t.disk e.storePath
          rw [hsaving, List.append_nil] at hcourse
          have hintact : Store.Intact t.disk s.disk e.storePath := by
            rw [hdisk]
            cases hcourse with
            | failed _ hintact => exact hintact
          have hnow : Steady s.disk e.storePath := hintact.steady hsteady
          rcases Call.giveUp_cases (.store cause) call with
            ⟨event, failed, hgive, hfailure⟩ | ⟨left, hgive⟩
          · have hnext : s.saveStep who call commit answer (.error cause) [] =
                s.put who call (.telling event failed) := congrArg (s.put who call) hgive
            rw [hnext] at hm ⊢
            exact inv.put hholder hcall hload hm rfl (.failing hwaits.told hnow hfailure)
          · have hnext : s.saveStep who call commit answer (.error cause) [] =
                s.put who call (.leaving left) := congrArg (s.put who call) hgive
            rw [hnext] at hm ⊢
            exact inv.put hholder hcall hload hm rfl (.leaving hwaits.told hnow)
  | @saved _ event _ htold hsteady hby hsucceed =>
      have hnext : s.saveStep who call commit answer (.ok ()) [] =
          s.put who call (.telling event answer) := congrArg (s.put who call) hsucceed
      rw [hnext] at hm ⊢
      exact inv.put hholder hcall hload hm rfl (.telling htold hsteady hby)

/-- An event is sent. -/
theorem Invariant.tell {event : ScanEvent} {answer : Answer} (inv : Invariant e first s)
    (hholder : s.holder = some who) (hcall : s.calls[who]? = some (call, .telling event answer))
    (hload : call ≠ .load)
    (hm : s.move? m = some { s.put who call (.leaving answer) with
      events := s.events ++ [(who, event)] })
    (hstage : Stage e first s who call (.telling event answer)) :
    Invariant e first { s.put who call (.leaving answer) with
      events := s.events ++ [(who, event)] } := by
  cases hstage with
  | @telling commit _ _ htold hsteady hby =>
      refine inv.hold hholder hcall hload hm rfl rfl rfl rfl rfl (.leaving ?_ hsteady) inv.document
        (inv.came_move hm) inv.order
      obtain ⟨earlier, hcommits, htells⟩ := htold
      have hsent : told { s.put who call (.leaving answer) with
          events := s.events ++ [(who, event)] } = s.told ++ [(who, event)] := by
        unfold told
        rw [List.filter_append, List.filter_singleton, hby.not_failure]
        rfl
      change Tells s.commits _
      rw [hsent, hcommits]
      exact htells.concat rfl hby
  | failing htold hsteady hfailure =>
      refine inv.hold hholder hcall hload hm rfl rfl rfl rfl rfl (.leaving ?_ hsteady) inv.document
        (inv.came_move hm) inv.order
      have hsent : told { s.put who call (.leaving answer) with
          events := s.events ++ [(who, event)] } = s.told := by
        unfold told
        rw [List.filter_append, List.filter_singleton, hfailure]
        exact List.append_nil _
      change Tells s.commits _
      rw [hsent]
      exact htold

/-! ## All steps -/

theorem Invariant.advance {obstacle : Obstacle} (inv : Invariant e first s)
    (hm : s.move? (.advance who obstacle) = some next) : Invariant e first next := by
  have hadvance : s.advance who obstacle = some next := hm
  unfold SharedEngine.advance at hadvance
  cases hcall : s.calls[who]? with
  | none =>
      rw [hcall] at hadvance
      cases hadvance
  | some entry =>
      obtain ⟨call, progress⟩ := entry
      rw [hcall] at hadvance
      dsimp only at hadvance
      -- Every progress but the first and the last says that the call holds the lock.
      have hheld : progress.holdsLock = true → s.holder = some who ∧ call ≠ .load ∧
          Stage e first s who call progress := by
        intro hlock
        have hholder := inv.alone who call progress hcall hlock
        obtain ⟨other, found, hother, hload, hstage⟩ := inv.stage who hholder
        cases hcall.symm.trans hother
        exact ⟨hholder, hload, hstage⟩
      cases progress with
      | asked => exact inv.enter hcall hadvance hm
      | locked =>
          obtain ⟨hholder, hload, hstage⟩ := hheld rfl
          cases hadvance
          cases hstage with
          | locked hwaits hsteady => exact inv.gather hholder hcall hload hm hwaits hsteady
      | gathered found =>
          obtain ⟨hholder, hload, hstage⟩ := hheld rfl
          cases hadvance
          cases hstage with
          | gathered hwaits hsteady hgather =>
              exact inv.prepare hholder hcall hload hm hwaits hsteady hgather
      | prepared commit store answer =>
          obtain ⟨hholder, hload, hstage⟩ := hheld rfl
          cases hadvance
          cases hstage with
          | prepared hwaits hsteady hprepares =>
              exact inv.beginSave hholder hcall hload hm hwaits hsteady hprepares
      | saving commit ahead outcome answer =>
          obtain ⟨hholder, hload, hstage⟩ := hheld rfl
          cases hadvance
          cases ahead with
          | nil => exact inv.endSave hholder hcall hload hm hstage
          | cons d ahead => exact inv.pass hholder hcall hload hm hstage
      | telling event answer =>
          obtain ⟨hholder, hload, hstage⟩ := hheld rfl
          cases hadvance
          exact inv.tell hholder hcall hload hm hstage
      | leaving answer =>
          obtain ⟨hholder, hload, hstage⟩ := hheld rfl
          cases hadvance
          cases hstage with
          | leaving htold hsteady => exact inv.unlock hholder hcall hload ⟨htold, hsteady⟩ hm
      | finished answer => cases hadvance

end SharedEngine

end TodoIndex
