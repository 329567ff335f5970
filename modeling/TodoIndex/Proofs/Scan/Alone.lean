import TodoIndex.Proofs.Scan.Commits

/-! # Calls that are made alone

A call that is made alone is a scan, a removal or a load by the engine.  A call that goes forward
in steps comes to the same answer, event and disk if the disk that it found with the lock is
changed by nobody else.
-/

namespace TodoIndex

open Text (Bytes)
open Store (Obstacle)

/-! ## Sequential engines -/

namespace Engine

variable {e : Engine} {obstacle : Obstacle} {disk : Disk} {store old : Store}

theorem loadStore_value (e : Engine) (disk : Disk) : (e.loadStore disk).value =
    (Store.loadFrom e.storePath (disk.contents e.storePath)).mapError .store := by
  rw [← Store.load_eq]
  rfl

theorem loadFrom_of_loadStore (h : (e.loadStore disk).value = .ok old) :
    Store.loadFrom e.storePath (disk.contents e.storePath) = .ok old := by
  rw [loadStore_value] at h
  cases hload : Store.loadFrom e.storePath (disk.contents e.storePath) with
  | ok found =>
      rw [hload] at h
      cases h
      rfl
  | error cause =>
      rw [hload] at h
      cases h

theorem saveStore_value (h : (store.savingUnder obstacle disk e.storePath).outcome = .ok ()) :
    (e.saveStore obstacle store disk).value =
      (.ok (), (store.savingUnder obstacle disk e.storePath).disk disk) := by
  rw [saveStore, Store.saveUnder, h]
  rfl

theorem revise_value {α : Type} {change : Store → α × Store}
    (hload : (e.loadStore disk).value = .ok old)
    (hsave : ((change old).2.savingUnder obstacle disk e.storePath).outcome = .ok ()) :
    (e.revise obstacle disk change).value =
      (.ok (change old).1, ((change old).2.savingUnder obstacle disk e.storePath).disk disk) := by
  rw [revise, Noted.value_bind, hload]
  dsimp only
  rw [Noted.value_bind, saveStore_value hsave]
  rfl

end Engine

namespace ScanEvent

/-- Whether an event tells of a failure. -/
def isFailure : ScanEvent → Bool
  | .failed .. => true
  | _ => false

end ScanEvent

namespace Commit

/-- An event that tells of a commit. -/
def ToldBy : Commit → ScanEvent → Prop
  | .replaced project remarks, .completed name _ count _ => name = project ∧ count = remarks.length
  | .removed project, .removed name => name = project
  | _, _ => False

theorem ToldBy.not_failure {c : Commit} {event : ScanEvent} (h : c.ToldBy event) :
    event.isFailure = false := by
  cases c <;> cases event <;> first | rfl | cases h

end Commit

namespace Call

variable {e : Engine} {obstacle : Obstacle} {disk : Disk} {call : Call} {commit : Commit}
  {store : Store} {answer : Answer} {found : Gathered}

/-- What comes of a call that is made alone: its answer, the events and the disk. -/
def alone (e : Engine) (obstacle : Obstacle) (disk : Disk) : Call → Answer × List ScanEvent × Disk
  | .scan root name =>
      let pass := (e.runScanUnder obstacle disk root name).value
      (.scanned pass.outcome, pass.events, pass.disk)
  | .remove name =>
      let pass := (e.removeProjectUnder obstacle disk name).value
      (.removed pass.outcome, pass.events, pass.disk)
  | .load => (.loaded (e.loadStore disk).value, [], disk)

/-- A call gathers and loads on a disk, and goes on to save a store. -/
def Prepares (e : Engine) (disk : Disk) (call : Call) (commit : Commit) (store : Store)
    (answer : Answer) : Prop :=
  ∃ found, call.gather e disk = .gathered found ∧
    call.prepare e disk found = .prepared commit store answer

/-! ## The steps of a call with the lock -/

theorem gather_cases (e : Engine) (disk : Disk) (h : call ≠ .load) :
    (∃ found, call.gather e disk = .gathered found) ∨
      ∃ event answer, call.gather e disk = .telling event answer ∧ event.isFailure = true := by
  cases call with
  | scan root name =>
      cases hgather : (e.gather disk root (Engine.nameOf root name)).value with
      | ok found => exact .inl ⟨found, by rw [gather, hgather]⟩
      | error cause => exact .inr ⟨_, _, by rw [gather, hgather]; rfl, rfl⟩
  | remove name => exact .inl ⟨.empty, rfl⟩
  | load => exact absurd rfl h

/-- A call that gives up tells of its failure, or has nothing to tell. -/
theorem giveUp_cases (cause : ScanError) (call : Call) :
    (∃ event answer, call.giveUp cause = .telling event answer ∧ event.isFailure = true) ∨
      ∃ answer, call.giveUp cause = .leaving answer := by
  cases call with
  | scan root name => exact .inl ⟨_, _, rfl, rfl⟩
  | remove name => exact .inr ⟨_, rfl⟩
  | load => exact .inr ⟨_, rfl⟩

theorem prepare_cases (e : Engine) (disk : Disk) (found : Gathered) (call : Call) :
    (∃ commit store answer, call.prepare e disk found = .prepared commit store answer) ∨
      (∃ event answer, call.prepare e disk found = .telling event answer ∧ event.isFailure = true) ∨
        ∃ answer, call.prepare e disk found = .leaving answer := by
  unfold prepare
  cases (e.loadStore disk).value with
  | error cause => exact .inr (giveUp_cases cause call)
  | ok old =>
      cases call with
      | scan root name => exact .inl ⟨_, _, _, rfl⟩
      | remove name =>
          dsimp only
          split
          · exact .inr (.inr ⟨_, rfl⟩)
          · exact .inl ⟨_, _, _, rfl⟩
      | load => exact .inr (.inr ⟨_, rfl⟩)

/-- A call that goes on to save has loaded the store that it changes; when it is saved, the call
tells of the change and comes to what it would have come to alone. -/
theorem Prepares.spec (h : Prepares e disk call commit store answer) :
    ∃ old event, Store.loadFrom e.storePath (disk.contents e.storePath) = .ok old ∧
      store = commit.apply old ∧ call.succeed answer = .telling event answer ∧
      commit.ToldBy event ∧
      ∀ obstacle, (store.savingUnder obstacle disk e.storePath).outcome = .ok () →
        call.alone e obstacle disk =
          (answer, [event], (store.savingUnder obstacle disk e.storePath).disk disk) := by
  obtain ⟨found, hgather, hprepare⟩ := h
  unfold prepare at hprepare
  cases hload : (e.loadStore disk).value with
  | error cause =>
      rw [hload] at hprepare
      cases call <;> cases hprepare
  | ok old =>
      rw [hload] at hprepare
      have hfrom := Engine.loadFrom_of_loadStore hload
      cases call with
      | scan root name =>
          cases hprepare
          have hfound : (e.gather disk root (Engine.nameOf root name)).value = .ok found := by
            cases hvalue : (e.gather disk root (Engine.nameOf root name)).value with
            | ok other =>
                rw [gather, hvalue] at hgather
                cases hgather
                rfl
            | error cause =>
                rw [gather, hvalue] at hgather
                cases hgather
          refine ⟨old, _, hfrom, rfl, rfl, ⟨rfl, rfl⟩, fun obstacle hsave => ?_⟩
          have hscan : (e.scanAs obstacle disk root (Engine.nameOf root name)).value =
              (.ok (Engine.conclude root (Engine.nameOf root name) found old).1,
                ((Engine.conclude root (Engine.nameOf root name) found old).2.savingUnder obstacle
                  disk e.storePath).disk disk) := by
            rw [Engine.scanAs, Noted.value_bind, hfound]
            exact Engine.revise_value hload hsave
          simp only [alone, Engine.runScanUnder, Noted.value_bind, hscan]
          rfl
      | remove name =>
          dsimp only at hprepare
          split at hprepare
          · cases hprepare
          · rename_i hremoved
            cases hprepare
            refine ⟨old, _, hfrom, ?_, rfl, rfl, fun obstacle hsave => ?_⟩
            · rw [Commit.apply, hremoved]
            have hsaved := Engine.saveStore_value hsave
            simp only [alone, Engine.removeProjectUnder, Noted.value_bind, hload, hremoved, hsaved]
            rfl
      | load => cases hprepare

end Call

end TodoIndex
