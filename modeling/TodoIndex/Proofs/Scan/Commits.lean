import TodoIndex.Proofs.Store.AllOrNothing
import TodoIndex.Proofs.Store.Documents
import TodoIndex.Proofs.Store.Projects
import TodoIndex.Scan.Shared

/-! # Commits and the document

A commit reads the document and writes it anew.  When commits are made one after another, a
project has the remarks of its last commit; and while the document of a commit is being saved, it
is read as it was until the last moment.
-/

namespace TodoIndex

open Text (Bytes)

/-! ## Stores as they are recorded -/

theorem Remark.recorded_recorded (r : Remark) : r.recorded.recorded = r.recorded := by
  simp [recorded, nameOf_nameOf, Path.display, Path.ofString]

namespace Store

theorem project?_recorded (s : Store) (name : String) :
    s.recorded.project? name = (s.project? name).map (List.map Remark.recorded) :=
  OrderedMap.get?_map _ _ _

/-- The store in a document that reads like this. -/
def loadFrom (path : Path) : Except OsError Bytes → Except StoreError Store
  | .ok bytes =>
      match ofDocument? bytes with
      | some store => .ok store
      | none => .error (.malformed path)
  | .error .notFound => .ok empty
  | .error e => .error (.io path e)

theorem load_eq (disk : Disk) (path : Path) :
    load disk path = loadFrom path (disk.contents path) := by
  unfold load loadFrom
  cases disk.contents path with
  | ok bytes => rfl
  | error e => cases e <;> rfl

theorem loadFrom_document (s : Store) (path : Path) :
    loadFrom path (.ok s.document) = .ok s.recorded := by
  rw [loadFrom, ofDocument?_document]

theorem contents_of_loadFrom {path : Path} {contents : Except OsError Bytes} {s : Store}
    (h : loadFrom path contents = .ok s) :
    (∃ bytes, contents = .ok bytes) ∨ contents = .error .notFound := by
  cases contents with
  | ok bytes => exact .inl ⟨bytes, rfl⟩
  | error e =>
      refine .inr ?_
      unfold loadFrom at h
      split at h
      · rename_i heq
        cases heq
      · rename_i heq
        exact heq
      · cases h

end Store

namespace Commit

/-- The project that a commit changes. -/
def project : Commit → String
  | .replaced project _ => project
  | .removed project => project

/-- What a document records of the project after a commit. -/
def left? : Commit → Option (List Remark)
  | .replaced _ remarks => some (remarks.map Remark.recorded)
  | .removed _ => none

/-- Read the document, make the change and write the document; nothing is written if it cannot
be read. -/
def write (path : Path) (c : Commit) (contents : Except OsError Bytes) : Except OsError Bytes :=
  match Store.loadFrom path contents with
  | .ok store => .ok (c.apply store).document
  | .error _ => contents

/-- Make changes one after another. -/
def writeAll (path : Path) (commits : List (Nat × Commit)) (contents : Except OsError Bytes) :
    Except OsError Bytes :=
  commits.foldl (fun contents c => c.2.write path contents) contents

variable {path : Path} {contents : Except OsError Bytes} {store : Store}
  {commits : List (Nat × Commit)}

@[simp] theorem writeAll_nil : writeAll path [] contents = contents := rfl

theorem writeAll_append (before after : List (Nat × Commit)) :
    writeAll path (before ++ after) contents =
      writeAll path after (writeAll path before contents) :=
  List.foldl_append

theorem writeAll_concat (who : Nat) (c : Commit) :
    writeAll path (commits ++ [(who, c)]) contents =
      c.write path (writeAll path commits contents) := by
  rw [writeAll_append]
  rfl

theorem project?_apply_same (c : Commit) (store : Store) :
    (c.apply store).recorded.project? c.project = c.left? := by
  rw [Store.project?_recorded]
  cases c with
  | replaced project remarks =>
      rw [Commit.apply, Commit.project, Store.project?_replaceProject, if_pos rfl]
      rfl
  | removed project =>
      rw [Commit.apply, Commit.project, Store.project?_removeProject, if_pos rfl]
      rfl

theorem project?_apply_other (c : Commit) (store : Store) {name : String} (h : c.project ≠ name) :
    (c.apply store).project? name = store.project? name := by
  cases c with
  | replaced project remarks =>
      exact (Store.project?_replaceProject store project name remarks).trans (if_neg (Ne.symm h))
  | removed project =>
      exact (Store.project?_removeProject store project name).trans (if_neg (Ne.symm h))

theorem write_of_load (c : Commit) (h : Store.loadFrom path contents = .ok store) :
    c.write path contents = .ok (c.apply store).document := by
  rw [write, h]

theorem loadFrom_write (c : Commit) (h : Store.loadFrom path contents = .ok store) :
    Store.loadFrom path (c.write path contents) = .ok (c.apply store).recorded := by
  rw [write_of_load c h, Store.loadFrom_document]

/-- Changes of other projects leave a project as it is recorded. -/
theorem loadFrom_writeAll_other {name : String} {remarks : Option (List Remark)}
    (h : Store.loadFrom path contents = .ok store) (hproject : store.project? name = remarks)
    (hrecorded : remarks.map (List.map Remark.recorded) = remarks)
    (hothers : ∀ c ∈ commits, c.2.project ≠ name) :
    ∃ last, Store.loadFrom path (writeAll path commits contents) = .ok last ∧
      last.project? name = remarks := by
  induction commits generalizing contents store with
  | nil => exact ⟨store, h, hproject⟩
  | cons c commits ih =>
      obtain ⟨hc, hrest⟩ := List.forall_mem_cons.mp hothers
      refine ih (loadFrom_write c.2 h) ?_ hrest
      rw [Store.project?_recorded, project?_apply_other c.2 store hc, hproject, hrecorded]

theorem left?_recorded (c : Commit) :
    c.left?.map (List.map Remark.recorded) = c.left? := by
  cases c with
  | replaced project remarks =>
      have hsame : Remark.recorded ∘ Remark.recorded = Remark.recorded :=
        funext Remark.recorded_recorded
      simp [left?, hsame]
  | removed project => rfl

/-- The last change of a project is what the document records of it. -/
theorem loadFrom_writeAll_last {who : Nat} {c : Commit}
    (h : Store.loadFrom path contents = .ok store)
    (hothers : ∀ other ∈ commits, other.2.project ≠ c.project) :
    ∃ last, Store.loadFrom path (writeAll path ((who, c) :: commits) contents) = .ok last ∧
      last.project? c.project = c.left? := by
  have hlast := loadFrom_writeAll_other (loadFrom_write c h) (project?_apply_same c store)
    (left?_recorded c) hothers
  exact hlast

end Commit

/-! ## Documents while they are saved -/

namespace Store

variable {first d : Disk} {path : Path} {document : Bytes} {saving : Saving}

theorem Intact.steady (h : Intact first d path) (hfirst : Steady first path) : Steady d path := by
  intro hnone
  rw [h.same hfirst] at hnone
  exact (hfirst hnone).imp_left h.grown.isFolder

theorem Course.passed_ne_nil (h : Course first path document saving)
    (hok : saving.outcome = .ok ()) : saving.passed ≠ [] := by
  cases h with
  | failed => cases hok
  | done => exact List.concat_ne_nil _ _

/-- In a save all states but the last one of a save that ends well have the old document; that
one has the new one. -/
theorem Course.contents_eq {old : Store} (h : Course first path document saving)
    (hsteady : Steady first path) (hload : loadFrom path (first.contents path) = .ok old)
    {before after : List Disk} (hpassed : saving.passed = before ++ d :: after) :
    (saving.outcome = .ok () ∧ after = [] ∧ d.contents path = .ok document) ∨
      (¬ (saving.outcome = .ok () ∧ after = []) ∧ d.contents path = first.contents path) := by
  cases h with
  | @failed passed cause hstill _ =>
      have hmem : d ∈ passed := by
        rw [show passed = before ++ d :: after from hpassed]
        exact List.mem_append_right _ List.mem_cons_self
      refine .inr ⟨?_, (hstill d hmem).contents_eq hsteady⟩
      rintro ⟨hok, -⟩
      cases hok
  | @done earlier last hstill hreplaced =>
      have hready := (intact_createFolders first path).1.same hsteady
      rcases List.eq_nil_or_concat after with rfl | ⟨init, final, rfl⟩
      · obtain ⟨-, hlast⟩ := List.append_inj' hpassed rfl
        cases hlast
        refine .inl ⟨rfl, rfl, hreplaced.contents ?_⟩
        rw [hready]
        exact contents_of_loadFrom hload
      · have heq : earlier ++ [last] = (before ++ d :: init) ++ [final] := by
          simpa using hpassed
        obtain ⟨rfl, -⟩ := List.append_inj' heq rfl
        refine .inr ⟨by simp, (hstill d ?_).contents_eq hsteady⟩
        exact List.mem_append_right _ List.mem_cons_self

end Store

end TodoIndex
