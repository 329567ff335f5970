import TodoIndex.Proofs.Scan.Results
import TodoIndex.Proofs.Store.SavingAgain

/-! # Scanning again

A scan that is made again, with nothing changed that it reads, finds the same remarks and writes
the same document.  It compares the remarks with the ones that the document records, and there
paths are text; so it takes a remark in a file whose name is no text for a new one, and the
recorded one for resolved.
-/

namespace TodoIndex

open Text (Bytes bytesOf)

namespace Store

theorem replaceProject_replaceProject (s : Store) (name : String) (remarks old : List Remark) :
    ((s.replaceProject name old).2.replaceProject name remarks).2 =
      (s.replaceProject name remarks).2 := by
  simp only [replaceProject_eq]
  exact congrArg mk (OrderedMap.insert_insert _ _ _ _)

end Store

namespace Engine

variable {e : Engine} {disk saved : Disk} {root : Path} {name : String}

theorem scanAs_of_save {obstacle : Store.Obstacle} {project : String} {g : Gathered} {old : Store}
    (hgather : (e.gather disk root project).value = .ok g)
    (hload : (e.loadStore disk).value = .ok old)
    (hsave : (conclude root project g old).2.saveUnder obstacle disk e.storePath =
      (.ok (), saved)) :
    (e.scanAs obstacle disk root project).value =
      (.ok (conclude root project g old).1, saved) := by
  have houtcome := congrArg Prod.fst hsave
  have hdisk := congrArg Prod.snd hsave
  dsimp only [Store.saveUnder] at houtcome hdisk
  rw [scanAs, Noted.value_bind, hgather, ← hdisk]
  exact revise_value hload houtcome

theorem remarksBelow_of_gather {project : String}
    (h : (e.gather saved root project).value = (e.gather disk root project).value) {g : Gathered}
    (hgather : (e.gather disk root project).value = .ok g) :
    e.remarksBelow saved root = e.remarksBelow disk root := by
  have hbefore := gather_value hgather
  have hafter := gather_value (h.trans hgather)
  exact congrArg Gathered.remarks (hafter.symm.trans hbefore)

/-- **A scan that is made again** finds the same remarks and writes the same document, if its own
save has not changed what it reads.  It reports nothing resolved exactly if the path of every
remark, as the document records it, is the path of a remark on that line. -/
theorem rescan_resolves_nothing_iff {report : Report}
    (h : (e.runScan disk root name).value.outcome = .ok report)
    (hthere : (e.runScan disk root name).value.disk.isFolder (Store.folderOf e.storePath) = true)
    (hsame : (e.gather (e.runScan disk root name).value.disk root (nameOf root name)).value =
      (e.gather disk root (nameOf root name)).value) :
    ∃ again,
      (e.runScan (e.runScan disk root name).value.disk root name).value.outcome = .ok again ∧
      (e.runScan (e.runScan disk root name).value.disk root name).value.disk.contents e.storePath =
        (e.runScan disk root name).value.disk.contents e.storePath ∧
      again.remarks = report.remarks ∧
      (again.resolved = 0 ↔ ∀ r ∈ e.remarksBelow disk root,
        ∃ s ∈ e.remarksBelow disk root, s.place = r.recorded.place) := by
  have hscan : (e.scanAs .none disk root (nameOf root name)).value =
      (.ok report, (e.runScan disk root name).value.disk) :=
    Prod.ext h rfl
  generalize (e.runScan disk root name).value.disk = saved at hthere hsame hscan ⊢
  obtain ⟨g, old, hgather, hload, hreport, hsave⟩ := scanAs_value hscan
  have hagain := hsame.trans hgather
  have hfound := remarksBelow_of_gather hsame hgather
  rw [conclude_gathered hgather old] at hreport hsave
  have hcontents := (Store.replaced_of_save hsave).contents_of_isFolder hthere
  have hrecorded : old.recorded = old :=
    (Store.holdsMade_of_load (load_of_loadStore hload)).recorded_eq
  -- The document that is loaded has the recorded remarks, and saving replaces them as before.
  have hreload : (e.loadStore saved).value =
      .ok (old.replaceProject (nameOf root name)
        ((e.remarksBelow disk root).map Remark.recorded)).2 := by
    refine loadStore_of_load ?_
    rw [Store.load_eq, hcontents, Store.loadFrom_document, Store.recorded_replaceProject, hrecorded]
  obtain ⟨last, hlast⟩ := Store.save_again
    (old.replaceProject (nameOf root name) (e.remarksBelow disk root)).2 hsave hthere
  have hconclude := conclude_gathered hagain (old.replaceProject (nameOf root name)
    ((e.remarksBelow disk root).map Remark.recorded)).2
  rw [hfound, Store.replaceProject_replaceProject] at hconclude
  have hrepeat : (e.scanAs .none saved root (nameOf root name)).value = _ :=
    scanAs_of_save hagain hreload (by rw [hconclude]; exact hlast)
  rw [hconclude] at hrepeat
  have hsecond : (e.runScan saved root name).value.outcome = _ := congrArg Prod.fst hrepeat
  have hdisk : (e.runScan saved root name).value.disk = last := congrArg Prod.snd hrepeat
  refine ⟨_, hsecond, ?_, ?_, ?_⟩
  · rw [hdisk, hcontents]
    have hstill := Store.replaced_of_save hlast
    rw [(Disk.createFolders_of_isFolder hthere).1] at hstill
    exact hstill.contents (.inl ⟨_, hcontents⟩)
  · rw [hreport]
    exact congrArg List.length hfound
  · have hold : (old.replaceProject (nameOf root name)
        ((e.remarksBelow disk root).map Remark.recorded)).2.project? (nameOf root name) =
        some ((e.remarksBelow disk root).map Remark.recorded) :=
      (Store.updated_replaceProject _ _ _).same
    simp only [reportOf, hold, hfound, Option.getD_some, List.countP_eq_zero, List.forall_mem_map]
    simp

/-- Remarks in files whose paths are text are recorded at their own places. -/
theorem recorded_places {remarks : List Remark}
    (h : ∀ r ∈ remarks, Path.ofString r.path.display = r.path) :
    ∀ r ∈ remarks, ∃ s ∈ remarks, s.place = r.recorded.place := by
  intro r hr
  refine ⟨r, hr, ?_⟩
  rw [Remark.place, Remark.place, Remark.recorded, h r hr]

theorem rescan_resolves_nothing_mixed :
    ∃ again, (mixedEngine.runScan
      (mixedEngine.runScan mixedProject (.ofString "p") "p").value.disk
      (.ofString "p") "p").value.outcome = .ok again ∧ again.resolved = 0 := by
  obtain ⟨again, hagain, -, -, hresolved⟩ := rescan_resolves_nothing_iff outcome_mixed
    (by decide +kernel) (by decide +kernel)
  exact ⟨again, hagain, hresolved.mpr (recorded_places (by decide +kernel))⟩

/-! ## A file whose name is no text -/

/-- What one would like to say of every scan: made again, it leaves the document alone, finds as
many remarks and reports nothing resolved. -/
def Repeats (e : Engine) (disk : Disk) (root : Path) (name : String) : Prop :=
  ∀ report, (e.runScan disk root name).value.outcome = .ok report →
    ∃ again,
      (e.runScan (e.runScan disk root name).value.disk root name).value.outcome = .ok again ∧
      (e.runScan (e.runScan disk root name).value.disk root name).value.disk.contents e.storePath =
        (e.runScan disk root name).value.disk.contents e.storePath ∧
      again.remarks = report.remarks ∧ again.resolved = 0

/-- The remark in a file whose name is no text is reported resolved by every further scan. -/
theorem not_repeats_unnamable : ¬ Repeats mixedEngine unnamableProject (.ofString "p") "p" := by
  intro hrepeats
  have hsecond : (mixedEngine.runScan
      (mixedEngine.runScan unnamableProject (.ofString "p") "p").value.disk
      (.ofString "p") "p").value.outcome = .ok ⟨"p", .ofString "p", 1, 1, 0, 1, 1⟩ := by
    decide +kernel
  obtain ⟨again, hagain, -, -, hresolved⟩ := hrepeats _ outcome_unnamable
  cases hsecond.symm.trans hagain
  cases hresolved

end Engine

end TodoIndex
