import TodoIndex.Proofs.Scan.Alone
import TodoIndex.Proofs.Store.Projects
import TodoIndex.Proofs.Store.RoundTrip

/-! # What a scan stores

A scan that succeeds puts the remarks of the files it meets, in the order it meets them, in the
place of what the project had.  Files that nobody claims and files that cannot be read add
nothing.  The other projects keep their remarks and all projects their order, and one event tells
of it.
-/

namespace TodoIndex

namespace Engine

variable {e : Engine} {disk : Disk} {root : Path} {project : String}

/-! ## What is found in a project -/

/-- The files that a scan of a root walks over. -/
def filesOf (e : Engine) (disk : Disk) (root : Path) : List Path :=
  (Walk.files (e.filterFor disk root).value disk root).value

/-- Whether a reader claims a file. -/
def claims (e : Engine) (path : Path) : Bool :=
  (e.readers.claimOfPath? path).isSome

/-- What reading a file with the reader that claims it comes to. -/
def reading? (e : Engine) (disk : Disk) (path : Path) :
    Option (Except ReadError (List Remark)) :=
  (e.readers.claimOfPath? path).map fun claim =>
    (Reading.read e.run e.helperLimit claim.reader disk path).value

/-- The remarks of a file; one that nobody claims has none, nor has one that cannot be read. -/
def remarksOf (e : Engine) (disk : Disk) (path : Path) : List Remark :=
  match e.reading? disk path with
  | some (.ok remarks) => remarks
  | _ => []

/-- Whether a reader claims a file and can read it. -/
def parses (e : Engine) (disk : Disk) (path : Path) : Bool :=
  match e.reading? disk path with
  | some (.ok _) => true
  | _ => false

/-- Whether a reader claims a file and cannot read it. -/
def fails (e : Engine) (disk : Disk) (path : Path) : Bool :=
  match e.reading? disk path with
  | some (.error _) => true
  | _ => false

theorem remarksIn?_value (e : Engine) (disk : Disk) (path : Path) :
    (e.remarksIn? disk path).value = e.reading? disk path := by
  unfold remarksIn? reading?
  cases e.readers.claimOfPath? path <;> rfl

theorem countP_claims (e : Engine) (disk : Disk) (files : List Path) :
    files.countP (e.parses disk) + files.countP (e.fails disk) = files.countP e.claims := by
  induction files with
  | nil => rfl
  | cons path files ih =>
      have hone : (e.parses disk path).toNat + (e.fails disk path).toNat =
          (e.claims path).toNat := by
        unfold parses fails claims reading?
        cases e.readers.claimOfPath? path with
        | none => rfl
        | some claim =>
            simp only [Option.map_some]
            cases (Reading.read e.run e.helperLimit claim.reader disk path).value <;> rfl
      simp only [List.countP_cons, ← ih]
      revert hone
      cases e.parses disk path <;> cases e.fails disk path <;> cases e.claims path <;>
        simp <;> omega

/-- What is gathered file by file. -/
theorem foldl_gatherFile (e : Engine) (disk : Disk) (project : String) (files : List Path)
    (g : Gathered) :
    files.foldl (fun g path => (e.gatherFile disk project g path).value) g =
      ⟨g.visited + files.length, g.parsed + files.countP (e.parses disk),
        g.failures + files.countP (e.fails disk),
        g.remarks ++ files.flatMap (e.remarksOf disk)⟩ := by
  induction files generalizing g with
  | nil => simp
  | cons path files ih =>
      rw [List.foldl_cons, ih]
      simp only [gatherFile, Noted.value_bind, remarksIn?_value, List.length_cons,
        List.countP_cons, List.flatMap_cons]
      unfold parses fails remarksOf
      cases e.reading? disk path with
      | none => simp [Gathered.skip]; omega
      | some result =>
          cases result with
          | ok remarks => simp [Gathered.add]; omega
          | error cause => simp [Gathered.fail]; omega

/-- What a scan gathers in a project that it can enter. -/
theorem gather_value {g : Gathered} (h : (e.gather disk root project).value = .ok g) :
    g = ⟨(e.filesOf disk root).length, (e.filesOf disk root).countP (e.parses disk),
      (e.filesOf disk root).countP (e.fails disk),
      (e.filesOf disk root).flatMap (e.remarksOf disk)⟩ := by
  unfold gather at h
  split at h
  · cases h
  · simp only [Noted.value_bind, Noted.value_map, Noted.value_foldlM] at h
    rw [← Except.ok.inj h]
    exact (e.foldl_gatherFile disk project (e.filesOf disk root) .empty).trans
      (by simp [Gathered.empty])

/-- A scan that succeeds has gathered, loaded the store and saved the one with the new remarks. -/
theorem scanAs_value {obstacle : Store.Obstacle} {report : Report} {saved : Disk}
    (h : (e.scanAs obstacle disk root project).value = (.ok report, saved)) :
    ∃ g old, (e.gather disk root project).value = .ok g ∧ (e.loadStore disk).value = .ok old ∧
      report = (conclude root project g old).1 ∧
      (conclude root project g old).2.saveUnder obstacle disk e.storePath = (.ok (), saved) := by
  simp only [scanAs, Noted.value_bind] at h
  split at h
  · cases h
  rename_i g hgather
  simp only [revise, Noted.value_bind] at h
  split at h
  · cases h
  rename_i old hload
  refine ⟨g, old, hgather, hload, ?_⟩
  generalize conclude root project g old = made at h ⊢
  obtain ⟨answer, store⟩ := made
  simp only [saveStore, Noted.value_bind] at h
  cases hsave : store.saveUnder obstacle disk e.storePath with
  | mk outcome last =>
      rw [hsave] at h
      cases outcome with
      | error cause => cases h
      | ok =>
          cases h
          exact ⟨rfl, rfl⟩

end Engine

namespace Store

variable {s old : Store} {name : String} {remarks : List Remark}

/-- What a store is after the remarks of one project were replaced: the project has them, every
other one has what it had, and the order is as it was, with a new project at the end. -/
structure Updated (old : Store) (name : String) (remarks : List Remark) (new : Store) : Prop where
  same : new.project? name = some remarks
  others : ∀ other, other ≠ name → new.project? other = old.project? other
  order : new.names = if name ∈ old.names then old.names else old.names ++ [name]

theorem updated_replaceProject (old : Store) (name : String) (remarks : List Remark) :
    Updated old name remarks (old.replaceProject name remarks).2 where
  same := (project?_replaceProject old name name remarks).trans (if_pos rfl)
  others other hother := (project?_replaceProject old name other remarks).trans (if_neg hother)
  order := names_replaceProject old name remarks

theorem recorded_replaceProject (s : Store) (name : String) (remarks : List Remark) :
    (s.replaceProject name remarks).2.recorded =
      (s.recorded.replaceProject name (remarks.map Remark.recorded)).2 := by
  rw [replaceProject_eq, replaceProject_eq]
  exact congrArg mk (OrderedMap.map_insert _ _ _ _)

/-- The path led to its own directory through the link at its end, which a save has replaced. -/
structure CutOff (disk saved : Disk) (path : Path) : Prop where
  gone : saved.isFolder (folderOf path) = false
  link : ∃ target, (disk.createFolders (folderOf path)).2.entry false path = .ok (.link target)

/-- What is loaded after a save that succeeds. -/
theorem load_of_save {obstacle : Obstacle} {disk saved : Disk} {path : Path}
    (h : s.saveUnder obstacle disk path = (.ok (), saved)) :
    load saved path = .ok s.recorded ∨
      CutOff disk saved path ∧ load saved path = .error (.io path .notDirectory) := by
  have hreplaced := replaced_of_save h
  have hload : saved.contents path = .ok s.document → load saved path = .ok s.recorded := by
    intro hcontents
    rw [load, hcontents]
    dsimp only
    rw [ofDocument?_document]
  by_cases hfolder : saved.isFolder (folderOf path) = true
  · exact .inl (hload (hreplaced.contents_of_isFolder hfolder))
  · rcases hreplaced.contents_cases with hcontents | ⟨hstuck, -, place, target, hlink⟩
    · exact .inl (hload hcontents)
    · refine .inr ⟨⟨by simpa using hfolder, target, Disk.entry_of_seek_link hlink⟩, ?_⟩
      rw [load, hstuck]

end Store

namespace Engine

open Text (Bytes bytesOf)
open Store (Obstacle Updated CutOff)

variable {e : Engine} {disk : Disk} {root : Path} {name : String}

/-- All remarks of the files that a scan walks over, in the order of the walk. -/
def remarksBelow (e : Engine) (disk : Disk) (root : Path) : List Remark :=
  (e.filesOf disk root).flatMap (e.remarksOf disk)

/-- The report of a scan that finds these remarks in place of others. -/
def reportOf (e : Engine) (disk : Disk) (root : Path) (name : String) (old : Store) : Report where
  project := nameOf root name
  root := root
  visited := (e.filesOf disk root).length
  parsed := (e.filesOf disk root).countP (e.parses disk)
  failures := (e.filesOf disk root).countP (e.fails disk)
  remarks := (e.remarksBelow disk root).length
  resolved := ((old.project? (nameOf root name)).getD []).countP fun r =>
    (e.remarksBelow disk root).all fun s => s.place != r.place

theorem load_of_loadStore {s : Store} (h : (e.loadStore disk).value = .ok s) :
    Store.load disk e.storePath = .ok s := by
  rw [Store.load_eq]
  exact loadFrom_of_loadStore h

theorem loadStore_of_load {s : Store} (h : Store.load disk e.storePath = .ok s) :
    (e.loadStore disk).value = .ok s := by
  rw [loadStore_value, ← Store.load_eq, h]
  rfl

/-- The old remarks at whose places there are no new ones. -/
theorem length_resolvedSince (old new : List Remark) :
    (Remark.resolvedSince old new).length =
      old.countP fun r => new.all fun s => s.place != r.place := by
  rw [Remark.resolvedSince, ← List.countP_eq_length_filter]
  refine List.countP_congr fun r _ => ?_
  simp

theorem conclude_gathered {g : Gathered}
    (h : (e.gather disk root (nameOf root name)).value = .ok g) (old : Store) :
    conclude root (nameOf root name) g old = (e.reportOf disk root name old,
      (old.replaceProject (nameOf root name) (e.remarksBelow disk root)).2) := by
  rw [gather_value h, conclude, length_resolvedSince]
  rfl

/-- What a scan that succeeds has done: the report on it, the event that tells of it, the store
that is in the place of the old one, and what is loaded after it. -/
structure Scanned (e : Engine) (disk : Disk) (root : Path) (name : String) (pass : Pass Report)
    (report : Report) (old new : Store) : Prop where
  loaded : (e.loadStore disk).value = .ok old
  counted : report = e.reportOf disk root name old
  claimed : report.parsed + report.failures = (e.filesOf disk root).countP e.claims
  told : pass.events = [.completed (nameOf root name) root report.remarks report.resolved]
  stored : Updated old (nameOf root name) (e.remarksBelow disk root) new
  written : Disk.Replaced (disk.createFolders (Store.folderOf e.storePath)).2 pass.disk e.storePath
    new.document
  /-- The document is loaded again with all paths as text, unless its path is cut off. -/
  reloaded : (e.loadStore pass.disk).value = .ok new.recorded ∧
      Updated old (nameOf root name) ((e.remarksBelow disk root).map Remark.recorded) new.recorded ∨
    CutOff disk pass.disk e.storePath

/-- **What a scan stores.**  After a scan that succeeds the project has the remarks of the files
walked over, in the order of the walk, and all other projects have theirs.  The report counts the
files that were walked over, those that a reader claims, the remarks, and the old remarks at whose
places there are no new ones; one event tells of it. -/
theorem scan_result {obstacle : Obstacle} {report : Report}
    (h : (e.runScanUnder obstacle disk root name).value.outcome = .ok report) :
    ∃ old new, Scanned e disk root name (e.runScanUnder obstacle disk root name).value report
      old new := by
  have hscan : (e.scanAs obstacle disk root (nameOf root name)).value =
      (.ok report, (e.runScanUnder obstacle disk root name).value.disk) :=
    Prod.ext h rfl
  have hevents : (e.runScanUnder obstacle disk root name).value.events =
      [eventOf root (nameOf root name) (.ok report)] := by
    rw [← h]
    rfl
  obtain ⟨g, old, hgather, hload, hreport, hsave⟩ := scanAs_value hscan
  rw [conclude_gathered hgather old] at hreport hsave
  obtain rfl : report = e.reportOf disk root name old := hreport
  have hrecorded : old.recorded = old :=
    (Store.holdsMade_of_load (load_of_loadStore hload)).recorded_eq
  refine ⟨old, _, hload, rfl, countP_claims e disk _, hevents,
    Store.updated_replaceProject _ _ _, Store.replaced_of_save hsave, ?_⟩
  rcases Store.load_of_save hsave with hloaded | ⟨hcut, -⟩
  · refine .inl ⟨loadStore_of_load hloaded, ?_⟩
    rw [Store.recorded_replaceProject, hrecorded]
    exact Store.updated_replaceProject _ _ _
  · exact .inr hcut

/-! ## Files of all kinds -/

def remarkedSource : Bytes :=
  bytesOf "package p\n// TODO: one\n"

/-- An engine with a reader for Go and a helper for text that always fails. -/
def mixedEngine : Engine :=
  .make (.defaults (Path.ofString "data"))
    ⟨[.make (.builtIn .go) ["go"], .make (.helper (.ofString "helper")) ["txt"]]⟩
    fun _ _ _ _ => .exited 1 [] []

/-- A project with a file that no reader claims, one that has no extension, one that cannot be
read and two in Go. -/
def mixedProject : Disk :=
  ⟨.folder (bytesOf "p")
    (.file (bytesOf "README") [] false
      (.file (bytesOf "a.go") remarkedSource false
        (.file (bytesOf "b.txt") [] false
          (.file (bytesOf "c.md") [] false
            (.file (bytesOf "d.go") remarkedSource false .empty))))) .empty, []⟩

theorem outcome_mixed : (mixedEngine.runScan mixedProject (.ofString "p") "p").value.outcome =
    .ok ⟨"p", .ofString "p", 5, 2, 1, 2, 0⟩ := by
  decide +kernel

theorem scan_result_mixed :
    ∃ report, (mixedEngine.runScan mixedProject (.ofString "p") "p").value.outcome = .ok report ∧
      ∃ old new, Scanned mixedEngine mixedProject (.ofString "p") "p"
        (mixedEngine.runScan mixedProject (.ofString "p") "p").value report old new :=
  ⟨_, outcome_mixed, scan_result outcome_mixed⟩

/-! ## What a store cannot hold -/

/-- What one would like to say of a scan: that the store which is loaded after it has exactly the
remarks that were found. -/
def StoresExactly (e : Engine) (disk : Disk) (root : Path) (name : String) : Prop :=
  ∀ report, (e.runScan disk root name).value.outcome = .ok report →
    ∃ new, (e.loadStore (e.runScan disk root name).value.disk).value = .ok new ∧
      new.project? (nameOf root name) = some (e.remarksBelow disk root)

/-- A project with a file whose name is no text. -/
def unnamableProject : Disk :=
  ⟨.folder (bytesOf "p") (.file (255 :: bytesOf ".go") remarkedSource false .empty) .empty, []⟩

theorem outcome_unnamable :
    (mixedEngine.runScan unnamableProject (.ofString "p") "p").value.outcome =
      .ok ⟨"p", .ofString "p", 1, 1, 0, 1, 0⟩ := by
  decide +kernel

/-- A project beside a link to the directory that both are in. -/
def entangledProject : Disk :=
  ⟨.link (bytesOf "l") (bytesOf ".")
    (.folder (bytesOf "p") (.file (bytesOf "a.go") remarkedSource false .empty) .empty), []⟩

/-- The same engine with its store behind the link to the link. -/
def entangledEngine : Engine :=
  { mixedEngine with storePath := Store.loopedPath }

/-- The remark in a file whose name is no text is stored with a path that is text, and a store
behind the link that a scan replaces is not loaded any more. -/
theorem not_stored_exactly :
    ¬ StoresExactly mixedEngine unnamableProject (.ofString "p") "p" ∧
      ¬ StoresExactly entangledEngine entangledProject (.ofString "p") "p" := by
  constructor
  · intro hexact
    obtain ⟨new, hload, hproject⟩ := hexact _ outcome_unnamable
    have hdiffers : ((mixedEngine.loadStore
        (mixedEngine.runScan unnamableProject (.ofString "p") "p").value.disk).value.toOption.bind
          (·.project? "p")) ≠ some (mixedEngine.remarksBelow unnamableProject (.ofString "p")) := by
      decide +kernel
    rw [hload] at hdiffers
    exact hdiffers hproject
  · intro hexact
    have houtcome : (entangledEngine.runScan entangledProject (.ofString "p") "p").value.outcome =
        .ok ⟨"p", .ofString "p", 1, 1, 0, 1, 0⟩ := by decide +kernel
    obtain ⟨new, hload, -⟩ := hexact _ houtcome
    have hnone : (entangledEngine.loadStore (entangledEngine.runScan entangledProject
        (.ofString "p") "p").value.disk).value.toOption.isNone = true := by
      decide +kernel
    rw [hload] at hnone
    cases hnone

end Engine

end TodoIndex
