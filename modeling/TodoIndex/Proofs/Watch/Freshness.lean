import TodoIndex.Proofs.Scan.Results
import TodoIndex.Proofs.Walk.Files
import TodoIndex.Proofs.Watch.Coalescing

/-! # Who is rescanned for a change

A scan of a project reads all files below its root, those of a project inside it included, while a
change counts for one project alone, the one with the deepest root above it.  So of all projects
that hold a file, a change of the file refreshes exactly one.
-/

namespace TodoIndex

open Text (bytesOf)

namespace Loop

variable {l : Loop} {disk : Disk} {now : Nat} {change : Change} {path : Path} {q : WatchedProject}

/-- A change that the loop has to look at as one of a file: of no own document, of no ignore file
of the project that owns it, and of no directory. -/
structure Considers (l : Loop) (disk : Disk) (path : Path) : Prop where
  foreign : l.isOwn path = false
  plain : ∀ r, ¬ l.Reloads path r
  file : disk.isFolder path = false

/-- A watched project in whose walk, with its rules as they are, a file is met that some reader
claims. -/
structure Holds (l : Loop) (disk : Disk) (path : Path) (q : WatchedProject) : Prop where
  watched : q ∈ l.projects.projects
  met : ∃ file ∈ (Walk.files q.filter disk q.root).value, file.same path = true
  claimed : l.engine.claims path = true

/-- With an event a rescan of a project becomes due, or else a path waits that belongs to it. -/
def Refreshes (l : Loop) (e : Event) (path : Path) (q : WatchedProject) : Prop :=
  l.Rescans e q ∨ ∃ p ∈ (l.after e).debouncer.paths,
    p.same path = true ∧ (l.after e).projects.resolve p = some q

theorem Holds.accepted (h : l.Holds disk path q) (hdisk : disk.top.WellNamed) :
    q.rejects path = false := by
  obtain ⟨file, hfile, hsame⟩ := h.met
  obtain ⟨hstarts, hkept⟩ := Walk.kept_of_mem_files hdisk hfile
  rw [WatchedProject.rejects, Ignore.Filter.prunes_congr hstarts hsame, hkept]

theorem Holds.extension (h : l.Holds disk path q) :
    ∃ extension, Extension.ofPath? path = some extension := by
  have hclaimed := h.claimed
  rw [Engine.claims, Readers.claimOfPath?] at hclaimed
  cases hext : Extension.ofPath? path with
  | none => simp [hext] at hclaimed
  | some extension => exact ⟨extension, rfl⟩

/-- What the loop does with a file that its owner holds: rescan the owner, or let the file wait. -/
theorem handle_of_holds (hchange : l.Considers disk change.path)
    (hq : l.Holds disk change.path q) (hdisk : disk.top.WellNamed)
    (howner : l.projects.resolve change.path = some q) :
    (l.handle disk now change).value = { l with rescans := l.rescans ++ [(q.name, q.root)] } ∨
      (l.handle disk now change).value =
        { l with debouncer := l.debouncer.record change.path now } := by
  have hplain : l.isIgnoreFile change.path q = false :=
    Bool.eq_false_iff.mpr fun hfile => hchange.plain q ⟨hchange.foreign, howner, hfile⟩
  obtain ⟨extension, hextension⟩ := hq.extension
  rw [handle_source change hchange.foreign howner hplain (hq.accepted hdisk) hchange.file
    hextension]
  split
  · exact .inl rfl
  · exact .inr rfl

/-- The owner of a changed file is refreshed if it holds the file. -/
theorem refreshes_of_owner (hchange : l.Considers disk change.path)
    (hq : l.Holds disk change.path q) (hdisk : disk.top.WellNamed)
    (howner : l.projects.resolve change.path = some q) :
    l.Refreshes (.message disk now (.ok change)) change.path q := by
  rcases handle_of_holds hchange hq hdisk howner with hdue | hwaits
  · left
    exact ⟨[(q.name, q.root)], by rw [after, receive, hdue], List.mem_singleton_self _⟩
  · right
    rw [after, receive, hwaits]
    obtain ⟨e, he, hsame⟩ := Debouncer.exists_setTime change.path now l.debouncer.pending
    refine ⟨e.1, List.mem_map_of_mem he, hsame, ?_⟩
    rw [WatchSet.resolve_congr _ hsame]
    exact howner

/-- Nobody but the owner of a changed file is refreshed. -/
theorem owner_of_refreshes (hnames : l.projects.Distinct) (hchange : l.Considers disk change.path)
    (hq : q ∈ l.projects.projects)
    (h : l.Refreshes (.message disk now (.ok change)) change.path q) :
    l.projects.resolve change.path = some q := by
  obtain ⟨halike, hleaves⟩ := l.handle_leaves disk now change hchange.plain
  rcases h with ⟨due, hdue, hmem⟩ | ⟨p, -, hsame, howner⟩
  · obtain ⟨due', hdue', howners⟩ := hleaves.owners
    obtain rfl : due = due' := List.append_cancel_left (hdue.symm.trans hdue')
    obtain ⟨r, hr, hsame⟩ := howners _ hmem
    rw [hr, hnames.eq_of_name (WatchSet.mem_of_resolve hr) hq (Prod.ext_iff.mp hsame).1.symm]
  · obtain ⟨r, hr, hbare⟩ := halike.symm.owner howner
    rw [← WatchSet.resolve_congr _ hsame, hr,
      hnames.eq_of_name (WatchSet.mem_of_resolve hr) hq (WatchedProject.bare_eq_iff.mp hbare).1]

/-- **A change refreshes the owner of the file and nobody else.**  Of the projects that hold the
file, a change of it rescans or lets wait for a rescan exactly the one that the path belongs to. -/
theorem refreshes_iff_owner (hnames : l.projects.Distinct) (hdisk : disk.top.WellNamed)
    (hchange : l.Considers disk change.path) (hq : l.Holds disk change.path q) (now : Nat) :
    l.Refreshes (.message disk now (.ok change)) change.path q ↔
      l.projects.resolve change.path = some q :=
  ⟨owner_of_refreshes hnames hchange hq.watched, refreshes_of_owner hchange hq hdisk⟩

/-! ## Projects that share files -/

def readingEngine : Engine :=
  .make (.defaults (Path.ofString "data")) ⟨[.make (.builtIn .go) ["go"]]⟩ fun _ _ _ _ => default

/-- A watcher that lets all changes wait and tracks some projects. -/
def tracking (projects : List (String × Path)) : Loop :=
  (Watcher.trackAll nestedDisk projects
    (welcome readingEngine nestedDisk ⟨some 0, none, some false, []⟩)).value

/-- A directory and its subdirectory. -/
def nestedRoots : List (String × Path) :=
  [("outer", .ofString "w"), ("inner", .ofString "w/sub")]

/-- One directory under two names. -/
def equalRoots : List (String × Path) :=
  [("early", .ofString "w"), ("late", .ofString "w")]

theorem reachable_tracking (projects : List (String × Path)) : Reachable (tracking projects) :=
  .start readingEngine (.make fun _ _ => none) nestedDisk nestedDisk ⟨some 0, none, some false, []⟩
    (.ok projects) rfl

theorem considers_tracking {projects : List (String × Path)}
    (hprojects : projects ∈ [nestedRoots, equalRoots]) :
    (tracking projects).Considers nestedDisk nestedPath := by
  simp only [List.mem_cons, List.not_mem_nil, or_false] at hprojects
  rcases hprojects with rfl | rfl <;>
    exact ⟨by decide +kernel, not_reloads_of_any (by decide +kernel), by decide +kernel⟩

theorem refreshes_iff_owner_nested :
    ∃ q, (tracking nestedRoots).Holds nestedDisk nestedPath q ∧ q.name = "inner" ∧
      ((tracking nestedRoots).Refreshes (.message nestedDisk 0 (.ok ⟨nestedPath, .modified⟩))
          nestedPath q ↔
        (tracking nestedRoots).projects.resolve nestedPath = some q) := by
  obtain ⟨q, hwatched, hmet, hname⟩ : ∃ q ∈ (tracking nestedRoots).projects.projects,
      (∃ file ∈ (Walk.files q.filter nestedDisk q.root).value, file.same nestedPath = true) ∧
        q.name = "inner" := by
    decide +kernel
  have hholds : (tracking nestedRoots).Holds nestedDisk nestedPath q :=
    ⟨hwatched, hmet, by decide +kernel⟩
  have hchange : (tracking nestedRoots).Considers nestedDisk (Change.mk nestedPath .modified).path :=
    considers_tracking (by simp)
  exact ⟨q, hholds, hname, refreshes_iff_owner (reachable_tracking _).distinct (by decide +kernel)
    hchange hholds 0⟩

/-- What one would like to say of a change: that it refreshes all projects that hold the file. -/
def RefreshesHolders (l : Loop) (disk : Disk) (now : Nat) (change : Change) : Prop :=
  ∀ q, l.Holds disk change.path q →
    l.Refreshes (.message disk now (.ok change)) change.path q

/-- A change in the subdirectory does not refresh the project around it, nor does one below a root
that is tracked twice refresh the project that was tracked first. -/
theorem not_refreshes_holders : nestedDisk.top.WellNamed ∧
    ∀ projects ∈ [nestedRoots, equalRoots], Reachable (tracking projects) ∧
      (tracking projects).Considers nestedDisk nestedPath ∧
        ¬ RefreshesHolders (tracking projects) nestedDisk 0 ⟨nestedPath, .modified⟩ := by
  refine ⟨by decide +kernel, fun projects hprojects => ?_⟩
  have hchange := considers_tracking hprojects
  refine ⟨reachable_tracking projects, hchange, fun hall => ?_⟩
  obtain ⟨q, hwatched, hmet, hother⟩ : ∃ q ∈ (tracking projects).projects.projects,
      (∃ file ∈ (Walk.files q.filter nestedDisk q.root).value, file.same nestedPath = true) ∧
        ((tracking projects).projects.resolve nestedPath).any (·.name != q.name) = true := by
    simp only [List.mem_cons, List.not_mem_nil, or_false] at hprojects
    rcases hprojects with rfl | rfl <;> decide +kernel
  have hclaimed : (tracking projects).engine.claims nestedPath = true := by
    simp only [List.mem_cons, List.not_mem_nil, or_false] at hprojects
    rcases hprojects with rfl | rfl <;> decide +kernel
  have howner := owner_of_refreshes (reachable_tracking projects).distinct hchange hwatched
    (hall q ⟨hwatched, hmet, hclaimed⟩)
  rw [howner] at hother
  simp at hother

end Loop

end TodoIndex
