import TodoIndex.Proofs.Walk.Files
import TodoIndex.Proofs.Watch.Alignment
import TodoIndex.Proofs.Watch.Freshness

/-! # What a watcher heeds

A scan finds the files of a project by a walk from its root, and a watcher looks at one path at a
time; both go by the same rules.  So the changes that a watcher heeds are those of the files that a
scan would visit and that have an extension.  Where they part is a root that is taken for the
standard input: no scan visits anything there, and the watcher heeds it all the same.
-/

namespace TodoIndex

open Text (Bytes bytesOf)

/-- The time of a change can be read off what waits after it. -/
theorem Debouncer.time_of_setTime {path : Path} {time other : Nat} {entries : List (Path × Nat)}
    (h : setTime path time entries = setTime path other entries) : time = other := by
  induction entries with
  | nil => simpa [setTime] using h
  | cons first rest ih =>
      obtain ⟨p, old⟩ := first
      rw [setTime, setTime] at h
      by_cases hp : p.same path = true
      · simpa [hp] using h
      · exact ih (by simpa [hp] using h)

namespace Loop

variable {l : Loop} {disk : Disk} {path : Path} {q : WatchedProject}

/-- A scan of a project, by the rules that its ignore file gives now, visits a path and may read
it: it has an extension. -/
def Reads (l : Loop) (disk : Disk) (q : WatchedProject) (path : Path) : Prop :=
  (∃ file ∈ (Walk.files (l.engine.filterFor disk q.root).value disk q.root).value,
    file.same path = true) ∧ (Extension.ofPath? path).isSome = true

/-- The loop after a change that it heeds: a rescan of the project is due, or the path waits. -/
def Heeded (l : Loop) (q : WatchedProject) (path : Path) (now : Nat) (next : Loop) : Prop :=
  next = { l with rescans := l.rescans ++ [(q.name, q.root)] } ∨
    next = { l with debouncer := l.debouncer.record path now }

/-- The loop heeds the changes of a path if a scan of the project reads it, and else nothing comes
of them. -/
def Attends (l : Loop) (disk : Disk) (q : WatchedProject) (path : Path) : Prop :=
  ∀ now kind,
    (l.Reads disk q path → l.Heeded q path now (l.handle disk now ⟨path, kind⟩).value) ∧
      (¬ l.Reads disk q path → (l.handle disk now ⟨path, kind⟩).value = l)

/-- A file of a project that can be reached from its root, whose changes have nothing to do with
own documents and ignore files. -/
structure Belongs (l : Loop) (disk : Disk) (q : WatchedProject) (path : Path) : Prop where
  owner : l.projects.resolve path = some q
  foreign : l.isOwn path = false
  plain : l.isIgnoreFile path q = false
  file : ∃ content executable, disk.entry false path = .ok (.file content executable)
  reached : Walk.Reaches disk q.root path

theorem Belongs.isFolder (h : l.Belongs disk q path) : disk.isFolder path = false := by
  obtain ⟨content, executable, hfile⟩ := h.file
  have hfollow := Disk.entry_followLast (by simp [Entry.kind]) hfile
  simp [Disk.isFolder, hfollow]

theorem Belongs.reads_iff (h : l.Belongs disk q path) (hnames : disk.top.WellNamed)
    (hrules : q.filter = (l.engine.filterFor disk q.root).value) :
    l.Reads disk q path ↔ (q.root.same Walk.standardInput = false ∧ q.rejects path = false) ∧
      (Extension.ofPath? path).isSome = true := by
  unfold Reads WatchedProject.rejects
  rw [Walk.mem_files_iff hnames h.reached, hrules]

theorem Belongs.handle_eq_self (h : l.Belongs disk q path)
    (hidle : q.rejects path = true ∨ Extension.ofPath? path = none) (now : Nat)
    (kind : ChangeKind) : (l.handle disk now ⟨path, kind⟩).value = l := by
  have hplain : ∀ r, l.projects.resolve path = some r → l.isIgnoreFile path r = false := by
    intro r hr
    obtain rfl : q = r := Option.some.inj (h.owner.symm.trans hr)
    exact h.plain
  by_cases hrejects : q.rejects path = true
  · apply handle_ignored hplain
    rw [h.owner]
    exact hrejects
  · have hextension := hidle.resolve_left hrejects
    have hpassed : Passed l disk now ⟨path, kind⟩ (l.handle disk now ⟨path, kind⟩).value :=
      passed_file h.foreign h.owner h.plain disk now
    generalize (l.handle disk now ⟨path, kind⟩).value = next at hpassed ⊢
    cases hpassed with
    | ignored | folder | noExtension => rfl
    | created _ hfolder => cases h.isFolder.symm.trans hfolder
    | due _ _ hsome | waiting _ _ hsome => cases hextension.symm.trans hsome

theorem Belongs.handle_heeded (h : l.Belongs disk q path) (hkept : q.rejects path = false)
    (hextension : (Extension.ofPath? path).isSome = true) (now : Nat) (kind : ChangeKind) :
    l.Heeded q path now (l.handle disk now ⟨path, kind⟩).value := by
  obtain ⟨extension, hextension⟩ := Option.isSome_iff_exists.mp hextension
  have hvalue := handle_source ⟨path, kind⟩ h.foreign h.owner h.plain hkept h.isFolder hextension
    now
  split at hvalue
  · exact .inl hvalue
  · exact .inr hvalue

/-- Something comes of a change that is heeded, if not now then a moment later. -/
theorem not_heeded_self : ¬ ∀ now, l.Heeded q path now l := by
  intro hself
  have hrecord : ∀ now, l.debouncer.pending = Debouncer.setTime path now l.debouncer.pending := by
    intro now
    rcases hself now with hdue | hwaiting
    · have hlength := congrArg (fun l => l.rescans.length) hdue
      simp at hlength
    · exact congrArg (fun l => l.debouncer.pending) hwaiting
  exact absurd (Debouncer.time_of_setTime ((hrecord 0).symm.trans (hrecord 1))) (by decide)

/-- Neither a scan nor the watcher cares for a file that is ignored or has no extension. -/
theorem Belongs.attends_of_idle (h : l.Belongs disk q path) (hnames : disk.top.WellNamed)
    (hrules : q.filter = (l.engine.filterFor disk q.root).value)
    (hidle : q.rejects path = true ∨ Extension.ofPath? path = none) : l.Attends disk q path := by
  have hunread : ¬ l.Reads disk q path := by
    rw [h.reads_iff hnames hrules]
    rintro ⟨⟨-, hkept⟩, hextension⟩
    rcases hidle with hrejects | hnone
    · simp [hkept] at hrejects
    · simp [hnone] at hextension
  intro now kind
  exact ⟨fun hread => absurd hread hunread, fun _ => h.handle_eq_self hidle now kind⟩

/-- **A watcher heeds what a scan reads.**  For a file that can be reached from the root of the
project that owns it, while the rules of the project are those of its ignore file: a change of any
kind makes a rescan due or lets the path wait if a scan visits the file and it has an extension,
and changes nothing at all otherwise.  This holds if and only if the root is not taken for the
standard input, or nothing comes of the changes for another reason: the file is ignored or has no
extension. -/
theorem attends_iff (h : l.Belongs disk q path) (hnames : disk.top.WellNamed)
    (hrules : q.filter = (l.engine.filterFor disk q.root).value) :
    l.Attends disk q path ↔ q.root.same Walk.standardInput = false ∨ q.rejects path = true ∨
      Extension.ofPath? path = none := by
  by_cases hidle : q.rejects path = true ∨ Extension.ofPath? path = none
  · exact iff_of_true (h.attends_of_idle hnames hrules hidle) (.inr hidle)
  rw [or_iff_left hidle]
  rw [not_or] at hidle
  have hreads := h.reads_iff hnames hrules
  have hkept : q.rejects path = false := by simpa using hidle.1
  have hextension : (Extension.ofPath? path).isSome = true := Option.isSome_iff_ne_none.mpr hidle.2
  have hheeded := h.handle_heeded hkept hextension
  constructor
  · intro hattends
    refine Bool.eq_false_iff.mpr fun hinput => ?_
    have hunread : ¬ l.Reads disk q path := by
      rw [hreads]
      rintro ⟨⟨hother, -⟩, -⟩
      simp [hinput] at hother
    apply not_heeded_self (l := l) (q := q)
    intro now
    have hnow := hheeded now .modified
    rwa [(hattends now .modified).2 hunread] at hnow
  · intro hinput now kind
    refine ⟨fun _ => hheeded now kind, fun hunread => ?_⟩
    exact absurd (hreads.mpr ⟨⟨hinput, hkept⟩, hextension⟩) hunread

/-! ## Two watchers -/

theorem exists_belongs {root : Path}
    (howner : (l.projects.resolve path).any (fun q => !l.isIgnoreFile path q && q.root = root) = true)
    (hforeign : l.isOwn path = false)
    (hfile : ∃ content executable, disk.entry false path = .ok (.file content executable))
    (hreached : Walk.Reaches disk root path) : ∃ q, l.Belongs disk q path ∧ q.root = root := by
  obtain ⟨q, hq, hchecks⟩ := (Option.any_eq_true _ _).mp howner
  simp only [Bool.and_eq_true, Bool.not_eq_true', decide_eq_true_eq] at hchecks
  obtain ⟨hplain, rfl⟩ := hchecks
  exact ⟨q, ⟨hq, hforeign, hplain, hfile, hreached⟩, rfl⟩

/-- The rules of all projects are those of their ignore files when a watcher starts. -/
theorem rules_trackAll {engine : Engine} {first : Disk} {options : Watcher.Options}
    {tracked : List (String × Path)}
    (hl : l = (Watcher.trackAll disk tracked (welcome engine first options)).value)
    (hq : l.projects.resolve path = some q) :
    q.filter = (l.engine.filterFor disk q.root).value := by
  have hengine : l.engine = engine := by
    rw [hl]
    exact (engine_trackAll disk tracked _).1
  rw [hengine]
  subst hl
  rcases projects_trackAll (fun _ _ => rfl) (WatchSet.mem_of_resolve hq) with hnone | ⟨hfilter, -⟩
  · cases hnone
  · exact hfilter

theorem attends_iff_nested :
    ∃ q, (tracking nestedRoots).Belongs nestedDisk q nestedPath ∧ q.root = .ofString "w/sub" ∧
      (tracking nestedRoots).Attends nestedDisk q nestedPath := by
  have hreached : Walk.Reaches nestedDisk (.ofString "w/sub") nestedPath :=
    .below [bytesOf "x.go"] rfl rfl (by decide +kernel)
  obtain ⟨q, hbelongs, hroot⟩ := exists_belongs (l := tracking nestedRoots) (by decide +kernel)
    (by decide +kernel) ⟨_, _, rfl⟩ hreached
  refine ⟨q, hbelongs, hroot, ?_⟩
  apply (attends_iff hbelongs (by decide +kernel) (rules_trackAll rfl hbelongs.owner)).mpr
  left
  rw [hroot]
  decide +kernel

/-- A watcher that tracks a directory whose name is taken for the standard input. -/
def dashTown : Loop :=
  (Watcher.trackAll Walk.dashDisk [("dash", .ofString "-")]
    (welcome readingEngine Walk.dashDisk ⟨some 0, none, some false, []⟩)).value

/-- A scan of the directory visits nothing, and yet a change of the file in it waits for one. -/
theorem not_attends_dash :
    Reachable dashTown ∧ Walk.dashDisk.top.WellNamed ∧
      ∃ q, dashTown.Belongs Walk.dashDisk q (.ofString "-/a.go") ∧
        q.filter = (dashTown.engine.filterFor Walk.dashDisk q.root).value ∧
          ¬ dashTown.Attends Walk.dashDisk q (.ofString "-/a.go") := by
  have hreachable : Reachable dashTown :=
    .start readingEngine (.make fun _ _ => none) Walk.dashDisk Walk.dashDisk
      ⟨some 0, none, some false, []⟩ (.ok [("dash", .ofString "-")]) rfl
  have hreached : Walk.Reaches Walk.dashDisk (.ofString "-") (.ofString "-/a.go") :=
    .below [bytesOf "a.go"] rfl rfl (by decide +kernel)
  obtain ⟨q, hbelongs, hroot⟩ := exists_belongs (l := dashTown) (by decide +kernel)
    (by decide +kernel) ⟨_, _, rfl⟩ hreached
  refine ⟨hreachable, by decide +kernel, q, hbelongs, rules_trackAll rfl hbelongs.owner, ?_⟩
  intro hattends
  have hunread : ¬ dashTown.Reads Walk.dashDisk q (.ofString "-/a.go") := by
    rintro ⟨⟨file, hfile, -⟩, -⟩
    rw [hroot, Walk.files_standardInput (by decide +kernel)] at hfile
    cases hfile
  have hstill := (hattends 0 .modified).2 hunread
  have hmoved : (dashTown.handle Walk.dashDisk 0
      ⟨.ofString "-/a.go", .modified⟩).value.debouncer.paths ≠ dashTown.debouncer.paths := by
    decide +kernel
  exact hmoved (by rw [hstill])

end Loop

end TodoIndex
