import TodoIndex.Proofs.Walk.Subtrees
import TodoIndex.Proofs.Watch.Coverage
import TodoIndex.Proofs.Watch.Strays
import TodoIndex.Proofs.Watch.Territories

/-! # Scenes

A watcher hears of what happens on the disk only later.  A scene is a disk with the loop that
watches it and the changes that the loop has still to handle.  In a run of scenes directories are
only added and ignore files are edited at will, and each of this is reported by a change, which is
handled at some time and in whatever order, between commands of every kind.
-/

namespace TodoIndex

namespace WatchSet

variable {s : WatchSet} {name : String}

theorem get?_eq_none (h : name ∉ s.names) : s.get? name = none := by
  refine List.find?_eq_none.mpr fun p hp => ?_
  simp only [decide_eq_true_eq]
  rintro rfl
  exact h (List.mem_map_of_mem hp)

theorem foldersOf_eq_nil (h : name ∉ s.names) : s.foldersOf name = [] := by
  rw [foldersOf, get?_eq_none h]

end WatchSet

namespace Loop

variable {l : Loop} {strays replaced : List Path}

/-- A change below the root of a project makes the loop subscribe nothing for nobody. -/
theorem strays_eq_nil {disk : Disk} {now : Nat} {c : Change} {p : WatchedProject}
    (hp : p ∈ l.projects.projects) (h : c.path.startsWith p.root = true) :
    l.strays (.message disk now (.ok c)) = [] := by
  obtain ⟨q, hq, -⟩ := WatchSet.exists_resolve hp h
  rw [Loop.strays, if_neg (by simp [coversOutside, hq])]

/-- To track projects of different names that are not tracked yet replaces nothing. -/
theorem replacedAll_eq_nil {disk : Disk} {tracked : List (String × Path)}
    (hnames : (tracked.map Prod.fst).Nodup)
    (hfresh : ∀ name ∈ tracked.map Prod.fst, name ∉ l.projects.names) :
    replacedAll disk tracked l = [] := by
  induction tracked generalizing l with
  | nil => rfl
  | cons x tracked ih =>
      obtain ⟨name, root⟩ := x
      obtain ⟨hname, hnames⟩ := List.nodup_cons.mp hnames
      obtain ⟨source, filter, folders, hl⟩ := track_value l disk name root
      rw [replacedAll, WatchSet.foldersOf_eq_nil (hfresh name List.mem_cons_self), List.nil_append]
      refine ih hnames fun other hother hmem => ?_
      rw [hl] at hmem
      rcases WatchSet.mem_names_insert hmem with hmem | rfl
      · exact hfresh other (List.mem_cons_of_mem _ hother) hmem
      · exact hname hother

/-- An event with which nothing strays and nothing is replaced. -/
theorem Course.calm (h : Course l [] []) (e : Event) (hstrays : l.strays e = [])
    (hreplaced : l.replaced e = []) : Course (l.after e) [] [] :=
  h.next e (by rw [hstrays]; rfl) (by rw [hreplaced]; rfl)

/-- What is listed for projects on a course is subscribed. -/
theorem Course.covered (h : Course l strays replaced) : Covered l.source l.projects := by
  induction h with
  | start engine first disk options tracked =>
      exact covered_trackAll disk tracked WatchSet.distinct_empty (by intro p hp; cases hp)
  | react e h ih => exact (turn_after _ e).covered h.accounted.distinct ih
  | launch count _ ih => exact ih

end Loop

/-- A disk, the loop of a watcher, and the changes that it has not handled yet. -/
structure Scene where
  disk : Disk
  loop : Loop
  pending : List Change

namespace Scene

open Loop (Course Event replacedAll_eq_nil welcome)

variable {s : Scene}

/-- The projects that are watched. -/
def tracked (s : Scene) : List WatchedProject :=
  s.loop.projects.projects

/-- The ignore file of a project. -/
def ignoreFile (s : Scene) (root : Path) : Path :=
  root.join (Path.ofString s.loop.engine.settings.ignoreFile)

/-- The rules of a project, as its ignore file is now. -/
def rules (s : Scene) (root : Path) : Ignore.Filter :=
  (s.loop.engine.filterFor s.disk root).value

/-- The subscribed directories are those that walks of the projects find under the rules as they
are now. -/
def Agrees (s : Scene) : Prop :=
  ∀ folder, s.loop.source.hears folder = true ↔
    ∃ p ∈ s.tracked, ∃ f ∈ (Walk.folders (s.rules p.root) s.disk p.root).value,
      f.same folder = true

/-! ## What scenes are like -/

/-- A root is a directory without links below it, and no directory there is a document of the
program itself. -/
structure Plain (s : Scene) (root : Path) : Prop where
  isRoot : s.disk.IsRoot root
  unlinked : ∀ x ∈ s.disk.tree root, x.2 ≠ .link
  foreign : ∀ f ∈ s.disk.foldersBelow root, s.loop.isOwn f = false

/-- Besides, the root is not spelled as the standard input, the system takes the paths of the
directories, and the ignore file belongs to the root and is no document of the program itself. -/
structure Tidy (s : Scene) (root : Path) : Prop extends Plain s root where
  named : root.same Walk.standardInput = false
  takes : ∀ f ∈ s.disk.foldersBelow root, Disk.Takes f
  ignoreOwned : s.loop.projects.Owned root (s.ignoreFile root)
  ignoreForeign : s.loop.isOwn (s.ignoreFile root) = false

/-- No root leads into another one, and all roots have a property. -/
def Fits (property : Scene → Path → Prop) (s : Scene) : Prop :=
  s.loop.projects.Apart ∧ ∀ p ∈ s.tracked, property s p.root

/-- The disk changes: nothing goes but ignore files, a new directory is reported as created, and
an ignore file that reads otherwise is reported. -/
structure Grows (s : Scene) (disk : Disk) (news : List Change) : Prop where
  kept : ∀ p ∈ s.tracked, ∀ x ∈ s.disk.tree p.root,
    x ∈ disk.tree p.root ∨ x.2 = .file ∧ x.1.same (s.ignoreFile p.root) = true
  created : ∀ p ∈ s.tracked, ∀ f ∈ disk.foldersBelow p.root,
    f ∈ s.disk.foldersBelow p.root ∨ ∃ c ∈ news, c.kind = .created ∧ c.path.same f = true
  edited : ∀ p ∈ s.tracked,
    disk.readText (s.ignoreFile p.root) = s.disk.readText (s.ignoreFile p.root) ∨
      ∃ c ∈ news, c.path.same (s.ignoreFile p.root) = true

/-- A change that tells of a directory as created spells it as walks do. -/
def Spelled (s : Scene) (c : Change) : Prop :=
  c.kind = .created →
    (s.disk.isFolder c.path = true ∨
      ∃ p ∈ s.tracked, ∃ f ∈ s.disk.foldersBelow p.root, c.path.same f = true) →
    ∃ p ∈ s.tracked, c.path ∈ s.disk.foldersBelow p.root

instance (s : Scene) (root : Path) : Decidable (s.Plain root) :=
  decidable_of_iff (s.disk.IsRoot root ∧ (∀ x ∈ s.disk.tree root, x.2 ≠ .link) ∧
      ∀ f ∈ s.disk.foldersBelow root, s.loop.isOwn f = false)
    ⟨fun h => ⟨h.1, h.2.1, h.2.2⟩, fun h => ⟨h.isRoot, h.unlinked, h.foreign⟩⟩

instance (s : Scene) (root : Path) : Decidable (s.Tidy root) :=
  decidable_of_iff (s.Plain root ∧ root.same Walk.standardInput = false ∧
      (∀ f ∈ s.disk.foldersBelow root, Disk.Takes f) ∧
      s.loop.projects.Owned root (s.ignoreFile root) ∧ s.loop.isOwn (s.ignoreFile root) = false)
    ⟨fun h => ⟨h.1, h.2.1, h.2.2.1, h.2.2.2.1, h.2.2.2.2⟩,
      fun h => ⟨h.toPlain, h.named, h.takes, h.ignoreOwned, h.ignoreForeign⟩⟩

instance (property : Scene → Path → Prop) [∀ s root, Decidable (property s root)] (s : Scene) :
    Decidable (s.Fits property) :=
  inferInstanceAs (Decidable (_ ∧ ∀ p ∈ s.tracked, _))

instance (s : Scene) (disk : Disk) (news : List Change) : Decidable (s.Grows disk news) :=
  decidable_of_iff
    ((∀ p ∈ s.tracked, ∀ x ∈ s.disk.tree p.root,
        x ∈ disk.tree p.root ∨ x.2 = .file ∧ x.1.same (s.ignoreFile p.root) = true) ∧
      (∀ p ∈ s.tracked, ∀ f ∈ disk.foldersBelow p.root,
        f ∈ s.disk.foldersBelow p.root ∨ ∃ c ∈ news, c.kind = .created ∧ c.path.same f = true) ∧
      ∀ p ∈ s.tracked,
        disk.readText (s.ignoreFile p.root) = s.disk.readText (s.ignoreFile p.root) ∨
          ∃ c ∈ news, c.path.same (s.ignoreFile p.root) = true)
    ⟨fun h => ⟨h.1, h.2.1, h.2.2⟩, fun h => ⟨h.kept, h.created, h.edited⟩⟩

instance (s : Scene) (c : Change) : Decidable (s.Spelled c) :=
  inferInstanceAs (Decidable (_ → _ → _))

/-! ## Runs -/

/-- A watcher with a source that accepts every call has just started. -/
def opened (engine : Engine) (first disk : Disk) (options : Watcher.Options)
    (tracked : List (String × Path)) : Scene :=
  ⟨disk, (Watcher.trackAll disk tracked (welcome engine first options)).value, []⟩

/-- The disk has become another one, and changes have been reported. -/
def grown (s : Scene) (disk : Disk) (news : List Change) : Scene :=
  ⟨disk, s.loop, s.pending ++ news⟩

/-- The loop has reacted to something. -/
def after (s : Scene) (e : Event) : Scene :=
  { s with loop := s.loop.after e }

/-- The loop has handled a change, and others remain. -/
def handled (s : Scene) (now : Nat) (c : Change) (remaining : List Change) : Scene :=
  { s.after (.message s.disk now (.ok c)) with pending := remaining }

/-- The scenes that a watcher can come to.  All roots have a property; every change is handled
while it lies below a root, and has a property then as well.  No name is tracked that is tracked
already. -/
inductive Run (ofRoots : Scene → Path → Prop) (ofChanges : Scene → Change → Prop) :
    Scene → Prop where
  | start {engine : Engine} {first disk : Disk} {options : Watcher.Options}
      {tracked : List (String × Path)} :
      (tracked.map Prod.fst).Nodup → (opened engine first disk options tracked).Fits ofRoots →
      Run ofRoots ofChanges (opened engine first disk options tracked)
  | grow {s : Scene} {disk : Disk} {news : List Change} :
      Run ofRoots ofChanges s → s.Grows disk news → (s.grown disk news).Fits ofRoots →
      Run ofRoots ofChanges (s.grown disk news)
  | handle {s : Scene} (before : List Change) {behind : List Change} {c : Change} (now : Nat) :
      Run ofRoots ofChanges s → s.pending = before ++ c :: behind →
      (∃ p ∈ s.tracked, c.path.startsWith p.root = true) → ofChanges s c →
      Run ofRoots ofChanges (s.handled now c (before ++ behind))
  | fail {s : Scene} (now : Nat) (e : WatchError) :
      Run ofRoots ofChanges s → Run ofRoots ofChanges (s.after (.message s.disk now (.error e)))
  | track {s : Scene} {name : String} {root : Path} :
      Run ofRoots ofChanges s → name ∉ s.loop.projects.names →
      (s.after (.track s.disk name root)).Fits ofRoots →
      Run ofRoots ofChanges (s.after (.track s.disk name root))
  | untrack {s : Scene} (name : String) :
      Run ofRoots ofChanges s → Run ofRoots ofChanges (s.after (.untrack name))
  | sweep {s : Scene} (now : Nat) :
      Run ofRoots ofChanges s → Run ofRoots ofChanges (s.after (.sweep now))
  /-- Some of the rescans that are due begin. -/
  | launch {s : Scene} (count : Nat) :
      Run ofRoots ofChanges s →
      Run ofRoots ofChanges { s with loop := { s.loop with rescans := s.loop.rescans.drop count } }

/-! ## Subscriptions along a run -/

variable {ofRoots : Scene → Path → Prop} {ofChanges : Scene → Change → Prop}

/-- A run is a course on which nothing strays and nothing is replaced. -/
theorem Run.course (h : Run ofRoots ofChanges s) : Course s.loop [] [] := by
  induction h with
  | @start engine first disk options tracked hnames _ =>
      have hcourse := Course.start engine first disk options tracked
      rwa [replacedAll_eq_nil hnames fun _ _ => List.not_mem_nil] at hcourse
  | grow _ _ _ ih => exact ih
  | @handle s before behind c now _ _ hinside _ ih =>
      obtain ⟨p, hp, hstarts⟩ := hinside
      exact ih.calm (.message s.disk now (.ok c)) (Loop.strays_eq_nil hp hstarts) rfl
  | @fail s now e _ ih => exact ih.calm (.message s.disk now (.error e)) rfl rfl
  | @track s name root _ hfresh _ ih =>
      exact ih.calm (.track s.disk name root) rfl (WatchSet.foldersOf_eq_nil hfresh)
  | untrack name _ ih => exact ih.calm (.untrack name) rfl rfl
  | sweep now _ ih => exact ih.calm (.sweep now) rfl rfl
  | launch count _ ih => exact ih.launch count

/-- What is subscribed in a run is what is listed for the projects. -/
theorem Run.hears_iff (h : Run ofRoots ofChanges s) {folder : Path} :
    s.loop.source.hears folder = true ↔ ∃ p ∈ s.tracked, p.lists folder = true := by
  constructor
  · exact fun hhears => h.course.accounted.listed hhears (by simp)
  · rintro ⟨p, hp, hlists⟩
    exact h.course.covered p hp folder hlists

end Scene

end TodoIndex
