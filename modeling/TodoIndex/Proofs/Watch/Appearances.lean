import TodoIndex.Proofs.Walk.Files
import TodoIndex.Proofs.Walk.Subtrees
import TodoIndex.Proofs.Watch.Realignment
import TodoIndex.Watch.Edit

/-! # Directories that appear

A directory that is created is subscribed with all below it that is not pruned.  The system calls it
modified if it was moved to its place, and then nothing is subscribed: neither the directory nor
anything that came with it is watched before the watcher starts again or the ignore file changes.
-/

namespace TodoIndex

open Text (Bytes bytesOf)

/-! ## What a source reports -/

theorem ChangeKind.ofEvent?_eq_created_iff {kind : EventKind} :
    ChangeKind.ofEvent? kind = some .created ↔ kind = .create := by
  cases kind <;> decide

theorem SystemEvent.mem_changes_iff {event : SystemEvent} {change : Change} :
    change ∈ event.changes ↔
      ChangeKind.ofEvent? event.kind = some change.kind ∧ change.path ∈ event.paths := by
  rw [SystemEvent.changes]
  cases hkind : ChangeKind.ofEvent? event.kind with
  | none => simp
  | some kind =>
      rw [List.mem_map]
      constructor
      · intro h
        obtain ⟨path, hpath, rfl⟩ := h
        exact ⟨rfl, hpath⟩
      · intro h
        obtain ⟨hsame, hpath⟩ := h
        cases hsame
        exact ⟨change.path, hpath, rfl⟩

namespace Walk

variable {filter : Ignore.Filter} {disk : Disk} {root p : Path} {inside : Folder}
  {place : List Bytes}

/-! ## What a walk finds below a directory -/

/-- A walk meets the directory at a place below its root: it does not take the root for the standard
input, the root is no link if it is to be met itself, and the place is not pruned as seen from the
root. -/
def Meets (filter : Ignore.Filter) (disk : Disk) (root : Path) (place : List Bytes) : Prop :=
  root.same standardInput = false ∧
    (place = [] → ∀ target, disk.entry false root ≠ .ok (.link target)) ∧
    filter.prunes root (root.descend place) = false

/-- The directories of a walk whose root leads to a directory. -/
theorem mem_folders_of_reached (hroot : disk.entry true root = .ok (.folder inside))
    (hnames : inside.WellNamed) (hinput : root.same standardInput = false) :
    p ∈ (folders filter disk root).value ↔
      ∃ place, (place = [] → ∀ target, disk.entry false root ≠ .ok (.link target)) ∧
        Stands filter root inside .folder place ∧ root.descend place = p := by
  rcases Disk.entry_false_cases hroot with hentry | ⟨target, hentry⟩
  · rw [mem_folders hentry hnames hinput]
    simp [hentry]
  · have hfolders : (folders filter disk root).value =
        ofKind .folder (visit filter root inside.arranged) := by
      simp [folders, found_link hentry hroot hinput, ofKind]
    rw [hfolders, mem_ofKind_visit hnames (Disk.ne_nil_of_entry hroot)]
    simp [hentry]

theorem among_folders_iff (hroot : disk.entry true root = .ok (.folder inside))
    (hnames : inside.WellNamed) (hplace : (inside.folderAt? place).isSome = true) :
    Loop.Among (root.descend place) (folders filter disk root).value ↔
      Meets filter disk root place := by
  have hne := Disk.ne_nil_of_entry hroot
  obtain ⟨below, hbelow⟩ := Option.isSome_iff_exists.mp hplace
  have hvalid := hnames.of_at? (Folder.folderAt?_eq_some_iff.mp hbelow)
  cases hinput : root.same standardInput with
  | true =>
      simp [Loop.Among, Meets, hinput, folders, found_standardInput hinput, ofKind]
  | false =>
      simp only [Loop.Among, Meets, hinput, mem_folders_of_reached hroot hnames hinput]
      constructor
      · intro h
        obtain ⟨f, ⟨other, hself, hstands, rfl⟩, hsame⟩ := h
        obtain rfl := (Path.same_descend_iff (hstands.names hnames) hvalid hne).mp hsame
        exact ⟨trivial, hself, hstands.2⟩
      · intro h
        obtain ⟨-, hself, hkept⟩ := h
        have hstands : Stands filter root inside .folder place :=
          ⟨kind_folder_iff.mpr ⟨below, hbelow⟩, hkept⟩
        exact ⟨_, ⟨place, hself, hstands, rfl⟩, Path.same_self _⟩

/-- From below another root, spelled as a walk from there spells it, a walk meets what is not
pruned seen from that root. -/
theorem meets_descend_iff {names : List Bytes} (hbelow : names ≠ [])
    (hnames : ∀ name ∈ names, IsEntryName name) (hplace : ∀ name ∈ place, IsEntryName name)
    (hroot : root.bytes ≠ []) (hkept : filter.prunes root (root.descend names) = false) :
    Meets filter disk (root.descend names) place ↔
      (place = [] → ∀ target, disk.entry false (root.descend names) ≠ .ok (.link target)) ∧
        filter.prunes root ((root.descend names).descend place) = false := by
  have hwhole : ∀ name ∈ names ++ place, IsEntryName name := by
    intro name hname
    rcases List.mem_append.mp hname with hmem | hmem
    · exact hnames name hmem
    · exact hplace name hmem
  have hsame : filter.prunes root ((root.descend names).descend place) =
      filter.prunes (root.descend names) ((root.descend names).descend place) := by
    rw [Ignore.Filter.prunes_descend hnames hroot] at hkept
    rw [Ignore.Filter.prunes_descend hplace (Path.descend_ne_nil hnames hroot),
      ← Path.descend_append, Ignore.Filter.prunes_descend hwhole hroot,
      Ignore.Filter.prunesBelow_append, hkept, Bool.false_or]
  rw [Meets, hsame, and_iff_right (same_standardInput_below hnames hroot hbelow)]

end Walk

namespace Loop

variable {l : Loop} {disk : Disk} {q : WatchedProject} {path folder : Path} {inside : Folder}
  {place : List Bytes} {name : String} {kind : ChangeKind}

/-! ## Directories that are covered -/

/-- A directory is subscribed and listed for a project. -/
def Covers (l : Loop) (name : String) (folder : Path) : Prop :=
  l.source.hears folder = true ∧ ∃ p ∈ l.projects.get? name, p.lists folder = true

instance (l : Loop) (name : String) (folder : Path) : Decidable (l.Covers name folder) :=
  inferInstanceAs (Decidable (_ ∧ ∃ p ∈ l.projects.get? name, p.lists folder = true))

/-- What is listed is subscribed, so only the list counts. -/
theorem Reachable.covers_iff (h : Reachable l) :
    l.Covers name folder ↔ ∃ p ∈ l.projects.get? name, p.lists folder = true := by
  constructor
  · intro hcovers
    exact hcovers.2
  · intro hlisted
    obtain ⟨p, hp, hlists⟩ := hlisted
    exact ⟨h.covered p (WatchSet.mem_of_get? hp) folder hlists, p, hp, hlists⟩

/-- A directory is at a path when a change of the path is handled: the path belongs to a project,
which does not reject it, and leads to the directory. -/
structure Appears (l : Loop) (disk : Disk) (q : WatchedProject) (path : Path) (inside : Folder) :
    Prop where
  owner : l.projects.resolve path = some q
  kept : q.rejects path = false
  there : disk.entry true path = .ok (.folder inside)

/-- A change of the path makes the loop read the ignore file of the project again. -/
def rereads (l : Loop) (path : Path) (q : WatchedProject) : Bool :=
  !l.isOwn path && l.isIgnoreFile path q

theorem Appears.isFolder (h : l.Appears disk q path inside) : disk.isFolder path = true := by
  simp [Disk.isFolder, h.there]

theorem Appears.mem (h : l.Appears disk q path inside) : q ∈ l.projects.projects :=
  WatchSet.mem_of_resolve h.owner

theorem Appears.lists_iff (h : l.Appears disk q path inside) (hreach : Reachable l) :
    (∃ p ∈ l.projects.get? q.name, p.lists folder = true) ↔ q.lists folder = true := by
  rw [hreach.distinct.get?_of_mem h.mem]
  simp

theorem reachable_handle (hreach : Reachable l) (disk : Disk) (now : Nat) (change : Change) :
    Reachable (l.handle disk now change).value :=
  hreach.react (.message disk now (.ok change))

/-- To read the ignore file again covers what the project wants then. -/
theorem Appears.covers_reread (h : l.Appears disk q path inside) (hreach : Reachable l)
    (haccepts : l.source.Accepts) (hrereads : l.rereads path q = true) (now : Nat) :
    (l.handle disk now ⟨path, kind⟩).value.Covers q.name folder ↔
      Among folder (l.wants disk q.root) := by
  rw [rereads, Bool.and_eq_true, Bool.not_eq_true'] at hrereads
  have hvalue : (l.handle disk now ⟨path, kind⟩).value = (l.reloadFilter disk q).value := by
    simp [handle, h.owner, hrereads.1, hrereads.2]
  have hwants : Among folder (realignedFolders l.projects q (distinct (l.wants disk q.root))
      l.source) ↔ Among folder (l.wants disk q.root) := by
    rw [among_realignedFolders_iff haccepts, among_distinct_iff]
  rw [(reachable_handle hreach disk now _).covers_iff, hvalue,
    get?_reloadFilter hreach.distinct h.mem, if_pos rfl, ← hwants]
  simp [WatchedProject.lists, Among]

/-- A directory that is created is covered with what a walk finds below it. -/
theorem Appears.covers_created (h : l.Appears disk q path inside) (hreach : Reachable l)
    (haccepts : l.source.Accepts) (hnames : disk.top.WellNamed) (hown : l.isOwn path = false)
    (hplain : l.isIgnoreFile path q = false) (hplace : (inside.folderAt? place).isSome = true)
    (now : Nat) :
    (l.handle disk now ⟨path, .created⟩).value.Covers q.name (path.descend place) ↔
      l.Covers q.name (path.descend place) ∨ Walk.Meets q.filter disk path place := by
  have hprojects : (l.handle disk now ⟨path, .created⟩).value.projects =
      l.projects.modify q.name fun p =>
        { p with folders := p.folders ++ (Walk.folders q.filter disk path).value } := by
    rw [projects_handle h.owner]
    simp [hown, hplain, h.kept, h.isFolder, subscribeAll_of_accepts haccepts]
  have hget : (l.handle disk now ⟨path, .created⟩).value.projects.get? q.name =
      some { q with folders := q.folders ++ (Walk.folders q.filter disk path).value } := by
    rw [hprojects]
    refine (hreach.distinct.get?_modify h.mem ?_ q.name).trans (if_pos rfl)
    intro p
    rfl
  have hfound : Among (path.descend place) (Walk.folders q.filter disk path).value ↔
      Walk.Meets q.filter disk path place :=
    Walk.among_folders_iff h.there (Disk.wellNamed_of_entry hnames h.there) hplace
  rw [(reachable_handle hreach disk now _).covers_iff, hreach.covers_iff, h.lists_iff hreach,
    hget, ← hfound]
  simp [WatchedProject.lists, Among, or_and_right, exists_or]

/-- So a directory that is created where the source speaks of it, below a directory that a walk
spells, is covered with all below it that is not pruned. -/
theorem Appears.created_covered {names : List Bytes}
    (h : l.Appears disk q (q.root.descend names) inside) (hreach : Reachable l)
    (haccepts : l.source.Accepts) (hnames : disk.top.WellNamed) (hbelow : names ≠ [])
    (hvalid : ∀ name ∈ names, IsEntryName name) (hroot : q.root.bytes ≠ [])
    (hreal : disk.entry false (q.root.descend names) = .ok (.folder inside))
    (hown : l.isOwn (q.root.descend names) = false)
    (hplain : l.isIgnoreFile (q.root.descend names) q = false)
    (hplace : (inside.folderAt? place).isSome = true)
    (hkept : q.rejects ((q.root.descend names).descend place) = false) (now : Nat) :
    (l.handle disk now ⟨q.root.descend names, .created⟩).value.Covers q.name
      ((q.root.descend names).descend place) := by
  obtain ⟨below, hat⟩ := Option.isSome_iff_exists.mp hplace
  have hinside := Disk.wellNamed_of_entry hnames h.there
  have hstands := hinside.of_at? (Folder.folderAt?_eq_some_iff.mp hat)
  rw [h.covers_created hreach haccepts hnames hown hplain hplace,
    Walk.meets_descend_iff hbelow hvalid hstands hroot h.kept, hreal]
  exact .inr ⟨fun _ _ => by simp, hkept⟩

/-- Nothing else that is said of a directory covers anything. -/
theorem Appears.covers_other (h : l.Appears disk q path inside) (hreach : Reachable l)
    (hrereads : l.rereads path q = false) (hkind : l.isOwn path = true ∨ kind ≠ .created)
    (now : Nat) :
    (l.handle disk now ⟨path, kind⟩).value.Covers q.name folder ↔ l.Covers q.name folder := by
  have hprojects : (l.handle disk now ⟨path, kind⟩).value.projects = l.projects := by
    rw [projects_handle h.owner]
    cases hown : l.isOwn path with
    | true => rw [if_pos rfl]
    | false =>
        have hplain : l.isIgnoreFile path q = false := by simpa [rereads, hown] using hrereads
        have hnot : kind ≠ .created := by simpa [hown] using hkind
        simp [hplain, hnot]
  rw [(reachable_handle hreach disk now _).covers_iff, hreach.covers_iff, hprojects]

/-- **A directory that appears is covered if it is said to be created.**  Let a change be handled
when there is a directory at its path, and let the source accept the calls.  If the change makes the
loop read the ignore file again, a directory at or below the path is covered afterwards just if the
project wants it.  If not, it is covered just if it was so before, or the event is a creation, the
path is no document of the program, and a walk from the path meets the directory. -/
theorem covers_appeared_iff (hreach : Reachable l) (haccepts : l.source.Accepts)
    (hnames : disk.top.WellNamed) {event : SystemEvent} {change : Change}
    (hchange : change ∈ event.changes) (h : l.Appears disk q change.path inside)
    (hplace : (inside.folderAt? place).isSome = true) (now : Nat) :
    (l.handle disk now change).value.Covers q.name (change.path.descend place) ↔
      if l.rereads change.path q then Among (change.path.descend place) (l.wants disk q.root)
      else l.Covers q.name (change.path.descend place) ∨
        event.kind = .create ∧ l.isOwn change.path = false ∧
          Walk.Meets q.filter disk change.path place := by
  obtain ⟨path, kind⟩ := change
  obtain ⟨hkind, -⟩ := SystemEvent.mem_changes_iff.mp hchange
  have hcreate : event.kind = .create ↔ kind = .created := by
    rw [← ChangeKind.ofEvent?_eq_created_iff, hkind, Option.some.injEq]
  cases hrereads : l.rereads path q with
  | true =>
      rw [if_pos rfl]
      exact h.covers_reread hreach haccepts hrereads now
  | false =>
      rw [if_neg (by simp), hcreate]
      by_cases hcreated : l.isOwn path = false ∧ kind = .created
      · obtain ⟨hown, rfl⟩ := hcreated
        have hplain : l.isIgnoreFile path q = false := by simpa [rereads, hown] using hrereads
        rw [h.covers_created hreach haccepts hnames hown hplain hplace]
        simp [hown]
      · have hother : l.isOwn path = true ∨ kind ≠ .created := by
          rwa [not_and_or, Bool.not_eq_false] at hcreated
        rw [h.covers_other hreach hrereads hother]
        tauto

/-! ## A directory that is moved to its place -/

/-- An empty directory beside one with two directories in it. -/
def besideDisk : Disk :=
  ⟨.folder (bytesOf "n") (.folder (bytesOf "b") .empty (.folder (bytesOf "dist") .empty .empty))
    (.folder (bytesOf "w") .empty .empty), []⟩

/-- A watcher that tracks the empty one. -/
def waiting : Loop :=
  (Watcher.trackAll besideDisk [("p", .ofString "/w")]
    (welcome nestedEngine besideDisk ⟨none, none, none, []⟩)).value

/-- Somebody moves the other one into it. -/
def moving : Edit :=
  .move (.ofString "/n") (.ofString "/w/n")

def movedDisk : Disk :=
  (moving.apply besideDisk).2

def movedFolder : Folder :=
  .folder (bytesOf "b") .empty (.folder (bytesOf "dist") .empty .empty)

theorem ready_waiting : Reachable waiting ∧ waiting.source.Accepts := by
  have hcourse := Course.start nestedEngine besideDisk besideDisk ⟨none, none, none, []⟩
    [("p", .ofString "/w")]
  exact ⟨hcourse.reachable, hcourse.accounted.willing.accepts⟩

/-- What is moved there appears, and one of the two directories in it is not pruned. -/
theorem appears_moved : ∃ q, q.name = "p" ∧
    waiting.Appears movedDisk q (.ofString "/w/n") movedFolder ∧
      waiting.rereads (.ofString "/w/n") q = false ∧
        q.rejects (.ofString "/w/n/b") = false ∧
          q.filter.prunes (.ofString "/w/n") (.ofString "/w/n/b") = false ∧
            q.filter.prunes (.ofString "/w/n") (.ofString "/w/n/dist") = true := by
  obtain ⟨q, howner, hname, hkept, hrereads, hrest⟩ :
      ∃ q ∈ waiting.projects.resolve (.ofString "/w/n"), q.name = "p" ∧
        q.rejects (.ofString "/w/n") = false ∧ waiting.rereads (.ofString "/w/n") q = false ∧
          q.rejects (.ofString "/w/n/b") = false ∧
            q.filter.prunes (.ofString "/w/n") (.ofString "/w/n/b") = false ∧
              q.filter.prunes (.ofString "/w/n") (.ofString "/w/n/dist") = true := by
    decide +kernel
  exact ⟨q, hname, ⟨howner, hkept, by decide +kernel⟩, hrereads, hrest⟩

/-- If it is called created, what is not pruned in it is covered, and the rest is not. -/
theorem covers_created_moved :
    (waiting.handle movedDisk 0 ⟨.ofString "/w/n", .created⟩).value.Covers "p"
        (.ofString "/w/n/b") ∧
      ¬ (waiting.handle movedDisk 0 ⟨.ofString "/w/n", .created⟩).value.Covers "p"
        (.ofString "/w/n/dist") := by
  obtain ⟨q, hname, happears, hrereads, -, hmet, hpruned⟩ := appears_moved
  have hchange : (⟨.ofString "/w/n", .created⟩ : Change) ∈
      (SystemEvent.mk .create [.ofString "/w/n"]).changes := by decide +kernel
  have hnames : movedDisk.top.WellNamed := by decide +kernel
  have hb := covers_appeared_iff ready_waiting.1 ready_waiting.2 hnames hchange happears
    (show (movedFolder.folderAt? [bytesOf "b"]).isSome = true by decide +kernel) 0
  have hdist := covers_appeared_iff ready_waiting.1 ready_waiting.2 hnames hchange happears
    (show (movedFolder.folderAt? [bytesOf "dist"]).isSome = true by decide +kernel) 0
  rw [hrereads, if_neg (by simp), hname] at hb hdist
  refine ⟨hb.mpr (.inr ⟨rfl, by decide +kernel, by decide +kernel, ?_, hmet⟩), ?_⟩
  · intro hself
    cases hself
  · intro hcovers
    rcases hdist.mp hcovers with hbefore | ⟨-, -, hmeets⟩
    · revert hbefore
      decide +kernel
    · have hkept : q.filter.prunes (.ofString "/w/n") (.ofString "/w/n/dist") = false :=
        hmeets.2.2
      rw [hpruned] at hkept
      cases hkept

/-- It is called modified, and so neither the directory nor anything in it is covered. -/
theorem not_covers_moved :
    Reachable waiting ∧ waiting.source.Accepts ∧ movedDisk.top.WellNamed ∧
      moving.changes waiting.source.subscribed besideDisk movedDisk =
        [⟨.ofString "/w/n", .modified⟩] ∧
      ∃ q, q.name = "p" ∧ waiting.Appears movedDisk q (.ofString "/w/n") movedFolder ∧
        q.rejects (.ofString "/w/n/b") = false ∧
        ¬ (waiting.handle movedDisk 0 ⟨.ofString "/w/n", .modified⟩).value.Covers "p"
          (.ofString "/w/n") ∧
        ¬ (waiting.handle movedDisk 0 ⟨.ofString "/w/n", .modified⟩).value.Covers "p"
          (.ofString "/w/n/b") := by
  obtain ⟨q, hname, happears, -, hkept, -⟩ := appears_moved
  exact ⟨ready_waiting.1, ready_waiting.2, by decide +kernel, by decide +kernel, q, hname,
    happears, hkept, by decide +kernel, by decide +kernel⟩

end Loop

end TodoIndex
