import TodoIndex.Proofs.Watch.Alignment
import TodoIndex.Proofs.Watch.Coverage

/-! # Reading an ignore file again is tracking afresh

When the ignore file of a project is read again, only what changed is unsubscribed and subscribed.
If the source accepts the calls, the project ends up with the rules and the directories that it
would have if it were tracked anew, no other project is touched, and what is subscribed changes by
these directories alone.
-/

namespace TodoIndex

open Text (bytesOf)

namespace Loop

variable {source : Source} {projects : WatchSet} {r : WatchedProject} {wanted : List Path}
  {folder : Path}

/-! ## What a project wants -/

/-- A directory is among some others, in whatever spelling. -/
def Among (folder : Path) (folders : List Path) : Prop :=
  ∃ f ∈ folders, f.same folder = true

theorem among_distinct_iff {folders : List Path} :
    Among folder (distinct folders) ↔ Among folder folders := by
  constructor
  · intro h
    obtain ⟨f, hf, hsame⟩ := h
    exact ⟨f, mem_of_mem_distinct hf, hsame⟩
  · intro h
    obtain ⟨f, hf, hsame⟩ := h
    obtain ⟨g, hg, hgsame⟩ := exists_distinct hf
    exact ⟨g, hg, Path.same_trans hgsame hsame⟩

theorem among_append_iff {folders others : List Path} :
    Among folder (folders ++ others) ↔ Among folder folders ∨ Among folder others := by
  simp [Among, or_and_right, exists_or]

theorem among_without_iff {folders others : List Path} :
    Among folder (without folders others) ↔ Among folder folders ∧ ¬ Among folder others := by
  constructor
  · intro h
    obtain ⟨f, hf, hsame⟩ := h
    obtain ⟨hmem, hnone⟩ := mem_without.mp hf
    refine ⟨⟨f, hmem, hsame⟩, ?_⟩
    intro hother
    obtain ⟨g, hg, hgsame⟩ := hother
    have hdiffer := hnone g hg
    rw [Path.same_congr_right hsame, hgsame] at hdiffer
    cases hdiffer
  · intro h
    obtain ⟨⟨f, hf, hsame⟩, hnone⟩ := h
    refine ⟨f, mem_without.mpr ⟨hf, ?_⟩, hsame⟩
    intro g hg
    rw [Path.same_congr_right hsame, Bool.eq_false_iff]
    intro hgsame
    exact hnone ⟨g, hg, hgsame⟩

theorem among_among_iff {folders others : List Path} :
    Among folder (among folders others) ↔ Among folder folders ∧ Among folder others := by
  constructor
  · intro h
    obtain ⟨f, hf, hsame⟩ := h
    obtain ⟨hmem, g, hg, hgsame⟩ := mem_among.mp hf
    exact ⟨⟨f, hmem, hsame⟩, g, hg, Path.same_trans hgsame hsame⟩
  · intro h
    obtain ⟨⟨f, hf, hsame⟩, g, hg, hgsame⟩ := h
    exact ⟨f, mem_among.mpr ⟨hf, g, hg, Path.same_trans hgsame (Path.same_symm hsame)⟩, hsame⟩

theorem among_abandoned_iff : Among folder (abandoned projects r wanted) ↔
    r.lists folder = true ∧ ¬ Among folder wanted ∧
      ¬ ∃ p ∈ projects.projects, p.name ≠ r.name ∧ p.lists folder = true := by
  have helsewhere {f : Path} (hsame : f.same folder = true) :
      (!projects.isSubscribedElsewhere f r.name) = true ↔
        ¬ ∃ p ∈ projects.projects, p.name ≠ r.name ∧ p.lists folder = true := by
    rw [Bool.not_eq_true', ← Bool.not_eq_true, WatchSet.isSubscribedElsewhere_iff]
    simp only [WatchedProject.lists_congr hsame]
  have hdropped : Among folder (abandoned projects r wanted) ↔
      Among folder (without (distinct r.folders) wanted) ∧
        ¬ ∃ p ∈ projects.projects, p.name ≠ r.name ∧ p.lists folder = true := by
    constructor
    · intro h
      obtain ⟨f, hf, hsame⟩ := h
      obtain ⟨hmem, hnone⟩ := List.mem_filter.mp hf
      exact ⟨⟨f, hmem, hsame⟩, (helsewhere hsame).mp hnone⟩
    · intro h
      obtain ⟨⟨f, hmem, hsame⟩, hnone⟩ := h
      exact ⟨f, List.mem_filter.mpr ⟨hmem, (helsewhere hsame).mpr hnone⟩, hsame⟩
  rw [hdropped, among_without_iff, among_distinct_iff, WatchedProject.lists_iff, and_assoc]
  rfl

/-- The project lists what it wants. -/
theorem among_realignedFolders_iff (h : source.Accepts) :
    Among folder (realignedFolders projects r wanted source) ↔ Among folder wanted := by
  have hsorted : Among folder (realignedFolders projects r wanted source) ↔
      Among folder (among (distinct r.folders) wanted ++ without wanted (distinct r.folders)) := by
    rw [realignedFolders, (realigned_of_accepts h projects r wanted).1]
    simp only [Among, Debouncer.mem_sortPaths]
  rw [hsorted, among_append_iff, among_among_iff, among_without_iff]
  tauto

/-- The source drops what is abandoned and hears what is wanted, if it heard before what the
project listed. -/
theorem hears_realigned_iff (h : source.Accepts)
    (hlisted : r.lists folder = true → source.hears folder = true) :
    (realigned projects r wanted source).2.hears folder = true ↔
      source.hears folder = true ∧ ¬ Among folder (abandoned projects r wanted) ∨
        Among folder wanted := by
  have hfolders : Among folder (distinct r.folders) ↔ r.lists folder = true := by
    rw [among_distinct_iff, WatchedProject.lists_iff]
    rfl
  have hbefore : source.hears folder = true ↔ Among folder source.subscribed := Source.hears_iff
  have hafter : (realigned projects r wanted source).2.hears folder = true ↔
      Among folder (without source.subscribed (abandoned projects r wanted) ++
        without wanted (distinct r.folders)) := by
    rw [← (realigned_of_accepts h projects r wanted).2]
    exact Source.hears_iff
  rw [hafter, among_append_iff, among_without_iff, among_without_iff, hfolders, ← hbefore]
  constructor
  · intro hcase
    rcases hcase with hkept | hadded
    · exact .inl hkept
    · exact .inr hadded.1
  · intro hcase
    rcases hcase with hkept | hwanted
    · exact .inl hkept
    · by_cases hold : r.lists folder = true
      · refine .inl ⟨hlisted hold, ?_⟩
        intro habandoned
        exact (among_abandoned_iff.mp habandoned).2.1 hwanted
      · exact .inr ⟨hwanted, hold⟩

/-! ## Reading an ignore file again -/

variable {l : Loop} {disk : Disk}

/-- The directories that a project wants, by the rules in its ignore file. -/
def wants (l : Loop) (disk : Disk) (root : Path) : List Path :=
  (Walk.folders (l.engine.filterFor disk root).value disk root).value

/-- The project gets its rules and directories, and every other project is as it was. -/
theorem get?_reloadFilter (h : l.projects.Distinct) (hr : r ∈ l.projects.projects) (disk : Disk)
    (name : String) :
    (l.reloadFilter disk r).value.projects.get? name =
      if name = r.name then
        some { r with
          filter := (l.engine.filterFor disk r.root).value
          folders := realignedFolders l.projects r (distinct (l.wants disk r.root)) l.source }
      else l.projects.get? name := by
  apply h.get?_modify hr
  intro p
  rfl

theorem reloadFilter_source (l : Loop) (disk : Disk) (r : WatchedProject) :
    (l.reloadFilter disk r).value.source =
      (realigned l.projects r (distinct (l.wants disk r.root)) l.source).2 :=
  rfl

/-- **To read an ignore file again is to start over.**  If the source accepts the calls, the
project has the rules and the directories that it would have if it were tracked now, and every
other project is as it was.  The directories are dropped that the project listed, wants no more
and no other project lists, and those that it wants are subscribed. -/
theorem reload_starts_over (h : Reachable l) (haccepts : l.source.Accepts)
    (hr : r ∈ l.projects.projects) (disk : Disk) :
    (∃ reloaded, (l.reloadFilter disk r).value.projects.get? r.name = some reloaded ∧
        (∀ folder, reloaded.lists folder = true ↔ Among folder (l.wants disk r.root)) ∧
        ∀ other : Loop, other.engine = l.engine → other.source.Accepts →
          other.projects.Distinct → ∃ fresh,
            (other.track disk r.name r.root).value.2.projects.get? r.name = some fresh ∧
              reloaded.root = fresh.root ∧ reloaded.filter = fresh.filter ∧
              ∀ folder, reloaded.lists folder = fresh.lists folder) ∧
      (∀ name ≠ r.name,
        (l.reloadFilter disk r).value.projects.get? name = l.projects.get? name) ∧
      ∀ folder, (l.reloadFilter disk r).value.source.hears folder = true ↔
        l.source.hears folder = true ∧
            ¬ (r.lists folder = true ∧ ¬ Among folder (l.wants disk r.root) ∧
              ¬ ∃ p ∈ l.projects.projects, p.name ≠ r.name ∧ p.lists folder = true) ∨
          Among folder (l.wants disk r.root) := by
  have hwants : ∀ folder, Among folder (realignedFolders l.projects r
      (distinct (l.wants disk r.root)) l.source) ↔ Among folder (l.wants disk r.root) := by
    intro folder
    rw [among_realignedFolders_iff haccepts, among_distinct_iff]
  refine ⟨⟨⟨r.name, r.root, (l.engine.filterFor disk r.root).value,
    realignedFolders l.projects r (distinct (l.wants disk r.root)) l.source⟩, ?_, ?_, ?_⟩, ?_, ?_⟩
  · exact (get?_reloadFilter h.distinct hr disk _).trans (if_pos rfl)
  · intro folder
    exact WatchedProject.lists_iff.trans (hwants folder)
  · intro other hengine hother hnames
    have hsame : other.wants disk r.root = l.wants disk r.root := by rw [wants, wants, hengine]
    refine ⟨⟨r.name, r.root, (other.engine.filterFor disk r.root).value,
      other.wants disk r.root⟩, ?_, rfl, by rw [hengine], ?_⟩
    · rw [projects_track hother]
      exact (hnames.get?_insert _ _).trans (if_pos rfl)
    · intro folder
      rw [Bool.eq_iff_iff, hsame, WatchedProject.lists_iff, WatchedProject.lists_iff]
      exact hwants folder
  · intro name hname
    exact (get?_reloadFilter h.distinct hr disk name).trans (if_neg hname)
  · intro folder
    rw [reloadFilter_source, hears_realigned_iff haccepts (h.covered r hr folder),
      among_abandoned_iff, among_distinct_iff]

/-! ## A directory of two projects -/

/-- A directory with two empty ones. -/
def pairDisk : Disk :=
  ⟨.folder (bytesOf "w") (.folder (bytesOf "old") .empty (.folder (bytesOf "sub") .empty .empty))
    .empty, []⟩

/-- The same with a third one, and an ignore file that names the first two. -/
def prunedDisk : Disk :=
  ⟨.folder (bytesOf "w") (.file (bytesOf ".todoignore") (bytesOf "old/\nsub/\n") false
    (.folder (bytesOf "new") .empty
      (.folder (bytesOf "old") .empty (.folder (bytesOf "sub") .empty .empty)))) .empty, []⟩

/-- A watcher that tracks the directory, and the second of the two as another project. -/
def sharing : Loop :=
  (Watcher.trackAll pairDisk [("outer", .ofString "w"), ("inner", .ofString "w/sub")]
    (welcome nestedEngine pairDisk ⟨none, none, none, []⟩)).value

/-- The outer project gives up both directories and gets the new one.  Of those that it gives up
the one is dropped, and the other is still subscribed, for the inner project. -/
theorem reload_starts_over_sharing :
    Reachable sharing ∧ sharing.source.Accepts ∧
      ∃ r ∈ sharing.projects.projects, r.name = "outer" ∧
        r.lists (.ofString "w/old") = true ∧ r.lists (.ofString "w/sub") = true ∧
        (∃ reloaded, (sharing.reloadFilter prunedDisk r).value.projects.get? "outer" =
            some reloaded ∧
          ∀ folder, reloaded.lists folder = true ↔
            Among folder [.ofString "w", .ofString "w/new"]) ∧
        (sharing.reloadFilter prunedDisk r).value.source.hears (.ofString "w/old") = false ∧
        (sharing.reloadFilter prunedDisk r).value.source.hears (.ofString "w/sub") = true ∧
        (sharing.reloadFilter prunedDisk r).value.source.hears (.ofString "w/new") = true := by
  have hcourse := Course.start nestedEngine pairDisk pairDisk ⟨none, none, none, []⟩
    [("outer", .ofString "w"), ("inner", .ofString "w/sub")]
  have hreachable : Reachable sharing := hcourse.reachable
  have haccepts : sharing.source.Accepts := hcourse.accounted.willing.accepts
  have hinner : ∃ p ∈ sharing.projects.projects,
      p.name ≠ "outer" ∧ p.lists (.ofString "w/sub") = true := by
    decide +kernel
  have hold : ¬ ∃ p ∈ sharing.projects.projects,
      p.name ≠ "outer" ∧ p.lists (.ofString "w/old") = true := by
    decide +kernel
  obtain ⟨r, hr, hname, hroot, hlists⟩ : ∃ r ∈ sharing.projects.projects, r.name = "outer" ∧
      r.root = .ofString "w" ∧
        r.lists (.ofString "w/old") = true ∧ r.lists (.ofString "w/sub") = true := by
    decide +kernel
  have hwants : sharing.wants prunedDisk r.root = [.ofString "w", .ofString "w/new"] := by
    rw [hroot]
    decide +kernel
  have hall := reload_starts_over hreachable haccepts hr prunedDisk
  rw [hwants, hname] at hall
  obtain ⟨⟨reloaded, hget, hfolders, -⟩, -, hsubscribed⟩ := hall
  refine ⟨hreachable, haccepts, r, hr, hname, hlists.1, hlists.2,
    ⟨reloaded, hget, hfolders⟩, ?_, ?_, ?_⟩
  · rw [Bool.eq_false_iff]
    intro hhears
    rcases (hsubscribed _).mp hhears with hkept | hwanted
    · exact hkept.2 ⟨hlists.1, by unfold Among; decide +kernel, hold⟩
    · revert hwanted
      unfold Among
      decide +kernel
  · exact (hsubscribed _).mpr (.inl ⟨by decide +kernel, fun hdropped => hdropped.2.2 hinner⟩)
  · exact (hsubscribed _).mpr (.inr (by unfold Among; decide +kernel))

end Loop

end TodoIndex
