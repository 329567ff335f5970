import TodoIndex.Proofs.Watch.Pending
import TodoIndex.Proofs.Watch.Turns

/-! # Listed directories are subscribed

A directory that some project lists is subscribed.  Every turn keeps it so: what is newly listed
is what the source has just taken, and a directory is dropped only if the project that gives it up
is the last one to list it.
-/

namespace TodoIndex

namespace Loop

/-- Every directory that a project lists is subscribed. -/
def Covered (source : Source) (projects : WatchSet) : Prop :=
  ∀ p ∈ projects.projects, ∀ folder, p.lists folder = true → source.hears folder = true

variable {source : Source} {projects : WatchSet}

/-- What another project lists outlives an attempt to drop it. -/
theorem Covered.unsubscribeAll (h : Covered source projects) {others : WatchSet} {name : String}
    {p : WatchedProject} (hp : p ∈ projects.projects) (hother : p ∈ others.projects)
    (hname : p.name ≠ name) (folders : List Path) {folder : Path}
    (hlists : p.lists folder = true) :
    (unsubscribeAll others name folders source).value.hears folder = true := by
  refine hears_unsubscribeAll (h p hp folder hlists) fun f _ hsame => ?_
  exact WatchSet.isSubscribedElsewhere_iff.mpr
    ⟨p, hother, hname, (WatchedProject.lists_congr hsame).trans hlists⟩

/-- A project that wants other directories now is covered in those it had and still wants, and in
those it gets. -/
theorem Covered.realigned (h : Covered source projects) {r : WatchedProject}
    (hr : r ∈ projects.projects) (wanted : List Path) {folder : Path}
    (hfolder : folder ∈ realignedFolders projects r wanted source) :
    (realigned projects r wanted source).2.hears folder = true := by
  rcases List.mem_append.mp (Debouncer.mem_sortPaths.mp hfolder) with hold | hnew
  · obtain ⟨hcurrent, other, hwanted, hsame⟩ := mem_among.mp hold
    have hlists : r.lists folder = true :=
      WatchedProject.lists_of_mem (mem_of_mem_distinct hcurrent)
    refine hears_subscribeAll _ ?_
    refine hears_unsubscribeAll (h r hr folder hlists) fun f hf hdropped => ?_
    -- A spelling of a directory that is still wanted is not among those to be dropped.
    have hunwanted := (mem_without.mp hf).2 other hwanted
    rw [Path.same_congr_right hdropped, hsame] at hunwanted
    cases hunwanted
  · exact hears_of_mem_subscribeAll hnew

theorem Turn.covered {source' : Source} {projects' : WatchSet} {strays replaced : List Path}
    (h : Turn source projects source' projects' strays replaced) (hnames : projects.Distinct)
    (hcovered : Covered source projects) : Covered source' projects' := by
  intro q hq folder hlists
  cases h with
  | still => exact hcovered q hq folder hlists
  | tracked wanted hp =>
      rcases WatchSet.mem_insert.mp hq with hq | rfl
      · exact hears_subscribeAll _ (hcovered q (WatchSet.mem_of_mem_remove hq) folder hlists)
      · obtain ⟨f, hf, hsame⟩ := WatchedProject.lists_iff.mp hlists
        rw [← Source.hears_congr hsame]
        exact hears_of_mem_subscribeAll (hp ▸ hf)
  | untracked hr =>
      exact hcovered.unsubscribeAll (WatchSet.mem_of_mem_remove hq) hq
        (hnames.ne_of_mem_remove hq) _ hlists
  | @reloaded r filter wanted hr =>
      obtain ⟨p, hp, rfl⟩ := WatchSet.mem_modify.mp hq
      split at hlists
      · obtain ⟨f, hf, hsame⟩ := WatchedProject.lists_iff.mp hlists
        rw [← Source.hears_congr hsame]
        exact hcovered.realigned hr wanted hf
      · rename_i hname
        exact hears_subscribeAll _ (hcovered.unsubscribeAll hp hp hname _ hlists)
  | grown found hr =>
      obtain ⟨p, hp, rfl⟩ := WatchSet.mem_modify.mp hq
      split at hlists
      · obtain ⟨f, hf, hsame⟩ := WatchedProject.lists_iff.mp hlists
        rw [← Source.hears_congr hsame]
        rcases List.mem_append.mp hf with hold | hnew
        · exact hears_subscribeAll _ (hcovered p hp f (WatchedProject.lists_of_mem hold))
        · exact hears_of_mem_subscribeAll hnew
      · exact hears_subscribeAll _ (hcovered p hp folder hlists)
  | outside found => exact hears_subscribeAll _ (hcovered q hq folder hlists)

theorem covered_trackAll (disk : Disk) (tracked : List (String × Path)) {l : Loop}
    (hnames : l.projects.Distinct) (h : Covered l.source l.projects) :
    Covered (Watcher.trackAll disk tracked l).value.source
      (Watcher.trackAll disk tracked l).value.projects := by
  have htrack : ∀ (l : Loop) name root, l.projects.Distinct ∧ Covered l.source l.projects →
      (l.track disk name root).value.2.projects.Distinct ∧
        Covered (l.track disk name root).value.2.source
          (l.track disk name root).value.2.projects :=
    fun l name root h =>
      ⟨distinct_track h.1 disk name root, (turn_track l disk name root).covered h.1 h.2⟩
  exact (trackAll_induction (P := fun l => l.projects.Distinct ∧ Covered l.source l.projects)
    disk htrack tracked ⟨hnames, h⟩).2

theorem Reachable.covered {l : Loop} (h : Reachable l) : Covered l.source l.projects := by
  induction h with
  | start engine source first disk options tracked hstart =>
      obtain ⟨projects, source, rfl⟩ := start_value hstart
      exact covered_trackAll disk projects WatchSet.distinct_empty (by intro p hp; cases hp)
  | react e hreach ih => exact (turn_after _ e).covered hreach.distinct ih
  | launch count _ ih => exact ih

/-- **Subscriptions never go missing.**  Whatever a watcher reacts to and whatever its source
refuses, every directory that is listed for a project is subscribed at the source. -/
theorem Reachable.listed_subscribed {l : Loop} (h : Reachable l) {p : WatchedProject}
    (hp : p ∈ l.projects.projects) {folder : Path} (hfolder : folder ∈ p.folders) :
    l.source.hears folder = true :=
  h.covered p hp folder (WatchedProject.lists_of_mem hfolder)

/-! ## A source that refuses -/

/-- A source that refuses every third call, and goes on with a directory it refuses to drop. -/
def grudging : Source :=
  { Source.make (fun call _ => if call % 3 = 1 then some "busy" else none) with
    keeps := fun _ _ => true }

/-- A watcher with such a source tracks a directory and its subdirectory, hears that the latter
was created, and then tracks the directory no more. -/
def grudged : Loop :=
  ((Watcher.trackAll nestedDisk [("outer", .ofString "w"), ("inner", .ofString "w/sub")]
      { built nestedEngine grudging nestedDisk ⟨none, none, none, []⟩ with
        source := { grudging with taken := true } }).value
    |>.after (.message nestedDisk 0 (.ok ⟨.ofString "w/sub", .created⟩))
    |>.after (.untrack "outer"))

theorem reachable_grudged : Reachable grudged := by
  refine .react _ (.react _ ?_)
  exact .start nestedEngine grudging nestedDisk nestedDisk ⟨none, none, none, []⟩
    (.ok [("outer", .ofString "w"), ("inner", .ofString "w/sub")]) rfl

/-- The subdirectory is still subscribed, for the project that lists it twice by now. -/
theorem listed_subscribed_grudged :
    Reachable grudged ∧ ∃ p ∈ grudged.projects.projects,
      p.folders = [.ofString "w/sub", .ofString "w/sub"] ∧
        Path.ofString "w/sub" ∈ p.folders ∧ grudged.source.hears (.ofString "w/sub") = true := by
  have hfolders : grudged.projects.projects.map (·.folders) =
      [[.ofString "w/sub", .ofString "w/sub"]] := by decide +kernel
  obtain ⟨p, hp, hlisted⟩ : ∃ p ∈ grudged.projects.projects,
      p.folders = [.ofString "w/sub", .ofString "w/sub"] :=
    List.mem_map.mp (hfolders ▸ List.mem_singleton_self _)
  have hmem : Path.ofString "w/sub" ∈ p.folders := hlisted ▸ List.mem_cons_self
  exact ⟨reachable_grudged, p, hp, hlisted, hmem,
    reachable_grudged.listed_subscribed hp hmem⟩

end Loop

end TodoIndex
