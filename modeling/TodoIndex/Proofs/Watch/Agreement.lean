import TodoIndex.Proofs.Watch.InStep

/-! # Subscriptions agree with walks

All scenes of a run are in order and their projects in step.  So whenever nothing is pending, in
whatever order changes were handled and commands came between, the subscribed directories are those
that walks find.
-/

namespace TodoIndex

open Text (bytesOf)

namespace Scene

variable {s : Scene}

theorem Run.sound_of {s : Scene} (h : Run Tidy Spelled s)
    (hin : s.Fits Tidy ∧ ∀ p ∈ s.tracked, s.InStep p) : s.Sound :=
  ⟨h.course.accounted.distinct, h.course.accounted.willing, hin.1, hin.2⟩

theorem Run.sound (h : Run Tidy Spelled s) : s.Sound := by
  induction h with
  | @start engine first disk options tracked hnames hfits =>
      refine (Run.start hnames hfits).sound_of ⟨hfits, fun p hp => ?_⟩
      have htidy := hfits.2 p hp
      have hengine : (opened engine first disk options tracked).loop.engine = engine :=
        (Loop.engine_trackAll disk tracked _).1
      rcases Loop.projects_trackAll (fun _ _ => rfl) hp with hnone | ⟨hfilter, hfolders⟩
      · cases hnone
      · refine inStep_of_walk htidy.isRoot htidy.named ?_ fun f => by rw [hfolders]; rfl
        rw [hfilter, Scene.rules, hengine]
        rfl
  | @grow s disk news hrun hgrows hfits ih =>
      refine (Run.grow hrun hgrows hfits).sound_of ⟨hfits, fun p hp => ?_⟩
      exact (ih.inStep p hp).grow hp hgrows (hfits.2 p hp).isRoot
  | @handle s before behind c now hrun hpending hinside hspelled ih =>
      obtain ⟨p, hp, hstarts⟩ := hinside
      obtain ⟨q, hq, -⟩ := WatchSet.exists_resolve hp hstarts
      have hall := ih.inStep_handled hpending hspelled hq now
      refine (Run.handle before now hrun hpending ⟨p, hp, hstarts⟩ hspelled).sound_of ?_
      exact ⟨ih.fits.beside (handles_handled hpending now).toBeside fun p hp => (hall p hp).2,
        fun p hp => (hall p hp).1⟩
  | @fail s now e hrun ih =>
      exact (Run.fail now e hrun).sound_of (ih.fewer (s.beside_after _) rfl fun p hp => hp)
  | @track s name root hrun hfresh hfits ih =>
      refine (Run.track hrun hfresh hfits).sound_of ⟨hfits, fun p hp => ?_⟩
      have hbeside := s.beside_after (.track s.disk name root)
      have hprojects : (s.after (.track s.disk name root)).loop.projects = _ :=
        Loop.projects_track ih.willing.accepts s.disk name root
      have hmem := hp
      rw [tracked, hprojects] at hmem
      rcases WatchSet.mem_insert.mp hmem with hold | rfl
      · exact (ih.inStep p (WatchSet.mem_of_mem_remove hold)).forget hbeside fun c hc _ => hc
      · have htidy := hfits.2 _ hp
        exact inStep_of_walk htidy.isRoot htidy.named (hbeside.rules _).symm fun f => Iff.rfl
  | @untrack s name hrun ih =>
      refine (Run.untrack name hrun).sound_of (ih.fewer (s.beside_after _) rfl fun p hp => ?_)
      exact Loop.projects_untrack hp
  | @sweep s now hrun ih =>
      refine (Run.sweep now hrun).sound_of (ih.fewer (s.beside_after _) rfl fun p hp => ?_)
      have hprojects : (s.after (.sweep now)).loop = _ := Loop.sweep_value s.loop now
      rw [tracked, hprojects] at hp
      exact hp
  | @launch s count hrun ih =>
      exact (Run.launch count hrun).sound_of (ih.fewer ⟨rfl, rfl, rfl⟩ rfl fun p hp => hp)

/-- **Whenever nothing is pending, the subscribed directories are those that walks find.**  The
roots may be tracked and untracked at any time, directories may be made and ignore files edited at
any time, and what is reported may be handled in any order. -/
theorem Run.agrees (h : Run Tidy Spelled s) (hpending : s.pending = []) : s.Agrees := by
  intro folder
  have hsound := h.sound
  rw [h.hears_iff]
  refine exists_congr fun p => and_congr_right fun hp => ?_
  have htidy := hsound.fits.2 p hp
  rw [WatchedProject.lists_iff]
  refine exists_congr fun f => and_congr_left fun _ => ?_
  exact (hsound.inStep p hp).mem_folders_iff hpending htidy.isRoot htidy.named

/-! ## Late changes -/

/-- Two empty directories at first; by now there are two new ones in one of them, the second
inside the first, and an ignore file that names the second. -/
def lateDisk : Disk :=
  ⟨.folder (bytesOf "v") .empty (.folder (bytesOf "w")
    (.file (bytesOf ".todoignore") (bytesOf "old/\n") false
      (.folder (bytesOf "new") (.folder (bytesOf "old") .empty .empty) .empty)) .empty), []⟩

def innerCreated : Change :=
  ⟨.ofString "w/new/old", .created⟩

def outerCreated : Change :=
  ⟨.ofString "w/new", .created⟩

def rulesCreated : Change :=
  ⟨.ofString "w/.todoignore", .created⟩

def lateStart : Scene :=
  (opened Loop.nestedEngine Loop.townDisk Loop.townDisk ⟨none, none, none, []⟩
    [("p", .ofString "w")]).grown lateDisk [innerCreated, rulesCreated, outerCreated]

/-- The watcher handles the inner directory before the outer one and the ignore file last, and
then tracks the other directory. -/
def late : Scene :=
  let inner := lateStart.handled 0 innerCreated [rulesCreated, outerCreated]
  let outer := inner.handled 0 outerCreated [rulesCreated]
  (outer.handled 0 rulesCreated []).after (.track lateDisk "q" (.ofString "v"))

theorem run_late : Run Tidy Spelled late := by
  have hstart : Run Tidy Spelled lateStart :=
    .grow (.start (by decide) (by decide +kernel)) (by decide +kernel) (by decide +kernel)
  have hinner := hstart.handle [] 0 rfl (by decide +kernel) (by decide +kernel)
  have houter := hinner.handle [rulesCreated] 0 rfl (by decide +kernel)
    (by decide +kernel)
  have hrules := houter.handle [] 0 rfl (by decide +kernel) (by decide +kernel)
  exact hrules.track (by decide +kernel) (by decide +kernel)

/-- The two directories that are subscribed for the first project have been subscribed late, and
the one that its rules leave out has been dropped again. -/
theorem agrees_late :
    Run Tidy Spelled late ∧ late.pending = [] ∧
      late.loop.source.subscribed = [.ofString "w", .ofString "w/new", .ofString "v"] ∧
        late.Agrees :=
  ⟨run_late, rfl, by decide +kernel, run_late.agrees rfl⟩

/-! ## Where subscriptions stay behind -/

/-- A scene of a run whose roots need not be in order: all is handled, and yet subscriptions
are not those that walks find. -/
def StaysBehind (s : Scene) : Prop :=
  Run Plain (fun _ _ => True) s ∧ s.pending = [] ∧ ¬ s.Agrees

/-- A subscribed directory that no walk finds. -/
theorem not_agrees_of_hears (folder : Path) (hhears : s.loop.source.hears folder = true)
    (hnone : ∀ p ∈ s.tracked, ∀ f ∈ (Walk.folders (s.rules p.root) s.disk p.root).value,
      f.same folder = false) : ¬ s.Agrees := by
  intro h
  obtain ⟨p, hp, f, hf, hsame⟩ := (h folder).mp hhears
  rw [hnone p hp f hf] at hsame
  cases hsame

/-- A directory with another one in it, which an ignore file leaves out later. -/
def mutedDisk (rules : Folder → Folder) : Disk :=
  ⟨.folder (bytesOf "w") (rules (.folder (bytesOf "sub") .empty .empty)) .empty, []⟩

def mutedStart : Scene :=
  (opened Loop.nestedEngine (mutedDisk id) (mutedDisk id)
    ⟨none, none, none, [.ofString "w/.todoignore"]⟩ [("p", .ofString "w")]).grown
      (mutedDisk (.file (bytesOf ".todoignore") (bytesOf "sub/\n") false)) [rulesCreated]

/-- Changes of the ignore file are to be ignored. -/
def muted : Scene :=
  mutedStart.handled 0 rulesCreated []

theorem run_muted : Run Plain (fun _ _ => True) muted := by
  have hstart : Run Plain (fun _ _ => True) mutedStart :=
    .grow (.start (by decide) (by decide +kernel)) (by decide +kernel) (by decide +kernel)
  exact hstart.handle [] 0 rfl (by decide +kernel) trivial

/-- A directory whose ignore file names a new directory by more than its last name. -/
def respelledDisk (more : Folder) : Disk :=
  ⟨.folder (bytesOf "w") (.file (bytesOf ".todoignore") (bytesOf "w/new/old/\n") false more)
    .empty, []⟩

def respelledStart : Scene :=
  (opened Loop.nestedEngine (respelledDisk .empty) (respelledDisk .empty) ⟨none, none, none, []⟩
    [("p", .ofString "w")]).grown
      (respelledDisk (.folder (bytesOf "new") (.folder (bytesOf "old") .empty .empty) .empty))
      [⟨.ofString "w//new", .created⟩, innerCreated]

/-- The directory above it is reported in another spelling than that of walks. -/
def respelled : Scene :=
  (respelledStart.handled 0 ⟨.ofString "w//new", .created⟩ [innerCreated]).handled 0 innerCreated []

theorem run_respelled : Run Plain (fun _ _ => True) respelled := by
  have hstart : Run Plain (fun _ _ => True) respelledStart :=
    .grow (.start (by decide) (by decide +kernel)) (by decide +kernel) (by decide +kernel)
  have houter := hstart.handle [] 0 rfl (by decide +kernel) trivial
  exact houter.handle [] 0 rfl (by decide +kernel) trivial

/-- The rules of two projects are to be found in the second one. -/
def elsewhereEngine : Engine :=
  { Loop.nestedEngine with
    settings := { Loop.nestedEngine.settings with ignoreFile := "../v/rules" } }

def elsewhereDisk (shared : Folder) : Disk :=
  ⟨.folder (bytesOf "v") shared
    (.folder (bytesOf "w") (.folder (bytesOf "sub") .empty .empty) .empty), []⟩

/-- The ignore file as the first project spells it, and as the second one does. -/
def sharedCreated : List Change :=
  [⟨.ofString "w/../v/rules", .created⟩, ⟨.ofString "w/../v/../v/rules", .created⟩]

def elsewhereStart : Scene :=
  (opened elsewhereEngine (elsewhereDisk .empty) (elsewhereDisk .empty) ⟨none, none, none, []⟩
    [("p", .ofString "w"), ("q", .ofString "w/../v")]).grown
      (elsewhereDisk (.file (bytesOf "rules") (bytesOf "sub/\n") false .empty)) sharedCreated

/-- The spelling of the first project belongs to the second one, of which it is no ignore file. -/
def elsewhere : Scene :=
  (elsewhereStart.handled 0 ⟨.ofString "w/../v/rules", .created⟩ (sharedCreated.drop 1)).handled 0
    ⟨.ofString "w/../v/../v/rules", .created⟩ []

theorem run_elsewhere : Run Plain (fun _ _ => True) elsewhere := by
  have hstart : Run Plain (fun _ _ => True) elsewhereStart :=
    .grow (.start (by decide) (by decide +kernel)) (by decide +kernel) (by decide +kernel)
  have hfirst := hstart.handle [] 0 rfl (by decide +kernel) trivial
  exact hfirst.handle [] 0 rfl (by decide +kernel) trivial

def dashedDisk (inside : Folder) : Disk :=
  ⟨.folder (bytesOf "-") inside .empty, []⟩

def dashCreated : Change :=
  ⟨.ofString "-/new", .created⟩

def dashedStart : Scene :=
  (opened Loop.nestedEngine (dashedDisk .empty) (dashedDisk .empty) ⟨none, none, none, []⟩
    [("p", .ofString "-")]).grown (dashedDisk (.folder (bytesOf "new") .empty .empty)) [dashCreated]

/-- A walk from the root finds nothing, one from a new directory in it finds that. -/
def dashed : Scene :=
  dashedStart.handled 0 dashCreated []

theorem run_dashed : Run Plain (fun _ _ => True) dashed := by
  have hstart : Run Plain (fun _ _ => True) dashedStart :=
    .grow (.start (by decide) (by decide +kernel)) (by decide +kernel) (by decide +kernel)
  exact hstart.handle [] 0 rfl (by decide +kernel) trivial

/-- An ignore file whose changes are ignored, a directory reported in another spelling, an ignore
file that belongs to another project, a root that is taken for the standard input: each of them
leaves a directory subscribed that no walk finds. -/
theorem not_agrees :
    muted.StaysBehind ∧ respelled.StaysBehind ∧ elsewhere.StaysBehind ∧ dashed.StaysBehind := by
  refine ⟨⟨run_muted, rfl, not_agrees_of_hears (.ofString "w/sub") ?_ ?_⟩,
    ⟨run_respelled, rfl, not_agrees_of_hears (.ofString "w/new/old") ?_ ?_⟩,
    ⟨run_elsewhere, rfl, not_agrees_of_hears (.ofString "w/sub") ?_ ?_⟩,
    run_dashed, rfl, not_agrees_of_hears (.ofString "-/new") ?_ ?_⟩ <;> decide +kernel

end Scene

end TodoIndex
