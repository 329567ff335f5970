import TodoIndex.Proofs.Watch.Alignment
import TodoIndex.Proofs.Watch.Scenes

/-! # Projects in step

What a project lists differs from what a walk would find only by what the pending changes will
bring: a directory that is missing lies within one that is still to be reported as created, and
rules that are out of date are those of an ignore file whose edit is still to be handled.  Each step
of a scene keeps its projects so.
-/

namespace TodoIndex

namespace Scene

variable {s t : Scene} {p q r : WatchedProject} {c : Change} {f g : Path}

/-! ## Scenes beside each other -/

/-- Two scenes with the same disk and the same program. -/
structure Beside (s t : Scene) : Prop where
  disk : t.disk = s.disk
  engine : t.loop.engine = s.loop.engine
  ownPaths : t.loop.ownPaths = s.loop.ownPaths

theorem beside_after (s : Scene) (e : Loop.Event) : Beside s (s.after e) :=
  have h := s.loop.after_engine e
  ⟨rfl, h.1, h.2⟩

theorem Beside.ignoreFile (h : Beside s t) (root : Path) :
    t.ignoreFile root = s.ignoreFile root := by
  rw [Scene.ignoreFile, h.engine]
  rfl

theorem Beside.rules (h : Beside s t) (root : Path) : t.rules root = s.rules root := by
  rw [Scene.rules, h.engine, h.disk]
  rfl

theorem Beside.isOwn (h : Beside s t) (path : Path) : t.loop.isOwn path = s.loop.isOwn path := by
  rw [Loop.isOwn, h.ownPaths]
  rfl

theorem Tidy.beside {root : Path} (h : s.Tidy root) (ht : Beside s t)
    (hroots : ∀ q ∈ t.tracked, s.loop.projects.Knows q) : t.Tidy root := by
  refine ⟨⟨ht.disk ▸ h.isRoot, ht.disk ▸ h.unlinked, fun f hf => ?_⟩, h.named,
    ht.disk ▸ h.takes, ?_, ?_⟩
  · rw [ht.isOwn]
    exact h.foreign f (ht.disk ▸ hf)
  · rw [ht.ignoreFile]
    exact h.ignoreOwned.of_roots hroots
  · rw [ht.isOwn, ht.ignoreFile]
    exact h.ignoreForeign

theorem Fits.beside (h : s.Fits Tidy) (ht : Beside s t)
    (hroots : ∀ q ∈ t.tracked, s.loop.projects.Knows q) : t.Fits Tidy := by
  refine ⟨h.1.of_roots hroots, fun q hq => ?_⟩
  obtain ⟨p, hp, -, hroot⟩ := hroots q hq
  rw [hroot]
  exact (h.2 p hp).beside ht hroots

/-! ## What the pending changes will bring -/

/-- A project is behind what a walk would find only by what is pending. -/
structure InStep (s : Scene) (p : WatchedProject) : Prop where
  rules : p.filter = s.rules p.root ∨ ∃ c ∈ s.pending, c.path.same (s.ignoreFile p.root) = true
  met : ∀ f ∈ p.folders, f ∈ s.disk.foldersBelow p.root ∧ p.rejects f = false
  listed : ∀ f ∈ s.disk.foldersBelow p.root, p.rejects f = false →
    f ∈ p.folders ∨ ∃ c ∈ s.pending, c.kind = .created ∧ c.path.within p.root = true ∧
      f.within c.path = true

/-- A project that lists what a walk finds under the rules of now is in step, whatever is
pending. -/
theorem inStep_of_walk (hroot : s.disk.IsRoot p.root)
    (hinput : p.root.same Walk.standardInput = false) (hrules : p.filter = s.rules p.root)
    (hfolders : ∀ f, f ∈ p.folders ↔ f ∈ (Walk.folders p.filter s.disk p.root).value) :
    s.InStep p := by
  refine ⟨.inl hrules, fun f hf => ?_, fun f hf hkept => .inl ?_⟩
  · exact (Disk.mem_folders_iff hroot hinput).mp ((hfolders f).mp hf)
  · exact (hfolders f).mpr ((Disk.mem_folders_iff hroot hinput).mpr ⟨hf, hkept⟩)

/-- With nothing pending a project in step lists what a walk finds. -/
theorem InStep.mem_folders_iff (h : s.InStep p) (hpending : s.pending = [])
    (hroot : s.disk.IsRoot p.root) (hinput : p.root.same Walk.standardInput = false) :
    f ∈ p.folders ↔ f ∈ (Walk.folders (s.rules p.root) s.disk p.root).value := by
  obtain ⟨hrules, hmet, hlisted⟩ := h
  simp only [hpending, List.not_mem_nil, false_and, exists_false, or_false] at hrules hlisted
  rw [Disk.mem_folders_iff hroot hinput, ← hrules]
  exact ⟨hmet f, fun hf => hlisted f hf.1 hf.2⟩

/-- A change that a project may wait for: one of its ignore file, or the creation of a directory
that it does not reject. -/
def Matters (s : Scene) (p : WatchedProject) (c : Change) : Prop :=
  c.path.same (s.ignoreFile p.root) = true ∨
    c.kind = .created ∧ ∃ f ∈ s.disk.foldersBelow p.root, p.rejects f = false ∧
      c.path.within p.root = true ∧ f.within c.path = true

/-- A project in step can do without the changes that do not matter to it. -/
theorem InStep.forget (h : s.InStep p) (ht : Beside s t)
    (hpending : ∀ c ∈ s.pending, s.Matters p c → c ∈ t.pending) : t.InStep p := by
  refine ⟨?_, by rw [ht.disk]; exact h.met, fun f hf hkept => ?_⟩
  · rw [ht.rules, ht.ignoreFile]
    exact h.rules.imp_right fun ⟨c, hc, hsame⟩ => ⟨c, hpending c hc (.inl hsame), hsame⟩
  · rw [ht.disk] at hf
    refine (h.listed f hf hkept).imp_right fun ⟨c, hc, hcreated, hwithin, hbelow⟩ => ?_
    exact ⟨c, hpending c hc (.inr ⟨hcreated, f, hf, hkept, hwithin, hbelow⟩), hcreated, hwithin,
      hbelow⟩

/-- What is new on the disk is pending. -/
theorem InStep.grow (h : s.InStep p) (hp : p ∈ s.tracked) {disk : Disk} {news : List Change}
    (hgrows : s.Grows disk news) (hroot : disk.IsRoot p.root) :
    (s.grown disk news).InStep p := by
  obtain ⟨hrules, hmet, hlisted⟩ := h
  refine ⟨?_, fun f hf => ⟨?_, (hmet f hf).2⟩, fun f hf hkept => ?_⟩
  · rcases hgrows.edited p hp with hsame | ⟨c, hc, hsame⟩
    · have hfilter : s.rules p.root = (s.grown disk news).rules p.root :=
        (Engine.filterFor_congr hsame).symm
      rw [← hfilter]
      exact hrules.imp_right fun ⟨c, hc, hfile⟩ => ⟨c, List.mem_append_left _ hc, hfile⟩
    · exact .inr ⟨c, List.mem_append_right _ hc, hsame⟩
  · have htree := Disk.mem_foldersBelow_iff.mp (hmet f hf).1
    rcases hgrows.kept p hp _ htree with hkept | ⟨hkind, -⟩
    · exact Disk.mem_foldersBelow_iff.mpr hkept
    · cases hkind
  · rcases hgrows.created p hp f hf with hold | ⟨c, hc, hcreated, hsame⟩
    · refine (hlisted f hold hkept).imp_right fun ⟨c, hc, hmore⟩ => ?_
      exact ⟨c, List.mem_append_left _ hc, hmore⟩
    · refine .inr ⟨c, List.mem_append_right _ hc, hcreated, ?_, ?_⟩
      · rw [Path.within_congr hsame]
        exact Disk.within_of_mem hroot hf
      · exact Path.within_of_same (Path.same_symm hsame)

/-! ## Scenes in order -/

/-- All projects are in step, and the scene is in order. -/
structure Sound (s : Scene) : Prop where
  distinct : s.loop.projects.Distinct
  willing : s.loop.source.Willing
  fits : s.Fits Tidy
  inStep : ∀ p ∈ s.tracked, s.InStep p

/-- What takes projects away at most leaves the rest in step. -/
theorem Sound.fewer (h : s.Sound) (ht : Beside s t) (hpending : t.pending = s.pending)
    (hsub : ∀ p ∈ t.tracked, p ∈ s.tracked) : t.Fits Tidy ∧ ∀ p ∈ t.tracked, t.InStep p := by
  refine ⟨h.fits.beside ht fun p hp => WatchSet.knows_of_mem (hsub p hp), fun p hp => ?_⟩
  exact (h.inStep p (hsub p hp)).forget ht fun c hc _ => hpending ▸ hc

/-- A change that matters to a project belongs to it. -/
theorem Sound.owner (h : s.Sound) (hp : p ∈ s.tracked) (hc : s.Matters p c) :
    s.loop.projects.resolve c.path = some p := by
  rcases hc with hsame | ⟨-, f, -, -, hwithin, -⟩
  · rw [WatchSet.resolve_congr _ hsame]
    exact h.fits.1.resolve_of_owned h.distinct hp (h.fits.2 p hp).ignoreOwned
  · exact h.fits.1.resolve h.distinct hp hwithin

/-- A directory whose creation matters to a project is one that the project wants. -/
theorem Sound.wanted (h : s.Sound) (hp : p ∈ s.tracked) (hspelled : s.Spelled c)
    (hcreated : c.kind = .created) (hf : f ∈ s.disk.foldersBelow p.root)
    (hkept : p.rejects f = false) (hwithin : c.path.within p.root = true)
    (hbelow : f.within c.path = true) :
    c.path ∈ s.disk.foldersBelow p.root ∧ p.rejects c.path = false := by
  have hroot := (h.fits.2 p hp).isRoot
  obtain ⟨g, hg, hsame⟩ := Disk.exists_above hroot hf hwithin hbelow
  obtain ⟨r, hr, hmem⟩ := hspelled hcreated (.inr ⟨p, hp, g, hg, hsame⟩)
  have howner := h.fits.1.resolve h.distinct hr
    (Disk.within_of_mem (h.fits.2 r hr).isRoot hmem)
  rw [h.fits.1.resolve h.distinct hp hwithin] at howner
  obtain rfl := Option.some.inj howner
  exact ⟨hmem, Ignore.Filter.prunes_of_within hkept hwithin hbelow⟩

/-- A change that matters to a project is no change of a document of the program itself. -/
theorem Sound.foreign (h : s.Sound) (hp : p ∈ s.tracked) (hspelled : s.Spelled c)
    (hc : s.Matters p c) : s.loop.isOwn c.path = false := by
  rcases hc with hsame | ⟨hcreated, f, hf, hkept, hwithin, hbelow⟩
  · rw [Loop.isOwn_congr _ hsame]
    exact (h.fits.2 p hp).ignoreForeign
  · exact (h.fits.2 p hp).foreign _
      (h.wanted hp hspelled hcreated hf hkept hwithin hbelow).1

/-- A change that matters to a project is one of its ignore file, or it is handled as the creation
of a directory. -/
theorem Sound.created_of_matters (h : s.Sound) (hp : p ∈ s.tracked) (hspelled : s.Spelled c)
    (hc : s.Matters p c) (hfile : ¬ c.path.same (s.ignoreFile p.root) = true) :
    p.rejects c.path = false ∧ s.disk.isFolder c.path = true ∧ c.kind = .created := by
  obtain ⟨hcreated, f, hf, hkept, hwithin, hbelow⟩ := hc.resolve_left hfile
  have hwanted := h.wanted hp hspelled hcreated hf hkept hwithin hbelow
  have htidy := h.fits.2 p hp
  exact ⟨hwanted.2, Disk.isFolder_of_mem htidy.isRoot hwanted.1 (htidy.takes _ hwanted.1), hcreated⟩

/-! ## Handling a change -/

/-- A scene like another one, but that a change need not be pending any more. -/
structure Handles (s t : Scene) (c : Change) : Prop extends Beside s t where
  pending : ∀ d ∈ s.pending, d = c ∨ d ∈ t.pending

theorem handles_handled {before behind : List Change} (h : s.pending = before ++ c :: behind)
    (now : Nat) : Handles s (s.handled now c (before ++ behind)) c := by
  have hbeside := s.beside_after (.message s.disk now (.ok c))
  refine ⟨⟨hbeside.disk, hbeside.engine, hbeside.ownPaths⟩, fun d hd => ?_⟩
  have hall : (s.handled now c (before ++ behind)).pending = before ++ behind := rfl
  rw [h] at hd
  rw [hall]
  simp only [List.mem_append, List.mem_cons] at hd ⊢
  tauto

/-- A project to which a change does not matter stays in step without it. -/
theorem Sound.undisturbed (h : s.Sound) (ht : Handles s t c) (hp : p ∈ s.tracked)
    (hc : ¬ s.Matters p c) : t.InStep p := by
  refine (h.inStep p hp).forget ht.toBeside fun d hd hmatters => ?_
  refine (ht.pending d hd).resolve_left ?_
  rintro rfl
  exact hc hmatters

/-- A change of the owner of a path leaves all projects in step if it leaves the owner so. -/
theorem Sound.modified (h : s.Sound) (ht : Handles s t c)
    (hq : s.loop.projects.resolve c.path = some q) {change : WatchedProject → WatchedProject}
    (hname : (change q).name = q.name) (hroot : (change q).root = q.root)
    (hchanged : t.InStep (change q)) :
    ∀ p ∈ (s.loop.projects.modify q.name change).projects,
      t.InStep p ∧ s.loop.projects.Knows p := by
  have hqmem := WatchSet.mem_of_resolve hq
  refine h.distinct.forall_modify hqmem ⟨hchanged, q, hqmem, hname, hroot⟩ fun p hp hne => ?_
  refine ⟨h.undisturbed ht hp fun hmatters => hne ?_, WatchSet.knows_of_mem hp⟩
  rw [h.owner hp hmatters] at hq
  exact Option.some.inj hq

/-- If a change does not matter to its owner, all projects stay in step without it. -/
theorem Sound.ignored (h : s.Sound) (ht : Handles s t c)
    (hq : s.loop.projects.resolve c.path = some q) (hc : ¬ s.Matters q c) :
    ∀ p ∈ s.tracked, t.InStep p ∧ s.loop.projects.Knows p := by
  refine fun p hp => ⟨h.undisturbed ht hp fun hmatters => hc ?_, WatchSet.knows_of_mem hp⟩
  rw [h.owner hp hmatters] at hq
  exact Option.some.inj hq ▸ hmatters

/-- The walk from a created directory completes what its project lists. -/
theorem Sound.grown (h : s.Sound) (ht : Handles s t c) (hp : p ∈ s.tracked)
    (hfile : ¬ c.path.same (s.ignoreFile p.root) = true)
    (hc : c.path ∈ s.disk.foldersBelow p.root) (hkept : p.rejects c.path = false) :
    t.InStep { p with folders :=
      p.folders ++ (Walk.folders p.filter s.disk c.path).value } := by
  have htidy := h.fits.2 p hp
  have hfound : ∀ f, f ∈ (Walk.folders p.filter s.disk c.path).value ↔
      f ∈ s.disk.foldersBelow p.root ∧ p.rejects f = false ∧ f.within c.path = true :=
    fun f => Disk.mem_folders_below_iff htidy.isRoot htidy.named hc (htidy.takes _ hc) hkept
  obtain ⟨hrules, hmet, hlisted⟩ := h.inStep p hp
  refine ⟨?_, fun f hf => ?_, fun f hf hf' => ?_⟩
  · rw [ht.rules, ht.ignoreFile]
    refine hrules.imp_right fun ⟨d, hd, hsame⟩ => ⟨d, (ht.pending d hd).resolve_left ?_, hsame⟩
    rintro rfl
    exact hfile hsame
  · rw [ht.disk]
    rcases List.mem_append.mp hf with hf | hf
    · exact hmet f hf
    · exact ⟨((hfound f).mp hf).1, ((hfound f).mp hf).2.1⟩
  · rw [ht.disk] at hf
    rcases hlisted f hf hf' with hold | ⟨d, hd, hcreated, hwithin, hbelow⟩
    · exact .inl (List.mem_append_left _ hold)
    · rcases ht.pending d hd with rfl | hd
      · exact .inl (List.mem_append_right _ ((hfound f).mpr ⟨hf, hf', hbelow⟩))
      · exact .inr ⟨d, hd, hcreated, hwithin, hbelow⟩

/-- A project whose ignore file is read again lists what a walk finds. -/
theorem Sound.reloaded (h : s.Sound) (ht : Beside s t) (hp : p ∈ s.tracked) :
    t.InStep { p with
      filter := s.rules p.root
      folders := Loop.realignedFolders s.loop.projects p
        (Loop.distinct (Walk.folders (s.rules p.root) s.disk p.root).value) s.loop.source } := by
  have htidy := h.fits.2 p hp
  have hwalk : ∀ f ∈ (Walk.folders (s.rules p.root) s.disk p.root).value,
      f ∈ s.disk.foldersBelow p.root :=
    fun f hf => ((Disk.mem_folders_iff htidy.isRoot htidy.named).mp hf).1
  have hexact : ∀ f ∈ s.disk.foldersBelow p.root, ∀ g ∈ s.disk.foldersBelow p.root,
      f.same g = true → f = g := fun f hf g hg => Disk.eq_of_same htidy.isRoot hf hg
  have hall : ∀ f ∈ p.folders ++
      Loop.distinct (Walk.folders (s.rules p.root) s.disk p.root).value,
      f ∈ s.disk.foldersBelow p.root := by
    intro f hf
    rcases List.mem_append.mp hf with hf | hf
    · exact ((h.inStep p hp).met f hf).1
    · exact hwalk f (Loop.mem_of_mem_distinct hf)
  refine inStep_of_walk (ht.disk ▸ htidy.isRoot) htidy.named (ht.rules _).symm fun f => ?_
  rw [Loop.mem_realignedFolders h.willing.accepts fun f hf g hg => hexact f (hall f hf) g (hall g hg),
    Loop.mem_distinct_iff fun f hf g hg => hexact f (hwalk f hf) g (hwalk g hg), ht.disk]

/-- After a change is handled all projects are in step, and they are the ones from before. -/
theorem Sound.inStep_handled (h : s.Sound) {before behind : List Change}
    (hpending : s.pending = before ++ c :: behind) (hspelled : s.Spelled c)
    (hq : s.loop.projects.resolve c.path = some q) (now : Nat) :
    ∀ p ∈ (s.handled now c (before ++ behind)).tracked,
      (s.handled now c (before ++ behind)).InStep p ∧ s.loop.projects.Knows p := by
  have hqmem : q ∈ s.tracked := WatchSet.mem_of_resolve hq
  have ht := handles_handled hpending now
  have hprojects : (s.handled now c (before ++ behind)).tracked =
      (s.loop.handle s.disk now c).value.projects.projects := rfl
  rw [hprojects, Loop.projects_handle hq]
  split
  · rename_i hown
    refine h.ignored ht hq fun hmatters => ?_
    rw [h.foreign hqmem hspelled hmatters] at hown
    cases hown
  split
  · exact h.modified ht hq rfl rfl (h.reloaded ht.toBeside hqmem)
  rename_i hfile
  split
  · rename_i hcreated
    obtain ⟨hkept, hfolder, hkind⟩ := hcreated
    obtain ⟨r, hr, hmem⟩ := hspelled hkind (.inl hfolder)
    obtain rfl : r = q := by
      rw [h.fits.1.resolve h.distinct hr (Disk.within_of_mem (h.fits.2 r hr).isRoot hmem)] at hq
      exact Option.some.inj hq
    rw [Loop.subscribeAll_of_accepts h.willing.accepts]
    exact h.modified ht hq rfl rfl (h.grown ht hqmem hfile hmem hkept)
  · rename_i hnot
    exact h.ignored ht hq fun hmatters =>
      hnot (h.created_of_matters hqmem hspelled hmatters hfile)

end Scene

end TodoIndex
