import TodoIndex.Proofs.Watch.Reactions

/-! # Projects without their directories

Who owns a path, and what its project thinks of it, does not depend on the directories that are
listed for projects.  A change that makes no project read its ignore file again leaves all the
rest of the projects alone, so whatever follows is judged as before.
-/

namespace TodoIndex

namespace Path

theorem below?_congr {root p q : Path} (h : p.same q = true) : below? root p = below? root q := by
  rw [below?, below?, same_iff.mp h]

theorem startsWith_congr {root p q : Path} (h : p.same q = true) :
    p.startsWith root = q.startsWith root := by
  rw [startsWith, startsWith, below?_congr h]

end Path

namespace WatchedProject

/-- The project without the directories that are listed for it. -/
def bare (p : WatchedProject) : WatchedProject :=
  { p with folders := [] }

theorem bare_eq_iff {p q : WatchedProject} :
    p.bare = q.bare ↔ p.name = q.name ∧ p.root = q.root ∧ p.filter = q.filter := by
  simp [bare]

end WatchedProject

namespace WatchSet

variable {s t : WatchSet} {path other : Path}

/-- The projects without their directories. -/
def bare (s : WatchSet) : WatchSet :=
  ⟨s.projects.map .bare⟩

theorem names_bare (s : WatchSet) : s.bare.names = s.names := by
  simp [bare, names, Function.comp_def, WatchedProject.bare]

theorem bare_modify {name : String} {change : WatchedProject → WatchedProject}
    (hchange : ∀ p, (change p).bare = p.bare) : (s.modify name change).bare = s.bare :=
  congrArg mk (map_modify hchange)

theorem deepest_map_bare (ps : List WatchedProject) :
    deepest (ps.map .bare) = (deepest ps).map .bare := by
  induction ps with
  | nil => rfl
  | cons p rest ih =>
      rw [List.map_cons, deepest, deepest, ih]
      cases deepest rest with
      | none => rfl
      | some q =>
          dsimp only [Option.map_some]
          rw [apply_ite (Option.map WatchedProject.bare)]
          rfl

theorem resolve_bare (s : WatchSet) (path : Path) :
    s.bare.resolve path = (s.resolve path).map .bare := by
  rw [resolve, resolve, ← deepest_map_bare, bare, List.filter_map]
  rfl

/-- Projects that differ in their directories alone have the same owners. -/
theorem resolve_of_bare (h : s.bare = t.bare) (path : Path) :
    (s.resolve path).map WatchedProject.bare = (t.resolve path).map WatchedProject.bare := by
  rw [← resolve_bare, h, resolve_bare]

theorem resolve_congr (s : WatchSet) (h : path.same other = true) :
    s.resolve path = s.resolve other := by
  simp only [resolve, Path.startsWith_congr h]

theorem Distinct.of_bare (h : s.Distinct) (hbare : t.bare = s.bare) : t.Distinct := by
  unfold Distinct
  rwa [← names_bare, hbare, names_bare]

end WatchSet

namespace Loop

variable {projects others : WatchSet} {names : List String} {path other : Path}

theorem belongsTo_iff {name : String} : belongsTo projects [name] path = true ↔
    ∃ q, projects.resolve path = some q ∧ q.name = name := by
  simp [belongsTo, Option.any_eq_true]

theorem belongsTo_bare (h : projects.bare = others.bare) (names : List String) (path : Path) :
    belongsTo projects names path = belongsTo others names path := by
  have hany : ∀ owner : Option WatchedProject,
      (owner.map WatchedProject.bare).any (fun p => names.contains p.name) =
        owner.any fun p => names.contains p.name := by
    rintro (_ | p) <;> rfl
  rw [belongsTo, belongsTo, ← hany, WatchSet.resolve_of_bare h, hany]

theorem belongsTo_congr (h : path.same other = true) :
    belongsTo projects names path = belongsTo projects names other := by
  rw [belongsTo, belongsTo, WatchSet.resolve_congr _ h]

theorem isOwn_congr (l : Loop) (h : path.same other = true) : l.isOwn path = l.isOwn other := by
  simp only [isOwn, Path.same, Path.same_iff.mp h]

/-- Two loops that judge every change alike. -/
structure Alike (l next : Loop) : Prop where
  engine : next.engine = l.engine
  fastPath : next.fastPath = l.fastPath
  ownPaths : next.ownPaths = l.ownPaths
  window : next.debouncer.window = l.debouncer.window
  projects : next.projects.bare = l.projects.bare

theorem Alike.refl (l : Loop) : Alike l l :=
  ⟨rfl, rfl, rfl, rfl, rfl⟩

variable {l next : Loop} {disk : Disk} {now : Nat} {change : Change}

theorem Alike.symm (h : Alike l next) : Alike next l :=
  ⟨h.engine.symm, h.fastPath.symm, h.ownPaths.symm, h.window.symm, h.projects.symm⟩

theorem Alike.trans {third : Loop} (h : Alike l next) (h' : Alike next third) : Alike l third :=
  ⟨h'.engine.trans h.engine, h'.fastPath.trans h.fastPath, h'.ownPaths.trans h.ownPaths,
    h'.window.trans h.window, h'.projects.trans h.projects⟩

theorem Alike.isOwn (h : Alike l next) (path : Path) : next.isOwn path = l.isOwn path := by
  rw [Loop.isOwn, Loop.isOwn, h.ownPaths]

/-- The owner of a path is the same project, whatever is listed for it by now. -/
theorem Alike.owner (h : Alike l next) {q : WatchedProject}
    (hq : l.projects.resolve path = some q) :
    ∃ r, next.projects.resolve path = some r ∧ r.bare = q.bare := by
  have hmap := WatchSet.resolve_of_bare h.projects path
  rw [hq] at hmap
  exact Option.map_eq_some_iff.mp hmap

theorem Alike.isIgnoreFile (h : Alike l next) {q r : WatchedProject} (hbare : r.bare = q.bare)
    (path : Path) : next.isIgnoreFile path r = l.isIgnoreFile path q := by
  rw [Loop.isIgnoreFile, Loop.isIgnoreFile, h.engine, (WatchedProject.bare_eq_iff.mp hbare).2.1]

theorem rejects_of_bare {q r : WatchedProject} (hbare : r.bare = q.bare) (path : Path) :
    r.rejects path = q.rejects path := by
  obtain ⟨-, hroot, hfilter⟩ := WatchedProject.bare_eq_iff.mp hbare
  rw [WatchedProject.rejects, WatchedProject.rejects, hroot, hfilter]

/-- What a change does that makes no project read its ignore file again: nothing to what waits and
what is due, a rescan of its owner, or it has to wait itself. -/
inductive Leaves (l : Loop) (path : Path) (now : Nat) :
    Debouncer → List (String × Path) → Prop where
  | nothing : Leaves l path now l.debouncer l.rescans
  | due {q : WatchedProject} : l.projects.resolve path = some q →
      Leaves l path now l.debouncer (l.rescans ++ [(q.name, q.root)])
  | waiting : Leaves l path now (l.debouncer.record path now) l.rescans

/-- What such a change makes due are rescans of the owner of the path. -/
theorem Leaves.owners {debouncer : Debouncer} {rescans : List (String × Path)}
    (h : Leaves l path now debouncer rescans) :
    ∃ due, rescans = l.rescans ++ due ∧
      ∀ x ∈ due, ∃ q, l.projects.resolve path = some q ∧ x = (q.name, q.root) := by
  cases h with
  | nothing => exact ⟨[], by simp⟩
  | due hq => exact ⟨_, rfl, fun x hx => ⟨_, hq, List.mem_singleton.mp hx⟩⟩
  | waiting => exact ⟨[], by simp⟩

theorem subscribeNew_alike (l : Loop) (disk : Disk) (folder : Path)
    (owner : Option WatchedProject) : Alike l (l.subscribeNew disk folder owner).value := by
  refine ⟨rfl, rfl, rfl, rfl, ?_⟩
  cases owner with
  | none => rfl
  | some p => exact WatchSet.bare_modify fun _ => rfl

theorem Passed.leaves (h : Passed l disk now change next) :
    Alike l next ∧ Leaves l change.path now next.debouncer next.rescans := by
  cases h with
  | ignored | folder | noExtension => exact ⟨.refl l, .nothing⟩
  | created => exact ⟨subscribeNew_alike l disk _ _, .nothing⟩
  | due _ _ _ howner => exact ⟨⟨rfl, rfl, rfl, rfl, rfl⟩, .due howner⟩
  | waiting => exact ⟨⟨rfl, rfl, rfl, rfl, rfl⟩, .waiting⟩

theorem handle_leaves (l : Loop) (disk : Disk) (now : Nat) (change : Change)
    (hno : ∀ r, ¬ l.Reloads change.path r) :
    Alike l (l.handle disk now change).value ∧
      Leaves l change.path now (l.handle disk now change).value.debouncer
        (l.handle disk now change).value.rescans := by
  have h := l.handled disk now change
  generalize (l.handle disk now change).value = next at h ⊢
  cases h with
  | own => exact ⟨.refl l, .nothing⟩
  | reloaded hr => exact absurd hr (hno _)
  | passed _ _ hpassed => exact hpassed.leaves

/-- A change makes one project read its ignore file again, or it leaves the projects as they are. -/
theorem handle_cases (l : Loop) (disk : Disk) (now : Nat) (change : Change) :
    (∃ r source filter folders, l.Reloads change.path r ∧ (l.handle disk now change).value =
        { l with source,
                 projects := l.projects.modify r.name fun p => { p with filter, folders },
                 debouncer := l.debouncer.forgetUnder r.root,
                 rescans := l.rescans ++ [(r.name, r.root)] }) ∨
      Alike l (l.handle disk now change).value ∧
        Leaves l change.path now (l.handle disk now change).value.debouncer
          (l.handle disk now change).value.rescans := by
  rcases handle_value l disk now change with ⟨r, hr, hl⟩ | ⟨hno, -⟩
  · obtain ⟨source, filter, folders, hreload⟩ := reloadFilter_value l disk r
    exact .inl ⟨r, source, filter, folders, hr, hl.trans hreload⟩
  · exact .inr (handle_leaves l disk now change hno)

/-! ## Which changes go how far -/

theorem handle_own (h : l.isOwn path = true) (disk : Disk) (now : Nat) (kind : ChangeKind) :
    (l.handle disk now ⟨path, kind⟩).value = l := by
  rw [handle, if_pos h]
  rfl

/-- Nothing comes of a change of an ignored path that is no ignore file. -/
theorem handle_ignored (hplain : ∀ q, l.projects.resolve path = some q →
      l.isIgnoreFile path q = false)
    (h : ignores path (l.projects.resolve path) = true) (disk : Disk) (now : Nat)
    (kind : ChangeKind) : (l.handle disk now ⟨path, kind⟩).value = l := by
  have hhandled := l.handled disk now ⟨path, kind⟩
  generalize (l.handle disk now ⟨path, kind⟩).value = next at hhandled ⊢
  cases hhandled with
  | own => rfl
  | reloaded hr => cases (hplain _ hr.owner).symm.trans hr.ignoreFile
  | passed _ _ hpassed =>
      cases hpassed with
      | ignored | folder | noExtension => rfl
      | created hkept | due hkept | waiting hkept => cases h.symm.trans hkept

/-- What comes of a change of a file that is no ignore file and is not ignored. -/
theorem passed_file (hforeign : l.isOwn change.path = false) {q : WatchedProject}
    (howner : l.projects.resolve change.path = some q)
    (hplain : l.isIgnoreFile change.path q = false) (disk : Disk) (now : Nat) :
    Passed l disk now change (l.handle disk now change).value := by
  have h := l.handled disk now change
  generalize (l.handle disk now change).value = next at h ⊢
  cases h with
  | own hown => cases hforeign.symm.trans hown
  | reloaded hr =>
      obtain rfl := Option.some.inj (hr.owner.symm.trans howner)
      cases hplain.symm.trans hr.ignoreFile
  | passed _ _ hpassed => exact hpassed

/-- A change of a file that counts makes a rescan of its owner due if its extension is one that is
hurried, and else lets the path wait. -/
theorem handle_source (change : Change) {q : WatchedProject} {extension : String}
    (hforeign : l.isOwn change.path = false) (howner : l.projects.resolve change.path = some q)
    (hplain : l.isIgnoreFile change.path q = false) (hkept : q.rejects change.path = false)
    {disk : Disk} (hfile : disk.isFolder change.path = false)
    (hextension : Extension.ofPath? change.path = some extension) (now : Nat) :
    (l.handle disk now change).value =
      if l.fastPath.contains extension then { l with rescans := l.rescans ++ [(q.name, q.root)] }
      else { l with debouncer := l.debouncer.record change.path now } := by
  have h := passed_file hforeign howner hplain disk now
  generalize (l.handle disk now change).value = next at h ⊢
  cases h with
  | ignored hignored =>
      rw [howner] at hignored
      cases hkept.symm.trans hignored
  | created _ hfolder | folder _ hfolder => cases hfile.symm.trans hfolder
  | noExtension _ _ hnone => cases hnone.symm.trans hextension
  | due _ _ hsome hq hfast =>
      obtain rfl := Option.some.inj (hsome.symm.trans hextension)
      obtain rfl := Option.some.inj (hq.symm.trans howner)
      rw [if_pos hfast]
  | waiting _ _ hsome hslow =>
      obtain rfl := Option.some.inj (hsome.symm.trans hextension)
      rw [if_neg (Bool.eq_false_iff.mp (hslow q howner))]

end Loop

end TodoIndex
