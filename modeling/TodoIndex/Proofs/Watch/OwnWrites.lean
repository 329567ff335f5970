import TodoIndex.Proofs.Ignore.Defaults
import TodoIndex.Proofs.Store.TemporaryName
import TodoIndex.Proofs.Watch.Alignment
import TodoIndex.Proofs.Watch.Stopping

/-! # What the program writes itself

A rescan saves the store, and the directory of the store may be one that is watched.  Nothing
comes of the changes by which the source tells of that, so rescans do not cause each other without
end: the watcher knows the document in all its spellings, and the names of temporary files are
ignored by every project, as the default rules are never taken back.
-/

namespace TodoIndex

open Text (Bytes)

/-! ## Paths of a save -/

/-- The paths by which changes name the document of the store: as it is given, absolute, and in the
directory without links. -/
inductive Engine.SpellsStore (engine : Engine) (disk : Disk) : Path → Prop where
  | given : SpellsStore engine disk engine.storePath
  | absolute : engine.storePath.isEmpty = false →
      SpellsStore engine disk (disk.absolute engine.storePath)
  | resolved {folder real : Path} {name : Bytes} : engine.storePath.isEmpty = false →
      (disk.absolute engine.storePath).parent? = some folder →
      (disk.absolute engine.storePath).fileName? = some name →
      disk.canonical folder = .ok real →
      SpellsStore engine disk (real.child name)

namespace Store

/-- The path of a temporary file, whatever was drawn for its name. -/
def IsTemporary (path : Path) : Prop :=
  ∃ (folder : Path) (drawn : Bytes), Path.slash ∉ drawn ∧
    path = folder.child (Text.bytesOf ".todowatch-" ++ drawn ++ Text.bytesOf ".tmp")

theorem isTemporary_temporaryIn (obstacle : Obstacle) (disk : Disk) (folder path : Path) :
    IsTemporary (temporaryIn obstacle disk folder path) := by
  obtain ⟨n, hname⟩ := unusedName_eq
    (disk.words ++ Path.pieces folder.bytes ++ Path.pieces path.bytes) obstacle.drawn
  refine ⟨folder, Text.Utf8.encode (Nat.toDigits 10 n), ?_, ?_⟩
  · intro hslash
    apply slash_not_mem_temporaryName n
    simp [temporaryName, hslash]
  · rw [temporaryIn, hname]
    rfl

theorem isEntryName_temporary {drawn : Bytes} (h : Path.slash ∉ drawn) :
    IsEntryName (Text.bytesOf ".todowatch-" ++ drawn ++ Text.bytesOf ".tmp") := by
  have hbefore : Path.slash ∉ Text.bytesOf ".todowatch-" := by decide
  have hbehind : Path.slash ∉ Text.bytesOf ".tmp" := by decide
  have hlong : 2 < (Text.bytesOf ".todowatch-" ++ drawn ++ Text.bytesOf ".tmp").length := by
    have hlength : (Text.bytesOf ".todowatch-").length = 11 := by decide
    simp only [List.length_append]
    omega
  refine ⟨?_, ?_, by simp [h, hbefore, hbehind]⟩
  · rintro (hname | hname) <;> simp [hname] at hlong
  · intro hname
    simp [hname] at hlong

theorem defaults_ignores_temporary (folder : Path) (drawn : Bytes) :
    Ignore.Filter.defaults.ignores
      (folder.child (Text.bytesOf ".todowatch-" ++ drawn ++ Text.bytesOf ".tmp")) = true := by
  obtain ⟨lead, hlead⟩ := Path.exists_bytes_child folder
    (Text.bytesOf ".todowatch-" ++ drawn ++ Text.bytesOf ".tmp")
  rw [← List.append_assoc] at hlead
  exact Ignore.Filter.defaults_ignores hlead

/-- A filter that has the default rules leaves temporary files out, below any other root. -/
theorem IsTemporary.prunes {path root : Path} (h : IsTemporary path) {filter : Ignore.Filter}
    (hfilter : Ignore.Filter.defaults.rules ⊆ filter.rules) (hroot : path.same root = false) :
    filter.prunes root path = true := by
  obtain ⟨folder, drawn, hdrawn, rfl⟩ := h
  apply Ignore.Filter.prunes_child (isEntryName_temporary hdrawn) _ hroot
  intro base
  exact Ignore.Filter.ignores_of_subset hfilter (defaults_ignores_temporary base drawn)

end Store

namespace Loop

variable {l : Loop} {path : Path} {engine : Engine} {source : Source} {first : Disk}
  {options : Watcher.Options} {own : List Path}

/-! ## The default rules stay -/

/-- Every project has the default rules among its own. -/
def Guarded (s : WatchSet) : Prop :=
  ∀ p ∈ s.projects, Ignore.Filter.defaults.rules ⊆ p.filter.rules

theorem Guarded.insert {s : WatchSet} (h : Guarded s) {p : WatchedProject}
    (hp : Ignore.Filter.defaults.rules ⊆ p.filter.rules) : Guarded (s.insert p) := by
  intro q hq
  rcases WatchSet.mem_insert.mp hq with hq | rfl
  · exact h q (WatchSet.mem_of_mem_remove hq)
  · exact hp

theorem Guarded.of_bare {s t : WatchSet} (h : Guarded s) (hbare : t.bare = s.bare) :
    Guarded t := by
  intro q hq
  have hmem : q.bare ∈ t.bare.projects := List.mem_map_of_mem hq
  rw [hbare] at hmem
  obtain ⟨p, hp, hpq⟩ := List.mem_map.mp hmem
  rw [← (WatchedProject.bare_eq_iff.mp hpq).2.2]
  exact h p hp

theorem guarded_track (h : Guarded l.projects) (disk : Disk) (name : String) (root : Path) :
    Guarded (l.track disk name root).value.2.projects := by
  have hrules := l.engine.defaults_subset_filterFor disk root
  simp only [track, Noted.value_bind]
  split <;> exact h.insert hrules

theorem guarded_reloadFilter (h : Guarded l.projects) (disk : Disk) (r : WatchedProject) :
    Guarded (l.reloadFilter disk r).value.projects := by
  intro q hq
  obtain ⟨p, hp, rfl⟩ := List.mem_map.mp hq
  split
  · exact l.engine.defaults_subset_filterFor disk r.root
  · exact h p hp

theorem guarded_after (h : Guarded l.projects) (e : Event) : Guarded (l.after e).projects := by
  cases e with
  | message disk now message =>
      cases message with
      | error e => exact h
      | ok change =>
          rcases handle_value l disk now change with ⟨r, -, hr⟩ | ⟨hno, -⟩
          · rw [after, receive, hr]
            exact guarded_reloadFilter h disk r
          · exact h.of_bare (handle_leaves l disk now change hno).1.projects
  | track disk name root => exact guarded_track h disk name root
  | untrack name =>
      rw [after]
      rcases untrack_value l name with ⟨-, hl⟩ | ⟨r, source, -, hl⟩
      · rwa [hl]
      · rw [hl]
        intro q hq
        exact h q (WatchSet.mem_of_mem_remove hq)
  | sweep now =>
      rw [after, sweep_value]
      exact h

theorem guarded_trackAll (disk : Disk) (tracked : List (String × Path)) (h : Guarded l.projects) :
    Guarded (Watcher.trackAll disk tracked l).value.projects :=
  trackAll_induction (P := fun l => Guarded l.projects) disk
    (fun _ name root h => guarded_track h disk name root) tracked h

theorem Reachable.guarded (h : Reachable l) : Guarded l.projects := by
  induction h with
  | start engine source first disk options tracked hstart =>
      obtain ⟨projects, source, rfl⟩ := start_value hstart
      apply guarded_trackAll
      exact nofun
  | react e _ ih => exact guarded_after ih e
  | launch count _ ih => exact ih

/-! ## The own documents stay -/

/-- The watcher's loop, if it has one, knows an engine and own documents. -/
def Knows (engine : Engine) (own : List Path) : Watcher → Prop
  | .idle l | .watching l | .draining l => l.engine = engine ∧ l.ownPaths = own
  | _ => True

theorem knows_acts {w next : Watcher} (h : Knows engine own w) (hacts : Acts w next) :
    Knows engine own next := by
  cases hacts with
  | nothing => exact h
  | @starts l source disk tracked _ =>
      have htracked := engine_trackAll disk tracked { l with source }
      exact ⟨htracked.1.trans h.1, htracked.2.trans h.2⟩
  | reacts l e =>
      have hkept := l.after_engine e
      exact ⟨hkept.1.trans h.1, hkept.2.trans h.2⟩
  | closes l => exact h
  | _ => trivial

/-- Nothing that happens to a watcher and its rescans changes which documents it knows as its own,
and no rescan is due that has not begun. -/
theorem knows_of_company {shared : SharedEngine} {c : Company}
    (h : Company.Reachable (.make (Watcher.ofEngine engine source first options).value shared) c) :
    Knows engine (Watcher.ownPaths engine first options.ignored) c.watcher ∧
      c.watcher.rescans = [] := by
  induction h with
  | start => exact ⟨⟨rfl, rfl⟩, rfl⟩
  | @move c d m _ hm ih =>
      rcases watcher_move hm with hkept | ⟨w, hacts, hw⟩ | ⟨loop, hdraining, hw⟩
      · rwa [hkept]
      · have hknows := knows_acts ih.1 hacts
        rw [hw]
        refine ⟨?_, Company.rescans_unburdened w⟩
        cases w <;> exact hknows
      · rw [hdraining] at ih
        rw [hw, Company.finish_draining ih.2]
        exact ⟨trivial, rfl⟩

theorem isOwn_of_spells (hknows : Knows engine (Watcher.ownPaths engine first options.ignored)
    (.watching l)) {spelled : Path} (hspelled : engine.SpellsStore first spelled)
    (hsame : path.same spelled = true) : l.isOwn path = true := by
  have hmem : spelled ∈ Watcher.spellings first engine.storePath := by
    cases hspelled with
    | given =>
        unfold Watcher.spellings
        split <;> simp
    | absolute hne => simp [Watcher.spellings, hne]
    | resolved hne hfolder hname hreal => simp [Watcher.spellings, hne, hfolder, hname, hreal]
  unfold isOwn
  rw [hknows.2, List.any_eq_true]
  refine ⟨spelled, List.mem_flatMap.mpr ⟨engine.storePath, by simp, hmem⟩, ?_⟩
  exact Path.same_symm hsame

/-! ## Nothing comes of them -/

/-- A path is the ignore file of no project and the root of none. -/
def spares (l : Loop) (path : Path) : Bool :=
  l.projects.projects.all fun q => !l.isIgnoreFile path q && !path.same q.root

theorem handle_temporary (hguarded : Guarded l.projects) (h : Store.IsTemporary path)
    (hplain : l.spares path = true) (disk : Disk) (now : Nat) (kind : ChangeKind) :
    (l.handle disk now ⟨path, kind⟩).value = l := by
  simp only [spares, List.all_eq_true, Bool.and_eq_true, Bool.not_eq_true'] at hplain
  apply handle_ignored
  · intro q hq
    exact (hplain q (WatchSet.mem_of_resolve hq)).1
  · cases hq : l.projects.resolve path with
    | none =>
        obtain ⟨folder, drawn, -, rfl⟩ := h
        exact Store.defaults_ignores_temporary folder drawn
    | some q =>
        have hmem := WatchSet.mem_of_resolve hq
        exact h.prunes (hguarded q hmem) (hplain q hmem).2

end Loop

namespace Company

variable {c : Company}

theorem unburdened_idle {w : Watcher} (h : w.rescans = []) : unburdened w = w := by
  have hloop : ∀ l : Loop, l.rescans = [] → { l with rescans := [] } = l := by
    rintro ⟨⟩ rfl
    rfl
  cases w with
  | idle l => exact congrArg Watcher.idle (hloop l h)
  | watching l => exact congrArg Watcher.watching (hloop l h)
  | draining l => exact congrArg Watcher.draining (hloop l h)
  | _ => rfl

theorem follow_idle (h : c.watcher.rescans = []) : c.follow c.watcher = c := by
  unfold follow
  rw [h, unburdened_idle h]
  rfl

/-- A path is the ignore file of no project that is watched, and the root of none. -/
def spares (path : Path) : Watcher → Bool
  | .watching l => l.spares path
  | _ => true

/-- **No rescan causes another one.**  Whatever happened to a watcher since it was built, with any
projects and ignore files, a change of what a save writes leaves it, its rescans and the engine as
they are: a change of the document, by the path that was given for it, by its absolute path or by
the one without links in its directory, or a change of a temporary file, unless that is an ignore
file or the root of a project. -/
theorem unmoved_by_own_writes {engine : Engine} {source : Source} {first : Disk}
    {options : Watcher.Options} {shared : SharedEngine} {path : Path}
    (h : Reachable (.make (Watcher.ofEngine engine source first options).value shared) c)
    (hpath : (∃ spelled, engine.SpellsStore first spelled ∧ path.same spelled = true) ∨
      Store.IsTemporary path ∧ spares path c.watcher = true)
    (now : Nat) (kind : ChangeKind) :
    c.move? (.receive now (.ok ⟨path, kind⟩)) = some c := by
  obtain ⟨hknows, hidle⟩ := Loop.knows_of_company h
  have hreceive : (c.watcher.receive c.shared.disk now (.ok ⟨path, kind⟩)).value = c.watcher := by
    cases hw : c.watcher with
    | watching l =>
        have hreachable := Loop.reachable_of_company h hw
        rw [hw] at hknows
        have hhandle : (l.handle c.shared.disk now ⟨path, kind⟩).value = l := by
          rcases hpath with ⟨spelled, hspelled, hsame⟩ | ⟨htemporary, hplain⟩
          · exact Loop.handle_own (Loop.isOwn_of_spells hknows hspelled hsame) _ _ _
          · rw [hw] at hplain
            exact Loop.handle_temporary hreachable.guarded htemporary hplain _ _ _
        simp [Watcher.receive, Loop.receive, hhandle]
    | _ => rfl
  simp only [move?]
  rw [hreceive, follow_idle hidle]

/-- A watcher whose data directory is one of those that it will watch. -/
def hosting : Company :=
  let engine := Engine.make (.defaults (.ofString "w/sub")) ⟨[]⟩ fun _ _ _ _ => default
  .make (Watcher.ofEngine engine (.make fun _ _ => none) Loop.nestedDisk default).value
    (.make engine Loop.nestedDisk)

theorem unmoved_by_own_writes_hosting :
    ∃ c, Reachable hosting c ∧ c.watcher.state = .watching ∧
      ∀ path ∈ [Path.ofString "w/sub/todos.json", .ofString "/w/sub/todos.json",
          .ofString "w/sub/.todowatch-7.tmp"],
        c.move? (.receive 0 (.ok ⟨path, .created⟩)) = some c := by
  have hopened : (hosting.moves? [.start (.ok [("outer", .ofString "w")])]).any (fun c =>
      c.watcher.state = .watching && spares (.ofString "w/sub/.todowatch-7.tmp") c.watcher) =
        true := by
    decide +kernel
  obtain ⟨c, hmoves, hchecks⟩ := (Option.any_eq_true _ _).mp hopened
  simp only [Bool.and_eq_true, decide_eq_true_eq] at hchecks
  obtain ⟨hwatching, hplain⟩ := hchecks
  have hreachable := reachable_of_moves hmoves
  refine ⟨c, hreachable, hwatching, ?_⟩
  simp only [List.forall_mem_cons]
  refine ⟨?_, ?_, ?_, nofun⟩
  · exact unmoved_by_own_writes hreachable (.inl ⟨_, .given, by decide +kernel⟩) 0 .created
  · exact unmoved_by_own_writes hreachable
      (.inl ⟨_, .absolute (by decide +kernel), by decide +kernel⟩) 0 .created
  · refine unmoved_by_own_writes hreachable (.inr ⟨?_, hplain⟩) 0 .created
    exact ⟨.ofString "w/sub", Text.bytesOf "7", by decide, by decide +kernel⟩

end Company

end TodoIndex
