import TodoIndex.Proofs.Watch.Outlines
import TodoIndex.Proofs.Watch.Strays

/-! # What a project is given

With a source that accepts every call a project is given exactly the directories that it wants,
when it is tracked and when its ignore file is read again.  For each reaction an equation says
what becomes of the projects.
-/

namespace TodoIndex

namespace Loop

variable {l : Loop} {disk : Disk} {now : Nat} {change : Change} {q r : WatchedProject}
  {source : Source} {projects : WatchSet} {wanted : List Path} {f : Path}

/-- No reaction changes what the loop knows of the program. -/
theorem after_engine (l : Loop) (e : Event) :
    (l.after e).engine = l.engine ∧ (l.after e).ownPaths = l.ownPaths := by
  cases e with
  | message disk now message =>
      cases message with
      | error e => exact ⟨rfl, rfl⟩
      | ok change =>
          rcases handle_value l disk now change with ⟨r, -, hr⟩ | ⟨hno, -⟩
          · obtain ⟨source, filter, folders, hl⟩ := reloadFilter_value l disk r
            rw [after, receive, hr, hl]
            exact ⟨rfl, rfl⟩
          · have halike := (handle_leaves l disk now change hno).1
            exact ⟨halike.engine, halike.ownPaths⟩
  | track disk name root =>
      obtain ⟨source, filter, folders, hl⟩ := after_track l disk name root
      rw [hl]
      exact ⟨rfl, rfl⟩
  | untrack name =>
      rw [after]
      rcases untrack_value l name with ⟨-, hl⟩ | ⟨r, source, -, hl⟩ <;> rw [hl] <;> exact ⟨rfl, rfl⟩
  | sweep now =>
      rw [after, sweep_value]
      exact ⟨rfl, rfl⟩

/-- What a change that is passed on does to the projects. -/
theorem Passed.projects_eq (h : Passed l disk now change next)
    (hq : l.projects.resolve change.path = some q) :
    next.projects =
      if q.rejects change.path = false ∧ disk.isFolder change.path = true ∧
          change.kind = .created then
        l.projects.modify q.name fun p => { p with folders := p.folders ++
          (subscribeAll (Walk.folders q.filter disk change.path).value l.source).value.1 }
      else l.projects := by
  cases h with
  | ignored hignored =>
      rw [hq] at hignored
      rw [if_neg fun hall => by cases hall.1.symm.trans hignored]
  | created hkept hfolder hcreated =>
      rw [hq] at hkept ⊢
      rw [if_pos ⟨hkept, hfolder, hcreated⟩]
      rfl
  | folder _ _ hcreated => rw [if_neg fun hall => hcreated hall.2.2]
  | noExtension _ hfile | due _ hfile | waiting _ hfile => rw [if_neg (by simp [hfile])]

/-- What a change below the root of its owner does to the projects. -/
theorem projects_handle (hq : l.projects.resolve change.path = some q) :
    (l.handle disk now change).value.projects =
      if l.isOwn change.path then l.projects
      else if l.isIgnoreFile change.path q then
        realign l.projects q (l.engine.filterFor disk q.root).value
          (distinct (Walk.folders (l.engine.filterFor disk q.root).value disk q.root).value)
          l.source
      else if q.rejects change.path = false ∧ disk.isFolder change.path = true ∧
          change.kind = .created then
        l.projects.modify q.name fun p => { p with folders := p.folders ++
          (subscribeAll (Walk.folders q.filter disk change.path).value l.source).value.1 }
      else l.projects := by
  have h := l.handled disk now change
  generalize (l.handle disk now change).value = next at h ⊢
  cases h with
  | own hown => rw [if_pos hown]
  | reloaded hr =>
      obtain rfl := Option.some.inj (hr.owner.symm.trans hq)
      rw [if_neg (Bool.eq_false_iff.mp hr.foreign), if_pos hr.ignoreFile]
      rfl
  | passed hforeign hplain hpassed =>
      rw [if_neg (Bool.eq_false_iff.mp hforeign), if_neg (Bool.eq_false_iff.mp (hplain q hq)),
        hpassed.projects_eq hq]

theorem mem_distinct_iff {folders : List Path}
    (hexact : ∀ f ∈ folders, ∀ g ∈ folders, f.same g = true → f = g) :
    f ∈ distinct folders ↔ f ∈ folders := by
  refine ⟨mem_of_mem_distinct, fun hf => ?_⟩
  obtain ⟨g, hg, hsame⟩ := exists_distinct hf
  rwa [← hexact g (mem_of_mem_distinct hg) f hf hsame]

/-- The directories that a project listed, wants no more, and no other project lists. -/
def abandoned (projects : WatchSet) (r : WatchedProject) (wanted : List Path) : List Path :=
  (without (distinct r.folders) wanted).filter (!projects.isSubscribedElsewhere · r.name)

/-- What is subscribed once a project wants other directories. -/
theorem realigned_of_accepts (h : source.Accepts) (projects : WatchSet) (r : WatchedProject)
    (wanted : List Path) :
    (realigned projects r wanted source).1 = without wanted (distinct r.folders) ∧
      (realigned projects r wanted source).2.subscribed =
        without source.subscribed (abandoned projects r wanted) ++
          without wanted (distinct r.folders) := by
  obtain ⟨count, hcount⟩ := unsubscribeAll_of_accepts h projects r.name
    (without (distinct r.folders) wanted)
  rw [realigned, hcount, subscribeAll_of_accepts (h.later count _)]
  exact ⟨rfl, rfl⟩

/-- A source that accepts the calls gives a project exactly what it wants. -/
theorem mem_realignedFolders (h : source.Accepts)
    (hexact : ∀ f ∈ r.folders ++ wanted, ∀ g ∈ r.folders ++ wanted, f.same g = true → f = g) :
    f ∈ realignedFolders projects r wanted source ↔ f ∈ wanted := by
  have hadded := (realigned_of_accepts h projects r wanted).1
  have hlisted {f : Path} (hf : f ∈ distinct r.folders) : f ∈ r.folders ++ wanted :=
    List.mem_append_left _ (mem_of_mem_distinct hf)
  rw [realignedFolders, Debouncer.mem_sortPaths, List.mem_append, hadded, mem_among, mem_without]
  constructor
  · rintro (⟨hf, g, hg, hsame⟩ | ⟨hf, -⟩)
    · rwa [← hexact g (List.mem_append_right _ hg) f (hlisted hf) hsame]
    · exact hf
  · intro hf
    by_cases hold : ∃ g ∈ distinct r.folders, g.same f = true
    · obtain ⟨g, hg, hsame⟩ := hold
      obtain rfl := hexact g (hlisted hg) f (List.mem_append_right _ hf) hsame
      exact .inl ⟨hg, g, hf, hsame⟩
    · refine .inr ⟨hf, fun g hg => Bool.eq_false_iff.mpr fun hsame => hold ⟨g, hg, hsame⟩⟩

/-- The project that is tracked if the source accepts the calls. -/
theorem projects_track (h : l.source.Accepts) (disk : Disk) (name : String) (root : Path) :
    (l.track disk name root).value.2.projects =
      l.projects.insert ⟨name, root, (l.engine.filterFor disk root).value,
        (Walk.folders (l.engine.filterFor disk root).value disk root).value⟩ := by
  simp only [track, Noted.value_bind, subscribeAll_of_accepts h]
  split <;> rfl

theorem engine_trackAll (disk : Disk) (tracked : List (String × Path)) (l : Loop) :
    (Watcher.trackAll disk tracked l).value.engine = l.engine ∧
      (Watcher.trackAll disk tracked l).value.ownPaths = l.ownPaths := by
  refine trackAll_induction (P := fun next => next.engine = l.engine ∧
    next.ownPaths = l.ownPaths) disk (fun next name root h => ?_) tracked ⟨rfl, rfl⟩
  obtain ⟨source, filter, folders, hnext⟩ := track_value next disk name root
  rw [hnext]
  exact h

/-- A watcher that starts gives every project what it wants. -/
theorem projects_trackAll (hw : l.source.Willing) {tracked : List (String × Path)}
    (hq : q ∈ (Watcher.trackAll disk tracked l).value.projects.projects) :
    q ∈ l.projects.projects ∨ q.filter = (l.engine.filterFor disk q.root).value ∧
      q.folders = (Walk.folders q.filter disk q.root).value := by
  induction tracked generalizing l with
  | nil => exact .inl hq
  | cons x tracked ih =>
      obtain ⟨name, root⟩ := x
      rw [Watcher.trackAll, Noted.value_bind] at hq
      have hwilling : (l.track disk name root).value.2.source.Willing := by
        intro call folder
        rw [(turn_track l disk name root).refusal]
        exact hw call folder
      rcases ih hwilling hq with hmem | hwanted
      · rw [projects_track hw.accepts] at hmem
        rcases WatchSet.mem_insert.mp hmem with hold | rfl
        · exact .inl (WatchSet.mem_of_mem_remove hold)
        · exact .inr ⟨rfl, rfl⟩
      · obtain ⟨source, filter, folders, hl⟩ := track_value l disk name root
        rw [hl] at hwanted
        exact .inr hwanted

/-- To track a project no more leaves the others as they are. -/
theorem projects_untrack {name : String}
    (hq : q ∈ (l.untrack name).value.2.projects.projects) : q ∈ l.projects.projects := by
  rcases untrack_value l name with ⟨-, hl⟩ | ⟨r, source, -, hl⟩
  · rwa [hl] at hq
  · rw [hl] at hq
    exact WatchSet.mem_of_mem_remove hq

end Loop

/-- The rules of a project are what its ignore file reads. -/
theorem Engine.filterFor_congr {e : Engine} {d other : Disk} {root : Path}
    (h : d.readText (root.join (Path.ofString e.settings.ignoreFile)) =
      other.readText (root.join (Path.ofString e.settings.ignoreFile))) :
    (e.filterFor d root).value = (e.filterFor other root).value := by
  simp only [Engine.filterFor, Ignore.Filter.forProject, Ignore.Filter.addFile, h]

end TodoIndex
