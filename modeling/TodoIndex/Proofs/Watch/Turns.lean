import TodoIndex.Proofs.Watch.Subscriptions

/-! # Turns of the loop

A reaction of the loop changes what is subscribed and which projects are watched in one of six
ways, its turn: it leaves both alone, tracks or untracks a project, brings the subscriptions of
one in line with its ignore file, or covers a new directory, inside a project or outside all.
-/

namespace TodoIndex

/-- The directories that are subscribed for the project of a name. -/
def WatchSet.foldersOf (s : WatchSet) (name : String) : List Path :=
  match s.get? name with
  | some p => p.folders
  | none => []

namespace Loop

/-- Whether a change makes the loop cover a directory that was created outside all projects. -/
def coversOutside (l : Loop) (disk : Disk) (change : Change) : Bool :=
  !l.isOwn change.path && (l.projects.resolve change.path).isNone && !ignores change.path none &&
    disk.isFolder change.path && change.kind = .created

/-- The directories that an event makes the loop subscribe for no project. -/
def strays (l : Loop) : Event → List Path
  | .message disk _ (.ok change) =>
      if l.coversOutside disk change then (Walk.folders .defaults disk change.path).value else []
  | _ => []

/-- The directories that were subscribed for the project that an event replaces. -/
def replaced (l : Loop) : Event → List Path
  | .track _ name _ => l.projects.foldersOf name
  | _ => []

/-- What is subscribed anew for a project that wants other directories now, and the source. -/
def realigned (projects : WatchSet) (r : WatchedProject) (wanted : List Path) (source : Source) :
    List Path × Source :=
  let current := distinct r.folders
  let kept := (unsubscribeAll projects r.name (without current wanted) source).value
  (subscribeAll (without wanted current) kept).value

/-- The directories of the project after that. -/
def realignedFolders (projects : WatchSet) (r : WatchedProject) (wanted : List Path)
    (source : Source) : List Path :=
  Debouncer.sortPaths
    (among (distinct r.folders) wanted ++ (realigned projects r wanted source).1)

/-- The projects after that, when the project has got other rules. -/
def realign (projects : WatchSet) (r : WatchedProject) (filter : Ignore.Filter)
    (wanted : List Path) (source : Source) : WatchSet :=
  projects.modify r.name fun p =>
    { p with filter, folders := realignedFolders projects r wanted source }

/-- The turns that the source and the projects of a loop can take, with the directories that are
subscribed for no project, and those that were subscribed for a project that is replaced. -/
inductive Turn (source : Source) (projects : WatchSet) :
    Source → WatchSet → (strays replaced : List Path) → Prop where
  | still : Turn source projects source projects [] []
  | tracked {p : WatchedProject} (wanted : List Path) :
      p.folders = (subscribeAll wanted source).value.1 →
      Turn source projects (subscribeAll wanted source).value.2 (projects.insert p) []
        (projects.foldersOf p.name)
  | untracked {name : String} {r : WatchedProject} :
      projects.get? name = some r →
      Turn source projects (unsubscribeAll (projects.remove name) name r.folders source).value
        (projects.remove name) [] []
  | reloaded {r : WatchedProject} (filter : Ignore.Filter) (wanted : List Path) :
      r ∈ projects.projects →
      Turn source projects (realigned projects r wanted source).2
        (realign projects r filter wanted source) [] []
  | grown {r : WatchedProject} (found : List Path) :
      r ∈ projects.projects →
      Turn source projects (subscribeAll found source).value.2
        (projects.modify r.name fun p =>
          { p with folders := p.folders ++ (subscribeAll found source).value.1 }) [] []
  | outside (found : List Path) :
      Turn source projects (subscribeAll found source).value.2 projects found []

theorem turn_track (l : Loop) (disk : Disk) (name : String) (root : Path) :
    Turn l.source l.projects (l.track disk name root).value.2.source
      (l.track disk name root).value.2.projects [] (l.projects.foldersOf name) := by
  simp only [track, Noted.value_bind]
  split <;> exact .tracked _ rfl

theorem turn_untrack (l : Loop) (name : String) :
    Turn l.source l.projects (l.untrack name).value.2.source (l.untrack name).value.2.projects
      [] [] := by
  unfold untrack
  cases h : l.projects.get? name with
  | none => exact .still
  | some r => exact .untracked h

theorem Passed.turn {l next : Loop} {disk : Disk} {now : Nat} {change : Change}
    (hown : l.isOwn change.path = false) (h : Passed l disk now change next) :
    Turn l.source l.projects next.source next.projects
      (l.strays (.message disk now (.ok change))) [] := by
  have hstill : l.coversOutside disk change = false →
      Turn l.source l.projects l.source l.projects
        (l.strays (.message disk now (.ok change))) [] := by
    intro hinside
    rw [strays, hinside]
    exact .still
  cases h with
  | ignored hignored =>
      refine hstill ?_
      cases hresolve : l.projects.resolve change.path with
      | none =>
          rw [hresolve] at hignored
          simp [coversOutside, hignored]
      | some r => simp [coversOutside, hresolve]
  | created hkept hfolder hcreated =>
      cases hresolve : l.projects.resolve change.path with
      | none =>
          rw [hresolve] at hkept
          have houtside : l.coversOutside disk change = true := by
            simp [coversOutside, hown, hresolve, hfolder, hcreated, hkept]
          rw [strays, if_pos houtside]
          exact .outside _
      | some r =>
          rw [strays, if_neg (by simp [coversOutside, hresolve])]
          exact .grown _ (WatchSet.mem_of_resolve hresolve)
  | folder _ _ hcreated => exact hstill (by simp [coversOutside, hcreated])
  | noExtension _ hfile | due _ hfile | waiting _ hfile =>
      exact hstill (by simp [coversOutside, hfile])

theorem turn_handle (l : Loop) (disk : Disk) (now : Nat) (change : Change) :
    Turn l.source l.projects (l.handle disk now change).value.source
      (l.handle disk now change).value.projects (l.strays (.message disk now (.ok change))) [] := by
  have h := l.handled disk now change
  generalize (l.handle disk now change).value = next at h ⊢
  cases h with
  | own hown =>
      rw [strays, if_neg (by simp [coversOutside, hown])]
      exact .still
  | reloaded hr =>
      rw [strays, if_neg (by simp [coversOutside, hr.owner])]
      exact .reloaded _ _ (WatchSet.mem_of_resolve hr.owner)
  | passed hown _ hpassed => exact hpassed.turn hown

/-- Every reaction is a turn. -/
theorem turn_after (l : Loop) (e : Event) :
    Turn l.source l.projects (l.after e).source (l.after e).projects (l.strays e)
      (l.replaced e) := by
  cases e with
  | message disk now message =>
      cases message with
      | error e => exact .still
      | ok change => exact turn_handle l disk now change
  | track disk name root => exact turn_track l disk name root
  | untrack name => exact turn_untrack l name
  | sweep now =>
      rw [after, sweep_value]
      exact .still

end Loop

end TodoIndex
