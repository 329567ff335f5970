import TodoIndex.Proofs.Watch.Outlines
import TodoIndex.Proofs.Watch.Pending
import TodoIndex.Proofs.Watch.Subscriptions

/-! # Whose rescans are due

A path may wait for long before it is rescanned, and the watched projects change meanwhile.  Still
whatever becomes due is looked up among the projects at that moment, so it is a rescan of one that
is watched, with the root it is watched under.  A name that was untracked gets no rescan until it
is tracked again.
-/

namespace TodoIndex

namespace WatchSet

variable {s t : WatchSet} {name : String}

/-- The root under which the project of a name is watched. -/
def rootOf? (s : WatchSet) (name : String) : Option Path :=
  (s.get? name).map (·.root)

/-- The projects by their names and roots alone. -/
def roots (s : WatchSet) : List (String × Path) :=
  s.projects.map fun p => (p.name, p.root)

theorem rootOf?_eq (s : WatchSet) (name : String) :
    s.rootOf? name = (s.roots.find? (·.1 = name)).map Prod.snd := by
  rw [roots, List.find?_map, Option.map_map]
  rfl

theorem rootOf?_of_roots (h : s.roots = t.roots) (name : String) :
    s.rootOf? name = t.rootOf? name := by
  rw [rootOf?_eq, h, rootOf?_eq]

theorem names_of_roots (h : s.roots = t.roots) : s.names = t.names := by
  have hnames : ∀ s : WatchSet, s.names = s.roots.map Prod.fst := fun s => by
    simp [names, roots]
  rw [hnames, h, hnames]

theorem roots_of_bare (h : s.bare = t.bare) : s.roots = t.roots := by
  have hbare : ∀ s : WatchSet, s.bare.roots = s.roots := fun s => by
    simp [bare, roots, WatchedProject.bare]
  rw [← hbare, h, hbare]

theorem Distinct.rootOf?_of_mem (h : s.Distinct) {p : WatchedProject} (hp : p ∈ s.projects) :
    s.rootOf? p.name = some p.root := by
  rw [rootOf?, h.get?_of_mem hp, Option.map_some]

theorem mem_names_of_rootOf? {root : Path} (h : s.rootOf? name = some root) : name ∈ s.names := by
  obtain ⟨p, hp, -⟩ := Option.map_eq_some_iff.mp h
  exact List.mem_map.mpr ⟨p, mem_of_get? hp, name_of_get? hp⟩

end WatchSet

namespace Loop

variable {l : Loop} {name : String}

/-! ## One event -/

/-- No change of a file or directory changes which projects are watched under which roots. -/
theorem roots_handle (l : Loop) (disk : Disk) (now : Nat) (change : Change) :
    (l.handle disk now change).value.projects.roots = l.projects.roots := by
  rcases l.handle_cases disk now change with ⟨r, source, filter, folders, -, hl⟩ | ⟨halike, -⟩
  · rw [hl]
    exact WatchSet.map_modify fun _ => rfl
  · exact WatchSet.roots_of_bare halike.projects

/-- A change makes nothing due but rescans of watched projects. -/
theorem spawns_handle (l : Loop) (disk : Disk) (now : Nat) (change : Change) :
    ∃ due, (l.handle disk now change).value.rescans = l.rescans ++ due ∧
      ∀ x ∈ due, ∃ q ∈ l.projects.projects, x = (q.name, q.root) := by
  rcases l.handle_cases disk now change with ⟨r, source, filter, folders, hr, hl⟩ | ⟨-, hleaves⟩
  · rw [hl]
    exact ⟨_, rfl, fun x hx =>
      ⟨r, WatchSet.mem_of_resolve hr.owner, List.mem_singleton.mp hx⟩⟩
  · obtain ⟨due, hdue, howners⟩ := hleaves.owners
    refine ⟨due, hdue, fun x hx => ?_⟩
    obtain ⟨q, hq, hx⟩ := howners x hx
    exact ⟨q, WatchSet.mem_of_resolve hq, hx⟩

/-- What an event makes due is a rescan of a watched project with its root.  Every reaction makes
its rescans due when it has done with the projects, so that they are those after the event. -/
theorem spawns_after (h : l.projects.Distinct) (e : Event) :
    ∃ due, (l.after e).rescans = l.rescans ++ due ∧
      ∀ x ∈ due, (l.after e).projects.rootOf? x.1 = some x.2 := by
  cases e with
  | message disk now message =>
      cases message with
      | error e => exact ⟨[], (List.append_nil _).symm, by simp⟩
      | ok change =>
          obtain ⟨due, hdue, hwatched⟩ := l.spawns_handle disk now change
          refine ⟨due, hdue, fun x hx => ?_⟩
          obtain ⟨q, hq, rfl⟩ := hwatched x hx
          exact (WatchSet.rootOf?_of_roots (l.roots_handle disk now change) _).trans
            (h.rootOf?_of_mem hq)
  | track disk name root =>
      obtain ⟨source, filter, folders, hl⟩ := after_track l disk name root
      rw [hl]
      refine ⟨_, rfl, fun x hx => ?_⟩
      obtain rfl := List.mem_singleton.mp hx
      exact (h.insert _).rootOf?_of_mem (WatchSet.mem_insert.mpr (.inr rfl))
  | untrack name =>
      refine ⟨[], ?_, by simp⟩
      rw [after, List.append_nil]
      rcases untrack_value l name with ⟨-, hl⟩ | ⟨r, source, -, hl⟩ <;> rw [hl]
  | sweep now =>
      rw [after, sweep_value]
      refine ⟨_, rfl, fun x hx => ?_⟩
      obtain ⟨q, hq, rfl⟩ := watched_of_due _ (by simp) x hx
      exact h.rootOf?_of_mem hq

/-- Only to track a name makes it one of a watched project. -/
theorem mem_names_after {e : Event} (h : name ∈ (l.after e).projects.names) :
    name ∈ l.projects.names ∨ ∃ disk root, e = .track disk name root := by
  cases e with
  | message disk now message =>
      cases message with
      | error e => exact .inl h
      | ok change =>
          left
          rwa [after, receive, WatchSet.names_of_roots (l.roots_handle disk now change)] at h
  | track disk other root =>
      obtain ⟨source, filter, folders, hl⟩ := after_track l disk other root
      rw [hl] at h
      rcases WatchSet.mem_names_insert h with h | rfl
      · exact .inl h
      · exact .inr ⟨disk, root, rfl⟩
  | untrack other =>
      left
      rw [after] at h
      rcases untrack_value l other with ⟨-, hl⟩ | ⟨r, source, -, hl⟩
      · rwa [hl] at h
      · rw [hl] at h
        obtain ⟨p, hp, rfl⟩ := List.mem_map.mp h
        exact List.mem_map_of_mem (WatchSet.mem_of_mem_remove hp)
  | sweep now =>
      rw [after, sweep_value] at h
      exact .inl h

theorem not_mem_names_untrack (h : l.projects.Distinct) (name : String) :
    name ∉ (l.after (.untrack name)).projects.names := by
  rw [after]
  rcases untrack_value l name with ⟨hnone, hl⟩ | ⟨r, source, -, hl⟩
  · rw [hl]
    intro hmem
    obtain ⟨p, hp, rfl⟩ := List.mem_map.mp hmem
    rw [h.get?_of_mem hp] at hnone
    cases hnone
  · rw [hl]
    exact h.not_mem_remove name

/-! ## What follows -/

/-- What can follow on a loop: the events it reacts to, all the rescans that they make due, and
the loop they lead to.  Rescans that are due begin at any time. -/
inductive Stretch (first : Loop) : List Event → List (String × Path) → Loop → Prop where
  | here : Stretch first [] [] first
  | react {events : List Event} {made due : List (String × Path)} {l : Loop} (e : Event) :
      Stretch first events made l → (l.after e).rescans = l.rescans ++ due →
      Stretch first (events ++ [e]) (made ++ due) (l.after e)
  | launch {events : List Event} {made : List (String × Path)} {l : Loop} (count : Nat) :
      Stretch first events made l →
      Stretch first events made { l with rescans := l.rescans.drop count }

variable {first next : Loop} {events : List Event} {made : List (String × Path)}

/-- A name of no watched project stays so, and has no rescan, as long as it is not tracked. -/
theorem Stretch.spawns_other (h : Stretch first events made next) (hnames : first.projects.Distinct)
    (hfree : name ∉ first.projects.names) (hevents : ∀ disk root, .track disk name root ∉ events) :
    next.projects.Distinct ∧ name ∉ next.projects.names ∧ ∀ x ∈ made, x.1 ≠ name := by
  induction h with
  | here => exact ⟨hnames, hfree, by simp⟩
  | @react events made due l e _ hdue ih =>
      obtain ⟨hdistinct, hnot, hmade⟩ :=
        ih fun disk root he => hevents disk root (List.mem_append_left _ he)
      have hnext : name ∉ (l.after e).projects.names := by
        intro hmem
        rcases mem_names_after hmem with hmem | ⟨disk, root, rfl⟩
        · exact hnot hmem
        · exact hevents disk root (by simp)
      refine ⟨distinct_after hdistinct e, hnext, fun x hx => ?_⟩
      rcases List.mem_append.mp hx with hx | hx
      · exact hmade x hx
      · obtain ⟨due', hdue', hwatched⟩ := spawns_after hdistinct e
        obtain rfl : due = due' := List.append_cancel_left (hdue.symm.trans hdue')
        rintro rfl
        exact hnext (WatchSet.mem_names_of_rootOf? (hwatched x hx))
  | launch count _ ih => exact ih hevents

/-- **Only watched projects are rescanned.**  In whatever state the loop of a watcher is, an event
makes due only rescans of projects that are watched then, each with the root it is watched under.
After a name was untracked no rescan of it becomes due until it is tracked again, whatever paths
were waiting. -/
theorem Reachable.spawns_watched {l : Loop} (h : Reachable l) :
    (∀ e, ∃ due, (l.after e).rescans = l.rescans ++ due ∧
        ∀ x ∈ due, (l.after e).projects.rootOf? x.1 = some x.2) ∧
      ∀ name events made next, Stretch (l.after (.untrack name)) events made next →
        (∀ disk root, .track disk name root ∉ events) → ∀ x ∈ made, x.1 ≠ name := by
  refine ⟨spawns_after h.distinct, fun name events made next hstretch hevents => ?_⟩
  exact (hstretch.spawns_other (distinct_after h.distinct _)
    (not_mem_names_untrack h.distinct name) hevents).2.2

/-- The watcher when the project that owned the change of the file has moved elsewhere. -/
def moved : Loop :=
  nested.after (.track nestedDisk "inner" (.ofString "w/other"))

/-- The change still waits when the project is untracked, and a sweep then rescans the project
around it. -/
theorem spawns_watched_moved :
    nestedPath ∈ (moved.after (.untrack "inner")).debouncer.paths ∧
      ∃ due, ((moved.after (.untrack "inner")).after (.sweep 9)).rescans =
          (moved.after (.untrack "inner")).rescans ++ due ∧
        (("outer", .ofString "w") ∈ due ∧ ∀ x ∈ due,
          ((moved.after (.untrack "inner")).after (.sweep 9)).projects.rootOf? x.1 = some x.2 ∧
            x.1 ≠ "inner") := by
  have hmoved : Reachable moved := reachable_nested.react _
  obtain ⟨due, hdue, hwatched⟩ := (hmoved.react (.untrack "inner")).spawns_watched.1 (.sweep 9)
  refine ⟨by decide +kernel, due, hdue, ?_, fun x hx => ⟨hwatched x hx, ?_⟩⟩
  · have hswept := congrArg Loop.rescans ((moved.after (.untrack "inner")).sweep_value 9)
    obtain rfl := List.append_cancel_left (hdue.symm.trans hswept)
    decide +kernel
  · exact hmoved.spawns_watched.2 "inner" [.sweep 9] due _ (.react (.sweep 9) .here hdue)
      (by simp) x hx

end Loop

end TodoIndex
