import Mathlib.Data.List.Nodup
import TodoIndex.Watch.Watcher

/-! # Names and owners of watched projects

Watched projects have different names, whatever is tracked, untracked and changed.  The owner of
a path is one of them, so a name of a project is as good as the project; the sweep relies on this,
which keeps the projects that are due under their names.
-/

namespace TodoIndex

namespace WatchSet

variable {s : WatchSet} {p q : WatchedProject}

theorem deepest_mem {ps : List WatchedProject} (h : deepest ps = some q) : q ∈ ps := by
  induction ps generalizing q with
  | nil => cases h
  | cons p rest ih =>
      rw [deepest] at h
      cases hrest : deepest rest with
      | none =>
          rw [hrest] at h
          cases h
          exact List.mem_cons_self
      | some r =>
          rw [hrest] at h
          dsimp only at h
          split at h <;> cases h
          · exact List.mem_cons_of_mem _ (ih hrest)
          · exact List.mem_cons_self

theorem mem_of_resolve {path : Path} (h : s.resolve path = some q) : q ∈ s.projects :=
  (List.mem_filter.mp (deepest_mem h)).1

theorem startsWith_of_resolve {path : Path} (h : s.resolve path = some q) :
    path.startsWith q.root = true :=
  (List.mem_filter.mp (deepest_mem h)).2

theorem name_of_get? {name : String} (h : s.get? name = some q) : q.name = name := by
  simpa using List.find?_some h

/-- The projects have different names. -/
def Distinct (s : WatchSet) : Prop :=
  s.names.Nodup

theorem Distinct.eq_of_name (h : s.Distinct) (hp : p ∈ s.projects) (hq : q ∈ s.projects)
    (hname : p.name = q.name) : p = q :=
  List.inj_on_of_nodup_map h hp hq hname

theorem distinct_empty : Distinct empty :=
  List.nodup_nil

theorem Distinct.remove (h : s.Distinct) (name : String) : (s.remove name).Distinct :=
  h.sublist ((List.eraseP_sublist).map _)

theorem Distinct.not_mem_remove (h : s.Distinct) (name : String) :
    name ∉ (s.remove name).names := by
  obtain ⟨projects⟩ := s
  induction projects with
  | nil => exact List.not_mem_nil
  | cons p rest ih =>
      obtain ⟨hp, hrest⟩ := List.nodup_cons.mp h
      by_cases hname : p.name = name
      · simp only [WatchSet.remove, names, List.eraseP_cons, hname, decide_true, cond_true]
        rwa [← hname]
      · have hmem := ih hrest
        simp only [WatchSet.remove, names] at hmem
        simp [WatchSet.remove, names, hname, Ne.symm hname, hmem]

theorem Distinct.insert (h : s.Distinct) (p : WatchedProject) : (s.insert p).Distinct := by
  have hfree := h.not_mem_remove p.name
  unfold Distinct names WatchSet.insert
  rw [List.map_append]
  refine List.nodup_append.mpr ⟨h.remove p.name, by simp, ?_⟩
  intro name hname other hother hsame
  simp only [List.map_cons, List.map_nil, List.mem_singleton] at hother
  subst hsame hother
  exact hfree hname

/-- A change of one project that keeps something of it keeps that of all projects. -/
theorem map_modify {α : Type} {f : WatchedProject → α} {name : String}
    {change : WatchedProject → WatchedProject} (hchange : ∀ p, f (change p) = f p) :
    (s.modify name change).projects.map f = s.projects.map f := by
  rw [modify, List.map_map]
  refine List.map_congr_left fun p _ => ?_
  simp only [Function.comp_apply]
  split
  · exact hchange p
  · rfl

theorem names_modify {name : String} {change : WatchedProject → WatchedProject}
    (hchange : ∀ p, (change p).name = p.name) : (s.modify name change).names = s.names :=
  map_modify hchange

theorem Distinct.modify (h : s.Distinct) {name : String}
    {change : WatchedProject → WatchedProject} (hchange : ∀ p, (change p).name = p.name) :
    (s.modify name change).Distinct := by
  unfold Distinct
  rwa [names_modify hchange]

end WatchSet

namespace Loop

variable {projects : WatchSet} {due : List (String × Path)}

theorem mem_insertDue {name : String} {root : Path} {x : String × Path}
    (h : x ∈ insertDue name root due) : x = (name, root) ∨ x ∈ due := by
  induction due with
  | nil => simpa [insertDue] using h
  | cons e due ih =>
      obtain ⟨other, path⟩ := e
      rw [insertDue] at h
      split at h
      · exact .inr h
      split at h
      · simpa using h
      · rcases List.mem_cons.mp h with rfl | h
        · exact .inr List.mem_cons_self
        · exact (ih h).imp_right (List.mem_cons_of_mem _)

theorem names_insertDue (name : String) (root : Path) (due : List (String × Path)) :
    name ∈ (insertDue name root due).map Prod.fst ∧
      due.map Prod.fst ⊆ (insertDue name root due).map Prod.fst := by
  induction due with
  | nil => simp [insertDue]
  | cons e due ih =>
      obtain ⟨other, path⟩ := e
      rw [insertDue]
      split
      · rename_i hname
        subst hname
        simp
      split
      · simp
      · obtain ⟨hname, hdue⟩ := ih
        simp only [List.map_cons]
        exact ⟨List.mem_cons_of_mem _ hname, List.cons_subset_cons _ hdue⟩

/-- Projects are due in the order of their names, each once. -/
theorem pairwise_insertDue (name : String) (root : Path)
    (h : (due.map Prod.fst).Pairwise (· < ·)) :
    ((insertDue name root due).map Prod.fst).Pairwise (· < ·) := by
  induction due with
  | nil => simp [insertDue]
  | cons e due ih =>
      obtain ⟨other, path⟩ := e
      obtain ⟨hother, hdue⟩ := List.pairwise_cons.mp h
      rw [insertDue]
      split
      · exact h
      rename_i hne
      split
      · rename_i hlt
        refine List.pairwise_cons.mpr ⟨fun next hnext => ?_, h⟩
        rcases List.mem_cons.mp hnext with rfl | hnext
        · exact hlt
        · exact String.lt_trans hlt (hother next hnext)
      · rename_i hnot
        have hlt : other < name := Std.lt_of_le_of_ne (String.not_lt.mp hnot) (Ne.symm hne)
        refine List.pairwise_cons.mpr ⟨fun next hnext => ?_, ih hdue⟩
        obtain ⟨x, hx, rfl⟩ := List.mem_map.mp hnext
        rcases mem_insertDue hx with rfl | hx
        · exact hlt
        · exact hother _ (List.mem_map_of_mem hx)

/-- The projects to which some of the paths belong, under their names. -/
def dueProjects (projects : WatchSet) (due : List (String × Path)) (paths : List Path) :
    List (String × Path) :=
  paths.foldl (fun due path => (dueOf projects due path).value) due

theorem dueOf_value (path : Path) : (dueOf projects due path).value =
    match projects.resolve path with
    | some project => insertDue project.name project.root due
    | none => due := by
  unfold dueOf
  cases projects.resolve path <;> rfl

theorem names_dueProjects (due : List (String × Path)) (paths : List Path) :
    due.map Prod.fst ⊆ (dueProjects projects due paths).map Prod.fst := by
  induction paths generalizing due with
  | nil => exact fun _ h => h
  | cons path paths ih =>
      refine List.Subset.trans ?_ (ih (dueOf projects due path).value)
      rw [dueOf_value]
      split
      · exact (names_insertDue _ _ due).2
      · exact fun _ h => h

theorem pairwise_dueProjects (paths : List Path) (h : (due.map Prod.fst).Pairwise (· < ·)) :
    ((dueProjects projects due paths).map Prod.fst).Pairwise (· < ·) := by
  induction paths generalizing due with
  | nil => exact h
  | cons path paths ih =>
      refine ih ?_
      dsimp only
      rw [dueOf_value]
      split
      · exact pairwise_insertDue _ _ h
      · exact h

/-- The owner of every one of the paths is due. -/
theorem name_mem_dueProjects {paths : List Path} {path : Path} {q : WatchedProject}
    (hmem : path ∈ paths) (hq : projects.resolve path = some q) :
    q.name ∈ (dueProjects projects due paths).map Prod.fst := by
  induction paths generalizing due with
  | nil => cases hmem
  | cons first paths ih =>
      rcases List.mem_cons.mp hmem with rfl | hmem
      · refine names_dueProjects (dueOf projects due path).value paths ?_
        rw [dueOf_value, hq]
        exact (names_insertDue _ _ due).1
      · exact ih hmem

/-- Nothing is due but the owners of some of the paths. -/
theorem owner_of_due {x : String × Path} (paths : List Path)
    (h : x ∈ dueProjects projects due paths) :
    x ∈ due ∨ ∃ path ∈ paths, ∃ q, projects.resolve path = some q ∧ x = (q.name, q.root) := by
  induction paths generalizing due with
  | nil => exact .inl h
  | cons path paths ih =>
      rcases ih h with hdue | ⟨other, hother, howner⟩
      · dsimp only at hdue
        rw [dueOf_value] at hdue
        split at hdue
        · rename_i q hq
          rcases mem_insertDue hdue with rfl | hdue
          · exact .inr ⟨path, List.mem_cons_self, q, hq, rfl⟩
          · exact .inl hdue
        · exact .inl hdue
      · exact .inr ⟨other, List.mem_cons_of_mem _ hother, howner⟩

/-- Nothing but watched projects is due. -/
theorem watched_of_due (paths : List Path)
    (hdue : ∀ x ∈ due, ∃ q ∈ projects.projects, x = (q.name, q.root)) :
    ∀ x ∈ dueProjects projects due paths, ∃ q ∈ projects.projects, x = (q.name, q.root) := by
  intro x hx
  rcases owner_of_due paths hx with hx | ⟨path, -, q, hq, rfl⟩
  · exact hdue x hx
  · exact ⟨q, WatchSet.mem_of_resolve hq, rfl⟩

/-- A project whose name is due is due with its own root. -/
theorem mem_due_of_name (hnames : projects.Distinct) {paths : List Path} {q : WatchedProject}
    (hq : q ∈ projects.projects)
    (hname : q.name ∈ (dueProjects projects [] paths).map Prod.fst) :
    (q.name, q.root) ∈ dueProjects projects [] paths := by
  obtain ⟨x, hx, hxname⟩ := List.mem_map.mp hname
  obtain ⟨r, hr, rfl⟩ := watched_of_due paths (by simp) x hx
  obtain rfl : r = q := hnames.eq_of_name hr hq hxname
  exact hx

end Loop

end TodoIndex
