import Mathlib.Data.List.Induction
import TodoIndex.Proofs.Watch.Subscriptions
import TodoIndex.Proofs.Watch.Territories

/-! # Histories of watch sets

A watch set is built by inserting projects and removing names.  A name stands for the project that
was inserted under it last, unless it was removed since, and no name stands twice.  A path belongs
to the project with the longest root that is a prefix of it; if no two roots are the same place,
the order in which the projects came does not matter.
-/

namespace TodoIndex

theorem Path.startsWith_iff_prefix {path root : Path} :
    path.startsWith root = true ↔ root.components <+: path.components := by
  rw [startsWith, Option.isSome_iff_exists]
  constructor
  · intro h
    obtain ⟨rest, hrest⟩ := h
    exact ⟨rest, (below?_eq_some_iff.mp hrest).symm⟩
  · intro h
    obtain ⟨rest, hrest⟩ := h
    exact ⟨rest, below?_eq_some_iff.mpr hrest.symm⟩

namespace WatchSet

variable {s : WatchSet} {p q : WatchedProject} {path : Path}

/-! ## Histories -/

/-- A call that changes a watch set. -/
inductive Revision where
  | insert (p : WatchedProject)
  | remove (name : String)

/-- The name that a revision is about. -/
def Revision.name : Revision → String
  | .insert p => p.name
  | .remove name => name

def revised (s : WatchSet) : Revision → WatchSet
  | .insert p => s.insert p
  | .remove name => s.remove name

/-- The watch set that is there after some revisions, if there was none before. -/
def built (revisions : List Revision) : WatchSet :=
  revisions.foldl revised empty

/-- A project was inserted under a name last, and not removed since. -/
def Stands (revisions : List Revision) (name : String) (p : WatchedProject) : Prop :=
  ∃ before behind, revisions = before ++ .insert p :: behind ∧ p.name = name ∧
    ∀ r ∈ behind, r.name ≠ name

theorem built_concat (revisions : List Revision) (r : Revision) :
    built (revisions ++ [r]) = (built revisions).revised r := by
  simp [built]

theorem distinct_built (revisions : List Revision) : (built revisions).Distinct := by
  induction revisions using List.reverseRecOn with
  | nil => exact distinct_empty
  | append_singleton revisions r ih =>
      rw [built_concat]
      cases r with
      | insert p => exact ih.insert p
      | remove name => exact ih.remove name

/-- The last revision that is about a name decides. -/
theorem stands_concat {name : String} (revisions : List Revision) (r : Revision) :
    Stands (revisions ++ [r]) name p ↔
      if r.name = name then r = .insert p else Stands revisions name p := by
  constructor
  · intro h
    obtain ⟨before, behind, hsplit, hname, hbehind⟩ := h
    rcases concat_split_iff.mp hsplit with ⟨-, -, hlast⟩ | ⟨front, hfront, hbefore⟩
    · rw [← hlast, if_pos (show (Revision.insert p).name = name from hname)]
    · rw [hfront] at hbehind
      rw [if_neg (hbehind r (by simp))]
      exact ⟨before, front, hbefore, hname, fun x hx => hbehind x (by simp [hx])⟩
  · intro h
    by_cases hr : r.name = name
    · rw [if_pos hr] at h
      subst h
      exact ⟨revisions, [], rfl, hr, by simp⟩
    · rw [if_neg hr] at h
      obtain ⟨before, behind, hsplit, hname, hbehind⟩ := h
      refine ⟨before, behind ++ [r], by simp [hsplit], hname, ?_⟩
      intro x hx
      rcases List.mem_append.mp hx with hx | hx
      · exact hbehind x hx
      · rw [List.mem_singleton.mp hx]
        exact hr

/-- A name stands for what was inserted under it last and not removed since. -/
theorem get?_built {name : String} (revisions : List Revision) :
    (built revisions).get? name = some p ↔ Stands revisions name p := by
  induction revisions using List.reverseRecOn with
  | nil => simp [built, empty, get?, Stands]
  | append_singleton revisions r ih =>
      rw [built_concat, stands_concat, ← ih]
      cases r with
      | insert inserted =>
          rw [revised, (distinct_built revisions).get?_insert, Revision.name]
          by_cases hname : inserted.name = name
          · simp [hname]
          · simp [hname, Ne.symm hname]
      | remove removed =>
          rw [revised, (distinct_built revisions).get?_remove, Revision.name]
          by_cases hname : removed = name
          · simp [hname]
          · simp [hname, Ne.symm hname]

/-! ## Owners -/

/-- A tracked project whose root is a prefix of a path, and than which no other such root has more
components. -/
structure Owns (s : WatchSet) (path : Path) (q : WatchedProject) : Prop where
  tracked : q ∈ s.projects
  above : q.root.components <+: path.components
  deepest : ∀ p ∈ s.projects, p.root.components <+: path.components →
    p.root.components.length ≤ q.root.components.length

theorem owns_of_resolve (h : s.resolve path = some q) : s.Owns path q where
  tracked := mem_of_resolve h
  above := Path.startsWith_iff_prefix.mp (startsWith_of_resolve h)
  deepest := by
    intro p hp habove
    obtain ⟨other, hother, hdepth⟩ := exists_resolve hp (Path.startsWith_iff_prefix.mpr habove)
    rw [h] at hother
    cases hother
    exact hdepth

theorem resolve_eq_none_iff :
    s.resolve path = none ↔ ∀ p ∈ s.projects, ¬ p.root.components <+: path.components := by
  constructor
  · intro h p hp habove
    obtain ⟨q, hq, -⟩ := exists_resolve hp (Path.startsWith_iff_prefix.mpr habove)
    rw [h] at hq
    cases hq
  · intro h
    cases hq : s.resolve path with
    | none => rfl
    | some q => exact absurd (owns_of_resolve hq).above (h q (mem_of_resolve hq))

/-- No two tracked roots are the same place. -/
def RootsDiffer (s : WatchSet) : Prop :=
  ∀ p ∈ s.projects, ∀ q ∈ s.projects, p.root.same q.root = true → p.name = q.name

instance (s : WatchSet) : Decidable s.RootsDiffer :=
  inferInstanceAs (Decidable (∀ p ∈ s.projects, ∀ q ∈ s.projects, _ → _))

/-- Two prefixes of a path that are equally long are the same place. -/
theorem Owns.unique (h : s.RootsDiffer) (hnames : s.Distinct) (hp : s.Owns path p)
    (hq : s.Owns path q) : p = q := by
  have hlength : p.root.components.length = q.root.components.length :=
    Nat.le_antisymm (hq.deepest p hp.tracked hp.above) (hp.deepest q hq.tracked hq.above)
  have hleads := List.prefix_of_prefix_length_le hp.above hq.above (Nat.le_of_eq hlength)
  have hsame : p.root.same q.root = true := Path.same_iff.mpr (hleads.eq_of_length hlength)
  exact hnames.eq_of_name hp.tracked hq.tracked (h p hp.tracked q hq.tracked hsame)

/-- Sets that track the same projects, in whatever order, have the same owners. -/
theorem Owns.of_get? {t : WatchSet} (hs : s.Distinct) (ht : t.Distinct)
    (hsame : ∀ name, t.get? name = s.get? name) (hq : t.Owns path q) : s.Owns path q where
  tracked := by
    have hget := ht.get?_of_mem hq.tracked
    rw [hsame] at hget
    exact mem_of_get? hget
  above := hq.above
  deepest := by
    intro p hp habove
    have hget := hs.get?_of_mem hp
    rw [← hsame] at hget
    exact hq.deepest p (mem_of_get? hget) habove

theorem resolve_of_get? {t : WatchSet} (hs : s.Distinct) (ht : t.Distinct)
    (hdiffer : s.RootsDiffer) (hsame : ∀ name, t.get? name = s.get? name) (path : Path) :
    t.resolve path = s.resolve path := by
  cases hq : t.resolve path with
  | none =>
      symm
      rw [resolve_eq_none_iff] at hq ⊢
      intro p hp
      have hget := hs.get?_of_mem hp
      rw [← hsame] at hget
      exact hq p (mem_of_get? hget)
  | some q =>
      have howns := (owns_of_resolve hq).of_get? hs ht hsame
      obtain ⟨r, hr, -⟩ :=
        exists_resolve howns.tracked (Path.startsWith_iff_prefix.mpr howns.above)
      rw [hr, Owns.unique hdiffer hs howns (owns_of_resolve hr)]

/-- **Who owns a path.**  After any insertions and removals the names are different, and each
stands for the project inserted under it last and not removed since.  A path is unowned exactly if
no tracked root is a prefix of it, and otherwise it belongs to a project with the longest of these
roots.  If the roots differ, any other history that leaves the same projects tracked has the same
owners. -/
theorem owner_after_revisions (revisions : List Revision) :
    (built revisions).Distinct ∧
      (∀ name p, (built revisions).get? name = some p ↔ Stands revisions name p) ∧
      (∀ path, (built revisions).resolve path = none ↔
        ∀ p ∈ (built revisions).projects, ¬ p.root.components <+: path.components) ∧
      (∀ path q, (built revisions).resolve path = some q → (built revisions).Owns path q) ∧
      ((built revisions).RootsDiffer → ∀ others : List Revision,
        (∀ name, (built others).get? name = (built revisions).get? name) →
          ∀ path, (built others).resolve path = (built revisions).resolve path) := by
  have hnames := distinct_built revisions
  refine ⟨hnames, fun name p => get?_built revisions, fun path => resolve_eq_none_iff,
    fun path q => owns_of_resolve, ?_⟩
  intro hdiffer others hsame path
  exact resolve_of_get? hnames (distinct_built others) hdiffer hsame path

/-! ## A project inside another -/

def outer : WatchedProject :=
  ⟨"outer", .ofString "w", .defaults, []⟩

def inner : WatchedProject :=
  ⟨"inner", .ofString "w//sub/", .defaults, []⟩

/-- The inner project stood elsewhere at first, and the outer one was away for a while. -/
def winding : List Revision :=
  [.insert outer, .insert { inner with root := .ofString "v" }, .remove "outer", .insert inner,
    .remove "none", .insert outer]

/-- The same projects are inserted the other way round. -/
def direct : List Revision :=
  [.insert outer, .insert inner]

theorem get?_direct (name : String) : (built direct).get? name = (built winding).get? name := by
  have hdirect : (built direct).projects = [outer, inner] := rfl
  have hwinding : (built winding).projects = [inner, outer] := rfl
  rw [get?, get?, hdirect, hwinding]
  by_cases houter : outer.name = name
  · simp [← houter, outer, inner]
  · simp [houter, List.find?_cons]

/-- Both histories give the file in the inner directory to the inner project. -/
theorem owner_after_winding :
    (built winding).RootsDiffer ∧
      (∀ name, (built direct).get? name = (built winding).get? name) ∧
        (built direct).resolve (.ofString "w/sub/x.go") =
            (built winding).resolve (.ofString "w/sub/x.go") ∧
          ((built winding).resolve (.ofString "w/sub/x.go")).map (·.name) = some "inner" := by
  have hdiffer : (built winding).RootsDiffer := by decide +kernel
  have howners := (owner_after_revisions winding).2.2.2.2 hdiffer direct get?_direct
  exact ⟨hdiffer, get?_direct, howners _, by decide +kernel⟩

end WatchSet

end TodoIndex
