import TodoIndex.Proofs.Files.Children
import TodoIndex.Proofs.Watch.Outlines

/-! # Territories

A path belongs to the project with the deepest root above it.  A root with nothing but names behind
it leads to a place inside; if no root of a watched project leads into another one, every place
inside a root belongs to its project, whatever other roots the spelling of the place passes through.
-/

namespace TodoIndex

namespace WatchSet

variable {s t : WatchSet} {p q : WatchedProject} {path : Path}

theorem exists_deepest {ps : List WatchedProject} (hp : p ∈ ps) :
    ∃ q, deepest ps = some q ∧ p.depth ≤ q.depth := by
  induction ps with
  | nil => cases hp
  | cons first rest ih =>
      rw [deepest]
      cases hrest : deepest rest with
      | none =>
          rcases List.mem_cons.mp hp with rfl | hp
          · exact ⟨p, rfl, Nat.le_refl _⟩
          · obtain ⟨q, hq, -⟩ := ih hp
            rw [hrest] at hq
            cases hq
      | some r =>
          have hle : p = first ∨ p.depth ≤ r.depth := by
            refine (List.mem_cons.mp hp).imp_right fun hp => ?_
            obtain ⟨q, hq, hle⟩ := ih hp
            rw [hrest] at hq
            cases hq
            exact hle
          dsimp only
          split
          · rename_i hdeeper
            refine ⟨r, rfl, ?_⟩
            rcases hle with rfl | hle
            · exact hdeeper
            · exact hle
          · rename_i hdeeper
            refine ⟨first, rfl, ?_⟩
            rcases hle with rfl | hle <;> omega

/-- A path below a root belongs to somebody whose root is no less deep. -/
theorem exists_resolve (hp : p ∈ s.projects) (hpath : path.startsWith p.root = true) :
    ∃ q, s.resolve path = some q ∧ p.depth ≤ q.depth := by
  have hmem : p ∈ s.projects.filter fun p => path.startsWith p.root :=
    List.mem_filter.mpr ⟨hp, hpath⟩
  exact exists_deepest hmem

/-- A path lies below a root, and below no root that is deeper. -/
def Owned (s : WatchSet) (root path : Path) : Prop :=
  path.startsWith root = true ∧
    ∀ q ∈ s.projects, path.startsWith q.root = true → q.depth ≤ root.components.length

instance (s : WatchSet) (root path : Path) : Decidable (s.Owned root path) :=
  inferInstanceAs (Decidable (_ ∧ ∀ q ∈ s.projects, _ → _))

/-- No root of a project leads into that of another one. -/
def Apart (s : WatchSet) : Prop :=
  ∀ p ∈ s.projects, ∀ q ∈ s.projects, p.name ≠ q.name → q.root.within p.root = false

instance (s : WatchSet) : Decidable s.Apart :=
  inferInstanceAs (Decidable (∀ p ∈ s.projects, ∀ q ∈ s.projects, _ → _))

/-- A project of a set by its name and its root, whatever its rules and directories are. -/
def Knows (s : WatchSet) (q : WatchedProject) : Prop :=
  ∃ p ∈ s.projects, q.name = p.name ∧ q.root = p.root

theorem knows_of_mem (hp : p ∈ s.projects) : s.Knows p :=
  ⟨p, hp, rfl, rfl⟩

theorem Apart.of_roots (h : s.Apart) (hroots : ∀ q ∈ t.projects, s.Knows q) : t.Apart := by
  intro p hp q hq hne
  obtain ⟨p', hp', hpname, hproot⟩ := hroots p hp
  obtain ⟨q', hq', hqname, hqroot⟩ := hroots q hq
  rw [hproot, hqroot]
  exact h p' hp' q' hq' (hpname ▸ hqname ▸ hne)

theorem Owned.of_roots {root : Path} (h : s.Owned root path)
    (hroots : ∀ q ∈ t.projects, s.Knows q) : t.Owned root path := by
  refine ⟨h.1, fun q hq hstarts => ?_⟩
  obtain ⟨p, hp, -, hroot⟩ := hroots q hq
  rw [hroot] at hstarts
  rw [WatchedProject.depth, hroot]
  exact h.2 p hp hstarts

/-- What has no deeper root above it belongs to the project of the root. -/
theorem Apart.resolve_of_owned (h : s.Apart) (hnames : s.Distinct) (hp : p ∈ s.projects)
    (howned : s.Owned p.root path) : s.resolve path = some p := by
  obtain ⟨q, hq, hdepth⟩ := exists_resolve hp howned.1
  have hqmem := mem_of_resolve hq
  by_cases hname : p.name = q.name
  · rw [hq, hnames.eq_of_name hp hqmem hname]
  · -- Two roots above the path that are equally deep are the same place.
    obtain ⟨more, hmore⟩ := Option.isSome_iff_exists.mp (startsWith_of_resolve hq)
    obtain ⟨rest, hrest⟩ := Option.isSome_iff_exists.mp howned.1
    have hlonger := List.prefix_of_prefix_length_le ⟨_, (Path.below?_eq_some_iff.mp hrest).symm⟩
      ⟨_, (Path.below?_eq_some_iff.mp hmore).symm⟩ hdepth
    have hsame : q.root.same p.root = true :=
      Path.same_iff.mpr (hlonger.eq_of_length
        (Nat.le_antisymm hdepth (howned.2 q hqmem (startsWith_of_resolve hq)))).symm
    have hapart := h p hp q hqmem hname
    rw [Path.within_of_same hsame] at hapart
    cases hapart

/-- Within a root no other root is above. -/
theorem Apart.owned_of_within (h : s.Apart) (hnames : s.Distinct) (hp : p ∈ s.projects)
    (hpath : path.within p.root = true) : s.Owned p.root path := by
  refine ⟨Path.startsWith_of_within hpath, fun q hq hstarts => Nat.le_of_not_lt fun hdeeper => ?_⟩
  have hinside : q.root.within p.root = true := by
    obtain ⟨more, hmore⟩ := Option.isSome_iff_exists.mp hstarts
    obtain ⟨place, hplace⟩ := Path.within_iff.mp hpath
    have hroot := Path.below?_eq_some_iff.mp hmore
    obtain ⟨names, hlonger⟩ := List.prefix_of_prefix_length_le ⟨_, hplace.symm⟩ ⟨_, hroot.symm⟩
      (Nat.le_of_lt hdeeper)
    rw [hplace, ← hlonger, List.append_assoc, List.append_cancel_left_eq] at hroot
    obtain ⟨front, -, -, hfront, -⟩ := List.map_eq_append_iff.mp hroot
    exact Path.within_iff.mpr ⟨front, by rw [hfront, hlonger]⟩
  by_cases hname : p.name = q.name
  · rw [hnames.eq_of_name hp hq hname] at hdeeper
    exact Nat.lt_irrefl _ hdeeper
  · rw [h p hp q hq hname] at hinside
    cases hinside

/-- What is within a root belongs to its project. -/
theorem Apart.resolve (h : s.Apart) (hnames : s.Distinct) (hp : p ∈ s.projects)
    (hpath : path.within p.root = true) : s.resolve path = some p :=
  h.resolve_of_owned hnames hp (h.owned_of_within hnames hp hpath)

end WatchSet

end TodoIndex
