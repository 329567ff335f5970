import TodoIndex.Proofs.Files.Arrangement
import TodoIndex.Walk

/-! # What a walk visits

A walk goes down from entry to entry and turns back at an ignored one; `Filter.prunes` goes along
the components of one path.  Both leave the same places out.  `sites` tells the walk by places,
which come in the order of their lists of names.
-/

namespace TodoIndex

open Text (Bytes)

/-! ## Pruning along a place -/

namespace Ignore.Filter

variable {filter : Filter} {base : Path}

theorem prunesBelow_cons (filter : Filter) (base : Path) (name : Bytes) (place : List Bytes) :
    filter.prunesBelow base ((name :: place).map .normal) =
      (filter.ignores (base.child name) ||
        filter.prunesBelow (base.child name) (place.map .normal)) := rfl

/-- What is above something that is not pruned is not pruned. -/
theorem prunesBelow_of_append {before after : List Path.Component}
    (h : filter.prunesBelow base (before ++ after) = false) :
    filter.prunesBelow base before = false := by
  induction before generalizing base with
  | nil => rfl
  | cons c before ih =>
      rw [List.cons_append, prunesBelow, Bool.or_eq_false_iff] at h
      rw [prunesBelow, Bool.or_eq_false_iff]
      exact ⟨h.1, ih h.2⟩

theorem prunes_descend {root : Path} {place : List Bytes}
    (hplace : ∀ name ∈ place, IsEntryName name) (hroot : root.bytes ≠ []) :
    filter.prunes root (root.descend place) = filter.prunesBelow root (place.map .normal) := by
  rw [prunes, Path.below?_descend hplace hroot]

end Ignore.Filter

namespace Walk

open Folder (cons cons_induction)

variable {filter : Ignore.Filter} {disk : Disk} {root base : Path} {f inside : Folder}
  {place : List Bytes} {kind : EntryKind}

/-! ## Sites -/

/-- The places that a walk visits below `base`, and what kind of entry is there. -/
def sites (filter : Ignore.Filter) (base : Path) : Folder → List (List Bytes × EntryKind)
  | .empty => []
  | .file name _ _ rest =>
      (if filter.ignores (base.child name) then [] else [([name], .file)]) ++
        sites filter base rest
  | .link name _ rest =>
      (if filter.ignores (base.child name) then [] else [([name], .link)]) ++
        sites filter base rest
  | .folder name inside rest =>
      (if filter.ignores (base.child name) then []
        else ([name], .folder) ::
          (sites filter (base.child name) inside).map fun (place, kind) => (name :: place, kind)) ++
        sites filter base rest

/-- The sites at an entry and below it. -/
def sitesAt (filter : Ignore.Filter) (base : Path) (name : Bytes) (entry : Entry) :
    List (List Bytes × EntryKind) :=
  if filter.ignores (base.child name) then []
  else ([name], entry.kind) ::
    (sites filter (base.child name) entry.inside).map fun (place, kind) => (name :: place, kind)

theorem sites_cons (filter : Ignore.Filter) (base : Path) (name : Bytes) (entry : Entry)
    (rest : Folder) :
    sites filter base (cons name entry rest) =
      sitesAt filter base name entry ++ sites filter base rest := by
  cases entry <;> rfl

theorem visit_cons (filter : Ignore.Filter) (base : Path) (name : Bytes) (entry : Entry)
    (rest : Folder) :
    visit filter base (cons name entry rest) =
      (if filter.ignores (base.child name) then []
        else (base.child name, entry.kind) :: visit filter (base.child name) entry.inside) ++
        visit filter base rest := by
  cases entry <;> rfl

/-- A walk spells the sites from its root on. -/
theorem visit_eq (filter : Ignore.Filter) (base : Path) (f : Folder) :
    visit filter base f =
      (sites filter base f).map fun (place, kind) => (base.descend place, kind) := by
  induction f using cons_induction generalizing base with
  | empty => rfl
  | cons name entry rest ihInside ih =>
      rw [visit_cons, sites_cons, sitesAt, List.map_append, ih, ihInside]
      split
      · rfl
      · simp [Path.descend]

theorem mem_sitesAt {name : Bytes} {entry : Entry} :
    (place, kind) ∈ sitesAt filter base name entry ↔
      filter.ignores (base.child name) = false ∧
        ((place = [name] ∧ kind = entry.kind) ∨
          ∃ below, place = name :: below ∧
            (below, kind) ∈ sites filter (base.child name) entry.inside) := by
  unfold sitesAt
  split
  · rename_i hignored
    simp [hignored]
  · rename_i hkept
    simp only [hkept, List.mem_cons, Prod.mk.injEq, List.mem_map, Prod.exists, true_and]
    refine or_congr_right ⟨?_, ?_⟩
    · rintro ⟨below, kind', hmem, rfl, rfl⟩
      exact ⟨below, rfl, hmem⟩
    · rintro ⟨below, rfl, hmem⟩
      exact ⟨below, kind, hmem, rfl, rfl⟩

/-- The sites are the places below a folder where something is that is not pruned. -/
theorem mem_sites (h : f.Ordered) :
    (place, kind) ∈ sites filter base f ↔
      place ≠ [] ∧ (f.at? place).map Entry.kind = some kind ∧
        filter.prunesBelow base (place.map .normal) = false := by
  induction f using cons_induction generalizing base place with
  | empty => cases place <;> simp [sites, Folder.at?_cons]
  | cons name entry rest ihInside ih =>
      obtain ⟨hfollows, hinside, hrest⟩ := (Folder.ordered_cons _ _ _).mp h
      rw [sites_cons, List.mem_append, mem_sitesAt, ih hrest]
      cases place with
      | nil => simp
      | cons first below =>
          by_cases hfirst : first = name
          · subst hfirst
            -- The name is that of this entry alone.
            have hnone : rest.at? (first :: below) = none := by
              rw [Folder.at?_cons, hfollows.get?_eq_none]
            have hget : (cons first entry rest).get? first = some entry := by
              rw [Folder.get?_cons, if_pos rfl]
            rw [hnone, Ignore.Filter.prunesBelow_cons, Bool.or_eq_false_iff]
            cases below with
            | nil =>
                have hnot : ([], kind) ∉ sites filter (base.child first) entry.inside := by
                  rw [ihInside hinside]
                  simp
                rw [Folder.at?_singleton, hget, @eq_comm _ kind]
                simp [hnot, Ignore.Filter.prunesBelow, and_comm]
            | cons next below =>
                simp only [Folder.at?_cons_cons, hget, Option.bind_some, List.cons.injEq,
                  ihInside hinside]
                simp [and_left_comm]
          · simp [hfirst, Folder.at?_cons_of_ne hfirst]

/-- Each site is visited once, and in the order of the names that lead to it. -/
theorem pairwise_sites (h : f.Ordered) :
    (sites filter base f).Pairwise fun s t => s.1 < t.1 := by
  induction f using cons_induction generalizing base with
  | empty => exact List.Pairwise.nil
  | cons name entry rest ihInside ih =>
      obtain ⟨hfollows, hinside, hrest⟩ := (Folder.ordered_cons _ _ _).mp h
      rw [sites_cons, List.pairwise_append]
      refine ⟨?_, ih hrest, ?_⟩
      · unfold sitesAt
        split
        · exact List.Pairwise.nil
        · refine List.pairwise_cons.mpr ⟨?_, ?_⟩
          · intro site hsite
            obtain ⟨⟨below, kind⟩, hmem, rfl⟩ := List.mem_map.mp hsite
            obtain ⟨next, below, rfl⟩ :=
              List.exists_cons_of_ne_nil ((mem_sites hinside).mp hmem).1
            exact List.cons_lt_cons_iff.mpr (.inr ⟨rfl, List.nil_lt_cons _ _⟩)
          · exact List.pairwise_map.mpr ((ihInside hinside).imp fun hlt =>
              List.cons_lt_cons_iff.mpr (.inr ⟨rfl, hlt⟩))
      · rintro ⟨place, kind⟩ hplace ⟨other, kind'⟩ hother
        obtain ⟨below, rfl⟩ : ∃ below, place = name :: below := by
          rcases (mem_sitesAt.mp hplace).2 with ⟨rfl, -⟩ | ⟨below, rfl, -⟩
          · exact ⟨[], rfl⟩
          · exact ⟨below, rfl⟩
        obtain ⟨hne, hat, -⟩ := (mem_sites hrest).mp hother
        obtain ⟨first, other, rfl⟩ := List.exists_cons_of_ne_nil hne
        obtain ⟨e, hat, -⟩ := Option.map_eq_some_iff.mp hat
        obtain ⟨e', hget⟩ := Folder.get?_of_at? hat
        exact List.cons_lt_cons_iff.mpr (.inl (hfollows first (by simp [hget])))

end Walk

end TodoIndex
