import TodoIndex.Proofs.Text.Utf8
import TodoIndex.Proofs.Walk.Visits
import TodoIndex.Scan.Engine

/-! # What every project ignores

The rules of an ignore file come behind the default ones and take none of them away.  So no project
can have what the default rules ignore, such as names that end in `.tmp`: wherever below the root a
file of such a name is, and in whatever bytes the directories above it are named.
-/

namespace TodoIndex

open Text (Bytes)

/-! ## Paths of one name -/

namespace Path

variable {name : Bytes}

theorem exists_bytes_child (folder : Path) (name : Bytes) :
    ∃ lead, (folder.child name).bytes = lead ++ name := by
  unfold child join
  split
  · exact ⟨[], rfl⟩
  split
  · exact ⟨folder.bytes, rfl⟩
  · exact ⟨folder.bytes ++ [slash], by simp⟩

theorem getLast?_components_child (hname : IsEntryName name) (folder : Path) :
    (folder.child name).components.getLast? = some (.normal name) := by
  by_cases hfolder : folder.bytes = []
  · have hchild : folder.child name = ⟨name⟩ := by
      unfold child join
      split
      · rfl
      · simp [hfolder]
    obtain ⟨b, s, rfl⟩ := List.exists_cons_of_ne_nil fun hempty => hname.1 (.inl hempty)
    have hpieces := pieces_eq_singleton hname.2.2
    have hslash : b ≠ slash := (List.ne_of_not_mem_cons hname.2.2).symm
    have hdot : b :: s ≠ [dot] := fun h => hname.1 (.inr h)
    rw [hchild, components_cons hpieces, if_neg hslash, if_neg hdot]
    simp [component?_name hname]
  · rw [components_child hname hfolder, List.getLast?_concat]

end Path

namespace Ignore

/-! ## Names that end in `.tmp` -/

theorem accepts_anyRun {pieces : List Glob.Piece} {s : List Char}
    (h : Glob.accepts pieces s = true) (lead : List Char) :
    Glob.accepts (.anyRun :: pieces) (lead ++ s) = true := by
  have hmem : s ∈ Glob.suffixes (lead ++ s) := by
    induction lead with
    | nil => cases s <;> simp [Glob.suffixes]
    | cons c lead ih => exact List.mem_cons_of_mem _ ih
  rw [Glob.accepts]
  exact List.any_eq_true.mpr ⟨s, hmem, h⟩

theorem lastName_append {name : List Char} (h : '/' ∉ name) (front : List Char) :
    lastName (front ++ name) = lastName front ++ name := by
  have hall : ∀ c ∈ name.reverse, (c != '/') = true := by
    intro c hc
    simp only [bne_iff_ne]
    rintro rfl
    exact h (List.mem_reverse.mp hc)
  unfold lastName
  rw [List.reverse_append, List.takeWhile_append_of_pos hall, List.reverse_append,
    List.reverse_reverse]

theorem exists_normalForm {path : Path} {lead : Bytes}
    (h : path.bytes = lead ++ Text.bytesOf ".tmp") :
    ∃ front, normalForm path = front ++ ".tmp".toList := by
  obtain ⟨front, hfront⟩ :=
    Text.Utf8.exists_decodeLossy_append (c := '.') (by decide) "tmp".toList lead
  refine ⟨forwardSlashes front, ?_⟩
  have hbytes : Text.bytesOf ".tmp" = Text.Utf8.encode ('.' :: "tmp".toList) := rfl
  have htext : forwardSlashes ('.' :: "tmp".toList) = ".tmp".toList := by decide
  have hsplit : forwardSlashes (front ++ '.' :: "tmp".toList) =
      forwardSlashes front ++ forwardSlashes ('.' :: "tmp".toList) := List.map_append
  rw [normalForm, h, hbytes, hfront, hsplit, htext, Text.dropTrailing, List.reverse_append]
  simp

namespace Filter

variable {f g : Filter} {name : Bytes}

theorem ignores_of_subset (h : f.rules ⊆ g.rules) {path : Path} (hf : f.ignores path = true) :
    g.ignores path = true := by
  obtain ⟨rule, hrule, hignores⟩ := List.any_eq_true.mp hf
  exact List.any_eq_true.mpr ⟨rule, h hrule, hignores⟩

theorem defaults_ignores {path : Path} {lead : Bytes}
    (h : path.bytes = lead ++ Text.bytesOf ".tmp") : defaults.ignores path = true := by
  obtain ⟨front, hnormal⟩ := exists_normalForm h
  have hrule : Rule.forFile "*.tmp".toList ∈ defaults.rules :=
    List.mem_append_right _ (List.mem_map.mpr ⟨"*.tmp", by decide, rfl⟩)
  have hpieces : Glob.ofPattern "*.tmp".toList =
      .ok [.anyRun, .literal '.', .literal 't', .literal 'm', .literal 'p'] := by
    cbv
  refine List.any_eq_true.mpr ⟨_, hrule, ?_⟩
  rw [hnormal, lastName_append (by decide), Rule.forFile, hpieces]
  exact accepts_anyRun (by decide) _

/-- A path whose last component is always ignored is pruned, unless it is the root. -/
theorem prunes_child (hname : IsEntryName name) (h : ∀ base : Path, f.ignores (base.child name))
    {root folder : Path} (hroot : (folder.child name).same root = false) :
    f.prunes root (folder.child name) = true := by
  have hbelow : ∀ (base : Path) (rest : List Path.Component),
      f.prunesBelow base (rest ++ [.normal name]) = true := by
    intro base rest
    induction rest generalizing base with
    | nil =>
        have hlast := h base
        simp [prunesBelow, Path.Component.bytes, hlast]
    | cons c rest ih => simp [prunesBelow, ih]
  unfold prunes
  cases hrest : Path.below? root (folder.child name) with
  | none => exact h folder
  | some rest =>
      have hcomponents := Path.below?_eq_some_iff.mp hrest
      have hlast := Path.getLast?_components_child hname folder
      have hne : rest ≠ [] := by
        rintro rfl
        have hsame : (folder.child name).same root = true :=
          Path.same_iff.mpr (by simpa using hcomponents)
        simp [hsame] at hroot
      rw [hcomponents, List.getLast?_append, List.getLast?_eq_some_getLast hne,
        Option.some_or, ← List.getLast?_eq_some_getLast hne] at hlast
      obtain ⟨init, rfl⟩ := List.getLast?_eq_some_iff.mp hlast
      exact hbelow root init

end Filter

end Ignore

/-- The filter of a project has all default rules, whatever its ignore file says. -/
theorem Engine.defaults_subset_filterFor (e : Engine) (disk : Disk) (root : Path) :
    Ignore.Filter.defaults.rules ⊆ (e.filterFor disk root).value.rules := by
  have hvalue : (e.filterFor disk root).value = (Ignore.Filter.defaults.addFile disk
      (root.join (Path.ofString e.settings.ignoreFile))).value.2 := by
    simp only [Engine.filterFor, Ignore.Filter.forProject, Noted.value_bind]
    split <;> rfl
  rw [hvalue]
  unfold Ignore.Filter.addFile
  split
  · exact List.subset_append_left _ _
  · exact List.Subset.refl _
  · exact List.Subset.refl _

end TodoIndex
