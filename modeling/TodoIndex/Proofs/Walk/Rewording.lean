import TodoIndex.Proofs.Ignore.Meaning
import TodoIndex.Proofs.Text.Trimming
import TodoIndex.Proofs.Walk.Enumeration

/-! # Walks under other ignore files

A walk asks its rules about one path at a time, and whether one of them ignores it does not depend
on their order.  So the same rules in another order, or an ignore file that is worded otherwise,
give the same walk, and more rules give a walk that leaves out more and keeps what is left in order.
-/

namespace TodoIndex

open Text (bytesOf)

namespace Ignore

variable {s t : List Char}

/-! ## Wordings -/

/-- Edits of an ignore file that leave what it means: its lines in another order, a blank line or a
remark more, blanks around a line, and carriage returns in front of line feeds. -/
inductive Reworded : List Char → List Char → Prop where
  | permuted {s t : List Char} : (Text.lines s).Perm (Text.lines t) → Reworded s t
  | inserted {s t : List Char} (before after : List (List Char)) (line : List Char) :
      Text.lines s = before ++ after → Text.lines t = before ++ line :: after →
      Text.trim line = [] ∨ (Text.trim line).head? = some '#' → Reworded s t
  | padded {s t : List Char} (before after : List (List Char)) (line lead tail : List Char) :
      Text.lines s = before ++ line :: after →
      Text.lines t = before ++ (lead ++ line ++ tail) :: after →
      (∀ c ∈ lead, Text.isBlank c = true) → (∀ c ∈ tail, Text.isBlank c = true) → Reworded s t
  | returned {s t : List Char} : Text.Returned s t → Reworded s t
  | trans {s t u : List Char} : Reworded s t → Reworded t u → Reworded s u

theorem Rule.ofLine?_trim (line : List Char) : ofLine? (Text.trim line) = ofLine? line := by
  rw [ofLine?, ofLine?, Text.trim_trim]

theorem Filter.rulesOf_eq (text : List Char) :
    rulesOf text = ((Text.lines text).map Text.trim).filterMap Rule.ofLine? := by
  rw [rulesOf, List.filterMap_map]
  exact List.filterMap_congr fun line _ => (Rule.ofLine?_trim line).symm

/-- To word an ignore file otherwise gives the same rules, if not in the same order. -/
theorem Reworded.perm_rulesOf (h : Reworded s t) :
    (Filter.rulesOf s).Perm (Filter.rulesOf t) := by
  induction h with
  | permuted hlines => exact hlines.filterMap _
  | inserted before after line hs ht hidle =>
      have hsilent : ¬ Speaks line := by
        intro hspeaks
        rcases hidle with hblank | hremark
        · exact hspeaks.1 hblank
        · exact hspeaks.2 hremark
      rw [Filter.rulesOf, Filter.rulesOf, hs, ht, List.filterMap_append, List.filterMap_append,
        List.filterMap_cons_none (Rule.ofLine?_silent hsilent)]
  | padded before after line lead tail hs ht hlead htail =>
      rw [Filter.rulesOf_eq, Filter.rulesOf_eq, hs, ht, List.map_append, List.map_append,
        List.map_cons, List.map_cons, Text.trim_pad hlead htail]
  | returned hreturned =>
      rw [Filter.rulesOf_eq, Filter.rulesOf_eq, hreturned.map_trim_lines]
  | trans _ _ hst htu => exact hst.trans htu

namespace Filter

variable {f g : Filter}

theorem ignores_addText_of_perm (f : Filter) (h : (rulesOf s).Perm (rulesOf t)) :
    (f.addText s).ignores = (f.addText t).ignores :=
  funext fun _ => (h.append_left f.rules).any_eq

/-- Filters that ignore the same paths prune the same ones. -/
theorem prunes_of_ignores (h : f.ignores = g.ignores) (root path : Path) :
    f.prunes root path = g.prunes root path := by
  have hbelow : ∀ (components : List Path.Component) (base : Path),
      f.prunesBelow base components = g.prunesBelow base components := by
    intro components
    induction components with
    | nil => exact fun _ => rfl
    | cons c rest ih =>
        intro base
        rw [prunesBelow, prunesBelow, h, ih]
  rw [prunes, prunes, h]
  split
  · exact hbelow _ root
  · rfl

end Filter

end Ignore

namespace Walk

variable {f g : Ignore.Filter}

/-! ## More rules -/

/-- With a filter that ignores more, a walk leaves out more and keeps the order. -/
theorem visit_sublist (h : ∀ path, f.ignores path = true → g.ignores path = true) (base : Path)
    (folder : Folder) : (visit g base folder).Sublist (visit f base folder) := by
  induction folder using Folder.cons_induction generalizing base with
  | empty => exact List.Sublist.refl _
  | cons name entry rest ihInside ih =>
      rw [visit_cons, visit_cons]
      refine List.Sublist.append ?_ (ih base)
      cases hf : f.ignores (base.child name) with
      | true =>
          rw [if_pos (h _ hf)]
          exact List.nil_sublist _
      | false =>
          split
          · exact List.nil_sublist _
          · exact (ihInside _).cons_cons _

/-- So filters that ignore the same paths walk alike. -/
theorem visit_congr (h : f.ignores = g.ignores) : visit f = visit g := by
  funext base folder
  apply List.Sublist.antisymm
  · exact visit_sublist (fun path hg => by rwa [h]) base folder
  · exact visit_sublist (fun path hf => by rwa [← h]) base folder

theorem found_congr (h : f.ignores = g.ignores) (disk : Disk) (root : Path) :
    found f disk root = found g disk root := by
  simp only [found, entries, visit_congr h]

theorem found_sublist (h : ∀ path, f.ignores path = true → g.ignores path = true) (disk : Disk)
    (root : Path) : (found g disk root).value.Sublist (found f disk root).value := by
  by_cases hinput : root.same standardInput = true
  · simp [found, entries, hinput]
  · cases hentry : disk.entry false root with
    | error e => simp [found, entries, hinput, hentry]
    | ok entry =>
        cases entry with
        | file content executable => simp [found, entries, hinput, hentry]
        | folder inside =>
            simpa [found, entries, hinput, hentry] using visit_sublist h root inside.arranged
        | link target =>
            cases hfollow : disk.entry true root with
            | error e => simp [found, entries, hinput, hentry, hfollow]
            | ok entry =>
                cases entry with
                | file content executable => simp [found, entries, hinput, hentry, hfollow]
                | folder inside =>
                    simpa [found, entries, hinput, hentry, hfollow] using
                      visit_sublist h root inside.arranged
                | link target' => simp [found, entries, hinput, hentry, hfollow]

theorem ofKind_sublist {entries others : List (Path × EntryKind)} (kind : EntryKind)
    (h : entries.Sublist others) : (ofKind kind entries).Sublist (ofKind kind others) :=
  (h.filter _).map _

/-- **Rules act as a set.**  An ignore file that is worded otherwise gives the same files and
directories of every walk and prunes the same paths, and the files and directories of a walk with
the rules of an ignore file are some of those without them, in the same order. -/
theorem rules_act_as_set (f : Ignore.Filter) :
    (∀ s t, Ignore.Reworded s t → ∀ disk root,
      files (f.addText s) disk root = files (f.addText t) disk root ∧
        folders (f.addText s) disk root = folders (f.addText t) disk root ∧
          ∀ path, (f.addText s).prunes root path = (f.addText t).prunes root path) ∧
      ∀ s disk root,
        (files (f.addText s) disk root).value.Sublist (files f disk root).value ∧
          (folders (f.addText s) disk root).value.Sublist (folders f disk root).value := by
  constructor
  · intro s t hreworded disk root
    have hignores := f.ignores_addText_of_perm hreworded.perm_rulesOf
    have hfound := found_congr hignores disk root
    exact ⟨by rw [files, files, hfound], by rw [folders, folders, hfound],
      Ignore.Filter.prunes_of_ignores hignores root⟩
  · intro s disk root
    have hmore : ∀ path, f.ignores path = true → (f.addText s).ignores path = true :=
      fun path => Ignore.Filter.ignores_of_subset (List.subset_append_left _ _)
    have hfound := found_sublist hmore disk root
    exact ⟨ofKind_sublist .file hfound, ofKind_sublist .folder hfound⟩

/-- Two rules. -/
def plainRules : List Char :=
  "lib/\ntmp/\n".toList

/-- The same ones under a remark, the other way round, with blanks and a carriage return. -/
def otherRules : List Char :=
  "# built\r\n  tmp/\nlib/  ".toList

theorem rules_act_as_set_mixed :
    Ignore.Reworded plainRules otherRules ∧
      files (Ignore.Filter.empty.addText plainRules) mixedDisk (.ofString "w") =
        files (Ignore.Filter.empty.addText otherRules) mixedDisk (.ofString "w") ∧
      (files (Ignore.Filter.empty.addText otherRules) mixedDisk (.ofString "w")).value =
        [.ofString "w/a.go", .ofString "w/out/c.go"] ∧
      (files .empty mixedDisk (.ofString "w")).value =
        [.ofString "w/a.go", .ofString "w/lib/b.go", .ofString "w/out/c.go"] ∧
      (folders (Ignore.Filter.empty.addText plainRules) mixedDisk (.ofString "w")).value.Sublist
        (folders .empty mixedDisk (.ofString "w")).value := by
  have hswapped : Ignore.Reworded plainRules "tmp/\nlib/\n".toList :=
    .permuted (by decide +kernel)
  have hblank : ∀ c ∈ "  ".toList, Text.isBlank c = true := List.all_eq_true.mp (by decide +kernel)
  have hlead : Ignore.Reworded "tmp/\nlib/\n".toList "  tmp/\nlib/".toList :=
    .padded [] _ _ "  ".toList [] rfl rfl hblank (by simp)
  have htail : Ignore.Reworded "  tmp/\nlib/".toList "  tmp/\nlib/  ".toList :=
    .padded ["  tmp/".toList] _ _ [] "  ".toList rfl rfl (by simp) hblank
  have hremark : Ignore.Reworded "  tmp/\nlib/  ".toList "# built\n  tmp/\nlib/  ".toList :=
    .inserted [] _ _ rfl rfl (.inr (by decide +kernel))
  have hreturn : Ignore.Reworded "# built\n  tmp/\nlib/  ".toList otherRules :=
    .returned ((Text.Returned.feed (.refl _)).append_left "# built".toList)
  have hreworded := (((hswapped.trans hlead).trans htail).trans hremark).trans hreturn
  obtain ⟨hworded, hmore⟩ := rules_act_as_set .empty
  exact ⟨hreworded, (hworded _ _ hreworded _ _).1, by decide +kernel, by decide +kernel,
    (hmore _ _ _).2⟩

end Walk

end TodoIndex
