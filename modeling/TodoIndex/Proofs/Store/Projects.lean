import Mathlib.Algebra.BigOperators.Group.List.Basic
import Mathlib.Algebra.GroupWithZero.Nat
import Mathlib.Algebra.Order.Group.Nat
import TodoIndex.Proofs.OrderedMap
import TodoIndex.Store.Basic

/-! # The store as an ordered map

Next to the store stand a plain map from names to remarks and a row of names.  Each change of the
store changes these in the plainest way, and whatever changes follow each other, the store goes
along with them.
-/

namespace TodoIndex

namespace Store

/-- A change of one project. -/
inductive Change where
  | replace (name : String) (remarks : List Remark)
  | add (name : String) (remark : Remark)
  | remove (name : String)

/-- What the one who makes a change is told. -/
inductive Answer where
  | previous (remarks : Option (List Remark))
  | inserted (added : Bool)
  deriving DecidableEq

/-- A plain map from names to remarks. -/
abbrev Plain := String → Option (List Remark)

namespace Change

def name : Change → String
  | replace name _ => name
  | add name _ => name
  | remove name => name

/-- Change the store. -/
def run (s : Store) : Change → Answer × Store
  | replace name remarks => (s.replaceProject name remarks).map .previous id
  | add name remark => (s.addSingle name remark).map .inserted id
  | remove name => (s.removeProject name).map .previous id

/-- Change a plain map. -/
def plain (m : Plain) : Change → Answer × Plain
  | replace name remarks => (.previous (m name), fun n => if n = name then some remarks else m n)
  | add name remark =>
      if ∃ old ∈ (m name).getD [], old.place = remark.place then (.inserted false, m)
      else (.inserted true, fun n => if n = name then some ((m name).getD [] ++ [remark]) else m n)
  | remove name => (.previous (m name), fun n => if n = name then none else m n)

/-- Change a row of names: a new one goes last, one that is there stays where it is, and one that is
removed is taken out. -/
def arrange (names : List String) : Change → List String
  | replace name _ | add name _ => if name ∈ names then names else names ++ [name]
  | remove name => names.filter (· ≠ name)

/-- Make changes one after the other, and gather what is told. -/
def runAll {σ : Type} (step : σ → Change → Answer × σ) : List Change → σ → List Answer × σ
  | [], state => ([], state)
  | c :: changes, state =>
      let (answer, next) := step state c
      let (answers, last) := runAll step changes next
      (answer :: answers, last)

end Change

/-- A store has the lists of a plain map under the names of a row, in the order of the row, and
answers for them. -/
structure Holds (s : Store) (m : Plain) (row : List String) : Prop where
  project : s.project? = m
  names : s.names = row
  distinct : row.Nodup
  listed : ∀ name, name ∈ row ↔ (m name).isSome = true
  contains : ∀ name, s.contains name = (m name).isSome
  isEmpty : s.isEmpty = row.isEmpty
  count : s.count = (row.map fun name => ((m name).getD []).length).sum

variable {s : Store}

/-! ## One store -/

theorem mem_names_iff (name : String) : name ∈ s.names ↔ (s.project? name).isSome = true := by
  rw [Option.isSome_iff_ne_none, Ne, project?, OrderedMap.get?,
    OrderedMap.lookup_eq_none_iff_not_mem]
  exact Decidable.not_not.symm

theorem count_eq (s : Store) :
    s.count = (s.names.map fun name => ((s.project? name).getD []).length).sum := by
  have hsum : ∀ (lists : List (List Remark)) (n : Nat),
      lists.foldl (fun n remarks => n + remarks.length) n = n + (lists.map List.length).sum := by
    intro lists
    induction lists with
    | nil => exact fun n => rfl
    | cons remarks lists ih =>
        intro n
        rw [List.foldl_cons, ih, List.map_cons, List.sum_cons, Nat.add_assoc]
  have hlengths : ∀ e ∈ s.projects.entries, ((s.project? e.1).getD []).length = e.2.length := by
    intro e he
    have hfound : s.project? e.1 = some e.2 :=
      OrderedMap.lookup_eq_some_of_mem s.projects.distinct he
    rw [hfound]
    rfl
  rw [count, hsum, Nat.zero_add, OrderedMap.values, names, OrderedMap.names, List.map_map,
    List.map_map]
  exact congrArg List.sum (List.map_congr_left fun e he => (hlengths e he).symm)

theorem holds (s : Store) : s.Holds s.project? s.names where
  project := rfl
  names := rfl
  distinct := s.projects.distinct
  listed := mem_names_iff
  contains name := by
    rw [Bool.eq_iff_iff, ← mem_names_iff]
    exact List.contains_iff_mem
  isEmpty := List.isEmpty_map.symm
  count := s.count_eq

/-! ## One change -/

theorem project?_replaceProject (s : Store) (name other : String) (remarks : List Remark) :
    (s.replaceProject name remarks).2.project? other =
      if other = name then some remarks else s.project? other := by
  rw [replaceProject_eq]
  exact OrderedMap.get?_insert _ _ _ _

theorem project?_removeProject (s : Store) (name other : String) :
    (s.removeProject name).2.project? other =
      if other = name then none else s.project? other := by
  rw [removeProject_eq]
  exact OrderedMap.get?_erase _ _ _

theorem names_replaceProject (s : Store) (name : String) (remarks : List Remark) :
    (s.replaceProject name remarks).2.names =
      if name ∈ s.names then s.names else s.names ++ [name] := by
  rw [replaceProject_eq]
  exact OrderedMap.names_setEntry _ _ _

/-- A remark is added to the list of its project, unless one stands at its place. -/
theorem addSingle_eq (s : Store) (name : String) (remark : Remark) :
    s.addSingle name remark =
      if ∃ old ∈ (s.project? name).getD [], old.place = remark.place then (false, s)
      else (true, (s.replaceProject name ((s.project? name).getD [] ++ [remark])).2) := by
  have hplace : ((s.project? name).getD []).any (·.place = remark.place) =
      decide (∃ old ∈ (s.project? name).getD [], old.place = remark.place) := by
    rw [Bool.eq_iff_iff, List.any_eq_true, decide_eq_true_iff]
    simp only [decide_eq_true_iff]
  rw [addSingle, hplace]
  by_cases h : ∃ old ∈ (s.project? name).getD [], old.place = remark.place
  · simp only [h, decide_true, if_true]
  · simp only [h, decide_false, Bool.false_eq_true, if_false]

theorem run_add (s : Store) (name : String) (remark : Remark) :
    (Change.add name remark).run s =
      if ∃ old ∈ (s.project? name).getD [], old.place = remark.place then (.inserted false, s)
      else
        (.inserted true, (s.replaceProject name ((s.project? name).getD [] ++ [remark])).2) := by
  rw [Change.run, addSingle_eq]
  by_cases h : ∃ old ∈ (s.project? name).getD [], old.place = remark.place
  · rw [if_pos h, if_pos h]
    rfl
  · rw [if_neg h, if_neg h]
    rfl

/-- The one who changes the store is told what the plain map tells, and the store holds what the
plain map holds. -/
theorem run_eq_plain (s : Store) (c : Change) :
    (c.run s).1 = (c.plain s.project?).1 ∧ (c.run s).2.project? = (c.plain s.project?).2 := by
  cases c with
  | replace name remarks =>
      refine ⟨?_, funext fun other => project?_replaceProject s name other remarks⟩
      rw [Change.run, replaceProject_eq]
      rfl
  | add name remark =>
      rw [run_add, Change.plain]
      split
      · exact ⟨rfl, rfl⟩
      · exact ⟨rfl, funext fun other => project?_replaceProject s name other _⟩
  | remove name =>
      refine ⟨?_, funext fun other => project?_removeProject s name other⟩
      rw [Change.run, removeProject_eq]
      rfl

theorem names_run (s : Store) (c : Change) : (c.run s).2.names = c.arrange s.names := by
  cases c with
  | replace name remarks => exact names_replaceProject s name remarks
  | add name remark =>
      rw [run_add, Change.arrange]
      split
      · next hold =>
          -- A project with a remark in it is there already.
          obtain ⟨old, hmem, -⟩ := hold
          have hlisted : name ∈ s.names := by
            rw [mem_names_iff, Option.isSome_iff_ne_none]
            intro hnone
            rw [hnone] at hmem
            cases hmem
          rw [if_pos hlisted]
      · exact names_replaceProject s name _
  | remove name =>
      have hfilter : (s.projects.entries.filter (·.1 != name)).map Prod.fst =
          (s.projects.entries.map Prod.fst).filter (· ≠ name) := by
        rw [List.filter_map]
        refine congrArg _ (List.filter_congr fun e _ => ?_)
        by_cases h : e.1 = name <;> simp [h]
      rw [Change.run, removeProject_eq]
      exact hfilter

theorem filter_arrange (c : Change) (row : List String) :
    (c.arrange row).filter (· ≠ c.name) = row.filter (· ≠ c.name) := by
  have hnew : ∀ name : String, (if name ∈ row then row else row ++ [name]).filter (· ≠ name) =
      row.filter (· ≠ name) := by
    intro name
    split
    · rfl
    · simp
  cases c with
  | replace name remarks => exact hnew name
  | add name remark => exact hnew name
  | remove name =>
      refine (List.filter_filter ..).trans (List.filter_congr fun other _ => ?_)
      exact Bool.and_self _

theorem plain_other (m : Plain) (c : Change) {other : String} (h : other ≠ c.name) :
    (c.plain m).2 other = m other := by
  cases c with
  | replace name remarks => exact if_neg h
  | add name remark =>
      rw [Change.plain]
      split
      · rfl
      · exact if_neg h
  | remove name => exact if_neg h

/-! ## Any run of changes -/

theorem runAll_eq (changes : List Change) (s : Store) :
    (Change.runAll Change.run changes s).1 = (Change.runAll Change.plain changes s.project?).1 ∧
      (Change.runAll Change.run changes s).2.project? =
        (Change.runAll Change.plain changes s.project?).2 ∧
      (Change.runAll Change.run changes s).2.names = changes.foldl Change.arrange s.names := by
  induction changes generalizing s with
  | nil => exact ⟨rfl, rfl, rfl⟩
  | cons c changes ih =>
      obtain ⟨hanswer, hproject⟩ := run_eq_plain s c
      obtain ⟨hanswers, hlast, hnames⟩ := ih (c.run s).2
      rw [hproject] at hanswers hlast
      rw [names_run] at hnames
      exact ⟨List.cons_eq_cons.mpr ⟨hanswer, hanswers⟩, hlast, hnames⟩

/-- **The store is an ordered map.**  Whatever changes are made to whatever store, those who make
them are told what a plain map would tell, and the store holds what the plain map holds, under names
in the order of their arrival.  Every further change leaves all other projects with their lists and
in their order. -/
theorem store_goes_along_with_plain_map (s : Store) (changes : List Change) :
    let after := (Change.runAll Change.run changes s).2
    (Change.runAll Change.run changes s).1 = (Change.runAll Change.plain changes s.project?).1 ∧
      after.Holds (Change.runAll Change.plain changes s.project?).2
        (changes.foldl Change.arrange s.names) ∧
      ∀ c : Change,
        (∀ other, other ≠ c.name → (c.run after).2.project? other = after.project? other) ∧
        (c.run after).2.names.filter (· ≠ c.name) = after.names.filter (· ≠ c.name) := by
  intro after
  obtain ⟨hanswers, hproject, hnames⟩ := runAll_eq changes s
  refine ⟨hanswers, ?_, fun c => ⟨fun other hother => ?_, ?_⟩⟩
  · rw [← hproject, ← hnames]
    exact after.holds
  · rw [(run_eq_plain after c).2]
    exact plain_other _ c hother
  · rw [names_run]
    exact filter_arrange c after.names

end Store

end TodoIndex
