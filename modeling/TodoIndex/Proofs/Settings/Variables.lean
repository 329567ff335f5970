import TodoIndex.Proofs.Toml.Tables

/-! # What variables set

The layer of the variables holds at each path what the last variable sets there, as far as no
variable puts anything but a table on the way.
-/

namespace TodoIndex

namespace Variables

open Toml (Distinct Leads)

variable {environment : Environment} {name contents : String} {value layer : Toml}
  {lead path : List String} {s rest : List Char} {fuel : Nat}

/-! ## Values -/

theorem distinct_of_readScalar (h : readScalar s = some (value, rest)) : Distinct value := by
  have hplain : ∀ s, Distinct (ofPlain s) := by
    intro s
    unfold ofPlain
    split
    · exact .plain rfl
    · split
      · exact .plain rfl
      · exact .plain rfl
  unfold readScalar at h
  split at h
  · cases h
    exact .plain rfl
  · split at h
    · cases h
      exact .plain rfl
    · unfold readTextOrPlain at h
      split at h
      · obtain ⟨_, -, heq⟩ := Option.map_eq_some_iff.mp h
        cases heq
        exact .plain rfl
      · cases h
        exact .plain rfl
      · cases h
      · cases h
        exact hplain _

/-- A repeated key of a table in a variable takes the place of the earlier one. -/
theorem distinct_of_readEntries {before entries : Toml.Entries}
    (hvalue : ∀ less < fuel, ∀ {s rest value}, readValue less s = some (value, rest) →
      Distinct value)
    (hbefore : Distinct (.table before)) (h : readEntries fuel before s = some (entries, rest)) :
    Distinct (.table entries) := by
  induction fuel generalizing before s with
  | zero => cases h
  | succ fuel ih =>
      unfold readEntries at h
      split at h
      · rename_i hzero
        cases hzero
      · cases h
        exact hbefore
      · rename_i heq _
        cases heq
        split at h
        · cases h
        · split at h
          · split at h
            · rename_i hread
              cases h
              exact hbefore.setEntry (hvalue _ (Nat.lt_succ_self _) hread)
            · rename_i hread
              refine ih (fun less hless => hvalue less (Nat.lt_succ_of_lt hless)) ?_ h
              exact hbefore.setEntry (hvalue _ (Nat.lt_succ_self _) hread)
            · cases h
          · cases h

theorem distinct_of_readValue (h : readValue fuel s = some (value, rest)) : Distinct value := by
  induction fuel using Nat.strongRecOn generalizing s value rest with
  | ind fuel ih =>
      cases fuel with
      | zero => cases h
      | succ fuel =>
          rw [readValue] at h
          obtain ⟨⟨found, more⟩, hfound, heq⟩ := Option.map_eq_some_iff.mp h
          cases heq
          split at hfound
          · obtain ⟨_, -, heq⟩ := Option.map_eq_some_iff.mp hfound
            cases heq
            exact .plain rfl
          · obtain ⟨⟨entries, more⟩, hentries, heq⟩ := Option.map_eq_some_iff.mp hfound
            cases heq
            refine distinct_of_readEntries (fun less hless => ?_) Toml.distinct_nil hentries
            exact fun hread => ih less (Nat.lt_succ_of_lt hless) hread
          · exact distinct_of_readScalar hfound

theorem distinct_valueOf (contents : String) : Distinct (valueOf contents) := by
  unfold valueOf
  dsimp only
  split
  · exact .plain rfl
  · split
    · rename_i hread
      exact distinct_of_readValue hread
    · exact .plain rfl

/-! ## Layers -/

theorem distinct_nested (hvalue : Distinct value) (path : List String) :
    Distinct (nested value path) := by
  induction path with
  | nil => exact hvalue
  | cons key path ih => exact Toml.distinct_single ih

theorem distinct_layerOf? (h : layerOf? name contents = some layer) : Distinct layer := by
  obtain ⟨path, -, rfl⟩ := Option.map_eq_some_iff.mp h
  exact distinct_nested (distinct_valueOf contents) path

/-- What a variable sets lies behind the keys that its name leads through. -/
@[simp] theorem at?_nested (value : Toml) (lead path : List String) :
    (nested value lead).at? (lead ++ path) = value.at? path := by
  induction lead with
  | nil => rfl
  | cons key lead ih =>
      rw [nested, List.cons_append, Toml.at?_table, List.lookup_cons_self, Option.bind_some, ih]

end Variables

namespace Settings

open Toml (Distinct Leads)

variable {environment : Environment} {path : List String}

/-- What the variables set at a path: of several variables the last one. -/
def setBy? (environment : Environment) (path : List String) : Option Toml :=
  environment.bindings.reverse.findSome? fun (name, contents) =>
    (Variables.layerOf? name contents).bind (Toml.at? path)

/-- No variable puts anything but a table before the end of a path. -/
def VariablesLead (environment : Environment) (path : List String) : Prop :=
  ∀ e ∈ environment.bindings, ∀ layer ∈ Variables.layerOf? e.1 e.2, Leads path layer

instance (environment : Environment) (path : List String) :
    Decidable (VariablesLead environment path) :=
  inferInstanceAs (Decidable (∀ e ∈ environment.bindings, ∀ layer ∈ Variables.layerOf? e.1 e.2,
    Leads path layer))

theorem leads_nil (path : List String) : Leads path (.table []) := by
  cases path with
  | nil => trivial
  | cons key path => exact fun _ h => nomatch h

theorem mem_layers {layer : Toml}
    (h : layer ∈ environment.bindings.filterMap fun (name, contents) =>
      Variables.layerOf? name contents) :
    ∃ name contents, (name, contents) ∈ environment.bindings ∧
      Variables.layerOf? name contents = some layer := by
  obtain ⟨⟨name, contents⟩, hmem, hlayer⟩ := List.mem_filterMap.mp h
  exact ⟨name, contents, hmem, hlayer⟩

theorem findSome?_filterMap {α β γ : Type} (f : α → Option β) (g : β → Option γ) (l : List α) :
    (l.filterMap f).findSome? g = l.findSome? fun a => (f a).bind g := by
  induction l with
  | nil => rfl
  | cons a l ih =>
      rw [List.findSome?_cons]
      cases ha : f a with
      | none => rw [List.filterMap_cons_none ha, ih, Option.bind_none]
      | some b => rw [List.filterMap_cons_some ha, List.findSome?_cons, ih, Option.bind_some]

theorem distinct_variableLayer (environment : Environment) :
    Distinct (variableLayer environment) := by
  refine Toml.distinct_nil.foldl_merge fun layer hlayer => ?_
  obtain ⟨name, contents, -, hlayer⟩ := mem_layers hlayer
  exact Variables.distinct_layerOf? hlayer

section
variable (hleads : VariablesLead environment path)
include hleads

theorem leads_variableLayer : Leads path (variableLayer environment) := by
  refine (leads_nil path).foldl_merge fun layer hlayer => ?_
  obtain ⟨name, contents, hmem, hlayer⟩ := mem_layers hlayer
  exact ⟨Variables.distinct_layerOf? hlayer, hleads _ hmem _ hlayer⟩

theorem at?_variableLayer_eq (hpath : path ≠ []) : ∃ found : List (Option Toml),
    (variableLayer environment).at? path = found.foldl Toml.laid none ∧
      found.reverse.findSome? id = setBy? environment path := by
  have hnil : Toml.at? path (.table []) = none := by
    obtain ⟨key, path, rfl⟩ := List.exists_cons_of_ne_nil hpath
    rw [Toml.at?_table]
    rfl
  have hfold := Toml.at?_foldl_merge (leads_nil path) (fun layer hlayer => by
    obtain ⟨name, contents, hmem, hlayer⟩ := mem_layers hlayer
    exact ⟨Variables.distinct_layerOf? hlayer, hleads _ hmem _ hlayer⟩)
  rw [hnil] at hfold
  refine ⟨_, hfold, ?_⟩
  rw [setBy?, ← List.map_reverse, ← List.filterMap_reverse, List.findSome?_map]
  exact findSome?_filterMap _ _ _

/-- **What the layer of the variables holds** at the end of a path is set by one of them. -/
theorem at?_variableLayer (hpath : path ≠ [])
    (h : ∀ value, (variableLayer environment).at? path = some value → value.isTable = false) :
    (variableLayer environment).at? path = setBy? environment path := by
  obtain ⟨found, hfound, hlast⟩ := at?_variableLayer_eq hleads hpath
  rw [hfound] at h ⊢
  rw [Toml.foldl_laid h, hlast, Option.or_none]

theorem isSome_variableLayer (hpath : path ≠ []) :
    ((variableLayer environment).at? path).isSome = (setBy? environment path).isSome := by
  obtain ⟨found, hfound, hlast⟩ := at?_variableLayer_eq hleads hpath
  rw [hfound, Toml.foldl_laid_isSome, hlast, Option.or_none]

end

end Settings

end TodoIndex
