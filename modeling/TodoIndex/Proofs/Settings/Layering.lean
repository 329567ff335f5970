import TodoIndex.Proofs.Settings.Spelling
import TodoIndex.Proofs.Settings.Variables
import TodoIndex.Proofs.Toml.Growth

/-! # Layers of settings

Every single setting is that of the highest layer which sets it: the variables, the document, or
what holds where nothing is set.  A layer that sets one setting leaves all others to the layers
below it.
-/

namespace TodoIndex.Settings

open Toml (Distinct Leads)

variable {disk : Disk} {environment : Environment} {path : Path} {leaf : List String}
  {document : Toml} {s : Settings}

/-! ## The layers -/

theorem distinct_documentLayer (h : documentLayer disk path = .ok document) :
    Distinct document := by
  unfold documentLayer at h
  split at h
  · cases h
    exact Toml.distinct_nil
  · split at h
    · cases h
    · split at h
      · rename_i hread
        cases h
        unfold readDocument? at hread
        split at hread
        · rename_i hentries
          split at hread
          · cases hread
            obtain ⟨_, -, hentries⟩ := Option.bind_eq_some_iff.mp hentries
            exact Toml.distinct_of_ofText? hentries
          · cases hread
        · cases hread
      · cases h

/-- What is set at a path by the highest layer that sets something there. -/
def highest? (environment : Environment) (document : Toml) (path : List String) : Option Toml :=
  ((setBy? environment path).or (document.at? path)).or ((ofEnvironment environment).at? path)

/-- What the layers say about a single setting.  A language of which only the document or the
variables tell has settings of its own. -/
def layered? (environment : Environment) (document : Toml) (path : List String) : Option Toml :=
  (highest? environment document path).or (unset (highest? environment document) path)

/-- All layers laid above each other. -/
def layers (environment : Environment) (document : Toml) : Toml :=
  ((Toml.table (ofEnvironment environment).entries).merge document).merge
    (variableLayer environment)

theorem load_eq (hdocument : documentLayer disk path = .ok document) :
    load disk environment path =
      decode (ofEnvironment environment) (layers environment document) := by
  unfold load
  rw [hdocument]
  rfl

theorem VariablesLead.of_shorter {lead : List String} (h : VariablesLead environment leaf)
    (hlead : lead <+: leaf) : VariablesLead environment lead :=
  fun e he layer hlayer => (h e he layer hlayer).of_shorter hlead

section
variable {lead : List String} (hleaf : IsLeaf leaf) (hlead : lead <+: leaf)
  (hdistinct : Distinct document) (hfile : Leads leaf document)
  (hvariables : VariablesLead environment leaf)
include hleaf hlead hdistinct hfile hvariables

theorem leads_layers : Leads lead (layers environment document) := by
  have hbase := (leads_entries (ofEnvironment environment) hleaf).of_shorter hlead
  exact (hbase.merge hdistinct (hfile.of_shorter hlead)).merge
    (distinct_variableLayer environment) (leads_variableLayer (hvariables.of_shorter hlead))

theorem at?_layers : (layers environment document).at? lead =
    Toml.laid (Toml.laid ((ofEnvironment environment).at? lead) (document.at? lead))
      ((variableLayer environment).at? lead) := by
  have hbase := (leads_entries (ofEnvironment environment) hleaf).of_shorter hlead
  have hbelow := hbase.merge hdistinct (hfile.of_shorter hlead)
  rw [layers, Toml.at?_merge (distinct_variableLayer environment) hbelow
    (leads_variableLayer (hvariables.of_shorter hlead)),
    Toml.at?_merge hdistinct hbase (hfile.of_shorter hlead)]
  rfl

theorem isSome_layers (hne : lead ≠ []) : ((layers environment document).at? lead).isSome =
    (highest? environment document lead).isSome := by
  have hset := isSome_variableLayer (hvariables.of_shorter hlead) hne
  rw [at?_layers hleaf hlead hdistinct hfile hvariables, Toml.laid_isSome, highest?,
    Option.or_assoc, Option.isSome_or, Option.isSome_or, hset, Toml.laid_isSome]

end

/-- Settings are loaded if the layers are just their table. -/
theorem load_of_layers (hdocument : documentLayer disk path = .ok document) (hs : InRange s)
    (hlayers : layers environment document = .table s.entries) :
    load disk environment path = .ok s := by
  rw [load_eq hdocument, hlayers, decode_entries hs]

/-- Where nothing is set, everything is as it is by default. -/
theorem load_unset (hdocument : documentLayer disk path = .ok (.table []))
    (hvariables : variableLayer environment = .table []) :
    load disk environment path = .ok (ofEnvironment environment) := by
  refine load_of_layers hdocument (inRange_ofEnvironment environment) ?_
  rw [layers, hvariables, Toml.merge_tables, Toml.merge_tables]
  rfl

def layeredDisk : Disk :=
  ⟨.file (Text.bytesOf "s.toml") (Text.bytesOf "[watcher]\nfast_path = false\n") false .empty, []⟩

def layeredDocument : Toml :=
  .table [("watcher", .table [("fast_path", .bool false)])]

/-- Variables that set the time of waiting, to a number or in a table. -/
def layeredEnvironment (inTable : Bool) : Environment :=
  { bindings := [("XDG_DATA_HOME", "/x"),
      if inTable then ("TW_WATCHER", "\x7bdebounce_ms=5\x7d")
      else ("TW_WATCHER__DEBOUNCE_MS", "5")] }

def layeredSettings (inTable : Bool) : Settings :=
  { ofEnvironment (layeredEnvironment inTable) with watcher := ⟨5, 500, false⟩ }

theorem documentLayer_layered : documentLayer layeredDisk (.ofString "/s.toml") =
    .ok layeredDocument := by
  decide +kernel

theorem load_layered (inTable : Bool) :
    load layeredDisk (layeredEnvironment inTable) (.ofString "/s.toml") =
      .ok (layeredSettings inTable) := by
  have hvariables : variableLayer (layeredEnvironment inTable) =
      .table [("watcher", .table [("debounce_ms", .integer 5)])] := by
    cases inTable <;> decide +kernel
  have hrange := inRange_ofEnvironment (layeredEnvironment inTable)
  refine load_of_layers documentLayer_layered ?_ ?_
  · exact { hrange with
      debounce := show 5 < Nat.pow 2 64 by decide
      sweepInterval := show 500 < Nat.pow 2 64 by decide }
  · rw [layers, hvariables]
    rfl

/-- No two variables lead to the same place, nor one to a place above another one. -/
def Apart (environment : Environment) : Prop :=
  environment.bindings.Pairwise fun e f => ∀ p ∈ Variables.path? e.1, ∀ q ∈ Variables.path? f.1,
    ¬ p <+: q ∧ ¬ q <+: p

/-- What the variable holds whose name is a path. -/
def namedBy? (environment : Environment) (leaf : List String) : Option Toml :=
  environment.bindings.findSome? fun (name, contents) =>
    if Variables.path? name = some leaf then some (Variables.valueOf contents) else none

end TodoIndex.Settings
