import TodoIndex.Proofs.Settings.Decoding
import TodoIndex.Proofs.Text.Utf8
import TodoIndex.Settings.Document

/-! # Single settings

Each setting is read from the value of its own key.  A single setting lies at the end of a path of
keys.  Where a table that is read has a value at such a path, the settings have just that value
there.
-/

namespace TodoIndex

namespace Toml

theorem at?_cons_eq_some {key : String} {path : List String} {value found : Toml}
    (h : at? (key :: path) value = some found) : ∃ entries inner, value = .table entries ∧
      entries.lookup key = some inner ∧ at? path inner = some found := by
  cases value with
  | table entries =>
      rw [at?_table] at h
      obtain ⟨inner, hinner, hfound⟩ := Option.bind_eq_some_iff.mp h
      exact ⟨entries, inner, rfl, hinner, hfound⟩
  | _ => simp [at?] at h

theorem lookup_of_at? {key : String} {entries : Entries} {value : Toml}
    (h : at? [key] (.table entries) = some value) : entries.lookup key = some value := by
  rw [at?_table] at h
  obtain ⟨inner, hinner, hvalue⟩ := Option.bind_eq_some_iff.mp h
  cases hvalue
  exact hinner

theorem lookup_of_at?_none {key : String} {entries : Entries}
    (h : at? [key] (.table entries) = none) : entries.lookup key = none := by
  rw [at?_table, Option.bind_eq_none_iff] at h
  exact Option.eq_none_iff_forall_ne_some.mpr fun value hvalue => by simpa using h value hvalue

end Toml

namespace Settings

/-! ## Settings field by field -/

section Fields

variable {σ : Type} {entries : Toml.Entries} {s start : Settings} {w : WatcherSettings}
  {l : LanguageSettings} {g : LoggingSettings} {n : Nat}

/-- What a table says about the watcher. -/
structure WatcherRead (entries : Toml.Entries) (w : WatcherSettings) : Prop where
  debounce : Becomes (naturalOf 64) 2000 (entries.lookup "debounce_ms") w.debounce
  sweepInterval : Becomes (naturalOf 64) 500 (entries.lookup "sweep_interval_ms") w.sweepInterval
  fastPath : Becomes truthOf true (entries.lookup "fast_path") w.fastPath

theorem watcherRead (hnodup : (entries.map Prod.fst).Nodup)
    (h : watcherOf (.table entries) = .ok w) : WatcherRead entries w := by
  unfold watcherOf at h
  constructor
  · exact Reads.group ⟨by simp, ⟨_, .head _, fun _ _ => rfl⟩, by simp⟩ hnodup h
  · exact Reads.group ⟨by simp, ⟨_, .tail _ (.head _), fun _ _ => rfl⟩, by simp⟩ hnodup h
  · exact Reads.group ⟨by simp, ⟨_, .tail _ (.tail _ (.head _)), fun _ _ => rfl⟩, by simp⟩ hnodup h

theorem helpersRead (hnodup : (entries.map Prod.fst).Nodup)
    (h : helpersOf (.table entries) = .ok n) :
    Becomes (naturalOf 64) 30 (entries.lookup "external_timeout_secs") n := by
  unfold helpersOf at h
  exact Reads.group ⟨by simp, ⟨_, .head _, fun _ _ => rfl⟩, by simp⟩ hnodup h

/-- What a table says about a language. -/
structure LanguageRead (entries : Toml.Entries) (l : LanguageSettings) : Prop where
  enabled : Becomes truthOf true (entries.lookup "enabled") l.enabled
  extensions : Becomes (listOf textOf) [] (entries.lookup "extensions") l.extensions

theorem languageRead (hnodup : (entries.map Prod.fst).Nodup)
    (h : languageOf (.table entries) = .ok l) : LanguageRead entries l := by
  unfold languageOf at h
  constructor
  · exact Reads.group ⟨by simp, ⟨_, .head _, fun _ _ => rfl⟩, by simp⟩ hnodup h
  · exact Reads.group ⟨by simp, ⟨_, .tail _ (.head _), fun _ _ => rfl⟩, by simp⟩ hnodup h

/-- What a table says about which notes are shown. -/
structure LoggingRead (entries : Toml.Entries) (g : LoggingSettings) : Prop where
  default : Becomes textOf "warn" (entries.lookup "default") g.default
  modules : Becomes (mapOf textOf) .empty (entries.lookup "modules") g.modules

theorem loggingRead (hnodup : (entries.map Prod.fst).Nodup)
    (h : loggingOf (.table entries) = .ok g) : LoggingRead entries g := by
  unfold loggingOf at h
  constructor
  · exact Reads.group ⟨by simp, ⟨_, .head _, fun _ _ => rfl⟩, by simp⟩ hnodup h
  · exact Reads.group ⟨by simp, ⟨_, .tail _ (.head _), fun _ _ => rfl⟩, by simp⟩ hnodup h

/-- A path is taken from a table as the text that spells it. -/
def pathOf : Decoder Path := fun value =>
  (textOf value).map Path.ofString

theorem field_pathOf (key : String) (put : Path → σ → σ) :
    field key pathOf put = field key textOf fun path => put (.ofString path) := by
  unfold field
  refine congrArg (Prod.mk key) (funext fun value => funext fun group => ?_)
  rw [pathOf]
  cases textOf value <;> rfl

/-- What a table says about all settings. -/
structure SettingsRead (start : Settings) (entries : Toml.Entries) (s : Settings) : Prop where
  version : Becomes (naturalOf 32) start.version (entries.lookup "version") s.version
  dataFolder : Becomes pathOf start.dataFolder (entries.lookup "data_dir") s.dataFolder
  ignoreFile : Becomes textOf start.ignoreFile (entries.lookup "ignore_file") s.ignoreFile
  watcher : Becomes watcherOf start.watcher (entries.lookup "watcher") s.watcher
  helperTimeout : Becomes helpersOf start.helperTimeout (entries.lookup "parsers") s.helperTimeout
  languages : Becomes (mapOf languageOf) start.languages (entries.lookup "languages") s.languages
  logging : Becomes loggingOf start.logging (entries.lookup "logging") s.logging

theorem settingsRead (hnodup : (entries.map Prod.fst).Nodup)
    (h : decode start (.table entries) = .ok s) : SettingsRead start entries s := by
  have hpath := field_pathOf "data_dir" fun path (s : Settings) => { s with dataFolder := path }
  unfold decode at h
  rw [← hpath] at h
  constructor
  · exact Reads.group ⟨by simp, ⟨_, .head _, fun _ _ => rfl⟩, by simp⟩ hnodup h
  · exact Reads.group ⟨by simp, ⟨_, .tail _ <| .head _, fun _ _ => rfl⟩, by simp⟩ hnodup h
  · exact Reads.group ⟨by simp, ⟨_, .tail _ <| .tail _ <| .head _, fun _ _ => rfl⟩, by simp⟩
      hnodup h
  · exact Reads.group ⟨by simp, ⟨_, .tail _ <| .tail _ <| .tail _ <| .head _, fun _ _ => rfl⟩,
      by simp⟩ hnodup h
  · exact Reads.group ⟨by simp, ⟨_, .tail _ <| .tail _ <| .tail _ <| .tail _ <| .head _,
      fun _ _ => rfl⟩, by simp⟩ hnodup h
  · exact Reads.group ⟨by simp, ⟨_, .tail _ <| .tail _ <| .tail _ <| .tail _ <| .tail _ <| .head _,
      fun _ _ => rfl⟩, by simp⟩ hnodup h
  · exact Reads.group ⟨by simp, ⟨_, .tail _ <| .tail _ <| .tail _ <| .tail _ <| .tail _ <|
      .tail _ <| .head _, fun _ _ => rfl⟩, by simp⟩ hnodup h

end Fields

/-! ## Paths of keys -/

/-- A path of keys to a single setting. -/
inductive IsLeaf : List String → Prop where
  | version : IsLeaf ["version"]
  | dataFolder : IsLeaf ["data_dir"]
  | ignoreFile : IsLeaf ["ignore_file"]
  | debounce : IsLeaf ["watcher", "debounce_ms"]
  | sweepInterval : IsLeaf ["watcher", "sweep_interval_ms"]
  | fastPath : IsLeaf ["watcher", "fast_path"]
  | helperTimeout : IsLeaf ["parsers", "external_timeout_secs"]
  | enabled (key : String) : IsLeaf ["languages", key, "enabled"]
  | extensions (key : String) : IsLeaf ["languages", key, "extensions"]
  | level : IsLeaf ["logging", "default"]
  | levelOf (part : String) : IsLeaf ["logging", "modules", part]

theorem IsLeaf.ne_nil {leaf : List String} (h : IsLeaf leaf) : leaf ≠ [] := by
  cases h <;> simp

/-- What settings have at a path. -/
def at? (s : Settings) (path : List String) : Option Toml :=
  (Toml.table s.entries).at? path

section
variable (s : Settings)

theorem lookup_languages : s.entries.lookup "languages" =
    some (.table (s.languages.sorted.map fun (key, l) => (key, languageTable l))) :=
  rfl

theorem lookup_logging : s.entries.lookup "logging" = some (loggingTable s.logging) :=
  rfl

@[simp] theorem at?_version : s.at? ["version"] = some (.integer s.version) :=
  rfl

@[simp] theorem at?_dataFolder : s.at? ["data_dir"] = some (.text s.dataFolder.display) :=
  rfl

@[simp] theorem at?_ignoreFile : s.at? ["ignore_file"] = some (.text s.ignoreFile) :=
  rfl

@[simp] theorem at?_watcher (key : String) :
    s.at? ["watcher", key] = (watcherTable s.watcher).at? [key] :=
  rfl

@[simp] theorem at?_helperTimeout :
    s.at? ["parsers", "external_timeout_secs"] = some (.integer s.helperTimeout) :=
  rfl

@[simp] theorem at?_language (key : String) (path : List String) :
    s.at? ("languages" :: key :: path) =
      ((s.languages.get? key).map languageTable).bind (Toml.at? path) := by
  rw [at?, Toml.at?_table, lookup_languages, Option.bind_some, Toml.at?_table,
    OrderedMap.lookup_map, OrderedMap.lookup_sorted]

@[simp] theorem at?_level : s.at? ["logging", "default"] = some (.text s.logging.default) :=
  rfl

@[simp] theorem at?_levelOf (part : String) :
    s.at? ["logging", "modules", part] = (s.logging.modules.get? part).map .text := by
  change (List.lookup part (s.logging.modules.sorted.map _)).bind (Toml.at? []) = _
  rw [OrderedMap.lookup_map, OrderedMap.lookup_sorted]
  cases s.logging.modules.get? part <;> rfl

theorem distinct_written {α : Type} {table : α → Toml} (m : OrderedMap α)
    (h : ∀ a, Toml.Distinct (table a)) :
    Toml.Distinct (.table (m.sorted.map fun (key, a) => (key, table a))) := by
  refine .table ?_ fun e he => ?_
  · rw [List.map_map]
    exact m.nodup_sorted
  · obtain ⟨e, -, rfl⟩ := List.mem_map.mp he
    exact h e.2

theorem distinct_languageTable (l : LanguageSettings) : Toml.Distinct (languageTable l) :=
  .table (by simp) (by simpa using ⟨.plain rfl, .plain rfl⟩)

theorem distinct_loggingTable (g : LoggingSettings) : Toml.Distinct (loggingTable g) :=
  .table (by simp) (by simpa using ⟨.plain rfl, distinct_written g.modules fun _ => .plain rfl⟩)

theorem distinct_watcherTable (w : WatcherSettings) : Toml.Distinct (watcherTable w) :=
  .table (by simp) (by simpa using ⟨.plain rfl, .plain rfl, .plain rfl⟩)

theorem distinct_entries : Toml.Distinct (.table s.entries) := by
  refine .table (by simp [Settings.entries]) ?_
  simp only [Settings.entries, List.forall_mem_cons]
  exact ⟨.plain rfl, .plain rfl, .plain rfl, distinct_watcherTable _,
    Toml.distinct_single (.plain rfl), distinct_written _ distinct_languageTable,
    distinct_loggingTable _, fun _ h => absurd h List.not_mem_nil⟩

theorem leads_entries {leaf : List String} (h : IsLeaf leaf) :
    Toml.Leads leaf (.table s.entries) := by
  have htwo : ∀ {key field value}, s.entries.lookup key = some value → value.isTable = true →
      Toml.Leads [key, field] (.table s.entries) := by
    intro key field value hvalue htable found hfound
    obtain ⟨inner, rfl⟩ := Toml.eq_table_of_isTable htable
    rw [hvalue] at hfound
    cases hfound
    exact fun _ _ => trivial
  have hlanguage : ∀ key field, Toml.Leads ["languages", key, field] (.table s.entries) := by
    intro key field languages hlanguages
    rw [lookup_languages] at hlanguages
    cases hlanguages
    intro language hlanguage
    rw [OrderedMap.lookup_map] at hlanguage
    obtain ⟨l, -, rfl⟩ := Option.map_eq_some_iff.mp hlanguage
    exact fun _ _ => trivial
  cases h with
  | version | dataFolder | ignoreFile => exact fun _ _ => trivial
  | debounce | sweepInterval | fastPath | helperTimeout | level => exact htwo rfl rfl
  | enabled key => exact hlanguage key "enabled"
  | extensions key => exact hlanguage key "extensions"
  | levelOf part =>
      intro logging hlogging
      rw [lookup_logging] at hlogging
      cases hlogging
      intro modules hmodules
      obtain rfl := Option.some.inj hmodules
      exact fun _ _ => trivial

theorem plain_of_at? {leaf : List String} {value : Toml} (hleaf : IsLeaf leaf)
    (h : s.at? leaf = some value) : value.isTable = false := by
  cases hleaf with
  | version | dataFolder | ignoreFile | debounce | sweepInterval | fastPath | helperTimeout
  | level =>
      cases h
      rfl
  | enabled key | extensions key =>
      rw [at?_language] at h
      cases hl : s.languages.get? key with
      | none => simp [hl] at h
      | some l =>
          rw [hl] at h
          cases h
          rfl
  | levelOf part =>
      rw [at?_levelOf] at h
      obtain ⟨level, -, rfl⟩ := Option.map_eq_some_iff.mp h
      rfl

end

/-! ## What is read -/

variable {entries : Toml.Entries} {s start : Settings} {path : List String} {value : Toml}

theorem Becomes.eq_encode {α : Type} {decode : Decoder α} {encode : α → Toml} {old new : α}
    {key : String} (h : Becomes decode old (entries.lookup key) new) (hexact : Exact decode encode)
    (hvalue : entries.lookup key = some value) : value = encode new := by
  rw [hvalue] at h
  exact hexact _ _ h

theorem exact_pathOf : Exact pathOf fun path => .text path.display := by
  intro value path h
  obtain ⟨name, hname, rfl⟩ := map_eq_ok.mp h
  rw [exact_textOf _ _ hname]
  simp [Path.display, Path.ofString]

/-- The value of a section is a table where a path leads into it. -/
theorem Becomes.of_section {α : Type} {decode : Decoder α} {old new : α} {key field : String}
    {path : List String} (h : Becomes decode old (entries.lookup key) new)
    (hdistinct : Toml.Distinct (.table entries))
    (hvalue : Toml.at? (key :: field :: path) (.table entries) = some value) :
    ∃ inner found, Toml.Distinct (.table inner) ∧ decode (.table inner) = .ok new ∧
      inner.lookup field = some found ∧ Toml.at? path found = some value := by
  rw [Toml.at?_table] at hvalue
  obtain ⟨held, hheld, hvalue⟩ := Option.bind_eq_some_iff.mp hvalue
  obtain ⟨inner, found, rfl, hfound, hvalue⟩ := Toml.at?_cons_eq_some hvalue
  rw [hheld] at h
  exact ⟨inner, found, hdistinct.of_lookup hheld, h, hfound, hvalue⟩

theorem exists_watcher {field : String} (hdistinct : Toml.Distinct (.table entries))
    (h : decode start (.table entries) = .ok s)
    (hvalue : Toml.at? ["watcher", field] (.table entries) = some value) :
    ∃ inner, WatcherRead inner s.watcher ∧ inner.lookup field = some value := by
  obtain ⟨inner, found, hinner, hdecode, hfound, hend⟩ :=
    (settingsRead hdistinct.nodup h).watcher.of_section hdistinct hvalue
  cases hend
  exact ⟨inner, watcherRead hinner.nodup hdecode, hfound⟩

/-- A language's entry is read as the settings of that language. -/
theorem exists_language {field : String} (hdistinct : Toml.Distinct (.table entries))
    (h : decode start (.table entries) = .ok s) {key : String}
    (hvalue : Toml.at? ["languages", key, field] (.table entries) = some value) :
    ∃ l inner, s.languages.get? key = some l ∧ LanguageRead inner l ∧
      inner.lookup field = some value := by
  have hread := settingsRead hdistinct.nodup h
  obtain ⟨inner, found, hinner, hdecode, hfound, hvalue⟩ :=
    hread.languages.of_section hdistinct hvalue
  obtain ⟨fields, last, rfl, hlast, hvalue⟩ := Toml.at?_cons_eq_some hvalue
  cases hvalue
  have hget := get?_of_mapOf hinner.nodup hdecode key
  rw [hfound] at hget
  obtain ⟨l, hl, hget⟩ := hget
  exact ⟨l, fields, hget, languageRead (hinner.of_lookup hfound).nodup hl, hlast⟩

/-- **A single setting is what the table says** that is read. -/
theorem at?_of_decode (hdistinct : Toml.Distinct (.table entries))
    (h : decode start (.table entries) = .ok s) (hleaf : IsLeaf path)
    (hvalue : Toml.at? path (.table entries) = some value) :
    s.at? path = some value ∧ value.isTable = false := by
  have hread := settingsRead hdistinct.nodup h
  cases hleaf with
  | version =>
      rw [hread.version.eq_encode (exact_naturalOf 32) (Toml.lookup_of_at? hvalue)]
      exact ⟨at?_version s, rfl⟩
  | dataFolder =>
      rw [hread.dataFolder.eq_encode exact_pathOf (Toml.lookup_of_at? hvalue)]
      exact ⟨at?_dataFolder s, rfl⟩
  | ignoreFile =>
      rw [hread.ignoreFile.eq_encode exact_textOf (Toml.lookup_of_at? hvalue)]
      exact ⟨at?_ignoreFile s, rfl⟩
  | debounce =>
      obtain ⟨inner, hwatcher, hfound⟩ := exists_watcher hdistinct h hvalue
      rw [hwatcher.debounce.eq_encode (exact_naturalOf 64) hfound]
      exact ⟨at?_watcher s _, rfl⟩
  | sweepInterval =>
      obtain ⟨inner, hwatcher, hfound⟩ := exists_watcher hdistinct h hvalue
      rw [hwatcher.sweepInterval.eq_encode (exact_naturalOf 64) hfound]
      exact ⟨at?_watcher s _, rfl⟩
  | fastPath =>
      obtain ⟨inner, hwatcher, hfound⟩ := exists_watcher hdistinct h hvalue
      rw [hwatcher.fastPath.eq_encode exact_truthOf hfound]
      exact ⟨at?_watcher s _, rfl⟩
  | helperTimeout =>
      obtain ⟨inner, found, hinner, hdecode, hfound, hend⟩ :=
        hread.helperTimeout.of_section hdistinct hvalue
      cases hend
      rw [(helpersRead hinner.nodup hdecode).eq_encode (exact_naturalOf 64) hfound]
      exact ⟨at?_helperTimeout s, rfl⟩
  | enabled key =>
      obtain ⟨l, inner, hget, hl, hfound⟩ := exists_language hdistinct h hvalue
      rw [hl.enabled.eq_encode exact_truthOf hfound, at?_language, hget]
      exact ⟨rfl, rfl⟩
  | extensions key =>
      obtain ⟨l, inner, hget, hl, hfound⟩ := exists_language hdistinct h hvalue
      rw [hl.extensions.eq_encode (exact_listOf exact_textOf) hfound, at?_language, hget]
      exact ⟨rfl, rfl⟩
  | level =>
      obtain ⟨inner, found, hinner, hdecode, hfound, hend⟩ :=
        hread.logging.of_section hdistinct hvalue
      cases hend
      rw [(loggingRead hinner.nodup hdecode).default.eq_encode exact_textOf hfound]
      exact ⟨at?_level s, rfl⟩
  | levelOf part =>
      obtain ⟨inner, found, hinner, hdecode, hfound, hend⟩ :=
        hread.logging.of_section hdistinct hvalue
      obtain ⟨parts, last, rfl, hlast, hend⟩ := Toml.at?_cons_eq_some hend
      cases hend
      have hmodules := (loggingRead hinner.nodup hdecode).modules
      rw [hfound] at hmodules
      have hget := get?_of_mapOf (hinner.of_lookup hfound).nodup hmodules part
      rw [hlast] at hget
      obtain ⟨level, hlevel, hget⟩ := hget
      rw [exact_textOf _ _ hlevel, at?_levelOf, hget]
      exact ⟨rfl, rfl⟩

/-! ## What is not read -/

/-- What holds where nothing is found: a language that is there has settings of its own. -/
def unset (find : List String → Option Toml) : List String → Option Toml
  | ["languages", key, field] =>
      (find ["languages", key]).bind fun _ => (languageTable {}).at? [field]
  | _ => none

theorem unset_congr {f g : List String → Option Toml}
    (h : ∀ lead, lead <+: path → lead ≠ [] → (f lead).isSome = (g lead).isSome) :
    unset f path = unset g path := by
  unfold unset
  split
  · rename_i key field
    have hsome := h ["languages", key] ⟨[field], rfl⟩ (by simp)
    cases hf : f ["languages", key] <;> cases hg : g ["languages", key] <;>
      simp [hf, hg] at hsome ⊢
  · rfl

theorem exists_table_of_lookup {key field : String} {path : List String}
    (hleads : Toml.Leads (key :: field :: path) (.table entries))
    (hthere : (Toml.at? [key] (.table entries)).isSome = true) :
    ∃ inner, entries.lookup key = some (.table inner) ∧
      Toml.Leads (field :: path) (.table inner) := by
  obtain ⟨held, hheld⟩ := Option.isSome_iff_exists.mp hthere
  have hlookup := Toml.lookup_of_at? hheld
  have hlater := hleads held hlookup
  obtain ⟨inner, rfl⟩ := hlater.eq_table
  exact ⟨inner, hlookup, hlater⟩

/-- A setting of a language of which its table says nothing is that of every new language. -/
theorem LanguageRead.at?_unset {inner : Toml.Entries} {l : LanguageSettings}
    {field : String} (h : LanguageRead inner l) (hfield : field = "enabled" ∨ field = "extensions")
    (hnone : inner.lookup field = none) :
    (languageTable l).at? [field] = (languageTable {}).at? [field] := by
  rcases hfield with rfl | rfl
  · have henabled := h.enabled
    rw [hnone] at henabled
    exact congrArg (fun enabled => some (Toml.bool enabled)) henabled
  · have hextensions := h.extensions
    rw [hnone] at hextensions
    exact congrArg (fun names => some (Toml.array (names.map .text))) hextensions

section
variable (hdistinct : Toml.Distinct (.table entries)) (h : decode start (.table entries) = .ok s)
include hdistinct h

/-- A setting of a language of which the table says nothing. -/
theorem language_unset {key field : String} (hfield : field = "enabled" ∨ field = "extensions")
    (hleads : Toml.Leads ["languages", key, field] (.table entries))
    (hthere : (Toml.at? ["languages"] (.table entries)).isSome = true)
    (hnone : Toml.at? ["languages", key, field] (.table entries) = none) :
    s.at? ["languages", key, field] =
      unset (Toml.table entries).at? ["languages", key, field] := by
  obtain ⟨languages, hlanguages, hleads⟩ := exists_table_of_lookup hleads hthere
  have hinner := hdistinct.of_lookup hlanguages
  have hread := (settingsRead hdistinct.nodup h).languages
  rw [hlanguages] at hread
  have hget := get?_of_mapOf hinner.nodup hread key
  rw [Toml.at?_table, hlanguages, Option.bind_some, Toml.at?_table] at hnone
  rw [at?_language, unset, Toml.at?_table, hlanguages, Option.bind_some, Toml.at?_table]
  cases hentry : languages.lookup key with
  | none =>
      rw [hentry] at hget
      rw [hget]
      rfl
  | some entry =>
      obtain ⟨inner, rfl⟩ := (hleads entry hentry).eq_table
      rw [hentry] at hget hnone
      obtain ⟨l, hl, hget⟩ := hget
      have hlanguage := languageRead (hinner.of_lookup hentry).nodup hl
      rw [hget]
      exact hlanguage.at?_unset hfield (Toml.lookup_of_at?_none hnone)

/-- A part of the program of which the table says nothing. -/
theorem level_unset {part : String}
    (hleads : Toml.Leads ["logging", "modules", part] (.table entries))
    (hlogging : (Toml.at? ["logging"] (.table entries)).isSome = true)
    (hmodules : (Toml.at? ["logging", "modules"] (.table entries)).isSome = true)
    (hnone : Toml.at? ["logging", "modules", part] (.table entries) = none) :
    s.at? ["logging", "modules", part] = none := by
  obtain ⟨logging, hlookup, hleads⟩ := exists_table_of_lookup hleads hlogging
  have hinner := hdistinct.of_lookup hlookup
  rw [Toml.at?_table, hlookup, Option.bind_some] at hmodules hnone
  obtain ⟨parts, hparts, -⟩ := exists_table_of_lookup hleads hmodules
  rw [Toml.at?_table, hparts, Option.bind_some] at hnone
  have hpart : parts.lookup part = none := Toml.lookup_of_at?_none hnone
  have hread := (settingsRead hdistinct.nodup h).logging
  rw [hlookup] at hread
  have hmodules := (loggingRead hinner.nodup hread).modules
  rw [hparts] at hmodules
  have hget := get?_of_mapOf (hinner.of_lookup hparts).nodup hmodules part
  rw [hpart] at hget
  rw [at?_levelOf, hget]
  rfl

/-- Where the table says nothing of a setting, it is one of a language or part that is told of
nowhere, provided that the table says all that `start` does. -/
theorem at?_of_decode_none (hleaf : IsLeaf path)
    (hcovers : ∀ lead, lead <+: path → (start.at? lead).isSome = true →
      (Toml.at? lead (.table entries)).isSome = true)
    (hleads : Toml.Leads path (.table entries)) (hnone : Toml.at? path (.table entries) = none) :
    s.at? path = unset (Toml.table entries).at? path := by
  have hfixed : (start.at? path).isSome = true →
      s.at? path = unset (Toml.table entries).at? path := by
    intro hstart
    have hthere := hcovers path List.prefix_rfl hstart
    rw [hnone] at hthere
    cases hthere
  cases hleaf with
  | version => exact hfixed (by simp)
  | dataFolder => exact hfixed (by simp)
  | ignoreFile => exact hfixed (by simp)
  | debounce => exact hfixed rfl
  | sweepInterval => exact hfixed rfl
  | fastPath => exact hfixed rfl
  | helperTimeout => exact hfixed (by simp)
  | level => exact hfixed (by simp)
  | enabled key =>
      have hthere := hcovers ["languages"] ⟨[key, "enabled"], rfl⟩ rfl
      exact language_unset hdistinct h (.inl rfl) hleads hthere hnone
  | extensions key =>
      have hthere := hcovers ["languages"] ⟨[key, "extensions"], rfl⟩ rfl
      exact language_unset hdistinct h (.inr rfl) hleads hthere hnone
  | levelOf part =>
      have hlogging := hcovers ["logging"] ⟨["modules", part], rfl⟩ rfl
      have hmodules := hcovers ["logging", "modules"] ⟨[part], rfl⟩ rfl
      exact level_unset hdistinct h hleads hlogging hmodules hnone

end

end Settings

end TodoIndex
