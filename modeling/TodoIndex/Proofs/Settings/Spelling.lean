import TodoIndex.Proofs.Settings.Ranges

/-! # Tables that spell settings

A table from which given settings are read: it has the value of every single setting at its
path.  The table as which settings are written out is one.
-/

namespace TodoIndex.Settings

section
variable {α : Type} {decode : Decoder α} {old new a : α} {value : Toml} {entries : Toml.Entries}
  {key : String}

/-- A key under which `a` is read. -/
def Holds (entries : Toml.Entries) (key : String) (decode : Decoder α) (a : α) : Prop :=
  ∃ value, entries.lookup key = some value ∧ decode value = .ok a

theorem Holds.eq (h : Holds entries key decode a)
    (hnew : Becomes decode old (entries.lookup key) new) : new = a := by
  obtain ⟨value, hvalue, ha⟩ := h
  rw [hvalue] at hnew
  exact Except.ok.inj (hnew.symm.trans ha)

theorem Holds.takes {σ : Type} {put : α → σ → σ} (h : Holds entries key decode a) :
    ∀ value, entries.lookup key = some value → Takes (field key decode put) value := by
  obtain ⟨held, hheld, ha⟩ := h
  intro value hvalue
  rw [hheld] at hvalue
  cases hvalue
  exact takes_field ha

theorem mapOf_eq {m : OrderedMap α} (hnodup : (entries.map Prod.fst).Nodup)
    (hkeys : ∀ key, (entries.lookup key).isSome = (m.get? key).isSome)
    (h : ∀ key a, m.get? key = some a → Holds entries key decode a)
    (hsorted : m.sorted = m.entries) : mapOf decode (.table entries) = .ok m := by
  have hread : ∀ e ∈ entries, ∃ a, decode e.2 = .ok a := by
    intro e he
    have hlookup := OrderedMap.lookup_eq_some_of_mem hnodup he
    have hkey := hkeys e.1
    rw [hlookup] at hkey
    obtain ⟨a, ha⟩ := Option.isSome_iff_exists.mp hkey.symm
    obtain ⟨value, hvalue, hdecode⟩ := h e.1 a ha
    rw [hlookup] at hvalue
    cases hvalue
    exact ⟨a, hdecode⟩
  obtain ⟨read, hread⟩ := exists_mapOf hread
  rw [hread]
  refine congrArg Except.ok (OrderedMap.eq_of_get?_eq (sorted_of_mapOf hread) hsorted fun key => ?_)
  have hget := get?_of_mapOf hnodup hread key
  have hkey := hkeys key
  cases hm : m.get? key with
  | none =>
      rw [hm] at hkey
      cases hlookup : entries.lookup key with
      | some value => simp [hlookup] at hkey
      | none => simpa [hlookup] using hget
  | some a =>
      obtain ⟨value, hvalue, ha⟩ := h key a hm
      rw [hvalue] at hget
      obtain ⟨b, hb, hget⟩ := hget
      rw [hget, Except.ok.inj (hb.symm.trans ha)]

end

/-! ## Groups -/

attribute [ext] WatcherSettings LanguageSettings LoggingSettings Settings

variable {entries : Toml.Entries}

theorem watcherOf_eq {w : WatcherSettings} (hnodup : (entries.map Prod.fst).Nodup)
    (hdebounce : Holds entries "debounce_ms" (naturalOf 64) w.debounce)
    (hsweep : Holds entries "sweep_interval_ms" (naturalOf 64) w.sweepInterval)
    (hfast : Holds entries "fast_path" truthOf w.fastPath) :
    watcherOf (.table entries) = .ok w := by
  obtain ⟨read, hread⟩ : ∃ read, watcherOf (.table entries) = .ok read := by
    refine exists_group hnodup ?_ _
    simp only [List.forall_mem_cons]
    exact ⟨hdebounce.takes, hsweep.takes, hfast.takes, fun _ h => nomatch h⟩
  have hfields := watcherRead hnodup hread
  rw [hread, WatcherSettings.ext (hdebounce.eq hfields.debounce)
    (hsweep.eq hfields.sweepInterval) (hfast.eq hfields.fastPath)]

theorem helpersOf_eq {n : Nat} (hnodup : (entries.map Prod.fst).Nodup)
    (h : Holds entries "external_timeout_secs" (naturalOf 64) n) :
    helpersOf (.table entries) = .ok n := by
  obtain ⟨read, hread⟩ : ∃ read, helpersOf (.table entries) = .ok read := by
    refine exists_group hnodup ?_ _
    simp only [List.forall_mem_cons]
    exact ⟨h.takes, fun _ h => nomatch h⟩
  rw [hread, h.eq (helpersRead hnodup hread)]

theorem languageOf_eq {l : LanguageSettings} (hnodup : (entries.map Prod.fst).Nodup)
    (henabled : Holds entries "enabled" truthOf l.enabled)
    (hextensions : Holds entries "extensions" (listOf textOf) l.extensions) :
    languageOf (.table entries) = .ok l := by
  obtain ⟨read, hread⟩ : ∃ read, languageOf (.table entries) = .ok read := by
    refine exists_group hnodup ?_ _
    simp only [List.forall_mem_cons]
    exact ⟨henabled.takes, hextensions.takes, fun _ h => nomatch h⟩
  have hfields := languageRead hnodup hread
  rw [hread, LanguageSettings.ext (henabled.eq hfields.enabled)
    (hextensions.eq hfields.extensions)]

theorem loggingOf_eq {g : LoggingSettings} (hnodup : (entries.map Prod.fst).Nodup)
    (hdefault : Holds entries "default" textOf g.default)
    (hmodules : Holds entries "modules" (mapOf textOf) g.modules) :
    loggingOf (.table entries) = .ok g := by
  obtain ⟨read, hread⟩ : ∃ read, loggingOf (.table entries) = .ok read := by
    refine exists_group hnodup ?_ _
    simp only [List.forall_mem_cons]
    exact ⟨hdefault.takes, hmodules.takes, fun _ h => nomatch h⟩
  have hfields := loggingRead hnodup hread
  rw [hread, LoggingSettings.ext (hdefault.eq hfields.default) (hmodules.eq hfields.modules)]

theorem decode_eq {s start : Settings} (hnodup : (entries.map Prod.fst).Nodup)
    (hversion : Holds entries "version" (naturalOf 32) s.version)
    (hfolder : Holds entries "data_dir" pathOf s.dataFolder)
    (hignore : Holds entries "ignore_file" textOf s.ignoreFile)
    (hwatcher : Holds entries "watcher" watcherOf s.watcher)
    (hhelpers : Holds entries "parsers" helpersOf s.helperTimeout)
    (hlanguages : Holds entries "languages" (mapOf languageOf) s.languages)
    (hlogging : Holds entries "logging" loggingOf s.logging) :
    decode start (.table entries) = .ok s := by
  have hpath := field_pathOf "data_dir" fun path (s : Settings) => { s with dataFolder := path }
  obtain ⟨read, hread⟩ : ∃ read, decode start (.table entries) = .ok read := by
    unfold decode
    rw [← hpath]
    refine exists_group hnodup ?_ _
    simp only [List.forall_mem_cons]
    exact ⟨hversion.takes, hfolder.takes, hignore.takes, hwatcher.takes, hhelpers.takes,
      hlanguages.takes, hlogging.takes, fun _ h => nomatch h⟩
  have hfields := settingsRead hnodup hread
  rw [hread, Settings.ext (hversion.eq hfields.version) (hfolder.eq hfields.dataFolder)
    (hignore.eq hfields.ignoreFile) (hwatcher.eq hfields.watcher)
    (hhelpers.eq hfields.helperTimeout) (hlanguages.eq hfields.languages)
    (hlogging.eq hfields.logging)]

/-! ## Tables -/

/-- A table that has the value of every single setting, and no other language. -/
structure Spells (entries : Toml.Entries) (s : Settings) : Prop where
  distinct : Toml.Distinct (.table entries)
  leaf : ∀ leaf, IsLeaf leaf → (Toml.table entries).at? leaf = s.at? leaf
  watcher : ∃ inner, entries.lookup "watcher" = some (.table inner)
  parsers : ∃ inner, entries.lookup "parsers" = some (.table inner)
  languages : ∃ inner, entries.lookup "languages" = some (.table inner) ∧
    ∀ key value, inner.lookup key = some value →
      value.isTable = true ∧ (s.languages.get? key).isSome = true
  logging : ∃ inner parts, entries.lookup "logging" = some (.table inner) ∧
    inner.lookup "modules" = some (.table parts)

namespace Spells

variable {s start : Settings} {inner : Toml.Entries} {key : String} {path : List String}

theorem at?_section (h : Spells entries s) (hkey : entries.lookup key = some (.table inner))
    (hleaf : IsLeaf (key :: path)) : (Toml.table inner).at? path = s.at? (key :: path) := by
  rw [← h.leaf _ hleaf, Toml.at?_table, hkey, Option.bind_some]

theorem holds_of_at? {α : Type} {decode : Decoder α} {value : Toml} {a : α}
    (h : (Toml.table entries).at? [key] = some value) (hdecode : decode value = .ok a) :
    Holds entries key decode a :=
  ⟨value, Toml.lookup_of_at? h, hdecode⟩

theorem watcherOf_eq (h : Spells entries s) (hs : InRange s) :
    Holds entries "watcher" watcherOf s.watcher := by
  obtain ⟨inner, hinner⟩ := h.watcher
  have hdebounce := h.at?_section hinner .debounce
  have hsweep := h.at?_section hinner .sweepInterval
  have hfast := h.at?_section hinner .fastPath
  exact ⟨_, hinner, Settings.watcherOf_eq (h.distinct.of_lookup hinner).nodup
    (holds_of_at? hdebounce (naturalOf_natCast.mpr hs.debounce))
    (holds_of_at? hsweep (naturalOf_natCast.mpr hs.sweepInterval)) (holds_of_at? hfast rfl)⟩

theorem helpersOf_eq (h : Spells entries s) (hs : InRange s) :
    Holds entries "parsers" helpersOf s.helperTimeout := by
  obtain ⟨inner, hinner⟩ := h.parsers
  have htimeout := h.at?_section hinner .helperTimeout
  exact ⟨_, hinner, Settings.helpersOf_eq (h.distinct.of_lookup hinner).nodup
    (holds_of_at? htimeout (naturalOf_natCast.mpr hs.helperTimeout))⟩

theorem languages_eq (h : Spells entries s) (hs : InRange s) :
    Holds entries "languages" (mapOf languageOf) s.languages := by
  obtain ⟨languages, hlanguages, hkeys⟩ := h.languages
  have hdistinct := h.distinct.of_lookup hlanguages
  have henabled := fun key => h.at?_section hlanguages (.enabled key)
  have hextensions := fun key => h.at?_section hlanguages (.extensions key)
  have hentry : ∀ key l, s.languages.get? key = some l → ∃ fields,
      languages.lookup key = some (.table fields) := by
    intro key l hl
    have hfound := henabled key
    rw [at?_language, hl] at hfound
    obtain ⟨_, found, heq, hfound, hfields⟩ := Toml.at?_cons_eq_some hfound
    cases heq
    obtain ⟨fields, _, rfl, -⟩ := Toml.at?_cons_eq_some hfields
    exact ⟨fields, hfound⟩
  refine ⟨_, hlanguages, mapOf_eq hdistinct.nodup (fun key => ?_) (fun key l hl => ?_)
    hs.languages⟩
  · cases hl : s.languages.get? key with
    | some l =>
        obtain ⟨fields, hfields⟩ := hentry key l hl
        rw [hfields]
        rfl
    | none =>
        cases hfound : languages.lookup key with
        | none => rfl
        | some value =>
            have hthere := (hkeys key value hfound).2
            rw [hl] at hthere
            cases hthere
  · obtain ⟨fields, hfields⟩ := hentry key l hl
    have henabled := henabled key
    have hextensions := hextensions key
    rw [at?_language, hl, Toml.at?_table, hfields] at henabled hextensions
    exact ⟨_, hfields, languageOf_eq (hdistinct.of_lookup hfields).nodup
      (holds_of_at? henabled rfl) (holds_of_at? hextensions (listOf_map fun _ _ => rfl))⟩

theorem modules_eq (h : Spells entries s) (hs : InRange s) :
    Holds entries "logging" loggingOf s.logging := by
  obtain ⟨logging, parts, hlogging, hparts⟩ := h.logging
  have hdistinct := h.distinct.of_lookup hlogging
  have hlevel := h.at?_section hlogging .level
  have hlevelOf : ∀ part, parts.lookup part = (s.logging.modules.get? part).map .text := by
    intro part
    have hpart := h.at?_section hlogging (.levelOf part)
    rw [at?_levelOf, Toml.at?_table, hparts, Option.bind_some] at hpart
    cases hlevel : (s.logging.modules.get? part).map Toml.text with
    | some value => exact Toml.lookup_of_at? (hpart.trans hlevel)
    | none => exact Toml.lookup_of_at?_none (hpart.trans hlevel)
  refine ⟨_, hlogging, loggingOf_eq hdistinct.nodup (holds_of_at? hlevel rfl)
    ⟨_, hparts, mapOf_eq (hdistinct.of_lookup hparts).nodup (fun part => ?_)
      (fun part level hpart => ?_) hs.modules⟩⟩
  · rw [hlevelOf, Option.isSome_map]
  · exact ⟨.text level, by rw [hlevelOf, hpart]; rfl, rfl⟩

/-- **Settings are read from every table that spells them.** -/
theorem decode_eq (h : Spells entries s) (hs : InRange s) :
    decode start (.table entries) = .ok s := by
  have hfolder : pathOf (.text s.dataFolder.display) = .ok s.dataFolder :=
    congrArg Except.ok hs.dataFolder.ofString_display
  exact Settings.decode_eq h.distinct.nodup
    (holds_of_at? ((h.leaf _ .version).trans (at?_version s)) (naturalOf_natCast.mpr hs.version))
    (holds_of_at? ((h.leaf _ .dataFolder).trans (at?_dataFolder s)) hfolder)
    (holds_of_at? ((h.leaf _ .ignoreFile).trans (at?_ignoreFile s)) rfl)
    (h.watcherOf_eq hs) (h.helpersOf_eq hs) (h.languages_eq hs) (h.modules_eq hs)

end Spells

/-! ## Settings that are written out -/

variable {s start base : Settings}

theorem spells_entries (s : Settings) : Spells s.entries s where
  distinct := distinct_entries s
  leaf := fun _ _ => rfl
  watcher := ⟨_, rfl⟩
  parsers := ⟨_, rfl⟩
  languages := by
    refine ⟨_, rfl, fun key value hvalue => ?_⟩
    rw [OrderedMap.lookup_map, OrderedMap.lookup_sorted] at hvalue
    obtain ⟨l, hl, rfl⟩ := Option.map_eq_some_iff.mp hvalue
    exact ⟨rfl, by rw [hl]; rfl⟩
  logging := ⟨_, _, rfl, rfl⟩

/-- Settings in range are read from the table as which they are written out. -/
theorem decode_entries (hs : InRange s) : decode start (.table s.entries) = .ok s :=
  (spells_entries s).decode_eq hs

/-- A setting that is written out nowhere is one of a language or part. -/
theorem at?_eq_none {leaf : List String}
    (hkeys : ∀ key, (base.languages.get? key).isSome = true → (s.languages.get? key).isSome = true)
    (hmodules : base.logging.modules = .empty) (hleaf : IsLeaf leaf) (h : s.at? leaf = none) :
    base.at? leaf = none := by
  have hlanguage : ∀ key, s.languages.get? key = none → base.languages.get? key = none := by
    intro key hs
    cases hbase : base.languages.get? key with
    | none => rfl
    | some l =>
        have hkey := hkeys key (by rw [hbase]; rfl)
        rw [hs] at hkey
        cases hkey
  cases hleaf with
  | version | dataFolder | ignoreFile | debounce | sweepInterval | fastPath | helperTimeout
  | level => cases h
  | enabled key | extensions key =>
      rw [at?_language] at h ⊢
      cases hs : s.languages.get? key with
      | none => rw [hlanguage key hs]; rfl
      | some l => rw [hs] at h; cases h
  | levelOf part =>
      rw [at?_levelOf, hmodules]
      rfl

/-- **Settings written out above others** hide them, if every language is written that the others
have. -/
theorem spells_merge
    (hkeys : ∀ key, (base.languages.get? key).isSome = true → (s.languages.get? key).isSome = true)
    (hmodules : base.logging.modules = .empty) :
    Spells (Toml.mergeEntries base.entries s.entries) s := by
  have hnodup := (distinct_entries s).nodup
  refine ⟨?_, fun leaf hleaf => ?_, ⟨_, Toml.lookup_mergeEntries_tables hnodup rfl rfl⟩,
    ⟨_, Toml.lookup_mergeEntries_tables hnodup rfl rfl⟩,
    ⟨_, Toml.lookup_mergeEntries_tables hnodup rfl rfl, fun key value hvalue => ?_⟩,
    ⟨_, _, Toml.lookup_mergeEntries_tables hnodup rfl rfl,
      Toml.lookup_mergeEntries_tables ?_ rfl rfl⟩⟩
  · have hmerged := (distinct_entries s).merge (distinct_entries base)
    rwa [Toml.merge_tables] at hmerged
  · rw [← Toml.merge_tables, Toml.at?_merge (distinct_entries s) (leads_entries base hleaf)
      (leads_entries s hleaf)]
    change Toml.laid (base.at? leaf) (s.at? leaf) = s.at? leaf
    cases hs : s.at? leaf with
    | none => rw [Toml.laid_none, at?_eq_none hkeys hmodules hleaf hs]
    | some value =>
        cases base.at? leaf with
        | none => rfl
        | some old => exact congrArg some (Toml.merge_of_not_table (plain_of_at? s hleaf hs))
  · have hlanguages : s.entries.lookup "languages" = some (.table _) := rfl
    rw [Toml.lookup_mergeEntries _ ((distinct_entries s).of_lookup hlanguages).nodup,
      OrderedMap.lookup_map, OrderedMap.lookup_map, OrderedMap.lookup_sorted,
      OrderedMap.lookup_sorted] at hvalue
    cases hs : s.languages.get? key with
    | some l =>
        rw [hs] at hvalue
        cases hbase : base.languages.get? key with
        | none =>
            rw [hbase] at hvalue
            cases hvalue
            exact ⟨rfl, rfl⟩
        | some old =>
            rw [hbase] at hvalue
            cases hvalue
            exact ⟨Toml.isTable_merge, rfl⟩
    | none =>
        have hbase : base.languages.get? key = none := by
          have hkey := hkeys key
          rw [hs] at hkey
          exact Option.not_isSome_iff_eq_none.mp fun h => by cases hkey h
        rw [hs, hbase] at hvalue
        cases hvalue
  · simp

end TodoIndex.Settings
