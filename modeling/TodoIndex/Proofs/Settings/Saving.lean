import TodoIndex.Proofs.Files.Written
import TodoIndex.Proofs.Settings.Layering
import TodoIndex.Proofs.Toml.Printing

/-! # Loading saved settings

Saved settings write out every single setting, so they come back over whatever holds where nothing
is set, as long as the document can be read and is found.  What is not written cannot come back: a
language that is there by default comes back by default.
-/

namespace TodoIndex.Settings

variable {s : Settings} {path : Path} {disk saved : Disk} {environment later : Environment}

/-! ## The document -/

theorem printable_languageTable (l : LanguageSettings) : ∃ inner,
    languageTable l = .table inner ∧ Toml.Printable 1 inner := by
  refine ⟨_, rfl, Toml.printable_of_flat (by simp) (fun e he => ?_) 0⟩
  simp only [List.mem_cons, List.not_mem_nil, or_false] at he
  rcases he with rfl | rfl
  · exact .scalar (.bool _)
  · refine .array fun item hitem => ?_
    obtain ⟨name, -, rfl⟩ := List.mem_map.mp hitem
    exact .text name

theorem printable_loggingTable (g : LoggingSettings) : ∃ inner,
    loggingTable g = .table inner ∧ Toml.Printable 2 inner := by
  refine ⟨_, rfl, by simp, [("default", .text g.default)], [("modules", .table _)], rfl,
    fun e he => ?_, fun e he => ?_⟩
  · obtain rfl := List.mem_singleton.mp he
    exact .scalar (.text _)
  · obtain rfl := List.mem_singleton.mp he
    refine ⟨_, rfl, Toml.printable_of_flat ?_ (fun e he => ?_) 0⟩
    · rw [List.map_map]
      exact g.modules.nodup_sorted
    · obtain ⟨e, -, rfl⟩ := List.mem_map.mp he
      exact .scalar (.text e.2)

theorem printable_watcherTable (w : WatcherSettings) : ∃ inner,
    watcherTable w = .table inner ∧ Toml.Printable 2 inner := by
  refine ⟨_, rfl, Toml.printable_of_flat (by simp) (fun e he => ?_) 1⟩
  simp only [List.mem_cons, List.not_mem_nil, or_false] at he
  rcases he with rfl | rfl | rfl
  · exact .scalar (.natural _)
  · exact .scalar (.natural _)
  · exact .scalar (.bool _)

/-- A document of settings is written without loss. -/
theorem printable_entries (s : Settings) : Toml.Printable 3 s.entries := by
  refine ⟨by simp [entries], [("version", .integer s.version),
    ("data_dir", .text s.dataFolder.display), ("ignore_file", .text s.ignoreFile)], _, rfl,
    fun e he => ?_, fun e he => ?_⟩
  · simp only [List.mem_cons, List.not_mem_nil, or_false] at he
    rcases he with rfl | rfl | rfl
    · exact .scalar (.natural _)
    · exact .scalar (.text _)
    · exact .scalar (.text _)
  · simp only [List.mem_cons, List.not_mem_nil, or_false] at he
    rcases he with rfl | rfl | rfl | rfl
    · exact printable_watcherTable s.watcher
    · refine ⟨_, rfl, Toml.printable_of_flat (by simp) (fun e he => ?_) 1⟩
      obtain rfl := List.mem_singleton.mp he
      exact .scalar (.natural _)
    · refine ⟨_, rfl, ?_, [], _, rfl, fun _ h => absurd h List.not_mem_nil, fun e he => ?_⟩
      · rw [List.map_map]
        exact s.languages.nodup_sorted
      · obtain ⟨e, -, rfl⟩ := List.mem_map.mp he
        exact printable_languageTable e.2
    · exact printable_loggingTable s.logging

/-- Settings all of whose numbers can be written in a document. -/
structure Writable (s : Settings) : Prop where
  debounce : s.watcher.debounce < Nat.pow 2 63
  sweepInterval : s.watcher.sweepInterval < Nat.pow 2 63
  helperTimeout : s.helperTimeout < Nat.pow 2 63

theorem isWritable_natCast (n : Nat) : Toml.isWritable n = decide (n < Nat.pow 2 63) := by
  have hbound : Int.pow 2 63 = 9223372036854775808 := by decide
  have hnat : Nat.pow 2 63 = 9223372036854775808 := by decide
  rw [Bool.eq_iff_iff, hnat]
  simp only [Toml.isWritable, hbound, Bool.and_eq_true, decide_eq_true_eq]
  omega

theorem allFit_texts (texts : List String) : Toml.allFit (texts.map .text) = true := by
  induction texts with
  | nil => rfl
  | cons text texts ih => simp [Toml.allFit, Toml.fits, ih]

theorem entriesFit_map {α : Type} {table : α → Toml} (htable : ∀ a, (table a).fits = true)
    (entries : List (String × α)) :
    Toml.entriesFit (entries.map fun (key, a) => (key, table a)) = true := by
  induction entries with
  | nil => rfl
  | cons e entries ih => rw [List.map_cons, Toml.entriesFit, ih, htable, Bool.and_true]

theorem fits_languageTable (l : LanguageSettings) : (languageTable l).fits = true := by
  simp [languageTable, Toml.fits, Toml.entriesFit, allFit_texts]

theorem fits_loggingTable (g : LoggingSettings) : (loggingTable g).fits = true := by
  have hmodules := @entriesFit_map _ .text (fun _ => rfl) g.modules.sorted
  simp [loggingTable, Toml.fits, Toml.entriesFit, hmodules]

theorem entriesFit_iff (hs : InRange s) : Toml.entriesFit s.entries = true ↔ Writable s := by
  have hversion : s.version < Nat.pow 2 63 := Nat.lt_trans hs.version (by decide)
  have hlanguages := entriesFit_map fits_languageTable s.languages.sorted
  simp only [entries, watcherTable, Toml.entriesFit, Toml.fits, isWritable_natCast, hlanguages,
    fits_loggingTable, Bool.and_eq_true, decide_eq_true_eq, hversion, true_and, and_true]
  exact ⟨fun h => ⟨h.1.1, h.1.2, h.2⟩, fun h => ⟨⟨h.debounce, h.sweepInterval⟩, h.helperTimeout⟩⟩

/-- The document of settings is read back if its numbers can be written. -/
theorem readDocument?_print (s : Settings) :
    readDocument? (Text.bytesOf (String.ofList s.print)) =
      if Toml.entriesFit s.entries then some (.table s.entries) else none := by
  have hread := (printable_entries s).ofText?_print (by decide)
  unfold readDocument?
  rw [Text.bytesOf_eq, String.toList_ofList, Text.Utf8.decode?_encode, Option.bind_some, print, hread]

/-! ## The file -/

/-- A path at which a document is looked for where it is saved: it is absolute, or the working
directory is there and the path from the root is not too long. -/
def IsFound (disk : Disk) (path : Path) : Prop :=
  path.isAbsolute = true ∨ (disk.view disk.here = some .aFolder ∧
    (∀ name ∈ disk.here, IsEntryName name ∧ name.length ≤ Disk.maxName) ∧
    Disk.refusal? ((Disk.pathOf disk.here).join path) = none)

theorem written_of_save (h : s.save disk path = (.ok (), saved)) :
    Disk.Written disk saved path (Text.bytesOf (String.ofList s.print)) := by
  unfold save writeText at h
  split at h
  · cases h
  · rename_i folder _
    have hgrown := (Disk.grown_createFolders disk folder).1
    split at h
    · cases h
    · rename_i created hcreated
      rw [hcreated] at hgrown
      split at h
      · cases h
      · rename_i last hlast
        cases h
        exact (Disk.written_of_writeFile hlast).of_grown hgrown

theorem isFile_of_entry {content : Text.Bytes} {executable : Bool}
    (h : disk.entry true path = .ok (.file content executable)) : isFile disk path = true := by
  rw [isFile, h]

/-- The directory that is looked into first is the working directory. -/
theorem foldersUpward_here (here : List Text.Bytes) :
    ∃ above, foldersUpward here.reverse = Disk.pathOf here :: above := by
  cases hreverse : here.reverse with
  | nil =>
      rw [List.reverse_eq_nil_iff.mp hreverse]
      exact ⟨[], rfl⟩
  | cons name outer =>
      have hhere : here = (name :: outer).reverse := by rw [← hreverse, List.reverse_reverse]
      rw [hhere]
      exact ⟨foldersUpward outer, rfl⟩

theorem findDocument?_written {content : Text.Bytes} (hw : Disk.Written disk saved path content)
    (hfound : IsFound disk path) :
    ∃ at_, findDocument? saved path = some at_ ∧ saved.contents at_ = .ok content := by
  obtain ⟨target, executable, hseek⟩ := hw.found
  have hread : ∀ at_, saved.seek true at_ = saved.seek true path →
      isFile saved at_ = true ∧ saved.contents at_ = .ok content := by
    intro at_ hsame
    rw [hseek] at hsame
    refine ⟨isFile_of_entry (Disk.entry_of_file hsame), ?_⟩
    rw [Disk.contents_eq, hsame]
    rfl
  by_cases habsolute : path.isAbsolute = true
  · obtain ⟨hfile, hcontents⟩ := hread path rfl
    exact ⟨path, by rw [findDocument?, if_pos habsolute, if_pos hfile], hcontents⟩
  · obtain ⟨hhere, hnames, hallowed⟩ := hfound.resolve_left habsolute
    have hrelative : Disk.refusal? path = none := by
      cases hrefusal : Disk.refusal? path with
      | none => rfl
      | some e => simp [Disk.seek, hrefusal] at hseek
    rw [← hw.here] at hhere hnames hallowed
    obtain ⟨hfile, hcontents⟩ := hread _ (Disk.seek_from_root (hw.folders _ hhere) hnames
      (by simpa using habsolute) hallowed hrelative)
    obtain ⟨above, habove⟩ := foldersUpward_here saved.here
    refine ⟨_, ?_, hcontents⟩
    rw [findDocument?, if_neg habsolute, habove, List.map_cons, List.find?_cons, hfile]

/-- The layer of a saved document has every setting, if its numbers can be written. -/
theorem documentLayer_saved (h : s.save disk path = (.ok (), saved))
    (hfound : IsFound disk path) : documentLayer saved path =
      if Toml.entriesFit s.entries then .ok (.table s.entries) else .error ⟨.malformed, []⟩ := by
  obtain ⟨at_, hat, hcontents⟩ := findDocument?_written (written_of_save h) hfound
  unfold documentLayer
  rw [hat]
  dsimp only
  rw [hcontents]
  dsimp only
  rw [readDocument?_print]
  by_cases hfit : Toml.entriesFit s.entries = true
  · rw [if_pos hfit, if_pos hfit]
  · rw [if_neg hfit, if_neg hfit]

/-! ## What comes back -/

/-- Settings with all languages that are there where nothing is set. -/
def NamesDefaults (s : Settings) : Prop :=
  ∀ key, (defaultLanguages.get? key).isSome = true → (s.languages.get? key).isSome = true

theorem lookup_merged_isSome {base : Settings} {key : String} (s : Settings)
    (hkey : (base.languages.get? key).isSome = true) :
    (List.lookup key (Toml.mergeEntries
      (base.languages.sorted.map fun (key, l) => (key, languageTable l))
      (s.languages.sorted.map fun (key, l) => (key, languageTable l)))).isSome = true := by
  rw [Toml.lookup_mergeEntries _ ((distinct_entries s).of_lookup (lookup_languages s)).nodup,
    Toml.laid_isSome, Option.isSome_or, OrderedMap.lookup_map, OrderedMap.lookup_map,
    OrderedMap.lookup_sorted, OrderedMap.lookup_sorted, Option.isSome_map, Option.isSome_map,
    hkey, Bool.or_true]

/-- Settings written out above others do not take languages away. -/
theorem languages_of_decode {base start other : Settings} {key : String}
    (h : decode start (.table (Toml.mergeEntries base.entries s.entries)) = .ok other)
    (hkey : (base.languages.get? key).isSome = true) :
    (other.languages.get? key).isSome = true := by
  have hdistinct := (distinct_entries s).merge (distinct_entries base)
  rw [Toml.merge_tables] at hdistinct
  have hlookup : (Toml.mergeEntries base.entries s.entries).lookup "languages" = some (.table _) :=
    Toml.lookup_mergeEntries_tables (distinct_entries s).nodup (lookup_languages base)
      (lookup_languages s)
  have hread := (settingsRead hdistinct.nodup h).languages
  rw [hlookup] at hread
  have hget := get?_of_mapOf (hdistinct.of_lookup hlookup).nodup hread key
  obtain ⟨value, hvalue⟩ := Option.isSome_iff_exists.mp (lookup_merged_isSome s hkey)
  rw [hvalue] at hget
  obtain ⟨l, -, hl⟩ := hget
  rw [hl]
  rfl

/-- Where nothing else is set, saved settings lie above those that hold then. -/
theorem load_saved (hsave : s.save disk path = (.ok (), saved)) (hfound : IsFound disk path)
    (hlater : variableLayer later = .table []) : load saved later path =
      if Toml.entriesFit s.entries then
        decode (ofEnvironment later)
          (.table (Toml.mergeEntries (ofEnvironment later).entries s.entries))
      else .error ⟨.malformed, []⟩ := by
  have hdocument := documentLayer_saved hsave hfound
  by_cases hfit : Toml.entriesFit s.entries = true
  · rw [if_pos hfit] at hdocument ⊢
    rw [load_eq hdocument, layers, hlater, Toml.merge_tables, Toml.merge_tables]
    rfl
  · rw [if_neg hfit] at hdocument ⊢
    rw [load, hdocument]
    rfl

/-- **Saved settings are loaded again**, wherever nothing else is set, exactly if they have all
languages that are there by default and all their numbers can be written. -/
theorem load_save_iff {source : Path} {first : Disk} (hload : load first environment source = .ok s)
    (hsave : s.save disk path = (.ok (), saved)) (hfound : IsFound disk path)
    (hlater : variableLayer later = .table []) :
    load saved later path = .ok s ↔ NamesDefaults s ∧ Writable s := by
  have hs := inRange_of_load hload
  rw [load_saved hsave hfound hlater]
  constructor
  · intro h
    split at h
    · rename_i hfit
      exact ⟨fun key hkey => languages_of_decode h hkey, (entriesFit_iff hs).mp hfit⟩
    · cases h
  · rintro ⟨hnames, hwritable⟩
    have hspells : Spells (Toml.mergeEntries (ofEnvironment later).entries s.entries) s :=
      spells_merge hnames rfl
    rw [if_pos ((entriesFit_iff hs).mpr hwritable)]
    exact hspells.decode_eq hs

theorem save_of_fst (h : (s.save disk path).1 = .ok ()) :
    s.save disk path = (.ok (), (s.save disk path).2) :=
  Prod.ext h rfl

/-- Settings from a document and a variable come back where the directory for data is another. -/
theorem load_save_fastPath :
    load ((layeredSettings false).save layeredDisk (.ofString "/t.toml")).2
      ⟨[("XDG_DATA_HOME", "/y")], none⟩ (.ofString "/t.toml") = .ok (layeredSettings false) :=
  (load_save_iff (load_layered false) (save_of_fst (by decide +kernel)) (.inl (by decide +kernel))
    (by decide +kernel)).mpr ⟨fun _ hkey => hkey, by decide, by decide, by decide⟩

/-! ## Languages that come back -/

/-- A document that takes all languages away. -/
def barrenDisk : Disk :=
  ⟨.file (Text.bytesOf "s.toml") (Text.bytesOf "languages = 5\n") false .empty, []⟩

/-- A variable that names one language. -/
def barrenEnvironment : Environment :=
  { bindings := [("XDG_DATA_HOME", "/x"),
      ("TW_LANGUAGES", "\x7bgo=\x7benabled=true,extensions=[go]\x7d\x7d")] }

def barrenSettings : Settings :=
  { ofEnvironment barrenEnvironment with languages := ⟨[("go", ⟨true, ["go"]⟩)], by decide⟩ }

theorem sorted_barrenLanguages :
    barrenSettings.languages.sorted = barrenSettings.languages.entries :=
  OrderedMap.sorted_of_pairwise (by decide +kernel)

theorem load_barren : load barrenDisk barrenEnvironment (.ofString "/s.toml") =
    .ok barrenSettings := by
  have hdocument : documentLayer barrenDisk (.ofString "/s.toml") =
      .ok (.table [("languages", .integer 5)]) := by
    decide +kernel
  have hvariables : variableLayer barrenEnvironment = .table [("languages", .table
      [("go", .table [("enabled", .bool true), ("extensions", .array [.text "go"])])])] := by
    decide +kernel
  have hrange := inRange_ofEnvironment barrenEnvironment
  refine load_of_layers hdocument { hrange with languages := sorted_barrenLanguages } ?_
  rw [layers, hvariables]
  conv_rhs => rw [entries, sorted_barrenLanguages]
  rfl

/-- Settings without a language that is there by default do not come back. -/
theorem not_load_save : ¬ ∀ (first disk : Disk) (environment later : Environment)
    (source path : Path) (s : Settings), load first environment source = .ok s →
    variableLayer later = .table [] → (s.save disk path).1 = .ok () →
    load (s.save disk path).2 later path = .ok s := by
  intro hall
  have hdone : (barrenSettings.save barrenDisk (.ofString "/t.toml")).1 = .ok () := by
    decide +kernel
  have hagain := hall barrenDisk barrenDisk barrenEnvironment ⟨[], none⟩ (.ofString "/s.toml")
    (.ofString "/t.toml") barrenSettings load_barren rfl hdone
  have habsolute : (Path.ofString "/t.toml").isAbsolute = true := by decide +kernel
  have hsave := save_of_fst hdone
  generalize (barrenSettings.save barrenDisk (.ofString "/t.toml")).2 = saved at hagain hsave
  rw [load_saved hsave (.inl habsolute) rfl] at hagain
  split at hagain
  · have hpython : (defaultLanguages.get? "python").isSome = true := by decide +kernel
    have hkept := languages_of_decode hagain hpython
    revert hkept
    decide
  · cases hagain

end TodoIndex.Settings
