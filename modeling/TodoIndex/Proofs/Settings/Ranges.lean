import TodoIndex.Proofs.Settings.Leaves

/-! # What reading makes sure of

However a group of settings is written, as a table or as an array, its numbers are in range, its
maps are in the order of their names, and its directory is spelled by a text.
-/

namespace TodoIndex.Settings

/-! ## Groups keep what their fields keep -/

section
variable {σ α : Type} {I : σ → Prop} {fields : List (Field σ)} {decode : Decoder α}
  {start result : σ} {value : Toml}

/-- A field does not break a condition on the group. -/
def Preserves (I : σ → Prop) (f : Field σ) : Prop :=
  ∀ value group next, I group → f.2 value group = .ok next → I next

theorem preserves_field {key : String} {put : α → σ → σ}
    (h : ∀ value a group, decode value = .ok a → I group → I (put a group)) :
    Preserves I (field key decode put) := by
  intro value group next hgroup hnext
  obtain ⟨a, ha, rfl⟩ := map_eq_ok.mp hnext
  exact h value a group ha hgroup

theorem setFields_preserves {setters : List (String × (σ → Except SettingsError σ))}
    (hsetters : ∀ e ∈ setters, ∀ group next, I group → e.2 group = .ok next → I next)
    (hstart : I start) (h : setFields setters start = .ok result) : I result := by
  induction setters generalizing start with
  | nil =>
      cases h
      exact hstart
  | cons e setters ih =>
      obtain ⟨key, set⟩ := e
      obtain ⟨hset, hrest⟩ := List.forall_mem_cons.mp hsetters
      obtain ⟨next, hnext, h⟩ := setFields_cons.mp h
      exact ih hrest (hset start next hstart hnext) h

/-- **What holds of a group at first and is kept by its fields holds of what is read.** -/
theorem group_preserves (I : σ → Prop) (hfields : ∀ f ∈ fields, Preserves I f) (hstart : I start)
    (h : group fields start value = .ok result) : I result := by
  cases value with
  | table entries =>
      refine setFields_preserves (fun e he => ?_) hstart h
      obtain ⟨entry, -, hset⟩ := List.mem_filterMap.mp he
      obtain ⟨set, hfield, rfl⟩ := Option.map_eq_some_iff.mp hset
      exact hfields _ (OrderedMap.mem_of_lookup hfield) entry.2
  | array items =>
      refine setFields_preserves (fun e he => ?_) hstart h
      obtain ⟨⟨entry, f⟩, hzip, rfl⟩ := List.mem_map.mp he
      exact hfields f (List.of_mem_zip hzip).2 entry.2
  | _ => cases h

end

/-! ## Ranges -/

/-- A path that is spelled by a text. -/
def IsText (path : Path) : Prop :=
  ∃ name, path = .ofString name

theorem IsText.ofString_display {path : Path} (h : IsText path) :
    Path.ofString path.display = path := by
  obtain ⟨name, rfl⟩ := h
  simp [Path.display, Path.ofString]

theorem bytesOf_append (s t : String) :
    Text.bytesOf (s ++ t) = Text.bytesOf s ++ Text.bytesOf t := by
  simp [Text.bytesOf_eq, Text.Utf8.encode]

theorem IsText.join {p q : Path} (hp : IsText p) (hq : IsText q) : IsText (p.join q) := by
  obtain ⟨s, rfl⟩ := hp
  obtain ⟨t, rfl⟩ := hq
  have hslash : Text.bytesOf "/" = [Path.slash] := by decide +kernel
  unfold Path.join
  split
  · exact ⟨t, rfl⟩
  · split
    · exact ⟨s ++ t, congrArg Path.mk (bytesOf_append s t).symm⟩
    · have hbytes : Text.bytesOf (s ++ ("/" ++ t)) =
          Text.bytesOf s ++ Path.slash :: Text.bytesOf t := by
        rw [bytesOf_append, bytesOf_append, hslash, List.singleton_append]
      exact ⟨s ++ ("/" ++ t), congrArg Path.mk hbytes.symm⟩

/-- Settings as they are read. -/
structure InRange (s : Settings) : Prop where
  version : s.version < Nat.pow 2 32
  dataFolder : IsText s.dataFolder
  debounce : s.watcher.debounce < Nat.pow 2 64
  sweepInterval : s.watcher.sweepInterval < Nat.pow 2 64
  helperTimeout : s.helperTimeout < Nat.pow 2 64
  languages : s.languages.sorted = s.languages.entries
  modules : s.logging.modules.sorted = s.logging.modules.entries

theorem lt_of_naturalOf {bits n : Nat} {value : Toml} (h : naturalOf bits value = .ok n) :
    n < Nat.pow 2 bits := by
  rw [exact_naturalOf bits value n h] at h
  exact naturalOf_natCast.mp h

theorem watcher_inRange {value : Toml} {w : WatcherSettings} (h : watcherOf value = .ok w) :
    w.debounce < Nat.pow 2 64 ∧ w.sweepInterval < Nat.pow 2 64 := by
  refine group_preserves (fun w => w.debounce < Nat.pow 2 64 ∧ w.sweepInterval < Nat.pow 2 64)
    (fun f hf => ?_) ⟨by decide, by decide⟩ h
  simp only [List.mem_cons, List.not_mem_nil, or_false] at hf
  rcases hf with rfl | rfl | rfl
  · exact preserves_field fun value n w hn hw => ⟨lt_of_naturalOf hn, hw.2⟩
  · exact preserves_field fun value n w hn hw => ⟨hw.1, lt_of_naturalOf hn⟩
  · exact preserves_field fun value b w hb hw => hw

theorem helpers_inRange {value : Toml} {n : Nat} (h : helpersOf value = .ok n) :
    n < Nat.pow 2 64 := by
  refine group_preserves (fun n => n < Nat.pow 2 64) (fun f hf => ?_) (by decide) h
  obtain rfl := List.mem_singleton.mp hf
  exact preserves_field fun value n _ hn _ => lt_of_naturalOf hn

theorem logging_inRange {value : Toml} {g : LoggingSettings} (h : loggingOf value = .ok g) :
    g.modules.sorted = g.modules.entries := by
  refine group_preserves (fun g => g.modules.sorted = g.modules.entries) (fun f hf => ?_)
    (List.mergeSort_of_pairwise List.Pairwise.nil) h
  simp only [List.mem_cons, List.not_mem_nil, or_false] at hf
  rcases hf with rfl | rfl
  · exact preserves_field fun value level g hlevel hg => hg
  · exact preserves_field fun value m g hm hg => sorted_of_mapOf hm

/-- **Settings that are read are in range** if those are that hold where nothing is set. -/
theorem inRange_of_decode {value : Toml} {start s : Settings} (hstart : InRange start)
    (h : decode start value = .ok s) : InRange s := by
  refine group_preserves InRange (fun f hf => ?_) hstart h
  simp only [List.mem_cons, List.not_mem_nil, or_false] at hf
  rcases hf with rfl | rfl | rfl | rfl | rfl | rfl | rfl
  · exact preserves_field fun value n s hn hs => { hs with version := lt_of_naturalOf hn }
  · exact preserves_field fun value name s hname hs => { hs with dataFolder := ⟨name, rfl⟩ }
  · exact preserves_field fun value name s hname hs => { hs with }
  · refine preserves_field fun value w s hw hs => ?_
    have hwatcher := watcher_inRange hw
    exact { hs with debounce := hwatcher.1, sweepInterval := hwatcher.2 }
  · exact preserves_field fun value n s hn hs => { hs with helperTimeout := helpers_inRange hn }
  · exact preserves_field fun value m s hm hs => { hs with languages := sorted_of_mapOf hm }
  · exact preserves_field fun value g s hg hs => { hs with modules := logging_inRange hg }

theorem isText_defaultFolder (environment : Environment) : IsText (defaultFolder environment) := by
  have hfolder : ∀ folder, programsFolder? environment = some folder → IsText folder := by
    intro folder h
    unfold programsFolder? at h
    split at h
    · split at h
      · cases h
        exact ⟨_, rfl⟩
      · cases h
    · cases h
  have hnamed : ∀ name folder, folderNamed? name = some folder → IsText folder := by
    intro name folder h
    unfold folderNamed? at h
    split at h
    · split at h
      · cases h
      · cases h
        exact ⟨_, rfl⟩
    · cases h
  have hhome : ∀ folder, home? environment = some folder → IsText folder := by
    intro folder h
    rcases Option.or_eq_some_iff.mp h with h | ⟨-, h⟩
    · exact hnamed _ _ h
    · exact hnamed _ _ h
  unfold defaultFolder
  split
  · rename_i hprograms
    exact (hfolder _ hprograms).join ⟨_, rfl⟩
  · rename_i hhomes
    exact (hhome _ hhomes).join ⟨_, rfl⟩
  · exact ⟨_, rfl⟩

theorem sorted_defaultLanguages : defaultLanguages.sorted = defaultLanguages.entries :=
  OrderedMap.sorted_of_pairwise (by decide +kernel)

theorem inRange_ofEnvironment (environment : Environment) :
    InRange (ofEnvironment environment) where
  version := show 1 < Nat.pow 2 32 by decide
  dataFolder := isText_defaultFolder environment
  debounce := show 2000 < Nat.pow 2 64 by decide
  sweepInterval := show 500 < Nat.pow 2 64 by decide
  helperTimeout := show 30 < Nat.pow 2 64 by decide
  languages := sorted_defaultLanguages
  modules := List.mergeSort_of_pairwise List.Pairwise.nil

theorem inRange_of_load {disk : Disk} {environment : Environment} {path : Path} {s : Settings}
    (h : load disk environment path = .ok s) : InRange s := by
  obtain ⟨document, -, hdecode⟩ := bind_eq_ok.mp h
  exact inRange_of_decode (inRange_ofEnvironment environment) hdecode

end TodoIndex.Settings
