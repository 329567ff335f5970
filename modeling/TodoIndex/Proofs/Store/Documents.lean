import Mathlib.Data.List.Forall2
import TodoIndex.Proofs.Json.Printing
import TodoIndex.Proofs.OrderedMap
import TodoIndex.Store.Saving

/-! # Reading back store documents

A store is read back from its document with its remarks as they are recorded there: bytes of
their paths that are no text are lost.  The stores that come of remarks in files whose paths are
text lose nothing.  The same goes for every document that an older version could have written.
-/

namespace TodoIndex

namespace Remark

/-- A remark as remarks are made in files whose paths are text. -/
def IsMade (r : Remark) : Prop :=
  ∃ comment path line function, r = make comment (Path.ofString path) line function

theorem nameOf_nameOf (function : Option String) : nameOf (nameOf function) = nameOf function := by
  simp [nameOf, Option.filter_filter]

/-- A remark as a document records it. -/
def recorded (r : Remark) : Remark :=
  ⟨r.comment, Path.ofString r.path.display, r.line, nameOf r.function⟩

theorem IsMade.recorded_eq {r : Remark} (h : r.IsMade) : r.recorded = r := by
  obtain ⟨comment, path, line, function, rfl⟩ := h
  simp [recorded, make, Path.display, Path.ofString, nameOf_nameOf]

end Remark

namespace Store

/-- The stores that come of the empty store or a loaded one by changes. -/
inductive Built : Store → Prop where
  | empty : Built empty
  | load {disk : Disk} {path : Path} {s : Store} : load disk path = .ok s → Built s
  | replaceProject {s : Store} (name : String) {remarks : List Remark} :
      Built s → (∀ r ∈ remarks, r.IsMade) → Built (s.replaceProject name remarks).2
  | addSingle {s : Store} (name : String) {remark : Remark} :
      Built s → remark.IsMade → Built (s.addSingle name remark).2
  | removeProject {s : Store} (name : String) : Built s → Built (s.removeProject name).2

/-! ## The documents of older versions -/

/-- The last field of a remark.  Older versions left it out or wrote an empty name where there
is no function. -/
inductive FunctionForm : Option String → List (String × Json) → Prop where
  | name (f : String) : FunctionForm (some f) [("function", .ofString f)]
  | null : FunctionForm none [("function", .null)]
  | blank : FunctionForm none [("function", .ofString "")]
  | absent : FunctionForm none []

/-- The forms of a remark. -/
inductive RemarkForm (r : Remark) : Json → Prop where
  | mk {function : List (String × Json)} : FunctionForm r.function function →
      RemarkForm r (.ofFields
        ([("comment", .ofString r.comment), ("file_path", .ofString r.path.display),
          ("line_number", .natural r.line.toNat)] ++ function))

/-- The forms of the remarks of a project.  Older versions wrote `null` where there are none. -/
inductive RemarksForm : List Remark → Json → Prop where
  | array {remarks : List Remark} {items : List Json} :
      List.Forall₂ RemarkForm remarks items → RemarksForm remarks (.array items)
  | null : RemarksForm [] .null

/-- The forms of a project under its name. -/
def ProjectForm (project : String × List Remark) (field : String × Json) : Prop :=
  field.1 = project.1 ∧ RemarksForm project.2 field.2

/-- The forms of a store.  Older versions wrote `null`, or nothing, where there are no projects. -/
inductive Form (s : Store) : Json → Prop where
  | projects {fields : List (String × Json)} :
      List.Forall₂ ProjectForm s.projects.entries fields →
        Form s (.ofFields [("projects", .ofFields fields)])
  | null : s.isEmpty = true → Form s (.ofFields [("projects", .null)])
  | absent : s.isEmpty = true → Form s (.ofFields [])

/-! ## Stores hold made remarks -/

/-- All remarks of a store are made remarks. -/
def HoldsMade (s : Store) : Prop :=
  ∀ entry ∈ s.projects.entries, ∀ r ∈ entry.2, r.IsMade

/-- A store as its document records it. -/
def recorded (s : Store) : Store :=
  ⟨s.projects.map (List.map Remark.recorded)⟩

theorem HoldsMade.recorded_eq {s : Store} (h : s.HoldsMade) : s.recorded = s := by
  obtain ⟨projects⟩ := s
  have hentries : ∀ entry ∈ projects.entries,
      (entry.1, entry.2.map Remark.recorded) = entry := by
    intro entry hentry
    have hremarks : entry.2.map Remark.recorded = entry.2.map id :=
      List.map_congr_left fun r hr => (h entry hentry r hr).recorded_eq
    rw [hremarks, List.map_id]
  refine congrArg Store.mk (OrderedMap.ext ?_)
  exact (List.map_congr_left hentries).trans (List.map_id _)

theorem isMade_of_remarkOfJson? {value : Json} {r : Remark} (h : remarkOfJson? value = some r) :
    r.IsMade := by
  simp only [remarkOfJson?, Option.bind_eq_bind, Option.bind_eq_some_iff] at h
  obtain ⟨fields, -, h⟩ := h
  split at h
  · rename_i function
    simp only [Option.bind_eq_some_iff, Option.some.injEq] at h
    obtain ⟨comment, -, path, -, line, -, name, hname, rfl⟩ := h
    have hnamed : Remark.nameOf name = name := by
      cases function with
      | none =>
          cases hname
          rfl
      | some value =>
          obtain ⟨written, -, rfl⟩ := Option.map_eq_some_iff.mp hname
          exact Remark.nameOf_nameOf written
    exact ⟨comment, path, line, name, by rw [Remark.make, hnamed]⟩
  · cases h

theorem isMade_of_remarksOfJson? {value : Json} {remarks : List Remark}
    (h : remarksOfJson? value = some remarks) : ∀ r ∈ remarks, r.IsMade := by
  intro r hr
  obtain ⟨found, hfound, rfl⟩ := Option.map_eq_some_iff.mp h
  unfold Json.nullable? at hfound
  split at hfound
  · cases hfound
    cases hr
  · obtain ⟨read, hread, rfl⟩ := Option.map_eq_some_iff.mp hfound
    obtain ⟨items, -, hitems⟩ := Option.bind_eq_some_iff.mp hread
    obtain ⟨item, -, hitem⟩ := exists_of_mem_mapM hitems hr
    exact isMade_of_remarkOfJson? hitem

theorem holdsMade_empty : HoldsMade empty := by
  intro entry hentry
  cases hentry

theorem holdsMade_of_ofJson? {value : Json} {s : Store} (h : ofJson? value = some s) :
    s.HoldsMade := by
  simp only [ofJson?, Option.bind_eq_bind, Option.bind_eq_some_iff] at h
  obtain ⟨fields, -, h⟩ := h
  split at h
  · rename_i field
    obtain ⟨projects, hprojects, rfl⟩ := Option.map_eq_some_iff.mp h
    cases field with
    | none =>
        cases hprojects
        exact holdsMade_empty
    | some value =>
        obtain ⟨found, hfound, rfl⟩ := Option.map_eq_some_iff.mp hprojects
        intro entry hentry
        replace hentry := OrderedMap.mem_of_mem_ofList hentry
        unfold Json.nullable? at hfound
        split at hfound
        · cases hfound
          cases hentry
        · obtain ⟨entries, hread, rfl⟩ := Option.map_eq_some_iff.mp hfound
          obtain ⟨read, -, hentries⟩ := Option.bind_eq_some_iff.mp hread
          obtain ⟨item, -, hitem⟩ := exists_of_mem_mapM hentries hentry
          obtain ⟨remarks, hremarks, rfl⟩ := Option.map_eq_some_iff.mp hitem
          exact isMade_of_remarksOfJson? hremarks
  · cases h

theorem holdsMade_of_load {disk : Disk} {path : Path} {s : Store} (h : load disk path = .ok s) :
    s.HoldsMade := by
  unfold load at h
  split at h
  · split at h
    · rename_i store hdocument
      cases h
      unfold ofDocument? at hdocument
      split at hdocument
      · cases hdocument
        exact holdsMade_empty
      · obtain ⟨value, -, hvalue⟩ := Option.bind_eq_some_iff.mp hdocument
        exact holdsMade_of_ofJson? hvalue
    · cases h
  · cases h
    exact holdsMade_empty
  · cases h

theorem HoldsMade.replaceProject {s : Store} (h : s.HoldsMade) (name : String)
    {remarks : List Remark} (hremarks : ∀ r ∈ remarks, r.IsMade) :
    (s.replaceProject name remarks).2.HoldsMade := by
  rw [replaceProject_eq]
  intro entry hentry
  rcases OrderedMap.mem_setEntry hentry with rfl | hold
  · exact hremarks
  · exact h entry hold

theorem HoldsMade.project? {s : Store} (h : s.HoldsMade) {name : String} {remarks : List Remark}
    (hproject : s.project? name = some remarks) : ∀ r ∈ remarks, r.IsMade :=
  h _ (OrderedMap.mem_of_get? hproject)

theorem HoldsMade.addSingle {s : Store} (h : s.HoldsMade) (name : String) {remark : Remark}
    (hremark : remark.IsMade) : (s.addSingle name remark).2.HoldsMade := by
  unfold Store.addSingle
  dsimp only
  split
  · exact h
  · refine h.replaceProject name fun r hr => ?_
    rcases List.mem_append.mp hr with hr | hr
    · cases hproject : s.project? name with
      | none =>
          rw [hproject] at hr
          cases hr
      | some old =>
          rw [hproject] at hr
          exact h.project? hproject r hr
    · rwa [List.mem_singleton.mp hr]

theorem Built.holdsMade {s : Store} (h : Built s) : s.HoldsMade := by
  induction h with
  | empty => exact holdsMade_empty
  | load hload => exact holdsMade_of_load hload
  | replaceProject name _ hremarks ih => exact ih.replaceProject name hremarks
  | addSingle name _ hremark ih => exact ih.addSingle name hremark
  | removeProject name _ ih =>
      rw [removeProject_eq]
      intro entry hentry
      exact ih entry (List.mem_filter.mp hentry).1

/-! ## Forms are read back -/

theorem mapM_ofFields (fields : List (String × Json)) :
    (fields.map fun (name, value) => (some name.toList, value)).mapM
      (fun (name, value) => name.map fun name => (String.ofList name, value)) = some fields := by
  induction fields with
  | nil => rfl
  | cons field fields ih =>
      rw [List.map_cons, List.mapM_cons, ih]
      simp

theorem entries?_ofFields (fields : List (String × Json)) :
    (Json.ofFields fields).entries? = some fields :=
  mapM_ofFields fields

theorem record?_ofFields (names : List String) (fields : List (String × Json)) :
    Json.record? names (.ofFields fields) = names.mapM (Json.once? fields) := by
  have hentries := entries?_ofFields fields
  unfold Json.record?
  split
  · rename_i heq
    cases heq
  · rw [hentries]

@[simp] theorem string?_ofString (s : String) : (Json.ofString s).string? = some s := by
  simp [Json.ofString, Json.string?]

theorem mapM_of_forall₂ {α β γ : Type} {R : α → β → Prop} {read : β → Option γ} {f : α → γ}
    {xs : List α} {ys : List β} (h : List.Forall₂ R xs ys)
    (hread : ∀ x y, R x y → read y = some (f x)) : ys.mapM read = some (xs.map f) := by
  induction h with
  | nil => rfl
  | cons hxy _ ih =>
      rw [List.mapM_cons, hread _ _ hxy, ih]
      rfl

theorem functionOfJson?_of_form {name : Option String} {fields : List (String × Json)}
    (h : FunctionForm name fields) :
    (Json.once? fields "function").bind (Json.optional? none functionOfJson?) =
      some (Remark.nameOf name) := by
  cases h with
  | name f =>
      have hread : functionOfJson? (.ofString f) = some (Remark.nameOf (some f)) := by
        simp [functionOfJson?, Json.nullable?, Json.ofString, Json.string?]
      rw [← hread]
      rfl
  | null => rfl
  | blank => rfl
  | absent => rfl

/-- The fields of a remark before its function are there, once and under their names. -/
theorem record?_of_form {name : Option String} {fields : List (String × Json)}
    (h : FunctionForm name fields) (comment path line : Json) :
    Json.record? ["comment", "file_path", "line_number", "function"]
        (.ofFields ([("comment", comment), ("file_path", path), ("line_number", line)] ++ fields)) =
      (Json.once? fields "function").map fun function =>
        [some comment, some path, some line, function] := by
  rw [record?_ofFields]
  cases h <;> rfl

theorem remarkOfJson?_of_form {r : Remark} {value : Json} (h : RemarkForm r value) :
    remarkOfJson? value = some r.recorded := by
  obtain ⟨hform⟩ := h
  have hfunction := functionOfJson?_of_form hform
  obtain ⟨field, hfield, hread⟩ := Option.bind_eq_some_iff.mp hfunction
  have hword : Json.word? (.natural r.line.toNat) = some r.line := by
    rw [Json.word?, if_pos (UInt32.toNat_lt_size r.line), UInt32.ofNat_toNat]
  rw [remarkOfJson?, record?_of_form hform, hfield]
  simp [Json.required?, hword, hread, Remark.recorded]

theorem remarksOfJson?_of_form {remarks : List Remark} {value : Json}
    (h : RemarksForm remarks value) :
    remarksOfJson? value = some (remarks.map Remark.recorded) := by
  cases h with
  | null => rfl
  | @array _ items hitems =>
      have hread : items.mapM remarkOfJson? = some (remarks.map Remark.recorded) :=
        mapM_of_forall₂ hitems fun _ _ => remarkOfJson?_of_form
      simp [remarksOfJson?, Json.nullable?, Json.listOf?, Json.items?, hread]

theorem projectsOfJson?_of_form {projects : OrderedMap (List Remark)}
    {fields : List (String × Json)} (h : List.Forall₂ ProjectForm projects.entries fields) :
    projectsOfJson? (.ofFields fields) = some (projects.map (List.map Remark.recorded)) := by
  have hread : fields.mapM (fun field => (remarksOfJson? field.2).map fun a => (field.1, a)) =
      some (projects.map (List.map Remark.recorded)).entries := by
    refine mapM_of_forall₂ h fun entry field hfield => ?_
    obtain ⟨hname, hremarks⟩ := hfield
    have hvalue := remarksOfJson?_of_form hremarks
    change (remarksOfJson? field.2).map _ = _
    rw [hvalue, Option.map_some, hname]
  have hmap : Json.mapOf? remarksOfJson? (.ofFields fields) =
      some (projects.map (List.map Remark.recorded)).entries := by
    rw [Json.mapOf?, entries?_ofFields]
    exact hread
  have hnull : Json.nullable? (Json.mapOf? remarksOfJson?) (.ofFields fields) =
      some (some (projects.map (List.map Remark.recorded)).entries) := by
    rw [← Option.map_some, ← hmap]
    rfl
  rw [projectsOfJson?, hnull, Option.map_some, Option.getD_some, OrderedMap.ofList_entries]

theorem eq_empty_of_isEmpty {s : Store} (h : s.isEmpty = true) : s = empty := by
  obtain ⟨⟨entries, hdistinct⟩⟩ := s
  have hentries : entries = [] := List.isEmpty_iff.mp h
  subst hentries
  rfl

/-- A store is read from each of its forms. -/
theorem ofJson?_of_form {s : Store} {value : Json} (h : Form s value) :
    ofJson? value = some s.recorded := by
  cases h with
  | @projects fields hfields =>
      have hread := projectsOfJson?_of_form hfields
      rw [ofJson?, record?_ofFields]
      change (Json.optional? .empty projectsOfJson? (some (.ofFields fields))).map _ = _
      rw [Json.optional?, hread]
      rfl
  | null hempty =>
      rw [eq_empty_of_isEmpty hempty]
      rfl
  | absent hempty =>
      rw [eq_empty_of_isEmpty hempty]
      rfl

/-! ## Forms are printed without loss -/

theorem printable_ofFields {fields : List (String × Json)}
    (h : ∀ field ∈ fields, Json.Printable field.2) : Json.Printable (.ofFields fields) := by
  refine .object ?_ ?_
  · intro field hfield
    obtain ⟨written, -, rfl⟩ := List.mem_map.mp hfield
    rfl
  · intro field hfield
    obtain ⟨written, hwritten, rfl⟩ := List.mem_map.mp hfield
    exact h written hwritten

theorem printable_ofString (s : String) : Json.Printable (.ofString s) :=
  .text s.toList

theorem exists_of_forall₂ {α β : Type} {R : α → β → Prop} {xs : List α} {ys : List β} {y : β}
    (h : List.Forall₂ R xs ys) (hy : y ∈ ys) : ∃ x, R x y := by
  induction h with
  | nil => cases hy
  | cons hxy _ ih =>
      rcases List.mem_cons.mp hy with rfl | hy
      · exact ⟨_, hxy⟩
      · exact ih hy

theorem FunctionForm.printable {name : Option String} {fields : List (String × Json)}
    (h : FunctionForm name fields) : ∀ field ∈ fields, Json.Printable field.2 := by
  intro field hfield
  cases h with
  | name f =>
      rw [List.mem_singleton.mp hfield]
      exact printable_ofString f
  | null =>
      rw [List.mem_singleton.mp hfield]
      exact .null
  | blank =>
      rw [List.mem_singleton.mp hfield]
      exact printable_ofString ""
  | absent => cases hfield

theorem RemarkForm.printable {r : Remark} {value : Json} (h : RemarkForm r value) :
    Json.Printable value := by
  obtain ⟨hfunction⟩ := h
  refine printable_ofFields fun field hfield => ?_
  rcases List.mem_append.mp hfield with hfield | hfield
  · simp only [List.mem_cons, List.not_mem_nil, or_false] at hfield
    rcases hfield with rfl | rfl | rfl
    · exact printable_ofString _
    · exact printable_ofString _
    · exact .natural _
  · exact hfunction.printable field hfield

theorem RemarksForm.printable {remarks : List Remark} {value : Json}
    (h : RemarksForm remarks value) : Json.Printable value := by
  cases h with
  | array hitems =>
      refine .array fun item hitem => ?_
      obtain ⟨r, hr⟩ := exists_of_forall₂ hitems hitem
      exact hr.printable
  | null => exact .null

theorem Form.printable {s : Store} {value : Json} (h : Form s value) : Json.Printable value := by
  cases h with
  | @projects fields hfields =>
      refine printable_ofFields fun field hfield => ?_
      rw [List.mem_singleton.mp hfield]
      refine printable_ofFields fun project hproject => ?_
      obtain ⟨entry, -, hremarks⟩ := exists_of_forall₂ hfields hproject
      exact hremarks.printable
  | null _ =>
      refine printable_ofFields fun field hfield => ?_
      rw [List.mem_singleton.mp hfield]
      exact .null
  | absent _ => exact printable_ofFields fun field hfield => by cases hfield

theorem form_remarkToJson (r : Remark) : RemarkForm r (remarkToJson r) := by
  have hfunction : FunctionForm r.function
      [("function", (r.function.map Json.ofString).getD .null)] := by
    cases r.function with
    | none => exact .null
    | some f => exact .name f
  exact .mk hfunction

/-- The document that is written now is one of the forms. -/
theorem form_toJson (s : Store) : Form s s.toJson := by
  refine .projects (List.forall₂_map_right_iff.mpr (List.forall₂_same.mpr fun entry _ => ?_))
  refine ⟨rfl, .array (List.forall₂_map_right_iff.mpr (List.forall₂_same.mpr fun r _ => ?_))⟩
  exact form_remarkToJson r

/-! ## Blank documents -/

theorem signs_of_blank {bytes : Text.Bytes} (h : bytes.all isBlankByte = true) :
    ∀ c ∈ Text.Utf8.signs bytes, Json.isBlank c = true ∨ c = some '\x0c' := by
  induction bytes with
  | nil => exact fun c hc => by cases hc
  | cons b bytes ih =>
      rw [List.all_cons, Bool.and_eq_true] at h
      simp only [isBlankByte, Bool.or_eq_true, beq_iff_eq] at h
      obtain ⟨hb, hbytes⟩ := h
      have hfirst : ∃ c, Text.Utf8.signs (b :: bytes) = some c :: Text.Utf8.signs bytes ∧
          (Json.isBlank (some c) = true ∨ c = '\x0c') := by
        rcases hb with (((rfl | rfl) | rfl) | rfl) | rfl
        · exact ⟨'\t', rfl, .inl rfl⟩
        · exact ⟨'\n', rfl, .inl rfl⟩
        · exact ⟨'\x0c', rfl, .inr rfl⟩
        · exact ⟨'\r', rfl, .inl rfl⟩
        · exact ⟨' ', rfl, .inl rfl⟩
      obtain ⟨c, hsigns, hc⟩ := hfirst
      rw [hsigns]
      refine List.forall_mem_cons.mpr ⟨hc.imp id (congrArg some), ih hbytes⟩

/-- No value is written with blanks alone. -/
theorem ofBytes?_of_blank {bytes : Text.Bytes} (h : bytes.all isBlankByte = true) :
    Json.ofBytes? bytes = none := by
  have hread : ∀ fuel, Json.readValue fuel (Text.Utf8.signs bytes) = none := by
    intro fuel
    cases fuel with
    | zero => rfl
    | succ fuel =>
        rw [Json.readValue]
        cases hskip : Json.skipBlanks (Text.Utf8.signs bytes) with
        | nil => rfl
        | cons c rest =>
            have hdrop : (Text.Utf8.signs bytes).dropWhile Json.isBlank = c :: rest := hskip
            have hmem : c ∈ Text.Utf8.signs bytes := by
              refine (List.dropWhile_sublist Json.isBlank).subset ?_
              rw [hdrop]
              exact List.mem_cons_self
            have hc : Json.isBlank c = false := by
              have hhead := List.head_dropWhile_not Json.isBlank
                (show (Text.Utf8.signs bytes).dropWhile Json.isBlank ≠ [] by simp [hdrop])
              simpa [hdrop] using hhead
            rcases signs_of_blank h c hmem with hblank | rfl
            · rw [hc] at hblank
              cases hblank
            · rfl
  rw [Json.ofBytes?, Json.ofSigns?, hread]

/-- A store is loaded from every document of one of its forms. -/
theorem ofDocument?_of_form {s : Store} {value : Json} {bytes : Text.Bytes} (h : Form s value)
    (hbytes : Json.ofBytes? bytes = some value) : ofDocument? bytes = some s.recorded := by
  unfold ofDocument?
  split
  · rename_i hblank
    rw [ofBytes?_of_blank hblank] at hbytes
    cases hbytes
  · rw [hbytes]
    exact ofJson?_of_form h

/-- A store is loaded from its own document. -/
theorem ofDocument?_document (s : Store) : ofDocument? s.document = some s.recorded :=
  ofDocument?_of_form (form_toJson s) (form_toJson s).printable.ofBytes?_print

end Store

end TodoIndex
