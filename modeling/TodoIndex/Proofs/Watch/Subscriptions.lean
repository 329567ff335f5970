import TodoIndex.Proofs.Files.Paths
import TodoIndex.Proofs.Watch.Reactions

/-! # What is subscribed

What one call and many calls of a source do to the directories that it is subscribed to.  A
directory counts in whatever spelling.  Dropping directories leaves those alone that another
project lists, even if the source refuses a call; a source that accepts every call drops all the
others.
-/

namespace TodoIndex

/-! ## Lists of directories -/

namespace WatchedProject

variable {p : WatchedProject} {folder : Path}

theorem lists_iff : p.lists folder = true ↔ ∃ f ∈ p.folders, f.same folder = true := by
  simp [lists]

theorem lists_of_same {f : Path} (hf : f ∈ p.folders) (hsame : f.same folder = true) :
    p.lists folder = true :=
  lists_iff.mpr ⟨f, hf, hsame⟩

theorem lists_of_mem (h : folder ∈ p.folders) : p.lists folder = true :=
  lists_of_same h (Path.same_self folder)

theorem lists_congr {other : Path} (h : folder.same other = true) :
    p.lists folder = p.lists other := by
  simp only [lists, Path.same, Path.same_iff.mp h]

end WatchedProject

namespace WatchSet

variable {s : WatchSet}

theorem isSubscribedElsewhere_iff {folder : Path} {name : String} :
    s.isSubscribedElsewhere folder name = true ↔
      ∃ p ∈ s.projects, p.name ≠ name ∧ p.lists folder = true := by
  simp [isSubscribedElsewhere]

theorem mem_of_mem_remove {name : String} {p : WatchedProject}
    (h : p ∈ (s.remove name).projects) : p ∈ s.projects :=
  List.mem_of_mem_eraseP h

theorem Distinct.ne_of_mem_remove (h : s.Distinct) {name : String} {p : WatchedProject}
    (hp : p ∈ (s.remove name).projects) : p.name ≠ name := by
  rintro rfl
  exact h.not_mem_remove p.name (List.mem_map_of_mem hp)

theorem mem_remove_of_ne {name : String} {p : WatchedProject} (hp : p ∈ s.projects)
    (hname : p.name ≠ name) : p ∈ (s.remove name).projects :=
  (List.mem_eraseP_of_neg (by simpa using hname)).mpr hp

theorem mem_insert {p q : WatchedProject} :
    q ∈ (s.insert p).projects ↔ q ∈ (s.remove p.name).projects ∨ q = p := by
  simp [insert]

theorem mem_modify {name : String} {change : WatchedProject → WatchedProject}
    {q : WatchedProject} : q ∈ (s.modify name change).projects ↔
      ∃ p ∈ s.projects, q = if p.name = name then change p else p := by
  simp [modify, eq_comm]

/-- A property of one project as it is changed, and of all the others as they are. -/
theorem Distinct.forall_modify (h : s.Distinct) {q : WatchedProject} (hq : q ∈ s.projects)
    {change : WatchedProject → WatchedProject} {property : WatchedProject → Prop}
    (hchanged : property (change q)) (hothers : ∀ p ∈ s.projects, p ≠ q → property p) :
    ∀ p ∈ (s.modify q.name change).projects, property p := by
  intro p hp
  obtain ⟨r, hr, rfl⟩ := mem_modify.mp hp
  split
  · rename_i hname
    rwa [h.eq_of_name hr hq hname]
  · rename_i hname
    exact hothers r hr fun heq => hname (congrArg WatchedProject.name heq)

theorem mem_of_get? {name : String} {p : WatchedProject} (h : s.get? name = some p) :
    p ∈ s.projects :=
  List.mem_of_find?_eq_some h

theorem Distinct.get?_of_mem (h : s.Distinct) {p : WatchedProject} (hp : p ∈ s.projects) :
    s.get? p.name = some p := by
  cases hget : s.get? p.name with
  | none =>
      have hnone := List.find?_eq_none.mp hget p hp
      simp at hnone
  | some q => rw [h.eq_of_name (mem_of_get? hget) hp (name_of_get? hget)]

theorem Distinct.get?_eq_some_iff (h : s.Distinct) {name : String} {p : WatchedProject} :
    s.get? name = some p ↔ p ∈ s.projects ∧ p.name = name := by
  constructor
  · intro hget
    exact ⟨mem_of_get? hget, name_of_get? hget⟩
  · intro hp
    rw [← hp.2]
    exact h.get?_of_mem hp.1

theorem Distinct.mem_remove (h : s.Distinct) {name : String} {p : WatchedProject} :
    p ∈ (s.remove name).projects ↔ p ∈ s.projects ∧ p.name ≠ name := by
  constructor
  · intro hp
    exact ⟨mem_of_mem_remove hp, h.ne_of_mem_remove hp⟩
  · intro hp
    exact mem_remove_of_ne hp.1 hp.2

/-- A removed name stands for nothing, and all others for what they stood for. -/
theorem Distinct.get?_remove (h : s.Distinct) (name other : String) :
    (s.remove name).get? other = if other = name then none else s.get? other := by
  apply Option.ext
  intro p
  rw [(h.remove name).get?_eq_some_iff, h.mem_remove]
  by_cases hname : other = name
  · simp only [hname, if_true, reduceCtorEq, iff_false]
    intro hp
    exact hp.1.2 hp.2
  · rw [if_neg hname, h.get?_eq_some_iff]
    constructor
    · intro hp
      exact ⟨hp.1.1, hp.2⟩
    · intro hp
      exact ⟨⟨hp.1, fun hremoved => hname (hp.2.symm.trans hremoved)⟩, hp.2⟩

/-- The name of an inserted project stands for it, and all others for what they stood for. -/
theorem Distinct.get?_insert (h : s.Distinct) (p : WatchedProject) (name : String) :
    (s.insert p).get? name = if name = p.name then some p else s.get? name := by
  by_cases hname : name = p.name
  · rw [if_pos hname, (h.insert p).get?_eq_some_iff]
    exact ⟨mem_insert.mpr (.inr rfl), hname.symm⟩
  · have hkept := h.get?_remove p.name name
    rw [if_neg hname] at hkept ⊢
    rw [← hkept, get?, get?, WatchSet.insert, List.find?_append]
    simp [Ne.symm hname]

/-- The name of a changed project stands for it as it is changed. -/
theorem Distinct.get?_modify (h : s.Distinct) {q : WatchedProject} (hq : q ∈ s.projects)
    {change : WatchedProject → WatchedProject} (hchange : ∀ p, (change p).name = p.name)
    (name : String) :
    (s.modify q.name change).get? name =
      if name = q.name then some (change q) else s.get? name := by
  by_cases hname : name = q.name
  · rw [if_pos hname, hname, ← hchange q]
    apply (h.modify hchange).get?_of_mem
    exact mem_modify.mpr ⟨q, hq, by rw [hchange q, if_pos rfl]⟩
  · rw [if_neg hname]
    apply Option.ext
    intro p
    rw [(h.modify hchange).get?_eq_some_iff, h.get?_eq_some_iff, mem_modify]
    constructor
    · intro hp
      obtain ⟨⟨r, hr, rfl⟩, hsame⟩ := hp
      split at hsame
      · rename_i hchanged
        rw [hchange r, hchanged] at hsame
        exact absurd hsame.symm hname
      · rename_i hother
        rw [if_neg hother]
        exact ⟨hr, hsame⟩
    · intro hp
      obtain ⟨hp, rfl⟩ := hp
      exact ⟨⟨p, hp, by rw [if_neg hname]⟩, rfl⟩

theorem mem_names_insert {name : String} {p : WatchedProject} (h : name ∈ (s.insert p).names) :
    name ∈ s.names ∨ name = p.name := by
  obtain ⟨q, hq, rfl⟩ := List.mem_map.mp h
  rcases mem_insert.mp hq with hq | rfl
  · exact .inl (List.mem_map_of_mem (mem_of_mem_remove hq))
  · exact .inr rfl

end WatchSet

namespace Loop

theorem mem_without {folder : Path} {folders others : List Path} :
    folder ∈ without folders others ↔
      folder ∈ folders ∧ ∀ other ∈ others, other.same folder = false := by
  simp [without]

theorem without_nil (folders : List Path) : without folders [] = folders := by
  simp [without]

theorem without_cons (folders others : List Path) (folder : Path) :
    without folders (folder :: others) =
      without (folders.filter (!·.same folder)) others := by
  simp only [without, List.filter_filter, List.any_cons, Bool.not_or]
  apply List.filter_congr
  intro f hf
  rw [Path.same_comm folder f, Bool.and_comm]

theorem mem_among {folder : Path} {folders others : List Path} :
    folder ∈ among folders others ↔
      folder ∈ folders ∧ ∃ other ∈ others, other.same folder = true := by
  simp [among]

theorem mem_of_mem_unseen {folder : Path} {seen folders : List Path}
    (h : folder ∈ unseen seen folders) : folder ∈ folders := by
  induction folders generalizing seen with
  | nil => cases h
  | cons first rest ih =>
      rw [unseen] at h
      split at h
      · exact List.mem_cons_of_mem _ (ih h)
      · rcases List.mem_cons.mp h with rfl | h
        · exact List.mem_cons_self
        · exact List.mem_cons_of_mem _ (ih h)

/-- Every directory is left in one of its spellings, unless that was seen before. -/
theorem exists_unseen {folder : Path} {folders : List Path} (seen : List Path)
    (h : folder ∈ folders) :
    (∃ f ∈ seen, f.same folder = true) ∨ ∃ f ∈ unseen seen folders, f.same folder = true := by
  induction folders generalizing seen with
  | nil => cases h
  | cons first rest ih =>
      rw [unseen]
      split
      · rename_i hseen
        rcases List.mem_cons.mp h with rfl | h
        · exact .inl (by simpa using hseen)
        · exact ih seen h
      · rcases List.mem_cons.mp h with rfl | h
        · exact .inr ⟨folder, List.mem_cons_self, Path.same_self _⟩
        · rcases ih (first :: seen) h with ⟨f, hf, hsame⟩ | ⟨f, hf, hsame⟩
          · rcases List.mem_cons.mp hf with rfl | hf
            · exact .inr ⟨f, List.mem_cons_self, hsame⟩
            · exact .inl ⟨f, hf, hsame⟩
          · exact .inr ⟨f, List.mem_cons_of_mem _ hf, hsame⟩

theorem mem_of_mem_distinct {folder : Path} {folders : List Path} (h : folder ∈ distinct folders) :
    folder ∈ folders :=
  mem_of_mem_unseen h

theorem exists_distinct {folder : Path} {folders : List Path} (h : folder ∈ folders) :
    ∃ f ∈ distinct folders, f.same folder = true := by
  rcases exists_unseen [] h with ⟨f, hf, -⟩ | hf
  · cases hf
  · exact hf

end Loop

theorem Debouncer.mem_sortPaths {path : Path} {paths : List Path} :
    path ∈ sortPaths paths ↔ path ∈ paths :=
  (List.mergeSort_perm _ _).mem_iff

/-! ## Calls of a source -/

namespace Source

/-- Whether a directory is subscribed, in whatever spelling. -/
def hears (s : Source) (folder : Path) : Bool :=
  s.subscribed.any (·.same folder)

/-- The source accepts every call. -/
def Willing (s : Source) : Prop :=
  ∀ call folder, s.refusal call folder = none

variable {s : Source} {folder : Path}

theorem hears_iff : s.hears folder = true ↔ ∃ f ∈ s.subscribed, f.same folder = true := by
  simp [hears]

theorem hears_congr {other : Path} (h : folder.same other = true) :
    s.hears folder = s.hears other := by
  simp only [hears, Path.same, Path.same_iff.mp h]

theorem subscribe_cases (s : Source) (folder : Path) :
    (∃ e, (s.subscribe folder).1 = .error e ∧
        (s.subscribe folder).2 = { s with calls := s.calls + 1 }) ∨
      (s.subscribe folder).1 = .ok () ∧
        (s.subscribe folder).2 =
          { s with calls := s.calls + 1, subscribed := s.subscribed ++ [folder] } := by
  unfold subscribe
  cases h : s.refusal s.calls folder with
  | some reason => exact .inl ⟨_, rfl, rfl⟩
  | none => exact .inr ⟨rfl, rfl⟩

theorem refusal_unsubscribe (s : Source) (folder : Path) :
    (s.unsubscribe folder).2.refusal = s.refusal := by
  unfold unsubscribe
  cases s.refusal s.calls folder with
  | some reason =>
      dsimp only
      split <;> rfl
  | none => rfl

/-- Nothing but the directory itself is dropped. -/
theorem hears_unsubscribe_other {other : Path} (h : s.hears other = true)
    (hother : folder.same other = false) : (s.unsubscribe folder).2.hears other = true := by
  obtain ⟨f, hf, hsame⟩ := hears_iff.mp h
  have hkept : f ∈ s.subscribed.filter (!·.same folder) := by
    refine List.mem_filter.mpr ⟨hf, ?_⟩
    rw [Bool.not_eq_true', Path.same_congr hsame, Path.same_comm]
    exact hother
  unfold unsubscribe
  cases s.refusal s.calls folder with
  | some reason =>
      dsimp only
      split
      · exact h
      · exact hears_iff.mpr ⟨f, hkept, hsame⟩
  | none => exact hears_iff.mpr ⟨f, hkept, hsame⟩

/-- The source accepts every call from now on. -/
def Accepts (s : Source) : Prop :=
  ∀ call folder, s.calls ≤ call → s.refusal call folder = none

theorem Willing.accepts (h : s.Willing) : s.Accepts :=
  fun call folder _ => h call folder

theorem Accepts.later (h : s.Accepts) (count : Nat) (subscribed : List Path) :
    Accepts { s with calls := s.calls + count, subscribed } := by
  intro call folder hcall
  apply h call folder
  change s.calls + count ≤ call at hcall
  omega

theorem Accepts.subscribe (h : s.Accepts) (folder : Path) : s.subscribe folder =
    (.ok (), { s with calls := s.calls + 1, subscribed := s.subscribed ++ [folder] }) := by
  simp [Source.subscribe, h s.calls folder (Nat.le_refl _)]

theorem Accepts.unsubscribe (h : s.Accepts) (folder : Path) : s.unsubscribe folder =
    (.ok (), { s with
      calls := s.calls + 1, subscribed := s.subscribed.filter (!·.same folder) }) := by
  simp [Source.unsubscribe, h s.calls folder (Nat.le_refl _)]

end Source

namespace Loop

/-! ## Many calls -/

theorem subscribeAll_cons_refused {source : Source} {folder : Path} {e : WatchError}
    (h : (source.subscribe folder).1 = .error e) (rest : List Path) :
    (subscribeAll (folder :: rest) source).value =
      (subscribeAll rest (source.subscribe folder).2).value := by
  rw [subscribeAll]
  split
  · rename_i heq
    rw [heq] at h
    cases h
  · rename_i heq
    rw [heq]
    rfl

theorem subscribeAll_cons_taken {source : Source} {folder : Path}
    (h : (source.subscribe folder).1 = .ok ()) (rest : List Path) :
    (subscribeAll (folder :: rest) source).value =
      (folder :: (subscribeAll rest (source.subscribe folder).2).value.1,
        (subscribeAll rest (source.subscribe folder).2).value.2) := by
  rw [subscribeAll]
  split
  · rename_i heq
    rw [heq]
    rfl
  · rename_i heq
    rw [heq] at h
    cases h

/-- Directories that the source takes are subscribed behind the others. -/
theorem subscribeAll_value (folders : List Path) (source : Source) :
    (subscribeAll folders source).value.2.subscribed =
        source.subscribed ++ (subscribeAll folders source).value.1 ∧
      (subscribeAll folders source).value.2.refusal = source.refusal := by
  induction folders generalizing source with
  | nil => simp [subscribeAll]
  | cons folder rest ih =>
      obtain ⟨hsubscribed, hrefusal⟩ := ih (source.subscribe folder).2
      rcases source.subscribe_cases folder with ⟨e, herror, hnext⟩ | ⟨hok, hnext⟩
      · rw [subscribeAll_cons_refused herror, hsubscribed, hrefusal, hnext]
        exact ⟨rfl, rfl⟩
      · rw [subscribeAll_cons_taken hok]
        dsimp only
        rw [hsubscribed, hrefusal, hnext]
        exact ⟨List.append_assoc _ _ _, rfl⟩

/-- If the source accepts the calls, all directories are subscribed. -/
theorem subscribeAll_of_accepts {source : Source} (h : source.Accepts) (folders : List Path) :
    (subscribeAll folders source).value = (folders, { source with
      calls := source.calls + folders.length
      subscribed := source.subscribed ++ folders }) := by
  induction folders generalizing source with
  | nil => simp [subscribeAll]
  | cons folder rest ih =>
      have hfirst := h.subscribe folder
      rw [subscribeAll_cons_taken (by rw [hfirst]), hfirst, ih (h.later 1 _)]
      simp [Nat.add_comm, Nat.add_left_comm]

theorem hears_subscribeAll {source : Source} {folder : Path} (folders : List Path)
    (h : source.hears folder = true) :
    (subscribeAll folders source).value.2.hears folder = true := by
  obtain ⟨f, hf, hsame⟩ := Source.hears_iff.mp h
  refine Source.hears_iff.mpr ⟨f, ?_, hsame⟩
  rw [(subscribeAll_value folders source).1]
  exact List.mem_append_left _ hf

theorem hears_of_mem_subscribeAll {source : Source} {folder : Path} {folders : List Path}
    (h : folder ∈ (subscribeAll folders source).value.1) :
    (subscribeAll folders source).value.2.hears folder = true := by
  refine Source.hears_iff.mpr ⟨folder, ?_, Path.same_self _⟩
  rw [(subscribeAll_value folders source).1]
  exact List.mem_append_right _ h

theorem hears_of_subscribeAll {source : Source} {folder : Path} {folders : List Path}
    (h : (subscribeAll folders source).value.2.hears folder = true) :
    source.hears folder = true ∨
      ∃ f ∈ (subscribeAll folders source).value.1, f.same folder = true := by
  obtain ⟨f, hf, hsame⟩ := Source.hears_iff.mp h
  rw [(subscribeAll_value folders source).1] at hf
  rcases List.mem_append.mp hf with hf | hf
  · exact .inl (Source.hears_iff.mpr ⟨f, hf, hsame⟩)
  · exact .inr ⟨f, hf, hsame⟩

/-- To drop one directory more, unless another project lists it. -/
theorem unsubscribeAll_cons (projects : WatchSet) (name : String) (folder : Path)
    (rest : List Path) (source : Source) :
    (unsubscribeAll projects name (folder :: rest) source).value =
      (unsubscribeAll projects name rest
        (if projects.isSubscribedElsewhere folder name then source
          else (source.unsubscribe folder).2)).value := by
  rw [unsubscribeAll]
  split
  · rfl
  · split
    · rename_i heq
      rw [heq]
    · rename_i heq
      rw [heq]
      rfl

theorem refusal_unsubscribeAll (projects : WatchSet) (name : String) (folders : List Path)
    (source : Source) :
    (unsubscribeAll projects name folders source).value.refusal = source.refusal := by
  induction folders generalizing source with
  | nil => rfl
  | cons folder rest ih =>
      rw [unsubscribeAll_cons, ih]
      split
      · rfl
      · exact source.refusal_unsubscribe folder

/-- What another project lists is not dropped, and neither is what is not to be dropped. -/
theorem hears_unsubscribeAll {projects : WatchSet} {name : String} {folders : List Path}
    {source : Source} {folder : Path} (h : source.hears folder = true)
    (hkept : ∀ f ∈ folders, f.same folder = true → projects.isSubscribedElsewhere f name = true) :
    (unsubscribeAll projects name folders source).value.hears folder = true := by
  induction folders generalizing source with
  | nil => exact h
  | cons first rest ih =>
      rw [unsubscribeAll_cons]
      refine ih ?_ fun f hf => hkept f (List.mem_cons_of_mem _ hf)
      split
      · exact h
      · rename_i hnot
        refine Source.hears_unsubscribe_other h (Bool.eq_false_iff.mpr fun hsame => hnot ?_)
        exact hkept first List.mem_cons_self hsame

/-- If the source accepts the calls, all is dropped that no other project lists. -/
theorem unsubscribeAll_of_accepts {source : Source} (h : source.Accepts) (projects : WatchSet)
    (name : String) (folders : List Path) :
    ∃ count, (unsubscribeAll projects name folders source).value = { source with
      calls := source.calls + count
      subscribed := without source.subscribed
        (folders.filter (!projects.isSubscribedElsewhere · name)) } := by
  induction folders generalizing source with
  | nil => exact ⟨0, by simp [unsubscribeAll, without_nil]⟩
  | cons folder rest ih =>
      rw [unsubscribeAll_cons]
      cases helsewhere : projects.isSubscribedElsewhere folder name with
      | true =>
          rw [if_pos rfl, List.filter_cons_of_neg (by simp [helsewhere])]
          exact ih h
      | false =>
          rw [if_neg (by simp), List.filter_cons_of_pos (by simp [helsewhere]), without_cons,
            h.unsubscribe folder]
          obtain ⟨count, hcount⟩ := ih (h.later 1 (source.subscribed.filter (!·.same folder)))
          exact ⟨1 + count, by rw [hcount, Nat.add_assoc]⟩

theorem hears_of_unsubscribeAll {projects : WatchSet} {name : String} {folders : List Path}
    {source : Source} {folder : Path} (hw : source.Willing)
    (h : (unsubscribeAll projects name folders source).value.hears folder = true) :
    source.hears folder = true ∧
      ∀ f ∈ folders, f.same folder = true → projects.isSubscribedElsewhere f name = true := by
  obtain ⟨count, hcount⟩ := unsubscribeAll_of_accepts hw.accepts projects name folders
  rw [hcount] at h
  obtain ⟨g, hg, hsame⟩ := Source.hears_iff.mp h
  obtain ⟨hmem, hkept⟩ := mem_without.mp hg
  refine ⟨Source.hears_iff.mpr ⟨g, hmem, hsame⟩, ?_⟩
  intro f hf hfolder
  cases helsewhere : projects.isSubscribedElsewhere f name with
  | true => rfl
  | false =>
      have hdiffer := hkept f (List.mem_filter.mpr ⟨hf, by simp [helsewhere]⟩)
      rw [Path.same_congr_right hsame, hfolder] at hdiffer
      cases hdiffer

end Loop

end TodoIndex
