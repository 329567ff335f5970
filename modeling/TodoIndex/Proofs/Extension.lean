import TodoIndex.Extension
import TodoIndex.Proofs.Text.Trimming
import TodoIndex.Proofs.Text.Utf8

/-! # Normal forms of extensions

The normal form of an extension need not be in normal form itself: a blank behind the leading dots
comes to the front, and a second turn takes it away.  The extension of a path has no dot in it, and
so its normal form is final.
-/

namespace TodoIndex

namespace Extension

/-! ## Letters -/

theorem toLower_cases (c : Char) : c.toLower = c ∨
    (65 ≤ c.toNat ∧ c.toNat ≤ 90 ∧ c.toLower.toNat = c.toNat + 32) := by
  unfold Char.toLower
  split
  · next hupper =>
      simp only [ge_iff_le, UInt32.le_iff_toNat_le, Char.toNat_val] at hupper
      have hlow : 65 ≤ c.toNat := hupper.1
      have hhigh : c.toNat ≤ 90 := hupper.2
      have hvalue : (c.val + ('a'.val - 'A'.val)).toNat = (c.toNat + 32) % 2 ^ 32 := rfl
      refine .inr ⟨hlow, hhigh, ?_⟩
      rw [← Char.toNat_val, hvalue]
      omega
  · exact .inl rfl

theorem isBlank_toLower (c : Char) : Text.isBlank c.toLower = Text.isBlank c := by
  obtain h | ⟨hlow, hhigh, hlower⟩ := toLower_cases c
  · rw [h]
  · have hletter : ∀ {d : Char}, 65 ≤ d.toNat → d.toNat ≤ 122 → Text.isBlank d = false := by
      intro d hlow hhigh
      simp only [Text.isBlank, Bool.or_eq_false_iff, Bool.and_eq_false_iff, decide_eq_false_iff_not,
        beq_eq_false_iff_ne]
      omega
    rw [hletter hlow (by omega), hletter (by omega) (by omega)]

theorem toLower_toLower (c : Char) : c.toLower.toLower = c.toLower := by
  obtain h | ⟨hlow, hhigh, hlower⟩ := toLower_cases c
  · rw [h, h]
  · refine (toLower_cases c.toLower).resolve_right fun hupper => ?_
    omega

theorem lowerAscii_lowerAscii (s : List Char) :
    Text.lowerAscii (Text.lowerAscii s) = Text.lowerAscii s := by
  rw [Text.lowerAscii, Text.lowerAscii, List.map_map]
  exact List.map_congr_left fun c _ => toLower_toLower c

/-! ## What a second turn does -/

/-- The first character of a text is blank. -/
def BeginsBlank (s : List Char) : Prop :=
  ∃ c ∈ s.head?, Text.isBlank c = true

instance (s : List Char) : Decidable (BeginsBlank s) :=
  decidable_of_iff (s.head?.any Text.isBlank = true) (Option.any_eq_true _ _)

/-- Between the blanks around a text a blank follows the leading dots. -/
def BlankBehindDots (s : List Char) : Prop :=
  ∃ dots c rest, Text.trim s = List.replicate dots '.' ++ c :: rest ∧ Text.isBlank c = true

theorem beginsBlank_lowerAscii {s : List Char} :
    BeginsBlank (Text.lowerAscii s) ↔ BeginsBlank s := by
  cases s with
  | nil => exact Iff.rfl
  | cons c s => simp [BeginsBlank, Text.lowerAscii, isBlank_toLower]

theorem beginsBlank_normalize_iff {s : List Char} :
    BeginsBlank (normalize s) ↔ BlankBehindDots s := by
  rw [normalize, beginsBlank_lowerAscii]
  constructor
  · rintro ⟨c, hc, hblank⟩
    obtain ⟨rest, hrest⟩ := List.singleton_prefix_iff_head?_eq_some.mpr hc
    have hdots : (Text.trim s).takeWhile (· == '.') =
        List.replicate ((Text.trim s).takeWhile (· == '.')).length '.' :=
      List.eq_replicate_of_mem fun d hd =>
        beq_iff_eq.mp (List.mem_takeWhile_imp (p := (· == '.')) hd)
    refine ⟨((Text.trim s).takeWhile (· == '.')).length, c, rest, ?_, hblank⟩
    rw [← hdots, ← List.singleton_append, hrest]
    exact List.takeWhile_append_dropWhile.symm
  · rintro ⟨dots, c, rest, htrim, hblank⟩
    have hdot : (c == '.') = false := beq_eq_false_iff_ne.mpr fun heq => by
      rw [heq] at hblank
      cases hblank
    refine ⟨c, ?_, hblank⟩
    rw [htrim, Text.dropLeading, List.dropWhile_append_of_pos (by simp),
      List.dropWhile_cons_of_neg (by simp [hdot])]
    rfl

theorem length_normalize_le (s : List Char) : (normalize s).length ≤ (Text.trim s).length := by
  rw [normalize, Text.lowerAscii, List.length_map]
  exact (List.dropWhile_sublist _).length_le

theorem eq_dot_of_toLower {c : Char} (h : c.toLower = '.') : c = '.' := by
  obtain hsame | ⟨hlow, -, hvalue⟩ := toLower_cases c
  · exact hsame.symm.trans h
  · rw [h] at hvalue
    have hdot : '.'.toNat = 46 := rfl
    omega

/-- No dot is in front of a normal form. -/
theorem head_normalize_ne_dot {s : List Char} {c : Char} (h : c ∈ (normalize s).head?) :
    c ≠ '.' := by
  rw [normalize, Text.lowerAscii, List.head?_map] at h
  obtain ⟨d, hd, rfl⟩ := Option.map_eq_some_iff.mp h
  intro hdot
  have hkept := List.head?_dropWhile_not (· == '.') (Text.trim s)
  rw [← Text.dropLeading, hd, eq_dot_of_toLower hdot] at hkept
  cases hkept

/-- No blank is behind a normal form. -/
theorem last_normalize_not_blank {s : List Char} {c : Char} (h : c ∈ (normalize s).getLast?) :
    Text.isBlank c = false := by
  rw [normalize, Text.lowerAscii, List.getLast?_map] at h
  obtain ⟨d, hd, rfl⟩ := Option.map_eq_some_iff.mp h
  obtain ⟨front, hfront⟩ : Text.dropLeading '.' (Text.trim s) <:+ Text.trim s :=
    List.dropWhile_suffix _
  have hne : Text.dropLeading '.' (Text.trim s) ≠ [] := fun hnil => by
    rw [hnil] at hd
    cases hd
  rw [isBlank_toLower]
  refine (Text.isTrimmed_trim s).last d ?_
  rw [← hfront, List.getLast?_append_of_ne_nil front hne]
  exact hd

theorem dropLeading_eq_self {s : List Char} (h : ∀ c ∈ s.head?, c ≠ '.') :
    Text.dropLeading '.' s = s := by
  cases s with
  | nil => rfl
  | cons c s => exact List.dropWhile_cons_of_neg (by simpa using h c rfl)

theorem normalize_eq_self {s : List Char} (htrimmed : Text.IsTrimmed s)
    (hdot : ∀ c ∈ s.head?, c ≠ '.') (hlower : Text.lowerAscii s = s) : normalize s = s := by
  rw [normalize, htrimmed.trim_eq, dropLeading_eq_self hdot, hlower]

/-- A second turn changes what begins with a blank, and nothing else. -/
theorem normalize_normalize_iff {s : List Char} :
    normalize (normalize s) = normalize s ↔ ¬BeginsBlank (normalize s) := by
  constructor
  · rintro hsame ⟨c, hc, hblank⟩
    obtain ⟨rest, hrest⟩ := List.singleton_prefix_iff_head?_eq_some.mpr hc
    -- The blank in front is trimmed, so the second turn makes the text shorter.
    have hle := length_normalize_le (normalize s)
    rw [hsame, ← hrest, List.singleton_append, Text.trim_cons hblank, List.length_cons] at hle
    obtain ⟨lead, tail, hpad, -, -⟩ := Text.exists_pad rest
    have hlength := congrArg List.length hpad
    simp only [List.length_append] at hlength
    omega
  · intro hkept
    refine normalize_eq_self ⟨fun c hc => ?_, fun c => last_normalize_not_blank⟩
      (fun c => head_normalize_ne_dot) (lowerAscii_lowerAscii _)
    exact Bool.eq_false_iff.mpr fun hblank => hkept ⟨c, hc, hblank⟩

/-- So it is with extensions as somebody wrote them. -/
theorem normal_normal_iff {written : String} :
    normal (normal written) = normal written ↔ ¬BeginsBlank (normal written).toList := by
  rw [normal, normal, String.toList_ofList, String.ofList_inj, normalize_normalize_iff]

/-! ## Without dots -/

theorem mem_of_mem_trim {s : List Char} {c : Char} (h : c ∈ Text.trim s) : c ∈ s := by
  obtain ⟨lead, tail, hs, -, -⟩ := Text.exists_pad s
  rw [hs]
  exact List.mem_append_left _ (List.mem_append_right _ h)

theorem normalize_of_undotted {s : List Char} (h : '.' ∉ s) :
    normalize s = Text.lowerAscii (Text.trim s) := by
  rw [normalize, dropLeading_eq_self]
  rintro c hc rfl
  exact h (mem_of_mem_trim (List.mem_of_mem_head? hc))

/-- What is written without dots is in normal form after one turn. -/
theorem normalize_normalize {s : List Char} (h : '.' ∉ s) :
    normalize (normalize s) = normalize s := by
  rw [normalize_normalize_iff, normalize_of_undotted h, beginsBlank_lowerAscii]
  rintro ⟨c, hc, hblank⟩
  rw [(Text.isTrimmed_trim s).head c hc] at hblank
  cases hblank

/-! ## Paths -/

theorem dot_not_mem_of_extension? {path : Path} {extension : Text.Bytes}
    (h : path.extension? = some extension) : Path.dot ∉ extension := by
  unfold Path.extension? at h
  split at h
  · cases h
  · next name _ =>
      dsimp only at h
      split at h
      · cases h
      · cases h
        intro hmem
        have hkept := List.mem_takeWhile_imp (List.mem_reverse.mp hmem)
        cases hkept

/-- The extension of a path is its own normal form. -/
theorem normal_of_ofPath? {path : Path} {e : String} (h : ofPath? path = some e) :
    normal e = e ∧ e ≠ "" := by
  unfold ofPath? at h
  split at h
  · next text htext =>
      obtain ⟨extension, hextension, hdecode⟩ := Option.bind_eq_some_iff.mp htext
      have hdot : '.' ∉ text := fun hmem =>
        dot_not_mem_of_extension? hextension
          (Text.Utf8.mem_of_decode? (by decide) (by decide) hdecode hmem)
      have hstable := normalize_normalize hdot
      split at h
      · cases h
      · next hne =>
          cases h
          rw [normal, String.toList_ofList, hstable]
          exact ⟨rfl, by simpa using hne⟩
  · cases h

end Extension

end TodoIndex
