import TodoIndex.Marker

/-! # Where a marker is

A text carries a marker just if somewhere in it a word of the two stands between a blank and a
character that may follow it.  The search tries every place, so a word that it gave up on does not
hide the next one, even where the character behind the first is the blank in front of the second.
-/

namespace TodoIndex

namespace Marker

variable {raw s w word : List Char} {c : Char}

/-- `TODO` or `FIXME`, in any case of their letters. -/
def IsWord (w : List Char) : Prop :=
  Text.lowerAscii w = Text.lowerAscii "TODO".toList ∨
    Text.lowerAscii w = Text.lowerAscii "FIXME".toList

instance : DecidablePred IsWord :=
  fun _ => inferInstanceAs (Decidable (_ ∨ _))

theorem isWord_iff : IsWord w ↔ Text.lowerAscii w ∈ words := by
  have hwords : words =
      [Text.lowerAscii "TODO".toList, Text.lowerAscii "FIXME".toList] := by decide
  rw [hwords, List.mem_cons, List.mem_singleton]
  rfl

theorem closesWord_iff :
    closesWord c = true ↔ Text.isBlank c = true ∨ c = ':' ∨ c = '(' ∨ c = '[' := by
  simp only [closesWord, Bool.or_eq_true, beq_iff_eq, or_assoc]

theorem beginsWord_iff : beginsWord word s = true ↔
    ∃ w b v, s = w ++ b :: v ∧ Text.lowerAscii w = word ∧ closesWord b = true := by
  rw [beginsWord, Bool.and_eq_true, beq_iff_eq]
  constructor
  · rintro ⟨hword, hcloses⟩
    cases hdrop : s.drop word.length with
    | nil => simp [hdrop] at hcloses
    | cons b v =>
        refine ⟨s.take word.length, b, v, ?_, hword, by simpa [hdrop] using hcloses⟩
        rw [← hdrop, List.take_append_drop]
  · rintro ⟨w, b, v, rfl, rfl, hcloses⟩
    have hlength : (Text.lowerAscii w).length = w.length := List.length_map ..
    rw [hlength, List.take_left, List.drop_left]
    exact ⟨rfl, hcloses⟩

/-- The search finds what any of its places holds. -/
theorem hasMarker_iff_exists : hasMarker raw = true ↔
    ∃ u c s, raw = u ++ c :: s ∧ Text.isBlank c = true ∧ words.any (beginsWord · s) = true := by
  -- The first place is the first character; the others are the places of the rest.
  induction raw with
  | nil => simp [hasMarker]
  | cons a raw ih =>
      rw [hasMarker, Bool.or_eq_true, Bool.and_eq_true, ih]
      constructor
      · rintro (⟨hblank, hbegins⟩ | ⟨u, c, s, rfl, hblank, hbegins⟩)
        · exact ⟨[], a, raw, rfl, hblank, hbegins⟩
        · exact ⟨a :: u, c, s, rfl, hblank, hbegins⟩
      · rintro ⟨u, c, s, hraw, hblank, hbegins⟩
        rcases List.cons_eq_append_iff.mp hraw with ⟨rfl, hhere⟩ | ⟨u, rfl, hlater⟩
        · obtain ⟨rfl, rfl⟩ := List.cons.inj hhere
          exact .inl ⟨hblank, hbegins⟩
        · exact .inr ⟨u, c, s, hlater, hblank, hbegins⟩

theorem any_beginsWord_iff : words.any (beginsWord · s) = true ↔
    ∃ w b v, s = w ++ b :: v ∧ IsWord w ∧ closesWord b = true := by
  rw [List.any_eq_true]
  constructor
  · rintro ⟨word, hword, hbegins⟩
    obtain ⟨w, b, v, hs, rfl, hcloses⟩ := beginsWord_iff.mp hbegins
    exact ⟨w, b, v, hs, isWord_iff.mpr hword, hcloses⟩
  · rintro ⟨w, b, v, hs, hword, hcloses⟩
    exact ⟨_, isWord_iff.mp hword, beginsWord_iff.mpr ⟨w, b, v, hs, rfl, hcloses⟩⟩

/-- A text with a marker has a marker word in it. -/
theorem exists_word_of_hasMarker (h : hasMarker raw = true) : ∃ w, IsWord w ∧ w <:+: raw := by
  obtain ⟨u, c, s, rfl, -, hbegins⟩ := hasMarker_iff_exists.mp h
  obtain ⟨w, b, v, rfl, hword, -⟩ := any_beginsWord_iff.mp hbegins
  exact ⟨w, hword, u ++ [c], b :: v, by simp⟩

/-- **What a marker is.**  A text carries a marker just if a marker word stands in it, at any place,
directly behind a blank and directly in front of a blank, a colon or an opening bracket. -/
theorem hasMarker_iff (raw : List Char) : hasMarker raw = true ↔
    ∃ u s w b v, raw = u ++ [s] ++ w ++ [b] ++ v ∧ Text.isBlank s = true ∧ IsWord w ∧
      (Text.isBlank b = true ∨ b = ':' ∨ b = '(' ∨ b = '[') := by
  rw [hasMarker_iff_exists]
  simp only [any_beginsWord_iff, closesWord_iff]
  constructor
  · rintro ⟨u, s, -, rfl, hblank, w, b, v, rfl, hword, hcloses⟩
    exact ⟨u, s, w, b, v, by simp, hblank, hword, hcloses⟩
  · rintro ⟨u, s, w, b, v, rfl, hblank, hword, hcloses⟩
    exact ⟨u, s, w ++ b :: v, by simp, hblank, w, b, v, rfl, hword, hcloses⟩

/-- A word that a letter spoils hides none behind it; without a blank in front is no marker. -/
example : hasMarker " todos\u3000FixMe[".toList = true ∧ hasMarker "//TODO:".toList = false := by
  decide

end Marker

end TodoIndex
