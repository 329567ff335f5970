import Mathlib.Data.List.Forall2
import Mathlib.Data.List.TakeWhile
import TodoIndex.Text.Blank
import TodoIndex.Text.Lines

/-! # Trimming and line ends

Trimming takes blanks from both ends and nothing else, so blanks put around a text make no
difference to it, and neither do carriage returns in front of the line feeds of a text to its
trimmed lines.
-/

namespace TodoIndex

namespace Text

variable {s t lead tail : List Char}

/-! ## Blanks at both ends -/

theorem trimStart_append (h : ∀ c ∈ lead, isBlank c = true) (s : List Char) :
    trimStart (lead ++ s) = trimStart s :=
  List.dropWhile_append_of_pos h

theorem trimEnd_append (s : List Char) (h : ∀ c ∈ tail, isBlank c = true) :
    trimEnd (s ++ tail) = trimEnd s := by
  have hreverse : ∀ c ∈ tail.reverse, isBlank c = true := by
    intro c hc
    exact h c (List.mem_reverse.mp hc)
  rw [trimEnd, List.reverse_append, List.dropWhile_append_of_pos hreverse]
  rfl

/-- Blanks around a text make no difference when it is trimmed. -/
theorem trim_pad (hlead : ∀ c ∈ lead, isBlank c = true) (htail : ∀ c ∈ tail, isBlank c = true)
    (s : List Char) : trim (lead ++ s ++ tail) = trim s := by
  rw [trim, List.append_assoc, trimStart_append hlead, trimStart, List.dropWhile_append]
  split
  · rename_i hempty
    have hnone : List.dropWhile isBlank tail = [] := List.dropWhile_eq_nil_iff.mpr htail
    rw [hnone, trim, trimStart, List.isEmpty_iff.mp hempty]
  · exact trimEnd_append _ htail

/-- A text is its trimmed one between blanks. -/
theorem exists_pad (s : List Char) : ∃ lead tail, s = lead ++ trim s ++ tail ∧
    (∀ c ∈ lead, isBlank c = true) ∧ ∀ c ∈ tail, isBlank c = true := by
  refine ⟨s.takeWhile isBlank, ((trimStart s).reverse.takeWhile isBlank).reverse, ?_, ?_, ?_⟩
  · have hend : trim s ++ ((trimStart s).reverse.takeWhile isBlank).reverse = trimStart s := by
      rw [trim, trimEnd, ← List.reverse_append, List.takeWhile_append_dropWhile,
        List.reverse_reverse]
    rw [List.append_assoc, hend, trimStart, List.takeWhile_append_dropWhile]
  · intro c hc
    exact List.mem_takeWhile_imp hc
  · intro c hc
    exact List.mem_takeWhile_imp (List.mem_reverse.mp hc)

theorem trim_trim (s : List Char) : trim (trim s) = trim s := by
  obtain ⟨lead, tail, hs, hlead, htail⟩ := exists_pad s
  calc trim (trim s) = trim (lead ++ trim s ++ tail) := (trim_pad hlead htail _).symm
    _ = trim s := by rw [← hs]

/-- No ASCII letter or digit is blank. -/
theorem not_isBlank_of_isAlphanum {c : Char} (h : c.isAlphanum = true) : isBlank c = false := by
  have hranges : (decide (65 ≤ c.val ∧ c.val ≤ 90) || decide (97 ≤ c.val) && decide (c.val ≤ 122) ||
      decide (48 ≤ c.val) && decide (c.val ≤ 57)) = true := h
  simp only [Bool.or_eq_true, Bool.and_eq_true, decide_eq_true_eq, UInt32.le_iff_toNat_le,
    Char.toNat_val, UInt32.reduceToNat] at hranges
  simp only [isBlank, Bool.or_eq_false_iff, Bool.and_eq_false_iff, decide_eq_false_iff_not,
    beq_eq_false_iff_ne]
  omega

/-- Neither end of a text is blank. -/
structure IsTrimmed (s : List Char) : Prop where
  head : ∀ c ∈ s.head?, isBlank c = false
  last : ∀ c ∈ s.getLast?, isBlank c = false

theorem isTrimmed_trim (s : List Char) : IsTrimmed (trim s) := by
  have hstart : ∀ c ∈ (trimStart s).head?, isBlank c = false := by
    intro c hc
    have hhead := List.head?_dropWhile_not isBlank s
    rw [← trimStart, hc] at hhead
    exact hhead
  constructor
  · intro c hc
    obtain ⟨rest, hrest⟩ := List.singleton_prefix_iff_head?_eq_some.mpr hc
    have hfront : trim s <+: trimStart s := by
      rw [← List.reverse_suffix, trim, trimEnd, List.reverse_reverse]
      exact List.dropWhile_suffix _
    obtain ⟨tail, htail⟩ := hfront
    exact hstart c (by rw [← htail, ← hrest]; rfl)
  · intro c hc
    rw [trim, trimEnd, List.getLast?_reverse] at hc
    have hlast := List.head?_dropWhile_not isBlank (trimStart s).reverse
    rw [hc] at hlast
    exact hlast

theorem IsTrimmed.trim_eq (h : IsTrimmed s) : trim s = s := by
  have hstay : ∀ {t : List Char}, (∀ c ∈ t.head?, isBlank c = false) → t.dropWhile isBlank = t := by
    intro t ht
    cases t with
    | nil => rfl
    | cons c t => exact List.dropWhile_cons_of_neg (by simp [ht c rfl])
  rw [trim, trimStart, hstay h.head, trimEnd, hstay, List.reverse_reverse]
  rw [List.head?_reverse]
  exact h.last

theorem isTrimmed_iff : IsTrimmed s ↔ trim s = s :=
  ⟨IsTrimmed.trim_eq, fun h => h ▸ isTrimmed_trim s⟩

instance : DecidablePred IsTrimmed :=
  fun _ => decidable_of_iff _ isTrimmed_iff.symm

/-- Of two texts beside each other only the outer ends matter. -/
theorem isTrimmed_append (hs : s ≠ []) (ht : t ≠ []) (hhead : ∀ c ∈ s.head?, isBlank c = false)
    (hlast : ∀ c ∈ t.getLast?, isBlank c = false) : IsTrimmed (s ++ t) := by
  constructor
  · rwa [List.head?_append_of_ne_nil _ hs]
  · rwa [List.getLast?_append_of_ne_nil _ ht]

theorem trim_cons {c : Char} (h : isBlank c = true) (s : List Char) : trim (c :: s) = trim s := by
  have hlead : ∀ d ∈ [c], isBlank d = true := by simpa using h
  have htail : ∀ d ∈ ([] : List Char), isBlank d = true := by simp
  have hpad := trim_pad hlead htail s
  rwa [List.append_nil] at hpad

theorem trim_concat {c : Char} (h : isBlank c = true) (s : List Char) :
    trim (s ++ [c]) = trim s := by
  have hlead : ∀ d ∈ ([] : List Char), isBlank d = true := by simp
  have htail : ∀ d ∈ [c], isBlank d = true := by simpa using h
  exact trim_pad hlead htail s

/-! ## Line ends -/

/-- The second text is the first one with carriage returns in front of some of its line feeds. -/
inductive Returned : List Char → List Char → Prop where
  | nil : Returned [] []
  | char (c : Char) {s t : List Char} : Returned s t → Returned (c :: s) (c :: t)
  | feed {s t : List Char} : Returned s t → Returned ('\n' :: s) ('\r' :: '\n' :: t)

theorem Returned.refl (s : List Char) : Returned s s := by
  induction s with
  | nil => exact .nil
  | cons c s ih => exact .char c ih

theorem Returned.append_left (h : Returned s t) (lead : List Char) :
    Returned (lead ++ s) (lead ++ t) := by
  induction lead with
  | nil => exact h
  | cons c lead ih => exact .char c ih

theorem splitLineFeeds_feed (s : List Char) :
    splitLineFeeds ('\n' :: s) = ([] :: (splitLineFeeds s).1, (splitLineFeeds s).2) := rfl

theorem splitLineFeeds_char {c : Char} (h : c ≠ '\n') (s : List Char) :
    splitLineFeeds (c :: s) =
      match (splitLineFeeds s).1 with
      | [] => ([], c :: (splitLineFeeds s).2)
      | line :: more => ((c :: line) :: more, (splitLineFeeds s).2) := by
  exact if_neg h

/-- A line, or one with a carriage return behind it. -/
def EndsLike (line other : List Char) : Prop :=
  other = line ∨ other = line ++ ['\r']

theorem EndsLike.cons {line other : List Char} (c : Char) (h : EndsLike line other) :
    EndsLike (c :: line) (c :: other) := by
  rcases h with rfl | rfl
  · exact .inl rfl
  · exact .inr rfl

theorem EndsLike.trim_eq {line other : List Char} (h : EndsLike line other) :
    trim line = trim other := by
  rcases h with rfl | rfl
  · rfl
  · exact (trim_concat (by decide) line).symm

theorem endsLike_dropReturn (line : List Char) : EndsLike (dropReturn line) line := by
  unfold dropReturn
  split
  · rename_i before hbefore
    refine .inr ?_
    rw [← List.reverse_cons, ← hbefore, List.reverse_reverse]
  · exact .inl rfl

theorem trim_dropReturn (line : List Char) : trim (dropReturn line) = trim line :=
  (endsLike_dropReturn line).trim_eq

/-- The lines that end are the same up to a carriage return at the end of each, and what does not
end is the same. -/
theorem Returned.splitLineFeeds (h : Returned s t) :
    List.Forall₂ EndsLike (splitLineFeeds s).1 (splitLineFeeds t).1 ∧
      (splitLineFeeds t).2 = (splitLineFeeds s).2 := by
  induction h with
  | nil => exact ⟨.nil, rfl⟩
  | @char c s t _ ih =>
      obtain ⟨hended, hrest⟩ := ih
      by_cases hc : c = '\n'
      · subst hc
        rw [splitLineFeeds_feed, splitLineFeeds_feed]
        exact ⟨.cons (.inl rfl) hended, hrest⟩
      · rw [splitLineFeeds_char hc, splitLineFeeds_char hc, hrest]
        generalize (Text.splitLineFeeds s).1 = ended, (Text.splitLineFeeds t).1 = others at hended
        cases hended with
        | nil => exact ⟨.nil, rfl⟩
        | cons hline hmore => exact ⟨.cons (hline.cons c) hmore, rfl⟩
  | @feed s t _ ih =>
      obtain ⟨hended, hrest⟩ := ih
      rw [splitLineFeeds_char (c := '\r') (by decide), splitLineFeeds_feed, splitLineFeeds_feed]
      exact ⟨.cons (.inr rfl) hended, hrest⟩

theorem map_trim_lines (s : List Char) : (lines s).map trim =
    (splitLineFeeds s).1.map trim ++
      (if (splitLineFeeds s).2.isEmpty then [] else [trim (splitLineFeeds s).2]) := by
  have hended : (splitLineFeeds s).1.map (trim ∘ dropReturn) = (splitLineFeeds s).1.map trim :=
    List.map_congr_left fun line _ => trim_dropReturn line
  have hlines : lines s = (splitLineFeeds s).1.map dropReturn ++
      (if (splitLineFeeds s).2.isEmpty then [] else [(splitLineFeeds s).2]) := rfl
  rw [hlines, List.map_append, List.map_map, hended]
  split <;> rfl

theorem map_trim_of_endsLike {ls ms : List (List Char)} (h : List.Forall₂ EndsLike ls ms) :
    ls.map trim = ms.map trim := by
  induction h with
  | nil => rfl
  | cons hline _ ih => rw [List.map_cons, List.map_cons, hline.trim_eq, ih]

/-- Carriage returns in front of line feeds do not change the trimmed lines. -/
theorem Returned.map_trim_lines (h : Returned s t) :
    (lines s).map trim = (lines t).map trim := by
  obtain ⟨hended, hrest⟩ := h.splitLineFeeds
  rw [Text.map_trim_lines, Text.map_trim_lines, map_trim_of_endsLike hended, hrest]

end Text

end TodoIndex
