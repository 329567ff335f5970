import TodoIndex.Proofs.Marker.Detection
import TodoIndex.Proofs.Text.Lines

/-! # What cleaning leaves of a comment

A marker word is made of letters, and cleaning takes away nothing but blanks, line ends and signs.
So it cannot cut into the word, nor drop the line that the word is in.
-/

namespace TodoIndex

namespace Marker

variable {raw line s w : List Char} {c : Char}

/-! ## Letters -/

theorem isAlpha_of_toLower (h : c.toLower.isAlpha = true) : c.isAlpha = true := by
  unfold Char.toLower at h
  split at h
  · rename_i hupper
    have hletter : c.isUpper = true := decide_eq_true hupper
    exact (Bool.or_eq_true _ _).mpr (.inl hletter)
  · exact h

theorem IsWord.isAlpha (hw : IsWord w) (hc : c ∈ w) : c.isAlpha = true := by
  have hlower : c.toLower ∈ Text.lowerAscii w := List.mem_map_of_mem hc
  have hletters : (Text.lowerAscii w).all Char.isAlpha = true := by
    rcases hw with hw | hw
    · rw [hw]
      decide
    · rw [hw]
      decide
  exact isAlpha_of_toLower (List.all_eq_true.mp hletters _ hlower)

theorem IsWord.not_mem (hw : IsWord w) (hc : c.isAlpha = false) : c ∉ w :=
  fun hmem => by simp [hw.isAlpha hmem] at hc

theorem IsWord.ne_nil (hw : IsWord w) : w ≠ [] := by
  rintro rfl
  revert hw
  decide

/-! ## The word stays -/

theorem IsWord.infix_trim (hw : IsWord w) (h : w <:+: s) : w <:+: Text.trim s :=
  Text.infix_trim h fun _ hc =>
    Text.not_isBlank_of_isAlphanum (by simp [Char.isAlphanum, hw.isAlpha hc])

theorem IsWord.infix_cleanLine (hw : IsWord w) (h : w <:+: line) : w <:+: cleanLine line :=
  hw.infix_trim (Text.infix_dropLeading (hw.infix_trim h) (hw.not_mem (by decide)))

theorem IsWord.infix_cleanBlock (hw : IsWord w) (h : w <:+: s) : w <:+: cleanBlock s := by
  obtain ⟨line, hline, hin⟩ := Text.exists_infix_line h hw.ne_nil (hw.not_mem (by decide))
    (hw.not_mem (by decide))
  have hclean := hw.infix_cleanLine hin
  have hsome : cleanLine line ≠ [] := fun hnil => hw.ne_nil (List.infix_nil.mp (hnil ▸ hclean))
  have hmem : cleanLine line ∈ ((Text.lines s).map cleanLine).filter (!·.isEmpty) :=
    List.mem_filter.mpr ⟨List.mem_map_of_mem hline, by simpa using hsome⟩
  exact hclean.trans (Text.infix_intercalate hmem)

/-- No delimiter has a letter. -/
theorem IsWord.free_of_delimiter (hw : IsWord w) {delimiter : List Char}
    (h : delimiter.all (!·.isAlpha) = true) : ∀ c ∈ delimiter, c ∉ w :=
  fun c hc => hw.not_mem (by simpa using List.all_eq_true.mp h c hc)

/-! ## The two ways of cleaning -/

/-- The text between the delimiters of a block comment; the last one may be missing. -/
def blockContents (contents : List Char) : List Char :=
  (Text.stripTail? ['*', '/'] contents).getD contents

/-- The text behind the delimiter of a line comment, if it has one. -/
def lineContents (trimmed : List Char) : List Char :=
  (lineOpenings.findSome? (Text.stripLead? · trimmed)).getD trimmed

theorem clean_cases (raw : List Char) :
    (∃ contents, Text.trim raw = '/' :: '*' :: contents ∧
      clean raw = cleanBlock (blockContents contents)) ∨
    ((¬ ∃ contents, Text.trim raw = '/' :: '*' :: contents) ∧
      clean raw = Text.trim (lineContents (Text.trim raw))) := by
  cases hblock : Text.stripLead? ['/', '*'] (Text.trim raw) with
  | some contents =>
      refine .inl ⟨contents, Text.stripLead?_eq_some_iff.mp hblock, ?_⟩
      simp only [clean, hblock, blockContents]
  | none =>
      refine .inr ⟨?_, by simp only [clean, hblock, lineContents]⟩
      rintro ⟨contents, hopen⟩
      rw [Text.stripLead?_eq_some_iff.mpr hopen] at hblock
      cases hblock

theorem lineContents_cases (s : List Char) : lineContents s = s ∨
    ∃ opening ∈ lineOpenings, Text.stripLead? opening s = some (lineContents s) := by
  unfold lineContents
  cases hfound : lineOpenings.findSome? (Text.stripLead? · s) with
  | none => exact .inl rfl
  | some rest =>
      obtain ⟨opening, hmem, hstrip⟩ := List.exists_of_findSome?_eq_some hfound
      exact .inr ⟨opening, hmem, hstrip⟩

theorem IsWord.infix_blockContents (hw : IsWord w) (h : w <:+: s) : w <:+: blockContents s := by
  unfold blockContents
  cases hclose : Text.stripTail? ['*', '/'] s with
  | none => exact h
  | some contents => exact Text.infix_of_stripTail? hclose h (hw.free_of_delimiter (by decide))

theorem IsWord.infix_lineContents (hw : IsWord w) (h : w <:+: s) : w <:+: lineContents s := by
  have hopenings : ∀ opening ∈ lineOpenings, opening.all (!·.isAlpha) = true := by decide
  rcases lineContents_cases s with heq | ⟨opening, hmem, hstrip⟩
  · rwa [heq]
  · exact Text.infix_of_stripLead? hstrip h (hw.free_of_delimiter (hopenings opening hmem))

/-- A marker word of a comment is still there when the comment is clean. -/
theorem IsWord.infix_clean (hw : IsWord w) (h : w <:+: raw) : w <:+: clean raw := by
  have htrim := hw.infix_trim h
  rcases clean_cases raw with ⟨contents, hopen, hclean⟩ | ⟨-, hclean⟩
  · rw [hopen] at htrim
    have hcut : w <:+: ['/', '*'] ++ contents := htrim
    have hin := Text.infix_of_append_left hcut (hw.free_of_delimiter (by decide))
    rw [hclean]
    exact hw.infix_cleanBlock (hw.infix_blockContents hin)
  · rw [hclean]
    exact hw.infix_trim (hw.infix_lineContents htrim)

/-- A comment with a marker has a marker word in it when it is clean. -/
theorem exists_word_of_clean (h : hasMarker raw = true) : ∃ w, IsWord w ∧ w <:+: clean raw := by
  obtain ⟨w, hw, hin⟩ := exists_word_of_hasMarker h
  exact ⟨w, hw, hw.infix_clean hin⟩

/-! ## One line -/

theorem cleanLine_isInfix (line : List Char) : cleanLine line <:+: line :=
  (Text.trim_isInfix _).trans ((List.dropWhile_suffix _).isInfix.trans (Text.trim_isInfix line))

theorem lineContents_suffix (s : List Char) : lineContents s <:+ s := by
  rcases lineContents_cases s with heq | ⟨opening, -, hstrip⟩
  · exact ⟨[], heq⟩
  · exact Text.stripLead?_suffix hstrip

theorem not_mem_cleanBlock (s : List Char) : '\n' ∉ cleanBlock s := by
  intro hmem
  rcases Text.mem_intercalate hmem with hsep | ⟨piece, hpiece, hin⟩
  · exact absurd hsep (by decide)
  · obtain ⟨line, hline, rfl⟩ := List.mem_map.mp (List.mem_filter.mp hpiece).1
    exact Text.not_mem_of_mem_lines hline ((cleanLine_isInfix line).subset hin)

theorem not_mem_clean (h : (∃ contents, Text.trim raw = '/' :: '*' :: contents) ∨
    '\n' ∉ Text.trim raw) : '\n' ∉ clean raw := by
  rcases clean_cases raw with ⟨contents, -, hclean⟩ | ⟨hopen, hclean⟩
  · rw [hclean]
    exact not_mem_cleanBlock _
  · rw [hclean]
    have hraw := h.resolve_left hopen
    have hin := (Text.trim_isInfix (lineContents (Text.trim raw))).trans
      (lineContents_suffix (Text.trim raw)).isInfix
    exact fun hmem => hraw (hin.subset hmem)

/-! ## Both ends -/

theorem joinLines_ne_nil {ls : List (List Char)} (hls : ls ≠ []) (h : ∀ line ∈ ls, line ≠ []) :
    joinLines ls ≠ [] := by
  obtain ⟨line, ls, rfl⟩ := List.exists_cons_of_ne_nil hls
  intro hnil
  have hin : line <:+: joinLines (line :: ls) := Text.infix_intercalate List.mem_cons_self
  rw [hnil, List.infix_nil] at hin
  exact h line List.mem_cons_self hin

theorem isTrimmed_joinLines {ls : List (List Char)}
    (h : ∀ line ∈ ls, line ≠ [] ∧ Text.IsTrimmed line) : Text.IsTrimmed (joinLines ls) := by
  induction ls with
  | nil => exact ⟨by simp [joinLines], by simp [joinLines]⟩
  | cons line ls ih =>
      obtain ⟨⟨hne, htrimmed⟩, hrest⟩ := List.forall_mem_cons.mp h
      cases ls with
      | nil => simpa [joinLines] using htrimmed
      | cons next ls =>
          have hmore : joinLines (next :: ls) ≠ [] :=
            joinLines_ne_nil (by simp) fun line hline => (hrest line hline).1
          have hjoin : joinLines (line :: next :: ls) = (line ++ [' ']) ++ joinLines (next :: ls) :=
            List.intercalate_cons_cons
          rw [hjoin]
          refine Text.isTrimmed_append (by simp) hmore ?_ (ih hrest).last
          rw [List.head?_append_of_ne_nil _ hne]
          exact htrimmed.head

theorem isTrimmed_clean (raw : List Char) : Text.IsTrimmed (clean raw) := by
  rcases clean_cases raw with ⟨contents, -, hclean⟩ | ⟨-, hclean⟩
  · rw [hclean]
    refine isTrimmed_joinLines fun piece hpiece => ?_
    obtain ⟨hmem, hne⟩ := List.mem_filter.mp hpiece
    obtain ⟨line, -, rfl⟩ := List.mem_map.mp hmem
    exact ⟨by simpa using hne, Text.isTrimmed_trim _⟩
  · rw [hclean]
    exact Text.isTrimmed_trim _

/-- **Clean comments.**  Whatever the comment, neither end of it is blank when it is clean.  It has
no line feed then if it is a block comment, or had none between the blanks at its ends.  The marker
words in it all stay, so there is one if it carried a marker. -/
theorem clean_keeps (raw : List Char) :
    ((∀ c ∈ (clean raw).head?, Text.isBlank c = false) ∧
      ∀ c ∈ (clean raw).getLast?, Text.isBlank c = false) ∧
    ((∃ contents, Text.trim raw = '/' :: '*' :: contents) ∨ '\n' ∉ Text.trim raw →
      '\n' ∉ clean raw) ∧
    (∀ w, IsWord w → w <:+: raw → w <:+: clean raw) ∧
    (hasMarker raw = true → ∃ w, IsWord w ∧ w <:+: clean raw) := by
  have htrimmed := isTrimmed_clean raw
  refine ⟨⟨htrimmed.head, htrimmed.last⟩, not_mem_clean, ?_, exists_word_of_clean⟩
  intro w hw hin
  exact hw.infix_clean hin

/-- A block comment with stars in front of its lines, one of which has nothing else. -/
def starredBlock : List Char :=
  "/**\n * Loads it.\r\n *\n * FixMe: later\n **/".toList

theorem clean_keeps_starred :
    clean starredBlock = "Loads it. FixMe: later".toList ∧ '\n' ∉ clean starredBlock ∧
      "FixMe".toList <:+: clean starredBlock ∧ ∃ w, IsWord w ∧ w <:+: clean starredBlock := by
  obtain ⟨-, hfeed, hwords, hword⟩ := clean_keeps starredBlock
  have hin : "FixMe".toList <:+: starredBlock :=
    ⟨"/**\n * Loads it.\r\n *\n * ".toList, ": later\n **/".toList, by decide +kernel⟩
  refine ⟨by decide +kernel, hfeed (.inl ⟨starredBlock.drop 2, ?_⟩), ?_, hword ?_⟩
  · decide +kernel
  · exact hwords _ (by decide) hin
  · decide +kernel

end Marker

end TodoIndex
