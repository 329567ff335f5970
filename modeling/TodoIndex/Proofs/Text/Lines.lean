import TodoIndex.Proofs.Text.Trimming

/-! # Lines and fragments of a text

A text begins with a line: what stands in front of its first line feed, or all of it.  Everything
that is said here about the lines of a text is proved along that, and lines that are joined by line
feeds are found again.

Characters that are taken off the ends of a text, or cut it into lines, cannot go through a
fragment of it in which none of them occurs.  So the fragment is still there in what is left.
-/

namespace TodoIndex

namespace Text

section Lines

variable {line s : List Char}

/-! ## The first line -/

theorem splitLineFeeds_of_line (h : '\n' ∉ line) : splitLineFeeds line = ([], line) := by
  induction line with
  | nil => rfl
  | cons c line ih =>
      rw [List.mem_cons, not_or] at h
      rw [splitLineFeeds_char (Ne.symm h.1), ih h.2]

theorem splitLineFeeds_append_feed (h : '\n' ∉ line) (s : List Char) :
    splitLineFeeds (line ++ '\n' :: s) =
      (line :: (splitLineFeeds s).1, (splitLineFeeds s).2) := by
  induction line with
  | nil => exact splitLineFeeds_feed s
  | cons c line ih =>
      rw [List.mem_cons, not_or] at h
      rw [List.cons_append, splitLineFeeds_char (Ne.symm h.1), ih h.2]

theorem lines_of_line (h : '\n' ∉ line) (hne : line ≠ []) : lines line = [line] := by
  have hempty : line.isEmpty = false := by simpa using hne
  simp [lines, splitLineFeeds_of_line h, hempty]

theorem lines_append_feed (h : '\n' ∉ line) (s : List Char) :
    lines (line ++ '\n' :: s) = dropReturn line :: lines s := by
  simp [lines, splitLineFeeds_append_feed h]

/-- A list has no separator in it, or is a part without one, a separator and a list. -/
theorem separated_induction {α : Type} (sep : α) {motive : List α → Prop}
    (last : ∀ part, sep ∉ part → motive part)
    (cut : ∀ part s, sep ∉ part → motive s → motive (part ++ sep :: s)) (s : List α) :
    motive s := by
  by_cases hsep : sep ∈ s
  · obtain ⟨part, rest, rfl, hpart⟩ := List.eq_append_cons_of_mem hsep
    have : rest.length < (part ++ sep :: rest).length := by
      simp only [List.length_append, List.length_cons]
      omega
    exact cut part rest hpart (separated_induction sep last cut rest)
  · exact last s hsep
  termination_by s.length

/-- A text is empty, or a line without a line feed, or such a line, a line feed and a text. -/
theorem lines_induction {motive : List Char → Prop} (nil : motive [])
    (last : ∀ line, '\n' ∉ line → line ≠ [] → motive line)
    (feed : ∀ line s, '\n' ∉ line → motive s → motive (line ++ '\n' :: s)) (s : List Char) :
    motive s := by
  refine separated_induction '\n' (fun line hline => ?_) feed s
  by_cases hempty : line = []
  · rwa [hempty]
  · exact last line hline hempty

/-! ## What lines are made of -/

theorem dropReturn_isPrefix (line : List Char) : dropReturn line <+: line := by
  rcases endsLike_dropReturn line with h | h
  · exact ⟨[], by rw [List.append_nil, ← h]⟩
  · exact ⟨['\r'], h.symm⟩

theorem IsTrimmed.dropReturn_eq (h : IsTrimmed line) : dropReturn line = line := by
  rcases endsLike_dropReturn line with heq | heq
  · exact heq.symm
  · have hblank := h.last '\r' (by rw [heq, List.getLast?_concat]; rfl)
    exact absurd hblank (by decide)

/-- There is no line feed in a line. -/
theorem not_mem_of_mem_lines (h : line ∈ lines s) : '\n' ∉ line := by
  induction s using lines_induction with
  | nil => cases h
  | last first hfirst hne =>
      rw [lines_of_line hfirst hne, List.mem_singleton] at h
      rwa [h]
  | feed first s hfirst ih =>
      rw [lines_append_feed hfirst, List.mem_cons] at h
      rcases h with rfl | h
      · exact fun hmem => hfirst ((dropReturn_isPrefix first).subset hmem)
      · exact ih h

/-- Lines that are joined by line feeds are the lines of the text, if none is empty and none has
blanks at its ends. -/
theorem lines_intercalate {ls : List (List Char)}
    (h : ∀ line ∈ ls, line ≠ [] ∧ '\n' ∉ line ∧ IsTrimmed line) :
    lines (List.intercalate ['\n'] ls) = ls := by
  induction ls with
  | nil => rfl
  | cons line ls ih =>
      obtain ⟨⟨hne, hfeed, htrim⟩, hrest⟩ := List.forall_mem_cons.mp h
      cases ls with
      | nil => rw [List.intercalate_singleton, lines_of_line hfeed hne]
      | cons next ls =>
          rw [List.intercalate_cons_cons, List.append_assoc, List.singleton_append,
            lines_append_feed hfeed, htrim.dropReturn_eq, ih hrest]

end Lines

section Fragments

variable {w s t lead tail : List Char} {c : Char}

/-! ## What is taken off at the ends -/

theorem infix_of_append_left (h : w <:+: lead ++ s) (hlead : ∀ c ∈ lead, c ∉ w) : w <:+: s := by
  rcases List.infix_append_iff_ne_nil.mp h with hin | hin | ⟨front, back, hne, -, rfl, hfront, -⟩
  · cases w with
    | nil => exact List.nil_infix
    | cons c w => exact absurd List.mem_cons_self (hlead c (hin.subset List.mem_cons_self))
  · exact hin
  · obtain ⟨c, hc⟩ := List.exists_mem_of_ne_nil front hne
    exact absurd (List.mem_append_left _ hc) (hlead c (hfront.subset hc))

theorem infix_of_append_right (h : w <:+: s ++ tail) (htail : ∀ c ∈ tail, c ∉ w) : w <:+: s := by
  have hreverse : w.reverse <:+: tail.reverse ++ s.reverse := by
    rwa [← List.reverse_append, List.reverse_infix]
  rw [← List.reverse_infix]
  exact infix_of_append_left hreverse (by simpa using htail)

theorem infix_of_separated (h : w <:+: s ++ c :: t) (hc : c ∉ w) : w <:+: s ∨ w <:+: t := by
  have hone : ∀ d ∈ [c], d ∉ w := by simpa using hc
  rcases List.infix_append_iff_ne_nil.mp h with hin | hin | ⟨front, back, -, hne, rfl, -, hback⟩
  · exact .inl hin
  · have hfront : w <:+: [c] ++ t := hin
    exact .inr (infix_of_append_left hfront hone)
  · obtain ⟨d, back, rfl⟩ := List.exists_cons_of_ne_nil hne
    obtain ⟨rfl, -⟩ := List.cons_prefix_cons.mp hback
    exact absurd (List.mem_append_right _ List.mem_cons_self) hc

theorem infix_trim (h : w <:+: s) (hw : ∀ c ∈ w, isBlank c = false) : w <:+: trim s := by
  obtain ⟨lead, tail, hs, hlead, htail⟩ := exists_pad s
  have hfree : ∀ {blanks : List Char}, (∀ c ∈ blanks, isBlank c = true) → ∀ c ∈ blanks, c ∉ w := by
    intro blanks hblanks c hc hmem
    have := hw c hmem
    simp [hblanks c hc] at this
  rw [hs, List.append_assoc] at h
  exact infix_of_append_right (infix_of_append_left h (hfree hlead)) (hfree htail)

theorem infix_dropLeading (h : w <:+: s) (hc : c ∉ w) : w <:+: dropLeading c s := by
  rw [← List.takeWhile_append_dropWhile (p := (· == c)) (l := s)] at h
  refine infix_of_append_left h fun d hd => ?_
  have hdc : (d == c) = true := List.mem_takeWhile_imp (p := (· == c)) hd
  rwa [beq_iff_eq.mp hdc]

theorem infix_of_stripLead? (hstrip : stripLead? lead s = some t) (h : w <:+: s)
    (hlead : ∀ c ∈ lead, c ∉ w) : w <:+: t := by
  rw [stripLead?_eq_some_iff.mp hstrip] at h
  exact infix_of_append_left h hlead

theorem infix_of_stripTail? (hstrip : stripTail? tail s = some t) (h : w <:+: s)
    (htail : ∀ c ∈ tail, c ∉ w) : w <:+: t := by
  rw [stripTail?_eq_some_iff.mp hstrip] at h
  exact infix_of_append_right h htail

/-! ## Fragments in lines -/

/-- A fragment without line ends is in one of the lines. -/
theorem exists_infix_line (h : w <:+: s) (hne : w ≠ []) (hfeed : '\n' ∉ w) (hreturn : '\r' ∉ w) :
    ∃ line ∈ lines s, w <:+: line := by
  induction s using lines_induction with
  | nil => exact absurd (List.infix_nil.mp h) hne
  | last line hline hsome => exact ⟨line, by simp [lines_of_line hline hsome], h⟩
  | feed line s hline ih =>
      rw [lines_append_feed hline]
      rcases infix_of_separated h hfeed with hin | hin
      · refine ⟨dropReturn line, List.mem_cons_self, ?_⟩
        rcases endsLike_dropReturn line with heq | heq
        · rwa [← heq]
        · rw [heq] at hin
          exact infix_of_append_right hin (by simpa using hreturn)
      · obtain ⟨other, hmem, hin⟩ := ih hin
        exact ⟨other, List.mem_cons_of_mem _ hmem, hin⟩

/-! ## Pieces of a text -/

theorem trim_isInfix (s : List Char) : trim s <:+: s := by
  obtain ⟨lead, tail, hs, -, -⟩ := exists_pad s
  exact ⟨lead, tail, hs.symm⟩

theorem stripLead?_suffix (h : stripLead? lead s = some t) : t <:+ s :=
  ⟨lead, (stripLead?_eq_some_iff.mp h).symm⟩

/-- Joined texts are all in the text that they are joined to. -/
theorem infix_intercalate {sep : List Char} {ls : List (List Char)} (h : s ∈ ls) :
    s <:+: List.intercalate sep ls := by
  induction ls with
  | nil => cases h
  | cons line ls ih =>
      cases ls with
      | nil =>
          obtain rfl := List.mem_singleton.mp h
          exact ⟨[], [], by simp [List.intercalate_singleton]⟩
      | cons next ls =>
          rw [List.intercalate_cons_cons]
          rcases List.mem_cons.mp h with rfl | h
          · exact ⟨[], sep ++ List.intercalate sep (next :: ls), by simp⟩
          · exact List.infix_append_of_infix_right (ih h)

theorem mem_intercalate {sep : List Char} {ls : List (List Char)}
    (h : c ∈ List.intercalate sep ls) : c ∈ sep ∨ ∃ line ∈ ls, c ∈ line := by
  induction ls with
  | nil => cases h
  | cons line ls ih =>
      cases ls with
      | nil => exact .inr ⟨line, List.mem_cons_self, by simpa using h⟩
      | cons next ls =>
          rw [List.intercalate_cons_cons, List.append_assoc, List.mem_append, List.mem_append] at h
          rcases h with h | h | h
          · exact .inr ⟨line, List.mem_cons_self, h⟩
          · exact .inl h
          · rcases ih h with hsep | ⟨other, hmem, hin⟩
            · exact .inl hsep
            · exact .inr ⟨other, List.mem_cons_of_mem _ hmem, hin⟩

end Fragments

end Text

end TodoIndex
