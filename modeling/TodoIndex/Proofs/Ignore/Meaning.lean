import Mathlib.Data.List.Induction
import TodoIndex.Proofs.Ignore.Defaults

/-! # What an ignore file means

Rules compare raw text: an ending of a path that is cut off, and what is left in front of it.  Told
by components it comes to this: a line that ends in a slash names the last components of a path,
any other line is a pattern for the last one alone, and blank lines and remarks say nothing.
-/

namespace TodoIndex

namespace Text

theorem splitOn_append_cons (c : Char) (s t : List Char) :
    (s ++ c :: t).splitOn c = s.splitOn c ++ t.splitOn c :=
  List.splitOnP_append_cons s t (beq_self_eq_true c)

/-- The pieces of a text are the last ones of another just if it is that text, or stands in it
behind a separator. -/
theorem splitOn_suffix_iff {c : Char} {s t : List Char} :
    s.splitOn c <:+ t.splitOn c ↔ t = s ∨ ∃ lead, t = lead ++ c :: s := by
  constructor
  · intro h
    obtain ⟨front, hfront⟩ := h
    have htext : t = [c].intercalate (front ++ s.splitOn c) := by
      rw [hfront, List.intercalate_splitOn]
    clear hfront
    induction front generalizing t with
    | nil => exact .inl (by rw [htext, List.nil_append, List.intercalate_splitOn])
    | cons piece front ih =>
        obtain ⟨next, more, hrest⟩ :=
          List.exists_cons_of_ne_nil (List.append_ne_nil_of_right_ne_nil front
            (List.splitOn_ne_nil c s))
        rw [List.cons_append, hrest, List.intercalate_cons_cons, ← hrest] at htext
        rcases ih rfl with hself | ⟨lead, hlead⟩
        · exact .inr ⟨piece, by rw [htext, hself, List.append_assoc, List.singleton_append]⟩
        · exact .inr ⟨piece ++ [c] ++ lead, by rw [htext, hlead, List.append_assoc _ lead]⟩
  · intro h
    rcases h with rfl | ⟨lead, rfl⟩
    · exact List.suffix_rfl
    · rw [splitOn_append_cons]
      exact List.suffix_append _ _

theorem dropTrailing_concat (c : Char) (s : List Char) :
    dropTrailing c (s ++ [c]) = dropTrailing c s := by
  simp [dropTrailing]

theorem dropTrailing_of_getLast? {c : Char} {s : List Char} (h : s.getLast? ≠ some c) :
    dropTrailing c s = s := by
  rcases List.eq_nil_or_concat s with rfl | ⟨init, last, rfl⟩
  · rfl
  · rw [List.concat_eq_append] at h ⊢
    have hlast : last ≠ c := by simpa using h
    simp [dropTrailing, hlast]

/-- What is left when a character is dropped at the end does not end in it, and behind it there was
nothing else. -/
theorem dropTrailing_eq_iff {c : Char} {s t : List Char} :
    dropTrailing c s = t ↔ t.getLast? ≠ some c ∧ ∃ n, s = t ++ List.replicate n c := by
  constructor
  · rintro rfl
    induction s using List.reverseRecOn with
    | nil => exact ⟨by simp [dropTrailing], 0, rfl⟩
    | append_singleton s last ih =>
        by_cases hlast : last = c
        · obtain ⟨hend, n, hn⟩ := ih
          rw [hlast, dropTrailing_concat]
          exact ⟨hend, n + 1, by rw [List.replicate_succ', ← List.append_assoc, ← hn]⟩
        · have hend : (s ++ [last]).getLast? ≠ some c := by simp [hlast]
          rw [dropTrailing_of_getLast? hend]
          exact ⟨hend, 0, by simp⟩
  · rintro ⟨hend, n, rfl⟩
    induction n with
    | zero => rw [List.replicate_zero, List.append_nil, dropTrailing_of_getLast? hend]
    | succ n ih => rw [List.replicate_succ', ← List.append_assoc, dropTrailing_concat, ih]

end Text

namespace Ignore

/-- A text as rules read it: backslashes count as slashes, and slashes at the end do not count. -/
def plainText (s : List Char) : List Char :=
  Text.dropTrailing '/' (forwardSlashes s)

/-- With slashes for its backslashes a text is the text that rules read and slashes behind it, and
what rules read does not end in a slash. -/
theorem plainText_eq_iff {s t : List Char} :
    plainText s = t ↔ t.getLast? ≠ some '/' ∧
      ∃ n, (s.map fun c => if c = '\\' then '/' else c) = t ++ List.replicate n '/' :=
  Text.dropTrailing_eq_iff

/-- What stands between the slashes of a text as rules read it. -/
def componentsOf (s : List Char) : List (List Char) :=
  (plainText s).splitOn '/'

theorem getLast?_splitOn (s : List Char) : (s.splitOn '/').getLast? = some (lastName s) := by
  by_cases hslash : '/' ∈ s
  · obtain ⟨behind, lead, hsplit, hname⟩ :=
      List.eq_append_cons_of_mem (List.mem_reverse.mpr hslash)
    have hs : s = lead.reverse ++ '/' :: behind.reverse := by
      have hreverse := congrArg List.reverse hsplit
      simpa using hreverse
    have hbehind : '/' ∉ behind.reverse := by simpa using hname
    have hlast : lastName s = behind.reverse := by
      have hempty : lastName (lead.reverse ++ ['/']) = [] := by simp [lastName]
      rw [hs, List.append_cons, lastName_append hbehind, hempty, List.nil_append]
    rw [hlast, hs, Text.splitOn_append_cons, List.splitOn_eq_singleton hbehind,
      List.getLast?_concat]
  · have hname := lastName_append hslash []
    rw [List.splitOn_eq_singleton hslash]
    simpa [lastName] using hname.symm

theorem Rule.endsIn_iff {ending path : List Char} :
    Rule.endsIn ending path = true ↔ ending.splitOn '/' <:+ path.splitOn '/' := by
  rw [Text.splitOn_suffix_iff, Rule.endsIn]
  constructor
  · intro h
    split at h
    · rename_i lead hlead
      have hpath := Text.stripTail?_eq_some_iff.mp hlead
      rw [Bool.or_eq_true, List.isEmpty_iff, beq_iff_eq] at h
      rcases h with rfl | hlast
      · exact .inl hpath
      · obtain ⟨front, rfl⟩ := List.getLast?_eq_some_iff.mp hlast
        exact .inr ⟨front, by rw [hpath, List.append_assoc, List.singleton_append]⟩
    · cases h
  · intro h
    rcases h with rfl | ⟨front, rfl⟩
    · rw [Text.stripTail?_eq_some_iff.mpr (List.nil_append path).symm]
      rfl
    · have hlead : front ++ '/' :: ending = (front ++ ['/']) ++ ending := by simp
      rw [Text.stripTail?_eq_some_iff.mpr hlead]
      simp

/-! ## Lines -/

/-- A line that is neither blank nor a remark. -/
def Speaks (line : List Char) : Prop :=
  Text.trim line ≠ [] ∧ (Text.trim line).head? ≠ some '#'

/-- A line that ends in a slash names some components, and the last ones of the path are these. -/
def NamesEnding (line path : List Char) : Prop :=
  (Text.trim line).getLast? = some '/' ∧ plainText (Text.trim line) ≠ [] ∧
    componentsOf (Text.trim line) <:+ componentsOf path

/-- A line that does not end in a slash is a pattern, which the last component of the path
matches. -/
def NamesLast (line path : List Char) : Prop :=
  (Text.trim line).getLast? ≠ some '/' ∧
    ∃ pieces name, Glob.ofPattern (Text.trim line) = .ok pieces ∧
      (componentsOf path).getLast? = some name ∧ Glob.accepts pieces name = true

namespace Rule

variable {line : List Char}

theorem ofLine?_silent (h : ¬ Speaks line) : ofLine? line = none := by
  unfold ofLine?
  split
  · rfl
  · rfl
  · rename_i hblank hremark
    refine absurd ⟨hblank, fun hhead => ?_⟩ h
    obtain ⟨rest, hrest⟩ := List.head?_eq_some_iff.mp hhead
    exact hremark rest hrest

theorem ofLine?_speaks (h : Speaks line) : ofLine? line =
    match Text.stripTail? ['/'] (Text.trim line) with
    | some [] => none
    | some ending => some (forFolder ending)
    | none => some (forFile (Text.trim line)) := by
  unfold ofLine?
  split
  · rename_i hblank
    exact absurd hblank h.1
  · rename_i rest hremark
    exact absurd (by rw [hremark]; rfl) h.2
  · rfl

/-- The rule of a line that ends in a slash; a line of one slash gives none. -/
theorem ofLine?_folder (h : Speaks line) {ending : List Char}
    (hline : Text.trim line = ending ++ ['/']) :
    ofLine? line = if ending = [] then none else some (.folder (plainText (Text.trim line))) := by
  have hplain : plainText (Text.trim line) = Text.dropTrailing '/' (forwardSlashes ending) := by
    have hslash : forwardSlashes (ending ++ ['/']) = forwardSlashes ending ++ ['/'] := by
      simp [forwardSlashes]
    rw [plainText, hline, hslash, Text.dropTrailing_concat]
  rw [ofLine?_speaks h, Text.stripTail?_eq_some_iff.mpr hline, hplain]
  cases ending with
  | nil => rfl
  | cons c ending => rfl

theorem ofLine?_file (h : Speaks line) (hline : (Text.trim line).getLast? ≠ some '/') :
    ofLine? line = some (forFile (Text.trim line)) := by
  have hnone : Text.stripTail? ['/'] (Text.trim line) = none := by
    refine Option.eq_none_iff_forall_ne_some.mpr fun ending hending => hline ?_
    rw [Text.stripTail?_eq_some_iff.mp hending, List.getLast?_concat]
  rw [ofLine?_speaks h, hnone]

/-- What the rule of a line ignores. -/
theorem ignores_ofLine?_iff (line path : List Char) :
    (ofLine? line).any (ignores (plainText path) (lastName (plainText path))) = true ↔
      Speaks line ∧ (NamesEnding line path ∨ NamesLast line path) := by
  by_cases hspeaks : Speaks line
  · rw [and_iff_right hspeaks]
    by_cases hlast : (Text.trim line).getLast? = some '/'
    · obtain ⟨ending, hending⟩ := List.getLast?_eq_some_iff.mp hlast
      rw [or_iff_left fun hnames => hnames.1 hlast, NamesEnding, and_iff_right hlast,
        ofLine?_folder hspeaks hending]
      split
      · rename_i hempty
        have hslash : plainText ['/'] = [] := by decide
        simp [hending, hempty, hslash]
      · rw [Option.any_some, ignores, Bool.and_eq_true, endsIn_iff]
        simp [componentsOf]
    · rw [or_iff_right fun hnames => hlast hnames.1, NamesLast, and_iff_right hlast,
        ofLine?_file hspeaks hlast, Option.any_some, forFile, componentsOf, getLast?_splitOn]
      cases Glob.ofPattern (Text.trim line) with
      | error e => simp [ignores]
      | ok pieces => simp [ignores]
  · rw [ofLine?_silent hspeaks]
    simp [hspeaks]

end Rule

/-- **What an ignore file means.**  A filter with the rules of a text ignores a path just if some
line of the text, less the blanks around it, is neither empty nor a remark and names the path: by
its last components if the line ends in a slash, and by a pattern for the last one if it does
not. -/
theorem Filter.ignores_addText_iff (text : List Char) (path : Path) :
    (Filter.empty.addText text).ignores path = true ↔
      ∃ line ∈ Text.lines text, Speaks line ∧
        (NamesEnding line (Text.Utf8.decodeLossy path.bytes) ∨
          NamesLast line (Text.Utf8.decodeLossy path.bytes)) := by
  have hrules : (Filter.empty.addText text).ignores path =
      ((Text.lines text).filterMap Rule.ofLine?).any fun rule =>
        rule.ignores (normalForm path) (lastName (normalForm path)) := rfl
  rw [hrules, List.any_filterMap, List.any_eq_true]
  simp only [← Rule.ignores_ofLine?_iff]
  rfl

end Ignore

end TodoIndex
