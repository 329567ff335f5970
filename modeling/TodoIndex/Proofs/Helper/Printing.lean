import TodoIndex.Proofs.Helper.Lines
import TodoIndex.Proofs.Text.Lines

/-! # What a helper says is read as it was meant

A helper puts each of its findings into one line: the number, a colon, the comment, and the
function's name in brackets if there is one.  The brackets are found again whatever else the comment
or the name has in brackets, because only the comment could show their opening earlier, and it does
not have it.
-/

namespace TodoIndex

namespace Helper

variable {s lead rest name comment : List Char} {function : Option (List Char)}

/-! ## Brackets in a text -/

/-- A function's name as it stands at the end of a line. -/
def bracketing (name : List Char) : List Char :=
  opening ++ ' ' :: name ++ [']']

/-- A name that can be put in brackets. -/
structure IsName (name : List Char) : Prop where
  ne_nil : name ≠ []
  trimmed : Text.IsTrimmed name
  not_bracket : ']' ∉ name
  not_feed : '\n' ∉ name

theorem bracketed?_eq_none (h : ¬ opening <+: s) : bracketed? s = none := by
  unfold bracketed?
  cases hstrip : Text.stripLead? opening s with
  | none => rfl
  | some rest => exact absurd ⟨rest, (Text.stripLead?_eq_some_iff.mp hstrip).symm⟩ h

theorem bracketed?_bracketing (h : IsName name) : bracketed? (bracketing name) = some name := by
  have hstrip : Text.stripLead? opening (bracketing name) = some (' ' :: name ++ [']']) :=
    Text.stripLead?_eq_some_iff.mpr (by simp [bracketing])
  have hinside : ∀ c ∈ ' ' :: name, (c != ']') = true := by
    intro c hc
    rcases List.mem_cons.mp hc with rfl | hc
    · decide
    · exact bne_iff_ne.mpr fun heq => h.not_bracket (heq ▸ hc)
  have htake : (' ' :: name ++ [']']).takeWhile (· != ']') = ' ' :: name := by
    rw [List.takeWhile_append_of_pos hinside]
    simp
  have hdrop : (' ' :: name ++ [']']).dropWhile (· != ']') = [']'] := by
    rw [List.dropWhile_append_of_pos hinside]
    simp
  have htrim : Text.trim (' ' :: name) = name :=
    (Text.trim_cons (by decide) name).trans h.trimmed.trim_eq
  have hblank : Text.isBlank ' ' = true := by decide
  unfold bracketed?
  simp only [hstrip, htake, hdrop, htrim]
  simp [hblank, h.ne_nil]

/-- A text in which no brackets for a function are opened has no function. -/
theorem splitFunction?_eq_none (h : ¬ opening <:+: s) : splitFunction? s = none := by
  induction s with
  | nil => rfl
  | cons c s ih =>
      have hhere : bracketed? (c :: s) = none := bracketed?_eq_none fun hp => h hp.isInfix
      have hlater : splitFunction? s = none := ih fun hin => h (List.infix_cons hin)
      simp [splitFunction?, hhere, hlater]

/-- The first brackets are taken. -/
theorem splitFunction?_append (hne : s ≠ []) (hs : bracketed? s = some name)
    (hlead : ∀ t, t <:+ lead → t ≠ [] → ¬ opening <+: t ++ s) :
    splitFunction? (lead ++ s) = some (lead, name) := by
  induction lead with
  | nil =>
      obtain ⟨c, s, rfl⟩ := List.exists_cons_of_ne_nil hne
      simp [splitFunction?, hs]
  | cons c lead ih =>
      have hhere : bracketed? (c :: (lead ++ s)) = none :=
        bracketed?_eq_none (hlead (c :: lead) List.suffix_rfl (by simp))
      have hlater := ih fun t ht => hlead t (ht.trans (List.suffix_cons c lead))
      simp [splitFunction?, hhere, hlater]

/-- Behind the blank of the opening no bracket stands, so it cannot begin in front of a blank with
a bracket and end behind them. -/
theorem opening_isInfix (h : opening <+: s ++ ' ' :: '[' :: rest) : opening <:+: s := by
  by_cases hlong : opening.length ≤ s.length
  · exact (List.prefix_of_prefix_length_le h (List.prefix_append s _) hlong).isInfix
  · have hletters : ∀ i < opening.length, opening[i]? = some ' ' → opening[i + 1]? = some 'f' := by
      decide
    have hat : ∀ (i : Nat) (c : Char), opening[i]? = some c →
        (s ++ ' ' :: '[' :: rest)[i]? = some c := by
      intro i c hc
      obtain ⟨hi, rfl⟩ := List.getElem?_eq_some_iff.mp hc
      exact List.prefix_iff_getElem?.mp h i hi
    have hshort : s.length < opening.length := Nat.lt_of_not_le hlong
    have hblank : opening[s.length]? = some ' ' := by
      rw [List.getElem?_eq_getElem hshort, ← hat s.length _ (List.getElem?_eq_getElem hshort),
        List.getElem?_append_right (Nat.le_refl _), Nat.sub_self]
      rfl
    have hbracket := hat _ _ (hletters _ hshort hblank)
    rw [List.getElem?_append_right (by omega), Nat.add_sub_cancel_left] at hbracket
    cases hbracket

/-! ## The text of a line -/

/-- A comment and a function's name as they are put behind the colon. -/
def textFor (comment : List Char) : Option (List Char) → List Char
  | none => comment
  | some name => comment ++ ' ' :: bracketing name

/-- A comment that can be put into a line. -/
structure IsComment (comment : List Char) : Prop where
  trimmed : Text.IsTrimmed comment
  not_feed : '\n' ∉ comment
  not_opening : ¬ opening <:+: comment

theorem getLast?_bracketing (name : List Char) : (bracketing name).getLast? = some ']' :=
  List.getLast?_concat

theorem exists_bracketing (name : List Char) : ∃ rest, bracketing name = '[' :: rest :=
  ⟨_, rfl⟩

theorem bracketing_ne_nil (name : List Char) : bracketing name ≠ [] := by
  obtain ⟨rest, hrest⟩ := exists_bracketing name
  simp [hrest]

theorem isTrimmed_bracketing (name : List Char) : Text.IsTrimmed (bracketing name) := by
  refine ⟨fun c hc => ?_, fun c hc => ?_⟩
  · cases hc
    decide
  · rw [getLast?_bracketing] at hc
    cases hc
    decide

/-- A line does not end in a blank, even where nothing is behind its colon. -/
theorem last_textFor (hcomment : IsComment comment) :
    ∀ c ∈ (':' :: textFor comment function).getLast?, Text.isBlank c = false := by
  cases function with
  | none =>
      by_cases hempty : comment = []
      · subst hempty
        intro c hc
        cases hc
        decide
      · rw [textFor, List.getLast?_cons_of_ne_nil hempty]
        exact hcomment.trimmed.last
  | some name =>
      have htext : ':' :: textFor comment (some name) =
          (':' :: comment ++ [' ']) ++ bracketing name := by
        simp [textFor]
      rw [htext, List.getLast?_append_of_ne_nil _ (bracketing_ne_nil name)]
      exact (isTrimmed_bracketing name).last

/-- What the text behind the colon is, less the blanks around it. -/
theorem trim_textFor (hcomment : IsComment comment) (name : List Char) :
    ∃ lead, Text.trim (textFor comment (some name)) = lead ++ bracketing name ∧
      Text.trim lead = comment ∧ (lead = [] ∨ lead = comment ++ [' ']) := by
  by_cases hempty : comment = []
  · subst hempty
    have htrim := Text.trim_cons (c := ' ') (by decide) (bracketing name)
    exact ⟨[], htrim.trans (isTrimmed_bracketing name).trim_eq, rfl, .inl rfl⟩
  · have htrimmed : Text.IsTrimmed (textFor comment (some name)) := by
      refine Text.isTrimmed_append hempty (by simp) hcomment.trimmed.head fun c hc => ?_
      rw [List.getLast?_cons_of_ne_nil (bracketing_ne_nil name)] at hc
      exact (isTrimmed_bracketing name).last c hc
    have htrim := Text.trim_concat (c := ' ') (by decide) comment
    refine ⟨comment ++ [' '], ?_, htrim.trans hcomment.trimmed.trim_eq, .inr rfl⟩
    rw [htrimmed.trim_eq, textFor, List.append_assoc, List.singleton_append]

/-- Comment and function are read off the text as they were put into it. -/
theorem splitText_textFor (hcomment : IsComment comment)
    (hfunction : ∀ name ∈ function, IsName name) :
    splitText (Text.trim (textFor comment function)) = (comment, function) := by
  cases function with
  | none =>
      have hnone := splitFunction?_eq_none hcomment.not_opening
      simp only [textFor, hcomment.trimmed.trim_eq, splitText, hnone]
  | some name =>
      obtain ⟨lead, htext, htrim, hlead⟩ := trim_textFor hcomment name
      have hfree : ∀ t, t <:+ lead → t ≠ [] → ¬ opening <+: t ++ bracketing name := by
        intro t ht hne hp
        rcases hlead with rfl | rfl
        · exact hne (List.suffix_nil.mp ht)
        -- A longer piece ends in the blank behind the comment.
        · rcases List.suffix_concat_iff.mp ht with rfl | ⟨front, rfl, hfront⟩
          · exact hne rfl
          · obtain ⟨rest, hrest⟩ := exists_bracketing name
            rw [hrest, List.append_assoc, List.singleton_append] at hp
            exact hcomment.not_opening ((opening_isInfix hp).trans hfront.isInfix)
      have hsplit := splitFunction?_append (bracketing_ne_nil name)
        (bracketed?_bracketing (hfunction name rfl)) hfree
      rw [htext, splitText, hsplit]
      simp only [htrim]

/-! ## Lines -/

theorem isTrimmed_digits (n : Nat) : Text.IsTrimmed (Nat.toDigits 10 n) := by
  have hdigits : ∀ c ∈ Nat.toDigits 10 n, Text.isBlank c = false := by
    intro c hc
    have hdigit := Nat.isDigit_of_mem_toDigits (by omega) (by omega) hc
    exact Text.not_isBlank_of_isAlphanum (by simp [Char.isAlphanum, hdigit])
  exact ⟨fun c hc => hdigits c (List.mem_of_mem_head? hc),
    fun c hc => hdigits c (List.mem_of_mem_getLast? hc)⟩

/-- What a helper has to say of one comment: a line number, the comment, and a function's name if
there is one. -/
structure Finding where
  line : UInt32
  comment : List Char
  function : Option (List Char)
  line_pos : 1 ≤ line.toNat
  isComment : IsComment comment
  isName : ∀ name ∈ function, IsName name

namespace Finding

/-- The line of output for a finding. -/
def print (f : Finding) : List Char :=
  Nat.toDigits 10 f.line.toNat ++ ':' :: textFor f.comment f.function

/-- The remark that is meant by a finding. -/
def remark (path : Path) (f : Finding) : Remark where
  comment := String.ofList f.comment
  path := path
  line := f.line
  function := f.function.map String.ofList

variable (f : Finding)

theorem isNumber_digits : IsNumber (Nat.toDigits 10 f.line.toNat) f.line.toNat := by
  have hle := f.line.toNat_lt
  have hdigits : ∀ c ∈ Nat.toDigits 10 f.line.toNat, c.isDigit = true := fun c hc =>
    Nat.isDigit_of_mem_toDigits (by omega) (by omega) hc
  exact ⟨[], _, rfl, .inl rfl, Nat.toDigits_ne_nil, hdigits, Nat.ofDigitChars_ten_toDigits,
    f.line_pos, by omega⟩

theorem print_ne_nil : f.print ≠ [] := by
  simp [print]

theorem isTrimmed_print : Text.IsTrimmed f.print :=
  Text.isTrimmed_append Nat.toDigits_ne_nil (by simp) (isTrimmed_digits _).head
    (last_textFor f.isComment)

theorem not_mem_print : '\n' ∉ f.print := by
  obtain ⟨line, comment, function, hpos, hcomment, hname⟩ := f
  have hdigits : '\n' ∉ Nat.toDigits 10 line.toNat := fun hmem =>
    absurd (Nat.isDigit_of_mem_toDigits (by omega) (by omega) hmem) (by decide)
  cases function with
  | none => simp [print, textFor, hdigits, hcomment.not_feed]
  | some name =>
      have hopening : '\n' ∉ opening := by decide
      simp [print, textFor, bracketing, hdigits, hcomment.not_feed, hopening,
        (hname name rfl).not_feed]

theorem splitFirst?_print : Text.splitFirst? ':' (Text.trim f.print) =
    some (Nat.toDigits 10 f.line.toNat, textFor f.comment f.function) := by
  rw [f.isTrimmed_print.trim_eq]
  exact Text.splitFirst?_eq_some_iff.mpr ⟨rfl, f.isNumber_digits.not_colon⟩

/-- The line of a finding gives the remark that is meant. -/
theorem remark?_print (path : Path) : (readLine path f.print).remark? = some (remark path f) := by
  have hnumber : numberOf? f.print = some f.line := by
    have hread := lineNumber?_eq_some_iff.mpr f.isNumber_digits
    rw [numberOf?, f.splitFirst?_print]
    simpa only [Option.bind_some, (isTrimmed_digits _).trim_eq] using hread
  have htext : textOf f.print = (f.comment, f.function) := by
    rw [textOf, f.splitFirst?_print]
    exact splitText_textFor f.isComment f.isName
  have hname : Remark.nameOf (f.function.map String.ofList) = f.function.map String.ofList := by
    cases hfunction : f.function with
    | none => rfl
    | some name =>
        have hne := (f.isName name hfunction).ne_nil
        simp [Remark.nameOf, hne]
  rw [remark?_readLine, hnumber, Option.map_some, remarkFor, htext, Remark.make, hname]
  rfl

end Finding

/-- **What a helper says is read as it was meant.**  From the lines for any findings, joined by line
feeds, just the remarks are read that are meant by these, in their order. -/
theorem remarks_of_findings (path : Path) (findings : List Finding) :
    remarksOf path (List.intercalate ['\n'] (findings.map Finding.print)) =
      findings.map (Finding.remark path) := by
  have hlines : Text.lines (List.intercalate ['\n'] (findings.map Finding.print)) =
      findings.map Finding.print := by
    refine Text.lines_intercalate fun line hline => ?_
    obtain ⟨f, -, rfl⟩ := List.mem_map.mp hline
    exact ⟨f.print_ne_nil, f.not_mem_print, f.isTrimmed_print⟩
  rw [remarksOf, readOutput, hlines, List.map_map, List.filterMap_map, ← List.filterMap_eq_map]
  exact List.filterMap_congr fun f _ => f.remark?_print path

/-- Findings with colons and brackets in their comments, no comment at all, and a name in which the
brackets seem to be opened once more. -/
def bracketedFindings : List Finding :=
  -- No comment has the `u` of the opening.
  have hplain : ∀ {comment : List Char}, 'u' ∉ comment → ¬ opening <:+: comment :=
    fun hu hin => hu (hin.subset (by decide))
  [⟨12, "TODO: see [1]: a]".toList, none, by decide,
      ⟨by decide, by decide, hplain (by decide)⟩, by simp⟩,
    ⟨307, [], some "f [in function g".toList, by decide,
      ⟨by decide, by decide, hplain (by decide)⟩,
      by rintro _ ⟨⟩; exact ⟨by decide, by decide, by decide, by decide⟩⟩,
    ⟨7, "[in".toList, some "[".toList, by decide,
      ⟨by decide, by decide, hplain (by decide)⟩,
      by rintro _ ⟨⟩; exact ⟨by decide, by decide, by decide, by decide⟩⟩]

def bracketedOutput : List Char :=
  "12:TODO: see [1]: a]\n307: [in function f [in function g]\n7:[in [in function []".toList

theorem remarks_of_bracketed_findings :
    List.intercalate ['\n'] (bracketedFindings.map Finding.print) = bracketedOutput ∧
      remarksOf (.ofString "p") bracketedOutput =
        [⟨"TODO: see [1]: a]", .ofString "p", 12, none⟩,
          ⟨"", .ofString "p", 307, some "f [in function g"⟩,
          ⟨"[in", .ofString "p", 7, some "["⟩] := by
  have hprint : List.intercalate ['\n'] (bracketedFindings.map Finding.print) =
      bracketedOutput := by
    decide +kernel
  refine ⟨hprint, ?_⟩
  rw [← hprint, remarks_of_findings]
  rfl

end Helper

end TodoIndex
