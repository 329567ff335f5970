import TodoIndex.Proofs.Json.Scalars
import TodoIndex.Proofs.Text.Utf8

/-! # Reading back printed values

A value without loss is read back from its printed form, whatever stands behind it that cannot
belong to a number.  The fuel of the reader counts characters: two for each that is printed.
-/

namespace TodoIndex.Json

/-! ## Blanks -/

/-- The reader of values looks at nothing but what is behind the blanks. -/
theorem readValue_congr {s t : Rest} (h : skipBlanks s = skipBlanks t) (fuel : Nat) :
    readValue fuel s = readValue fuel t := by
  cases fuel with
  | zero => rfl
  | succ fuel => rw [readValue, readValue, h]

theorem skipBlanks_cons {c : Option Char} {s : Rest} (h : isBlank c = false) :
    skipBlanks (c :: s) = c :: s := by
  rw [skipBlanks, List.dropWhile_cons_of_neg (by simp [h])]

theorem skipBlanks_newLine (level : Nat) (s : Rest) :
    skipBlanks ((newLine level).map some ++ s) = skipBlanks s := by
  have hspaces : ∀ n, skipBlanks (List.replicate n (some ' ') ++ s) = skipBlanks s := by
    intro n
    induction n with
    | zero => rfl
    | succ n ih =>
        rw [List.replicate_succ, List.cons_append, skipBlanks, List.dropWhile_cons_of_pos rfl]
        exact ih
  rw [newLine, List.map_cons, List.map_replicate, List.cons_append, skipBlanks,
    List.dropWhile_cons_of_pos rfl]
  exact hspaces _

theorem isBlank_of_isDigit {c : Option Char} (h : isDigit c = true) : isBlank c = false := by
  unfold isBlank
  split
  · exact absurd h (by decide)
  · exact absurd h (by decide)
  · exact absurd h (by decide)
  · exact absurd h (by decide)
  · rfl

theorem endsNumber_cons {c : Char} {s : Rest}
    (h : isDigit (some c) = false ∧ c ≠ '.' ∧ c ≠ 'e' ∧ c ≠ 'E') : EndsNumber (some c :: s) := by
  intro d t heq
  cases heq
  simpa using h

/-! ## The first sign of a value -/

theorem printAt_head (level : Nat) (v : Json) :
    ∃ c s, printAt level v = c :: s ∧ isBlank (some c) = false ∧ c ≠ ']' := by
  cases v with
  | null => exact ⟨'n', _, rfl, by decide, by decide⟩
  | bool b => cases b <;> exact ⟨_, _, rfl, by decide, by decide⟩
  | natural n =>
      obtain ⟨c, s, hs⟩ := List.exists_cons_of_ne_nil (Nat.toDigits_ne_nil (n := n) (b := 10))
      have hdigit := isDigit_of_mem_toDigits (n := n) (c := c) (by simp [hs])
      refine ⟨c, s, by rw [printAt, hs], isBlank_of_isDigit hdigit, ?_⟩
      rintro rfl
      cases hdigit
  | number => exact ⟨'0', _, rfl, by decide, by decide⟩
  | text s => exact ⟨'"', _, rfl, by decide, by decide⟩
  | array items => cases items <;> exact ⟨'[', _, rfl, by decide, by decide⟩
  | object fields => cases fields <;> exact ⟨'\x7b', _, rfl, by decide, by decide⟩

/-! ## Values without parts -/

/-- A value that has no parts is read by the reader of scalars. -/
theorem readValue_scalar {c : Char} {s : Rest} (hblank : isBlank (some c) = false)
    (hbracket : c ≠ '[') (hbrace : c ≠ '\x7b') (fuel : Nat) :
    readValue (fuel + 1) (some c :: s) = readScalar (some c :: s) := by
  rw [readValue, skipBlanks_cons hblank]
  split
  · rename_i heq
    cases heq
    exact absurd rfl hbracket
  · rename_i heq
    cases heq
    exact absurd rfl hbrace
  · rfl

theorem readScalar_toDigits (n : Nat) {rest : Rest} (hrest : EndsNumber rest) :
    readScalar ((Nat.toDigits 10 n).map some ++ rest) = some (.natural n, rest) := by
  rw [← readNumber_toDigits n hrest]
  obtain ⟨c, s, hs⟩ := List.exists_cons_of_ne_nil (Nat.toDigits_ne_nil (n := n) (b := 10))
  have hdigit := isDigit_of_mem_toDigits (n := n) (c := c) (by simp [hs])
  rw [hs, List.map_cons, List.cons_append]
  unfold readScalar
  split
  · rename_i heq
    cases heq
    cases hdigit
  · rename_i heq
    cases heq
    cases hdigit
  · rename_i heq
    cases heq
    cases hdigit
  · rename_i heq
    cases heq
    cases hdigit
  · rename_i heq
    cases heq
    cases hdigit
  · rfl

/-- What is printed of a value is read as that value, behind it whatever ends a number. -/
def ReadsBack (v : Json) : Prop :=
  ∀ (level fuel : Nat) (rest : Rest), 2 * (printAt level v).length ≤ fuel → EndsNumber rest →
    readValue fuel ((printAt level v).map some ++ rest) = some (v, rest)

theorem readsBack_of_scalar {v : Json} {c : Char} {s : List Char}
    (hprint : ∀ level, printAt level v = c :: s) (hblank : isBlank (some c) = false)
    (hbracket : c ≠ '[') (hbrace : c ≠ '\x7b')
    (hread : ∀ rest, EndsNumber rest →
      readScalar ((c :: s).map some ++ rest) = some (v, rest)) : ReadsBack v := by
  intro level fuel rest hfuel hrest
  rw [hprint] at hfuel ⊢
  obtain ⟨fuel, rfl⟩ : ∃ less, fuel = less + 1 :=
    ⟨fuel - 1, by simp only [List.length_cons] at hfuel; omega⟩
  rw [← hread rest hrest]
  exact readValue_scalar hblank hbracket hbrace fuel

theorem readsBack_null : ReadsBack .null :=
  readsBack_of_scalar (fun _ => rfl) (by decide) (by decide) (by decide) fun _ _ => rfl

theorem readsBack_bool (b : Bool) : ReadsBack (.bool b) := by
  cases b with
  | false =>
      exact readsBack_of_scalar (fun _ => rfl) (by decide) (by decide) (by decide) fun _ _ => rfl
  | true =>
      exact readsBack_of_scalar (fun _ => rfl) (by decide) (by decide) (by decide) fun _ _ => rfl

theorem readsBack_natural (n : Nat) : ReadsBack (.natural n) := by
  obtain ⟨c, s, hs⟩ := List.exists_cons_of_ne_nil (Nat.toDigits_ne_nil (n := n) (b := 10))
  have hdigit : isDigit (some c) = true := isDigit_of_mem_toDigits (n := n) (by simp [hs])
  refine readsBack_of_scalar (fun _ => by rw [printAt, hs]) (isBlank_of_isDigit hdigit) ?_ ?_ ?_
  · rintro rfl
    cases hdigit
  · rintro rfl
    cases hdigit
  · intro rest hrest
    rw [← hs]
    exact readScalar_toDigits n hrest

theorem readsBack_text (s : List Char) : ReadsBack (.text (some s)) := by
  have hprint : ∀ level, printAt level (.text (some s)) = '"' :: (s.flatMap escape ++ ['"']) :=
    fun _ => rfl
  refine readsBack_of_scalar hprint (by decide) (by decide) (by decide) fun rest _ => ?_
  have hread := readText_escaped s rest
  rw [List.map_cons, List.map_append, List.cons_append, List.append_assoc, readScalar,
    List.map_cons, List.map_nil, List.singleton_append, hread]
  rfl

/-! ## Arrays and objects -/

theorem endsNumber_printItems (level : Nat) (items : List Json) (rest : Rest) :
    EndsNumber ((printItems level items).map some ++ rest) := by
  cases items <;> exact endsNumber_cons (by decide)

theorem endsNumber_printFields (level : Nat) (fields : List (Option (List Char) × Json))
    (rest : Rest) : EndsNumber ((printFields level fields).map some ++ rest) := by
  match fields with
  | [] => exact endsNumber_cons (by decide)
  | (_, _) :: _ => exact endsNumber_cons (by decide)

theorem readItems_succ (fuel : Nat) (s : Rest) : readItems (fuel + 1) s =
    match readValue fuel s with
    | none => none
    | some (item, s) =>
        match skipBlanks s with
        | some ',' :: s => (readItems fuel s).map fun (items, rest) => (item :: items, rest)
        | some ']' :: s => some ([item], s)
        | _ => none :=
  rfl

/-- After an item the reader looks for a comma or the bracket. -/
theorem readItems_item {item : Json} {level fuel : Nat} {s more : Rest} (h : ReadsBack item)
    (hs : skipBlanks s = skipBlanks ((printAt level item).map some ++ more))
    (hfuel : 2 * (printAt level item).length ≤ fuel) (hmore : EndsNumber more) :
    readItems (fuel + 1) s =
      match skipBlanks more with
      | some ',' :: s => (readItems fuel s).map fun (items, rest) => (item :: items, rest)
      | some ']' :: s => some ([item], s)
      | _ => none := by
  have hvalue : readValue fuel s = some (item, more) :=
    (readValue_congr hs fuel).trans (h level fuel more hfuel hmore)
  rw [readItems_succ, hvalue]

theorem readItems_print {level : Nat} {item : Json} {items : List Json} {rest s : Rest}
    {fuel : Nat} (hall : ∀ x ∈ item :: items, ReadsBack x)
    (hs : skipBlanks s = skipBlanks
      ((printAt (level + 1) item).map some ++ ((printItems level items).map some ++ rest)))
    (hfuel : 2 * (printAt (level + 1) item ++ printItems level items).length < fuel) :
    readItems fuel s = some (item :: items, rest) := by
  induction items generalizing item s fuel with
  | nil =>
      obtain ⟨fuel, rfl⟩ : ∃ less, fuel = less + 1 := ⟨fuel - 1, by omega⟩
      have hless : 2 * (printAt (level + 1) item).length ≤ fuel := by
        simp only [List.length_append] at hfuel
        omega
      rw [readItems_item (hall item List.mem_cons_self) hs hless (endsNumber_printItems _ _ _),
        printItems, List.map_append, List.append_assoc, skipBlanks_newLine]
      rfl
  | cons next items ih =>
      obtain ⟨fuel, rfl⟩ : ∃ less, fuel = less + 1 := ⟨fuel - 1, by omega⟩
      have hless : 2 * (printAt (level + 1) item).length ≤ fuel := by
        simp only [List.length_append] at hfuel
        omega
      have hmore : readItems fuel ((newLine (level + 1)).map some ++
          ((printAt (level + 1) next).map some ++ ((printItems level items).map some ++ rest))) =
            some (next :: items, rest) := by
        refine ih (fun x hx => hall x (List.mem_cons_of_mem item hx)) (skipBlanks_newLine _ _) ?_
        simp only [printItems, List.length_append, List.length_cons] at hfuel ⊢
        omega
      have hprint : (printItems level (next :: items)).map some ++ rest =
          some ',' :: ((newLine (level + 1)).map some ++
            ((printAt (level + 1) next).map some ++
              ((printItems level items).map some ++ rest))) := by
        simp [printItems]
      rw [readItems_item (hall item List.mem_cons_self) hs hless (endsNumber_printItems _ _ _),
        hprint, skipBlanks_cons rfl]
      change (readItems fuel _).map _ = _
      rw [hmore]
      rfl

theorem readValue_array (fuel : Nat) (s : Rest) : readValue (fuel + 1) (some '[' :: s) =
    match skipBlanks s with
    | some ']' :: s => some (.array [], s)
    | s => (readItems fuel s).map fun (items, rest) => (.array items, rest) :=
  rfl

theorem readValue_bracket {s t : Rest} {c : Char} (hs : skipBlanks s = some c :: t) (hc : c ≠ ']')
    (fuel : Nat) : readValue (fuel + 1) (some '[' :: s) =
      (readItems fuel (some c :: t)).map fun (items, rest) => (.array items, rest) := by
  rw [readValue_array, hs]
  split
  · rename_i heq
    cases heq
    exact absurd rfl hc
  · rfl

theorem readsBack_array {items : List Json} (h : ∀ item ∈ items, ReadsBack item) :
    ReadsBack (.array items) := by
  intro level fuel rest hfuel _
  cases items with
  | nil =>
      obtain ⟨fuel, rfl⟩ : ∃ less, fuel = less + 1 := ⟨fuel - 1, by simp [printAt] at hfuel; omega⟩
      rfl
  | cons item items =>
      obtain ⟨fuel, rfl⟩ : ∃ less, fuel = less + 1 := ⟨fuel - 1, by simp [printAt] at hfuel; omega⟩
      obtain ⟨c, s, hs, hblank, hclose⟩ := printAt_head (level + 1) item
      have hitems : readItems fuel ((printAt (level + 1) item).map some ++
          ((printItems level items).map some ++ rest)) = some (item :: items, rest) := by
        refine readItems_print h rfl ?_
        simp only [printAt, List.length_append, List.length_cons] at hfuel ⊢
        omega
      have hprint : (printAt level (.array (item :: items))).map some ++ rest =
          some '[' :: ((newLine (level + 1)).map some ++ ((printAt (level + 1) item).map some ++
            ((printItems level items).map some ++ rest))) := by
        simp [printAt]
      have hskip := skipBlanks_newLine (level + 1) ((printAt (level + 1) item).map some ++
        ((printItems level items).map some ++ rest))
      rw [hs, List.map_cons, List.cons_append] at hskip hitems
      rw [skipBlanks_cons hblank] at hskip
      rw [hprint, hs, List.map_cons, List.cons_append, readValue_bracket hskip hclose, hitems]
      rfl

/-- What is printed of a field, and what is behind it. -/
def fieldThen (level : Nat) (name : List Char) (value : Json) (more : Rest) : Rest :=
  (textOf (some name)).map some ++
    (some ':' :: some ' ' :: ((printAt level value).map some ++ more))

theorem readFields_quoted {fuel : Nat} {s t u : Rest} {name : Option (List Char)}
    (hs : skipBlanks s = some '"' :: t) (htext : readText t = some (name, some ':' :: u)) :
    readFields (fuel + 1) s =
      match readValue fuel u with
      | none => none
      | some (value, s) =>
          match skipBlanks s with
          | some ',' :: s =>
              (readFields fuel s).map fun (fields, rest) => ((name, value) :: fields, rest)
          | some '\x7d' :: s => some ([(name, value)], s)
          | _ => none := by
  simp only [readFields, hs, htext]
  rfl

/-- After the name and the value of a field the reader looks for a comma or the brace. -/
theorem readFields_field {name : List Char} {value : Json} {level fuel : Nat} {s more : Rest}
    (h : ReadsBack value) (hs : skipBlanks s = fieldThen level name value more)
    (hfuel : 2 * (printAt level value).length ≤ fuel) (hmore : EndsNumber more) :
    readFields (fuel + 1) s =
      match skipBlanks more with
      | some ',' :: s =>
          (readFields fuel s).map fun (fields, rest) => ((some name, value) :: fields, rest)
      | some '\x7d' :: s => some ([(some name, value)], s)
      | _ => none := by
  have htext := readText_escaped name (some ':' :: some ' ' ::
    ((printAt level value).map some ++ more))
  have hspace : skipBlanks (some ' ' :: ((printAt level value).map some ++ more)) =
      skipBlanks ((printAt level value).map some ++ more) := rfl
  have hvalue := (readValue_congr hspace fuel).trans (h level fuel more hfuel hmore)
  have hquoted : fieldThen level name value more = some '"' :: ((name.flatMap escape).map some ++
      some '"' :: some ':' :: some ' ' :: ((printAt level value).map some ++ more)) := by
    simp [fieldThen, textOf, quoted]
  rw [readFields_quoted (hs.trans hquoted) htext, hvalue]

theorem readFields_print {level : Nat} {name : List Char} {value : Json}
    {fields : List (Option (List Char) × Json)} {rest s : Rest} {fuel : Nat}
    (hvalue : ReadsBack value) (hall : ∀ f ∈ fields, f.1.isSome ∧ ReadsBack f.2)
    (hs : skipBlanks s =
      fieldThen (level + 1) name value ((printFields level fields).map some ++ rest))
    (hfuel : 2 * (printAt (level + 1) value ++ printFields level fields).length < fuel) :
    readFields fuel s = some ((some name, value) :: fields, rest) := by
  induction fields generalizing name value s fuel with
  | nil =>
      obtain ⟨fuel, rfl⟩ : ∃ less, fuel = less + 1 := ⟨fuel - 1, by omega⟩
      have hless : 2 * (printAt (level + 1) value).length ≤ fuel := by
        simp only [List.length_append] at hfuel
        omega
      rw [readFields_field hvalue hs hless (endsNumber_printFields _ _ _), printFields,
        List.map_append, List.append_assoc, skipBlanks_newLine]
      rfl
  | cons next fields ih =>
      obtain ⟨fuel, rfl⟩ : ∃ less, fuel = less + 1 := ⟨fuel - 1, by omega⟩
      have hless : 2 * (printAt (level + 1) value).length ≤ fuel := by
        simp only [List.length_append] at hfuel
        omega
      obtain ⟨⟨hname, hnext⟩, hfields⟩ := List.forall_mem_cons.mp hall
      obtain ⟨nextName, nextValue⟩ := next
      obtain ⟨nextName, rfl⟩ := Option.isSome_iff_exists.mp hname
      have hmore : readFields fuel ((newLine (level + 1)).map some ++
          fieldThen (level + 1) nextName nextValue ((printFields level fields).map some ++ rest)) =
            some ((some nextName, nextValue) :: fields, rest) := by
        refine ih hnext hfields (skipBlanks_newLine _ _) ?_
        simp only [printFields, List.length_append, List.length_cons] at hfuel ⊢
        omega
      have hprint : (printFields level ((some nextName, nextValue) :: fields)).map some ++ rest =
          some ',' :: ((newLine (level + 1)).map some ++
            fieldThen (level + 1) nextName nextValue
              ((printFields level fields).map some ++ rest)) := by
        simp [printFields, fieldThen]
      rw [readFields_field hvalue hs hless (endsNumber_printFields _ _ _), hprint,
        skipBlanks_cons rfl]
      change (readFields fuel _).map _ = _
      rw [hmore]
      rfl

theorem readValue_object (fuel : Nat) (s : Rest) : readValue (fuel + 1) (some '\x7b' :: s) =
    match skipBlanks s with
    | some '\x7d' :: s => some (.object [], s)
    | s => (readFields fuel s).map fun (fields, rest) => (.object fields, rest) :=
  rfl

theorem readsBack_object {fields : List (Option (List Char) × Json)}
    (h : ∀ f ∈ fields, f.1.isSome ∧ ReadsBack f.2) : ReadsBack (.object fields) := by
  intro level fuel rest hfuel _
  match fields with
  | [] =>
      obtain ⟨fuel, rfl⟩ : ∃ less, fuel = less + 1 := ⟨fuel - 1, by simp [printAt] at hfuel; omega⟩
      rfl
  | (name, value) :: fields =>
      obtain ⟨fuel, rfl⟩ : ∃ less, fuel = less + 1 := ⟨fuel - 1, by simp [printAt] at hfuel; omega⟩
      obtain ⟨⟨hname, hvalue⟩, hfields⟩ := List.forall_mem_cons.mp h
      obtain ⟨name, rfl⟩ := Option.isSome_iff_exists.mp hname
      have hopen : readFields fuel
          (fieldThen (level + 1) name value ((printFields level fields).map some ++ rest)) =
            some ((some name, value) :: fields, rest) := by
        refine readFields_print hvalue hfields (skipBlanks_cons rfl) ?_
        simp only [printAt, List.length_append, List.length_cons] at hfuel ⊢
        omega
      have hprint : (printAt level (.object ((some name, value) :: fields))).map some ++ rest =
          some '\x7b' :: ((newLine (level + 1)).map some ++
            fieldThen (level + 1) name value ((printFields level fields).map some ++ rest)) := by
        simp [printAt, fieldThen]
      rw [hprint, readValue_object, skipBlanks_newLine]
      change (readFields fuel (fieldThen (level + 1) name value _)).map _ = _
      rw [hopen]
      rfl

/-! ## Documents -/

/-- A value that is printed without loss. -/
inductive Printable : Json → Prop where
  | null : Printable .null
  | bool (b : Bool) : Printable (.bool b)
  | natural (n : Nat) : Printable (.natural n)
  | text (s : List Char) : Printable (.text (some s))
  | array {items : List Json} : (∀ item ∈ items, Printable item) → Printable (.array items)
  | object {fields : List (Option (List Char) × Json)} :
      (∀ f ∈ fields, f.1.isSome) → (∀ f ∈ fields, Printable f.2) → Printable (.object fields)

theorem Printable.readsBack {v : Json} (h : Printable v) : ReadsBack v := by
  induction h with
  | null => exact readsBack_null
  | bool b => exact readsBack_bool b
  | natural n => exact readsBack_natural n
  | text s => exact readsBack_text s
  | array _ ih => exact readsBack_array ih
  | object hnames _ ih => exact readsBack_object fun f hf => ⟨hnames f hf, ih f hf⟩

/-- The printed form of a value without loss is a document of that value. -/
theorem Printable.ofBytes?_print {v : Json} (h : Printable v) :
    ofBytes? (Text.Utf8.encode v.print) = some v := by
  have hread : readValue (2 * (v.print.map some).length + 2) (v.print.map some ++ []) =
      some (v, []) := by
    refine h.readsBack 0 _ [] ?_ (fun c s hs => by cases hs)
    simp only [print, List.length_map]
    omega
  rw [List.append_nil] at hread
  rw [ofBytes?, Text.Utf8.signs_encode, ofSigns?, hread]
  rfl

end TodoIndex.Json
