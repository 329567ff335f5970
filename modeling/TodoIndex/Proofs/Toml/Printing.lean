import TodoIndex.Proofs.Toml.Growth
import TodoIndex.Proofs.Toml.Values

/-! # Reading back printed documents

A document of flat values and tables is read back from its printed form: values line by line, and
tables header by header.  While the lines of a table are read, the path of its header leads along
the last entries of the tables above it.
-/

namespace TodoIndex.Toml

variable {c : Char} {s rest : List Char} {value : Toml} {key : String}
  {path header : List String} {nodes grown result inner : Nodes}

/-! ## Lines -/

/-- What is read of the lines of a document under a header. -/
def Ends (header : List String) (nodes : Nodes) (s : List Char) (result : Nodes) : Prop :=
  ∀ fuel, s.length < fuel → readLines fuel header nodes s = some result

theorem ends_nil (header : List String) (nodes : Nodes) : Ends header nodes [] nodes := by
  intro fuel hfuel
  obtain ⟨fuel, rfl⟩ := Nat.exists_eq_succ_of_ne_zero (by omega : fuel ≠ 0)
  rfl

theorem Ends.blank (h : Ends header nodes rest result) :
    Ends header nodes ('\n' :: rest) result := by
  intro fuel hfuel
  obtain ⟨fuel, rfl⟩ := Nat.exists_eq_succ_of_ne_zero (by omega : fuel ≠ 0)
  exact h fuel (Nat.lt_of_succ_lt_succ hfuel)

theorem readLineEnd_newLine (rest : List Char) : readLineEnd ('\n' :: rest) = some rest := by
  rfl

theorem IsVisible.readLineEnd_eq_none (h : IsVisible c) (s : List Char) :
    readLineEnd (c :: s) = none := by
  unfold readLineEnd
  rw [h.skipBlanks]
  dsimp only
  split
  · rename_i heq
    exact absurd (List.cons.inj heq).1 (h.ne (by simp))
  · exact h.afterLineEnd?_eq_none s

/-- What stands behind a key on a line with a value. -/
def printRest (value : Toml) (rest : List Char) : List Char :=
  ' ' :: '=' :: ' ' :: (printValue value ++ '\n' :: rest)

theorem endsPath_printRest (value : Toml) (rest : List Char) : EndsPath (printRest value rest) := by
  constructor
  · intro c s h
    obtain ⟨rfl, -⟩ := List.cons.inj h
    decide
  · intro s h
    have hskip : skipBlanks (printRest value rest) =
        '=' :: ' ' :: (printValue value ++ '\n' :: rest) := rfl
    rw [hskip] at h
    exact absurd (List.cons.inj h).1 (by decide)

theorem readKeyValue_printed (key : String) (rest : List Char) (hflat : IsFlat value) :
    readKeyValue (readValue maxDepth) (printKey key ++ printRest value rest) =
      some ([key], value, '\n' :: rest) := by
  have hkey := readKey_printed key [] (endsPath_printRest value rest) (by decide)
  have hskip : skipBlanks (printRest value rest) =
      '=' :: ' ' :: (printValue value ++ '\n' :: rest) := rfl
  have hblank : skipBlanks (' ' :: (printValue value ++ '\n' :: rest)) =
      printValue value ++ '\n' :: rest := skipBlanks_printValue hflat _
  have hends : EndsValue ('\n' :: rest) := ⟨_, _, rfl, .inl rfl⟩
  have hvalue := hflat.readValue 78 hends
  have hdepth : maxDepth = 78 + 1 := rfl
  rw [hskip] at hkey
  unfold readKeyValue
  rw [printMore, List.flatMap_nil, List.nil_append] at hkey
  simp only [hkey, hblank, hdepth, hvalue, Option.map_some]

/-- A line with a value adds it to the table of the header. -/
theorem Ends.line (hflat : IsFlat value) (hadd : nodes.addUnder header [key] value = some grown)
    (h : Ends header grown rest result) :
    Ends header nodes (printKey key ++ printRest value rest) result := by
  intro fuel hfuel
  obtain ⟨fuel, rfl⟩ := Nat.exists_eq_succ_of_ne_zero (by omega : fuel ≠ 0)
  have hrest : rest.length < fuel := by
    simp only [printRest, List.length_append, List.length_cons] at hfuel
    omega
  have hread := readKeyValue_printed key rest hflat
  have hskip := skipBlanks_printKey key (printRest value rest)
  obtain ⟨c, tail, hc, hvisible, hbracket⟩ := printKey_begins key
  rw [hc, List.cons_append] at hread hskip ⊢
  have hnoEnd := hvisible.readLineEnd_eq_none (tail ++ printRest value rest)
  rw [readLines, hskip]
  split
  · rename_i heq
    cases heq
  · rename_i heq
    exact absurd (List.cons.inj heq).1 hbracket
  · rw [hnoEnd]
    dsimp only
    rw [hread]
    dsimp only
    rw [readLineEnd_newLine]
    dsimp only
    rw [hadd, Option.bind_some]
    exact h fuel hrest

/-- A header names the table that values go to. -/
theorem Ends.under (hopen : nodes.open? false path = some grown) (hne : path ≠ [])
    (hdeep : path.length ≤ maxDepth) (h : Ends path grown rest result) :
    Ends header nodes (printHeader path ++ rest) result := by
  obtain ⟨key, path, rfl⟩ := List.exists_cons_of_ne_nil hne
  intro fuel hfuel
  obtain ⟨fuel, rfl⟩ := Nat.exists_eq_succ_of_ne_zero (by omega : fuel ≠ 0)
  have hrest : rest.length < fuel := by
    simp only [printHeader, List.length_append, List.length_cons] at hfuel
    omega
  have hprint : printHeader (key :: path) ++ rest =
      '[' :: (printKey key ++ (printMore path ++ ']' :: '\n' :: rest)) := by
    rw [printHeader, intercalate_keys]
    simp
  have hends : EndsPath (']' :: '\n' :: rest) := by
    constructor
    · intro c s h
      obtain ⟨rfl, -⟩ := List.cons.inj h
      decide
    · intro s h
      exact absurd (List.cons.inj h).1 (by decide)
  have hread := readKey_printed key path hends hdeep
  have hheader : readHeader (printKey key ++ (printMore path ++ ']' :: '\n' :: rest)) =
      some (false, key :: path, rest) := by
    obtain ⟨c, tail, hc, -, hbracket⟩ := printKey_begins key
    rw [hc, List.cons_append] at hread ⊢
    rw [readHeader]
    · rw [hread]
      rfl
    · exact fun _ h => hbracket (List.cons.inj h).1
  have hskip : ∀ s, skipBlanks ('[' :: s) = '[' :: s := fun _ => rfl
  simp only [hprint, readLines, hskip, hheader, hopen, Option.bind_some]
  exact h fuel hrest

/-! ## Open tables -/

/-- The tables that lie open under a header: in each one, what stands before the key that leads on,
and this key. -/
abbrev Opened := List (Nodes × String)

variable {opened : Opened} {origin : Origin} {change : Nodes → Option Nodes}

def pathOf (opened : Opened) : List String :=
  opened.map Prod.snd

/-- The table of the document when the last table has these entries. -/
def enclose : Opened → Nodes → Nodes
  | [], inner => inner
  | (before, key) :: opened, inner => before ++ [(key, .table .header (enclose opened inner))]

/-- No key that leads on stands in the table before. -/
def IsFresh (opened : Opened) : Prop :=
  ∀ p ∈ opened, p.1.lookup p.2 = none

theorem IsFresh.concat (h : IsFresh opened) (hnew : inner.lookup key = none) :
    IsFresh (opened ++ [(inner, key)]) := by
  intro p hp
  rcases List.mem_append.mp hp with hp | hp
  · exact h p hp
  · rw [List.mem_singleton.mp hp]
    exact hnew

theorem enclose_concat (opened : Opened) (before : Nodes) (key : String) (inner : Nodes) :
    enclose (opened ++ [(before, key)]) inner =
      enclose opened (before ++ [(key, .table .header inner)]) := by
  induction opened with
  | nil => rfl
  | cons p opened ih => rw [List.cons_append, enclose, enclose, ih]

theorem pathOf_concat (opened : Opened) (before : Nodes) (key : String) :
    pathOf (opened ++ [(before, key)]) = pathOf opened ++ [key] := by
  simp [pathOf]

theorem set_last {before : Nodes} {node : Node} (old : Node) (h : before.lookup key = none) :
    Nodes.set key node (before ++ [(key, old)]) = before ++ [(key, node)] := by
  rw [Nodes.append_eq_set h, Nodes.append_eq_set h, Nodes.set_eq, Nodes.set_eq, Nodes.set_eq,
    OrderedMap.setEntry_setEntry]

/-- A change at the end of the path is one of the last table. -/
theorem changeAt_enclose (h : IsFresh opened) :
    Nodes.changeAt false (fun _ => change) (pathOf opened) origin (enclose opened inner) =
      (change inner).map (enclose opened) := by
  induction opened generalizing origin with
  | nil => exact Option.map_id'.symm
  | cons p opened ih =>
      obtain ⟨before, key⟩ := p
      obtain ⟨hnew, hfresh⟩ := List.forall_mem_cons.mp h
      have hlookup : (before ++ [(key, Node.table .header (enclose opened inner))]).lookup key =
          some (.table .header (enclose opened inner)) := by
        rw [List.lookup_append, hnew, Option.none_or, List.lookup_cons_self]
      have hinner := @ih .header hfresh
      simp only [pathOf] at hinner
      rw [pathOf, List.map_cons, Nodes.changeAt, enclose]
      simp only [hlookup, Bool.false_and, Bool.false_eq_true, if_false, hinner, Option.map_map]
      refine congrArg (Option.map · _) (funext fun inner => ?_)
      exact set_last _ hnew

theorem addUnder_enclose (h : IsFresh opened) (hnew : inner.lookup key = none) (value : Toml) :
    Nodes.addUnder (pathOf opened) [key] value (enclose opened inner) =
      some (enclose opened (inner ++ [(key, .value value)])) := by
  have hadd : Nodes.add [key] value inner = some (inner ++ [(key, .value value)]) := by
    simp [Nodes.add, Nodes.changeAt, Nodes.addHere, hnew]
  rw [Nodes.addUnder, changeAt_enclose h, hadd, Option.map_some]

theorem open?_enclose (h : IsFresh opened) (hnew : inner.lookup key = none) :
    Nodes.open? false (pathOf opened ++ [key]) (enclose opened inner) =
      some (enclose (opened ++ [(inner, key)]) []) := by
  have hname : Nodes.nameTable key inner = some (inner ++ [(key, .table .header [])]) := by
    simp [Nodes.nameTable, hnew]
  rw [Nodes.open?, List.getLast?_concat, List.dropLast_concat]
  change Nodes.changeAt false (fun _ => Nodes.nameTable key) _ _ _ = _
  rw [changeAt_enclose h, hname, Option.map_some, enclose_concat]

/-! ## Documents -/

mutual

/-- What a value becomes while it is read from its printed form. -/
def nodeOf : Toml → Node
  | .table entries => .table .header (nodesOf entries)
  | value => .value value

def nodesOf : Entries → Nodes
  | [] => []
  | (key, value) :: entries => (key, nodeOf value) :: nodesOf entries

end

mutual

theorem toToml_nodeOf : ∀ value : Toml, (nodeOf value).toToml = value
  | .table entries => by rw [nodeOf, Node.toToml, entriesToToml_nodesOf]
  | .bool _ | .integer _ | .decimal | .text _ | .array _ => rfl

theorem entriesToToml_nodesOf : ∀ entries : Entries, Node.entriesToToml (nodesOf entries) = entries
  | [] => rfl
  | (key, value) :: entries => by
      rw [nodesOf, Node.entriesToToml, toToml_nodeOf, entriesToToml_nodesOf]

end

theorem nodesOf_append (entries others : Entries) :
    nodesOf (entries ++ others) = nodesOf entries ++ nodesOf others := by
  induction entries with
  | nil => rfl
  | cons e entries ih => rw [List.cons_append, nodesOf, nodesOf, ih, List.cons_append]

theorem IsFlat.nodeOf (h : IsFlat value) : nodeOf value = .value value := by
  cases h with
  | scalar h => cases h <;> rfl
  | array _ => rfl

/-- Entries that are written without loss: first flat values, then tables of such entries, so
deep within each other, and no key twice. -/
def Printable : (depth : Nat) → Entries → Prop
  | 0, _ => False
  | depth + 1, entries => (entries.map Prod.fst).Nodup ∧ ∃ lines tables, entries = lines ++ tables ∧
      (∀ e ∈ lines, IsFlat e.2) ∧ ∀ e ∈ tables, ∃ inner, e.2 = .table inner ∧ Printable depth inner

theorem printable_of_flat {entries : Entries} (hnodup : (entries.map Prod.fst).Nodup)
    (hflat : ∀ e ∈ entries, IsFlat e.2) (depth : Nat) : Printable (depth + 1) entries :=
  ⟨hnodup, entries, [], (List.append_nil _).symm, hflat, fun _ h => nomatch h⟩

theorem printLines_line (key : String) (entries : Entries) (hflat : IsFlat value) :
    printLines ((key, value) :: entries) =
      printKey key ++ printRest value (printLines entries) := by
  have hline : printLines ((key, value) :: entries) =
      printKey key ++ " = ".toList ++ printValue value ++ '\n' :: printLines entries := by
    cases hflat with
    | scalar h => cases h <;> rfl
    | array _ => rfl
  rw [hline]
  simp [printRest]

theorem printBody_flat (path : List String) (hflat : IsFlat value) : printBody path value = [] := by
  cases hflat with
  | scalar h => cases h <;> rfl
  | array _ => rfl

theorem printLines_tables {tables : Entries}
    (h : ∀ e ∈ tables, ∃ inner, e.2 = Toml.table inner) : printLines tables = [] := by
  induction tables with
  | nil => rfl
  | cons e tables ih =>
      obtain ⟨⟨inner, he⟩, htables⟩ := List.forall_mem_cons.mp h
      obtain ⟨key, value⟩ := e
      subst he
      rw [printLines, ih htables]

theorem printLines_append {lines tables : Entries} (hlines : ∀ e ∈ lines, IsFlat e.2)
    (htables : ∀ e ∈ tables, ∃ inner, e.2 = Toml.table inner) :
    printLines (lines ++ tables) = printLines lines := by
  induction lines with
  | nil => exact printLines_tables htables
  | cons e lines ih =>
      obtain ⟨hflat, hlines⟩ := List.forall_mem_cons.mp hlines
      rw [List.cons_append, printLines_line _ _ hflat, printLines_line _ _ hflat, ih hlines]

theorem printTables_append {lines : Entries} (path : List String) (tables : Entries)
    (hlines : ∀ e ∈ lines, IsFlat e.2) :
    printTables path (lines ++ tables) = printTables path tables := by
  induction lines with
  | nil => rfl
  | cons e lines ih =>
      obtain ⟨hflat, hlines⟩ := List.forall_mem_cons.mp hlines
      rw [List.cons_append, printTables, printBody_flat _ hflat, ih hlines, List.nil_append]

theorem names_nodesOf (entries : Entries) :
    (nodesOf entries).map Prod.fst = entries.map Prod.fst := by
  induction entries with
  | nil => rfl
  | cons e entries ih => rw [nodesOf, List.map_cons, List.map_cons, ih]

theorem lookup_nodesOf_eq_none {done entries : Entries}
    (h : ((done ++ (key, value) :: entries).map Prod.fst).Nodup) :
    (nodesOf done).lookup key = none := by
  rw [OrderedMap.lookup_eq_none_iff_not_mem, names_nodesOf]
  intro hmem
  rw [List.map_append] at h
  exact (List.nodup_append.mp h).2.2 key hmem key List.mem_cons_self rfl

/-- The lines of a table add its flat values. -/
theorem Ends.lines {lines done : Entries} (hfresh : IsFresh opened)
    (hlines : ∀ e ∈ lines, IsFlat e.2) (hnodup : ((done ++ lines).map Prod.fst).Nodup)
    (h : Ends (pathOf opened) (enclose opened (nodesOf (done ++ lines))) rest result) :
    Ends (pathOf opened) (enclose opened (nodesOf done)) (printLines lines ++ rest) result := by
  induction lines generalizing done with
  | nil => rwa [List.append_nil] at h
  | cons e lines ih =>
      obtain ⟨key, value⟩ := e
      obtain ⟨hflat, hlines⟩ := List.forall_mem_cons.mp hlines
      have hgrown : nodesOf done ++ [(key, .value value)] = nodesOf (done ++ [(key, value)]) := by
        rw [nodesOf_append, nodesOf, hflat.nodeOf]
        rfl
      have hadd := addUnder_enclose hfresh (lookup_nodesOf_eq_none hnodup) value
      rw [hgrown] at hadd
      have hline : printLines ((key, value) :: lines) ++ rest =
          printKey key ++ printRest value (printLines lines ++ rest) := by
        rw [printLines_line _ _ hflat]
        simp [printRest]
      rw [hline]
      refine Ends.line hflat hadd (ih hlines ?_ ?_)
      · rwa [List.append_assoc]
      · rwa [List.append_assoc]

/-- The entries of a table, so deep within each other, are read back under its header; behind them
no header counts. -/
def ReadsBack (depth : Nat) (entries : Entries) : Prop :=
  ∀ (opened : Opened) (rest : List Char) (result : Nodes), IsFresh opened →
    opened.length + depth ≤ maxDepth →
    (∀ header, Ends header (enclose opened (nodesOf entries)) rest result) →
    Ends (pathOf opened) (enclose opened []) (printLines entries ++
      (printTables (pathOf opened) entries ++ rest)) result

theorem ends_tables {depth : Nat} {tables done : Entries} (hfresh : IsFresh opened)
    (hdeep : opened.length + depth < maxDepth) (hnodup : ((done ++ tables).map Prod.fst).Nodup)
    (htables : ∀ e ∈ tables, ∃ inner, e.2 = Toml.table inner ∧ ReadsBack depth inner)
    (h : ∀ header, Ends header (enclose opened (nodesOf (done ++ tables))) rest result)
    (header : List String) : Ends header (enclose opened (nodesOf done))
      (printTables (pathOf opened) tables ++ rest) result := by
  induction tables generalizing done header with
  | nil =>
      rw [List.append_nil] at h
      exact h header
  | cons e tables ih =>
      obtain ⟨key, value⟩ := e
      obtain ⟨⟨inner, hvalue, hinner⟩, hothers⟩ := List.forall_mem_cons.mp htables
      obtain rfl : value = .table inner := hvalue
      have hnew := lookup_nodesOf_eq_none hnodup
      have htext : printTables (pathOf opened) ((key, .table inner) :: tables) ++ rest =
          '\n' :: (printHeader (pathOf opened ++ [key]) ++ (printLines inner ++
            (printTables (pathOf opened ++ [key]) inner ++
              (printTables (pathOf opened) tables ++ rest)))) := by
        rw [printTables, printBody]
        simp
      have hclosed : enclose (opened ++ [(nodesOf done, key)]) (nodesOf inner) =
          enclose opened (nodesOf (done ++ [(key, .table inner)])) := by
        rw [enclose_concat, nodesOf_append, nodesOf, nodeOf]
        rfl
      rw [htext]
      refine Ends.blank (Ends.under (open?_enclose hfresh hnew) (by simp) ?_ ?_)
      · simp only [pathOf, List.length_append, List.length_map, List.length_singleton]
        omega
      · rw [← pathOf_concat _ (nodesOf done)]
        refine hinner _ _ _ (hfresh.concat hnew) ?_ fun header => ?_
        · rw [List.length_append, List.length_singleton]
          omega
        · rw [hclosed]
          refine ih ?_ hothers ?_ header
          · rwa [List.append_assoc]
          · rwa [List.append_assoc]

theorem Printable.readsBack {depth : Nat} {entries : Entries} (h : Printable depth entries) :
    ReadsBack depth entries := by
  induction depth generalizing entries with
  | zero => exact h.elim
  | succ depth ih =>
      obtain ⟨hnodup, lines, tables, rfl, hlines, htables⟩ := h
      intro opened rest result hfresh hdeep hend
      have hplain : ∀ e ∈ tables, ∃ inner, e.2 = Toml.table inner := fun e he =>
        (htables e he).imp fun _ h => h.1
      have hfirst : ((([] : Entries) ++ lines).map Prod.fst).Nodup := by
        rw [List.map_append] at hnodup
        exact (List.nodup_append.mp hnodup).1
      rw [printLines_append hlines hplain, printTables_append _ _ hlines]
      exact Ends.lines hfresh hlines hfirst (ends_tables hfresh hdeep hnodup
        (fun e he => (htables e he).imp fun _ h => ⟨h.1, ih h.2⟩) hend _)

theorem skipMark_eq_self (hc : c = '\n' ∨ c = '"' ∨ isBare c = true) :
    skipMark (c :: s) = c :: s := by
  have hmark : c.toNat ≠ 0xFEFF := by
    intro heq
    have hchar : c = '\uFEFF' := by rw [← Char.ofNat_toNat (c := c), heq]
    subst hchar
    revert hc
    decide
  rw [skipMark, if_neg hmark]

theorem skipMark_print {depth : Nat} {entries : Entries} (h : Printable depth entries) :
    skipMark (print entries) = print entries := by
  cases depth with
  | zero => exact h.elim
  | succ depth =>
      obtain ⟨-, lines, tables, rfl, hlines, htables⟩ := h
      rw [print, printTables_append _ _ hlines]
      cases lines with
      | cons e lines =>
          obtain ⟨c, tail, hc, hfirst⟩ := printKey_head e.1
          rw [List.cons_append, printLines_line _ _ (hlines e List.mem_cons_self), hc]
          exact skipMark_eq_self (.inr hfirst.symm)
      | nil =>
          cases tables with
          | nil => rfl
          | cons first tables =>
              have hplain : ∀ e ∈ first :: tables, ∃ inner, e.2 = Toml.table inner := fun e he =>
                (htables e he).imp fun _ h => h.1
              rw [List.nil_append, printLines_tables hplain, List.nil_append]
              obtain ⟨inner, he⟩ := hplain first List.mem_cons_self
              obtain ⟨key, value⟩ := first
              obtain rfl : value = .table inner := he
              exact skipMark_eq_self (.inl rfl)

/-- A document is read back from what is printed of it. -/
theorem Printable.ofText?_print {depth : Nat} {entries : Entries} (h : Printable depth entries)
    (hdeep : depth ≤ maxDepth) : ofText? (print entries) = some entries := by
  have hends := h.readsBack [] [] (nodesOf entries) (fun _ h => nomatch h) (by simpa using hdeep)
    fun header => ends_nil header _
  rw [List.append_nil] at hends
  have hread : readLines ((print entries).length + 1) [] [] (print entries) =
      some (nodesOf entries) := hends _ (Nat.lt_succ_self _)
  unfold ofText?
  rw [skipMark_print h]
  dsimp only
  rw [hread, Option.map_some, entriesToToml_nodesOf]

end TodoIndex.Toml
