import TodoIndex.Proofs.Toml.Tables
import TodoIndex.Toml.Reader

/-! # Documents write no key twice

Every step of the reader that lets a table grow refuses a key that is there already, or changes
what stands under it; so all tables that a document writes have distinct keys.
-/

namespace TodoIndex.Toml

/-! ## Growing tables -/

/-- A node that becomes a value with distinct keys.  The tables of an array become an array. -/
inductive Node.Sound : Node → Prop where
  | value {v : Toml} : Distinct v → Sound (.value v)
  | table {origin : Origin} {entries : Nodes} : (entries.map Prod.fst).Nodup →
      (∀ e ∈ entries, Sound e.2) → Sound (.table origin entries)
  | tables (items : List Nodes) : Sound (.tables items)

theorem Node.entriesToToml_eq (nodes : Nodes) :
    Node.entriesToToml nodes = nodes.map fun (key, node) => (key, node.toToml) := by
  induction nodes with
  | nil => rfl
  | cons e nodes ih => rw [Node.entriesToToml, ih, List.map_cons]

theorem Node.Sound.distinct {node : Node} (h : node.Sound) : Distinct node.toToml := by
  induction h with
  | value h => exact h
  | tables items => exact .plain rfl
  | @table origin entries hnodup _ ih =>
      rw [Node.toToml, Node.entriesToToml_eq]
      refine .table (by rwa [List.map_map]) fun e he => ?_
      obtain ⟨node, hnode, rfl⟩ := List.mem_map.mp he
      exact ih node hnode

namespace Nodes

/-- The entries of a table that becomes one with distinct keys. -/
def Sound (nodes : Nodes) : Prop :=
  (nodes.map Prod.fst).Nodup ∧ ∀ e ∈ nodes, e.2.Sound

variable {nodes grown : Nodes} {key : String} {node : Node} {path : List String}

theorem Sound.table (h : nodes.Sound) (origin : Origin) : (Node.table origin nodes).Sound :=
  .table h.1 h.2

theorem sound_nil : Sound [] :=
  ⟨List.nodup_nil, fun _ h => nomatch h⟩

theorem Sound.of_lookup (h : nodes.Sound) (hnode : nodes.lookup key = some node) : node.Sound :=
  h.2 _ (OrderedMap.mem_of_lookup hnode)

theorem Sound.inner {origin : Origin} {inner : Nodes} (h : nodes.Sound)
    (hinner : nodes.lookup key = some (.table origin inner)) : inner.Sound := by
  cases h.of_lookup hinner with
  | table hnodup hall => exact ⟨hnodup, hall⟩

theorem set_eq (key : String) (node : Node) (nodes : Nodes) :
    set key node nodes = OrderedMap.setEntry key node nodes := by
  induction nodes with
  | nil => rfl
  | cons e nodes ih => rw [set, OrderedMap.setEntry, ih]

theorem Sound.set (h : nodes.Sound) (hnode : node.Sound) : (set key node nodes).Sound := by
  rw [set_eq]
  refine ⟨OrderedMap.nodup_setEntry key node h.1, fun e he => ?_⟩
  rcases OrderedMap.mem_setEntry he with rfl | he
  · exact hnode
  · exact h.2 e he

theorem append_eq_set (h : nodes.lookup key = none) (node : Node) :
    nodes ++ [(key, node)] = set key node nodes := by
  rw [set_eq, OrderedMap.setEntry_of_not_mem (OrderedMap.lookup_eq_none_iff_not_mem.mp h)]

theorem Sound.append (h : nodes.Sound) (hnew : nodes.lookup key = none) (hnode : node.Sound) :
    Sound (nodes ++ [(key, node)]) := by
  rw [append_eq_set hnew]
  exact h.set hnode

/-- A change that keeps distinct keys does so at the end of every path. -/
theorem Sound.changeAt {byKey : Bool} {change : Origin → Nodes → Option Nodes}
    (hchange : ∀ origin nodes grown, Sound nodes → change origin nodes = some grown →
      Sound grown) {origin : Origin} (h : nodes.Sound)
    (hgrown : changeAt byKey change path origin nodes = some grown) : grown.Sound := by
  induction path generalizing origin nodes grown with
  | nil => exact hchange origin nodes grown h hgrown
  | cons key path ih =>
      rw [Nodes.changeAt] at hgrown
      split at hgrown
      · rename_i hnew
        obtain ⟨inner, hinner, rfl⟩ := Option.map_eq_some_iff.mp hgrown
        exact h.append hnew ((ih sound_nil hinner).table _)
      · cases hgrown
      · rename_i there hthere
        split at hgrown
        · cases hgrown
        · obtain ⟨inner, hinner, rfl⟩ := Option.map_eq_some_iff.mp hgrown
          exact h.set ((ih (h.inner hthere) hinner).table _)
      · cases hgrown
      · obtain ⟨last, -, rfl⟩ := Option.map_eq_some_iff.mp hgrown
        exact h.set (.tables _)

theorem Sound.add {value : Toml} (h : nodes.Sound) (hvalue : Distinct value)
    (hgrown : nodes.add path value = some grown) : grown.Sound := by
  unfold Nodes.add at hgrown
  split at hgrown
  · cases hgrown
  · refine h.changeAt (fun origin nodes grown hnodes hadd => ?_) hgrown
    unfold addHere at hadd
    split at hadd
    · cases hadd
    · split at hadd
      · cases hadd
      · rename_i hnew
        cases hadd
        exact hnodes.append (Option.not_isSome_iff_eq_none.mp hnew) (.value hvalue)

theorem Sound.nameTable (h : nodes.Sound) (hgrown : nodes.nameTable key = some grown) :
    grown.Sound := by
  unfold Nodes.nameTable at hgrown
  split at hgrown
  · rename_i hnew
    cases hgrown
    exact h.append hnew (sound_nil.table _)
  · rename_i hthere
    cases hgrown
    exact h.set ((h.inner hthere).table _)
  · cases hgrown

theorem Sound.nextTable (h : nodes.Sound) (hgrown : nodes.nextTable key = some grown) :
    grown.Sound := by
  unfold Nodes.nextTable at hgrown
  split at hgrown
  · rename_i hnew
    cases hgrown
    exact h.append hnew (.tables _)
  · cases hgrown
    exact h.set (.tables _)
  · cases hgrown

theorem Sound.open? {isArray : Bool} (h : nodes.Sound)
    (hgrown : nodes.open? isArray path = some grown) : grown.Sound := by
  unfold Nodes.open? at hgrown
  split at hgrown
  · cases hgrown
  · refine h.changeAt (fun _ nodes grown hnodes hchange => ?_) hgrown
    cases isArray
    · exact hnodes.nameTable hchange
    · exact hnodes.nextTable hchange

theorem Sound.addUnder {value : Toml} {header : List String} (h : nodes.Sound)
    (hvalue : Distinct value) (hgrown : nodes.addUnder header path value = some grown) :
    grown.Sound :=
  h.changeAt (fun _ _ _ hnodes hadd => hnodes.add hvalue hadd) hgrown

end Nodes

/-! ## Reading -/

variable {value : Toml} {s rest : List Char}

/-- A reader of values all of whose tables have distinct keys. -/
def ReadsDistinct (read : ValueReader) : Prop :=
  ∀ s value rest, read s = some (value, rest) → Distinct value

/-- A reading that only wraps what was read before. -/
theorem distinct_of_map {α : Type} {read : Option α} {wrap : α → Toml × List Char}
    (hwrap : ∀ a, Distinct (wrap a).1) (h : read.map wrap = some (value, rest)) :
    Distinct value := by
  obtain ⟨a, -, ha⟩ := Option.map_eq_some_iff.mp h
  have hvalue := hwrap a
  rwa [ha] at hvalue

theorem distinct_of_decimalOf {negative : Bool} {whole fraction : List Char} {exponent : Int}
    (h : decimalOf negative whole fraction exponent rest = some (value, s)) : Distinct value := by
  unfold decimalOf at h
  split at h
  · cases h
  · cases h
    exact .plain rfl

theorem distinct_of_readBehindFraction {negative : Bool} {whole fraction : List Char}
    (h : readBehindFraction negative whole fraction rest = some (value, s)) :
    Distinct value := by
  unfold readBehindFraction at h
  split at h
  · split at h
    · obtain ⟨_, -, h⟩ := Option.bind_eq_some_iff.mp h
      exact distinct_of_decimalOf h
    · exact distinct_of_decimalOf h
  · exact distinct_of_decimalOf h

theorem distinct_of_integerOf {negative : Bool} {n : Nat}
    (h : integerOf negative n rest = some (value, s)) : Distinct value := by
  cases h
  exact .plain rfl

theorem distinct_of_readBehindWhole {negative : Bool} {whole : List Char}
    (h : readBehindWhole negative whole rest = some (value, s)) : Distinct value := by
  unfold readBehindWhole at h
  split at h
  · obtain ⟨_, -, h⟩ := Option.bind_eq_some_iff.mp h
    exact distinct_of_readBehindFraction h
  · split at h
    · obtain ⟨_, -, h⟩ := Option.bind_eq_some_iff.mp h
      exact distinct_of_decimalOf h
    · exact distinct_of_integerOf h
  · exact distinct_of_integerOf h

theorem distinct_of_readNumber (h : readNumber s = some (value, rest)) : Distinct value := by
  unfold readNumber at h
  split at h
  · obtain ⟨_, -, h⟩ := Option.bind_eq_some_iff.mp h
    exact distinct_of_integerOf h
  · obtain ⟨_, -, h⟩ := Option.bind_eq_some_iff.mp h
    exact distinct_of_integerOf h
  · obtain ⟨_, -, h⟩ := Option.bind_eq_some_iff.mp h
    exact distinct_of_integerOf h
  · split at h
    · cases h
      exact .plain rfl
    · cases h
      exact .plain rfl
    · obtain ⟨_, -, h⟩ := Option.bind_eq_some_iff.mp h
      exact distinct_of_readBehindWhole h

theorem distinct_of_readMomentOrNumber (h : readMomentOrNumber s = some (value, rest)) :
    Distinct value := by
  unfold readMomentOrNumber at h
  split at h
  · exact distinct_of_map (fun _ => distinct_single (.plain rfl)) h
  · split at h
    · exact distinct_of_map (fun _ => distinct_single (.plain rfl)) h
    · exact distinct_of_readNumber h

theorem readsDistinct_readScalar : ReadsDistinct readScalar := by
  intro s value rest h
  unfold readScalar at h
  split at h
  · exact distinct_of_map (fun _ => .plain rfl) h
  · exact distinct_of_map (fun _ => .plain rfl) h
  · exact distinct_of_map (fun _ => .plain rfl) h
  · exact distinct_of_map (fun _ => .plain rfl) h
  · exact distinct_of_readMomentOrNumber h

theorem ReadsDistinct.readKeyValue {read : ValueReader} {path : List String}
    (hread : ReadsDistinct read) (h : readKeyValue read s = some (path, value, rest)) :
    Distinct value := by
  unfold Toml.readKeyValue at h
  split at h
  · obtain ⟨_, hvalue, heq⟩ := Option.map_eq_some_iff.mp h
    cases heq
    exact hread _ _ _ hvalue
  · cases h

theorem ReadsDistinct.readEntries {read : ValueReader} {fuel : Nat} {nodes grown : Nodes}
    (hread : ReadsDistinct read) (hnodes : nodes.Sound)
    (h : readEntries read fuel nodes s = some (grown, rest)) : grown.Sound := by
  induction fuel generalizing nodes s with
  | zero => cases h
  | succ fuel ih =>
      rw [Toml.readEntries] at h
      split at h
      · cases h
      · rename_i hentry
        split at h
        · cases h
        · rename_i hadd
          have hmore := hnodes.add (hread.readKeyValue hentry) hadd
          split at h
          · exact ih hmore h
          · cases h
            exact hmore
          · cases h

theorem ReadsDistinct.readInlineTable {read : ValueReader} (hread : ReadsDistinct read) :
    ReadsDistinct (readInlineTable read) := by
  intro s value rest h
  unfold Toml.readInlineTable at h
  split at h
  · cases h
    exact distinct_nil
  · obtain ⟨⟨nodes, rest⟩, hentries, heq⟩ := Option.map_eq_some_iff.mp h
    cases heq
    exact ((hread.readEntries Nodes.sound_nil hentries).table .header).distinct

theorem readsDistinct_readValue (depth : Nat) : ReadsDistinct (readValue depth) := by
  induction depth with
  | zero =>
      intro s value rest h
      unfold readValue at h
      split at h
      · cases h
      · cases h
      · exact readsDistinct_readScalar _ _ _ h
  | succ depth ih =>
      intro s value rest h
      unfold readValue at h
      split at h
      · exact distinct_of_map (fun _ => .plain rfl) h
      · exact ih.readInlineTable _ _ _ h
      · exact readsDistinct_readScalar _ _ _ h

theorem sound_of_readLines {fuel : Nat} {header : List String} {nodes grown : Nodes}
    (hnodes : nodes.Sound) (h : readLines fuel header nodes s = some grown) : grown.Sound := by
  induction fuel generalizing header nodes s with
  | zero => cases h
  | succ fuel ih =>
      rw [readLines] at h
      split at h
      · cases h
        exact hnodes
      · split at h
        · cases h
        · obtain ⟨opened, hopen, h⟩ := Option.bind_eq_some_iff.mp h
          exact ih (hnodes.open? hopen) h
      · split at h
        · exact ih hnodes h
        · split at h
          · cases h
          · rename_i hentry
            split at h
            · cases h
            · obtain ⟨more, hadd, h⟩ := Option.bind_eq_some_iff.mp h
              have hvalue := (readsDistinct_readValue maxDepth).readKeyValue hentry
              exact ih (hnodes.addUnder hvalue hadd) h

/-- **The table that a document writes has distinct keys**, and so have the tables in it. -/
theorem distinct_of_ofText? {entries : Entries} (h : ofText? s = some entries) :
    Distinct (.table entries) := by
  obtain ⟨nodes, hlines, rfl⟩ := Option.map_eq_some_iff.mp h
  exact ((sound_of_readLines Nodes.sound_nil hlines).table .header).distinct

end TodoIndex.Toml
