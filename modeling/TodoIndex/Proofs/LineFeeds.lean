import TodoIndex.Proofs.Extraction
import TodoIndex.Proofs.Syntax.Go
import TodoIndex.Proofs.Syntax.Lowering
import TodoIndex.Proofs.Syntax.Python
import TodoIndex.Proofs.Syntax.Rust
import TodoIndex.Proofs.Syntax.Script.Depth

/-! # Remarks behind line feeds

Line feeds in front of a source change nothing but the lines of its remarks.  The readers of each
language pass over the blanks before they read anything else; deeper readers are used for the longer
source, but these read the same.
-/

namespace TodoIndex

open Syntax.Parser

/-! ## Sources of the languages -/

namespace Syntax

variable {k : Nat} {s : List Char}

theorem not_marked_feeds (hk : k ≠ 0) (s : List Char) :
    ¬"#!".toList <+: List.replicate k '\n' ++ s := by
  obtain ⟨k, rfl⟩ := Nat.exists_eq_succ_of_ne_zero hk
  rintro ⟨tail, htail⟩
  cases htail

namespace Go

instance settled_sourceFile (d : Nat) : Settled (sourceFile d) := by
  unfold sourceFile
  infer_instance

end Go

namespace Python

instance settled_statement (r : Rules) (indent : Nat) : Settled (statement r indent) := by
  unfold statement
  infer_instance

/-- The outermost lines have no indentation to fall below. -/
theorem block_zero (r : Rules) : block r 0 = many (statement r 0) := by
  unfold block many
  refine congrArg repeatWhile (funext fun s => ?_)
  rw [remaining_bind, if_neg (Nat.not_lt_zero _)]

instance settled_sourceFile (r : Rules) : Settled (sourceFile r) := by
  unfold sourceFile
  rw [block_zero]
  infer_instance

end Python

namespace Rust

instance settled_item (r : Rules) : Settled (item r) := by
  unfold item plainToken attributeItem functionItem macroCall
  refine @settled_bind_right _ _ _ _ _ fun s => ?_
  split <;> infer_instance

theorem interpreterLineLength_eq_zero (hs : ¬"#!".toList <+: s) : interpreterLineLength s = 0 := by
  unfold interpreterLineLength
  split
  · next tail => exact absurd (List.prefix_append ['#', '!'] tail) hs
  · rfl

theorem together_sourceFile (r : Rules) (hk : k ≠ 0) (hs : ¬"#!".toList <+: s) :
    Together k (sourceFile r (List.replicate k '\n' ++ s)) (sourceFile r s) := by
  unfold sourceFile
  rw [remaining_bind, remaining_bind, interpreterLineLength_eq_zero hs,
    interpreterLineLength_eq_zero (not_marked_feeds hk s)]
  exact Settled.read k hk s

end Rust

namespace Script

variable (dialect : Dialect) (d : Nat)

instance settled_item : Settled (item (rules dialect (d + 1))) := by
  change Settled (orElse (statement (rules dialect d)) (loose (rules dialect d)))
  unfold statement loose
  infer_instance

theorem together_sourceFile (hk : k ≠ 0) (hs : ¬"#!".toList <+: s) :
    Together k (sourceFile (rules dialect (d + 1)) (List.replicate k '\n' ++ s))
      (sourceFile (rules dialect (d + 1)) s) := by
  have hplain : ∀ s, ¬"#!".toList <+: s → begins s "#!" = false := fun s hs =>
    Bool.eq_false_iff.mpr fun h => hs (List.isPrefixOf_iff_prefix.mp h)
  unfold sourceFile
  rw [remaining_bind, remaining_bind, hplain s hs, hplain _ (not_marked_feeds hk s),
    if_neg Bool.false_ne_true, if_neg Bool.false_ne_true]
  exact Settled.read k hk s

end Script

end Syntax

open Syntax (Tree)

/-- The tree of a source behind line feeds has the comments of the source, lower by as many rows. -/
theorem Language.visible_parse (language : Language) (extension : String) {k : Nat} (hk : k ≠ 0)
    {source : List Char} (hs : ¬"#!".toList <+: source) :
    Tree.visible 0 [] [language.parse extension (List.replicate k '\n' ++ source)] =
      Tree.visible k [] [language.parse extension source] := by
  have hlonger : source.length ≤ (List.replicate k '\n' ++ source).length := by
    rw [List.length_append]
    omega
  have hdepth : ∀ {m n : Nat}, m ≤ n → 4 * m + 16 ≤ 4 * n + 16 := by omega
  cases language with
  | go =>
      rw [parse, parse, Syntax.Go.parse_eq source (Nat.succ_le_succ hlonger)]
      exact visible_wholeTree hk (Settled.read k hk source)
  | python =>
      rw [parse, parse, Syntax.Python.parse_eq source (Nat.succ_le_succ hlonger)]
      exact visible_wholeTree hk (Settled.read k hk source)
  | rust =>
      rw [parse, parse, Syntax.Rust.parse_eq source (Nat.succ_le_succ hlonger)]
      exact visible_wholeTree hk (Syntax.Rust.together_sourceFile _ hk hs)
  | javascript =>
      rw [parse, parse, Syntax.Script.parse_eq _ source (hdepth hlonger)]
      exact visible_wholeTree hk (Syntax.Script.together_sourceFile _ _ hk hs)
  | typescript =>
      rw [parse, parse, Syntax.Script.parse_eq _ source (hdepth hlonger)]
      exact visible_wholeTree hk (Syntax.Script.together_sourceFile _ _ hk hs)

/-- **Line feeds lower the comments.**  This is all of the grammars that the remarks depend on. -/
theorem Language.visible_feeds (language : Language) (extension : String) (k : Nat)
    {source : List Char} (hs : ¬"#!".toList <+: source) :
    Tree.visible 0 [] [language.parse extension (List.replicate k '\n' ++ source)] =
      (Tree.visible 0 [] [language.parse extension source]).map (Syntax.Comment.lowered k) := by
  by_cases hk : k = 0
  · subst hk
    exact (List.map_id _).symm
  · rw [language.visible_parse extension hk hs, ← Tree.visible_lowered, Nat.zero_add]

/-! ## Remarks -/

/-- The same remark, some lines lower. -/
def Remark.lowered (k : Nat) (r : Remark) : Remark :=
  { r with line := r.line + k.toUInt32 }

namespace Extraction

variable {language : Language} {path : Path} {k : Nat}

theorem ofTree_eq_visible (language : Language) (path : Path) (tree : Tree) :
    ofTree language path tree =
      ((Tree.visible 0 [] [tree]).filter fun c => Marker.hasMarker c.raw).map
        (remarkOf language path) := by
  have hcomments : tree.comments = Tree.pendingComments 0 (Syntax.entering [] [tree]) :=
    Tree.gatherComments_eq 0 _
  rw [ofTree_eq, hcomments, Tree.visible, List.filter_filter]
  refine congrArg _ (List.filter_congr fun c _ => ?_)
  cases c.raw with
  | nil => rfl
  | cons => exact (Bool.and_true _).symm

theorem remarkOf_lowered (language : Language) (path : Path) (k : Nat) (c : Syntax.Comment) :
    remarkOf language path (c.lowered k) = (remarkOf language path c).lowered k := by
  have hline : lineOf (c.lowered k) = lineOf c + k.toUInt32 := by
    rw [← UInt32.toNat_inj]
    change ((c.row + k) % 2 ^ 32 + 1) % 2 ^ 32 =
      ((c.row % 2 ^ 32 + 1) % 2 ^ 32 + k % 2 ^ 32) % 2 ^ 32
    omega
  rw [remarkOf, hline]
  rfl

/-- Trees of any grammar, of which one has the comments of the other some rows lower, have the same
remarks, as many lines lower. -/
theorem ofTree_lowered (language : Language) (path : Path) {lower upper : Tree}
    (h : Tree.visible 0 [] [lower] = (Tree.visible 0 [] [upper]).map (Syntax.Comment.lowered k)) :
    ofTree language path lower = (ofTree language path upper).map (Remark.lowered k) := by
  rw [ofTree_eq_visible, ofTree_eq_visible, h, List.filter_map, List.map_map, List.map_map]
  exact List.map_congr_left fun c _ => remarkOf_lowered language path k c

/-- A remark is on a line that a source of that many characters can have. -/
theorem line_le_length {tree : Tree} {r : Remark} (hr : r ∈ ofTree language path tree)
    (hsize : Numbered tree.text) : r.line.toNat ≤ tree.text.length := by
  rw [ofTree_eq_marked] at hr
  obtain ⟨p, hp, rfl⟩ := List.mem_map.mp hr
  have hmarked := mem_marked_iff.mp hp
  obtain ⟨after, hafter⟩ := hmarked.exists_after
  have hfeeds : Text.lineFeeds (tree.before p) ≤ (tree.before p).length := List.count_le_length
  have hsome := List.length_pos_iff.mpr hmarked.textAt_ne_nil
  have hlength := congrArg List.length hafter
  rw [List.length_append, List.length_append] at hlength
  rw [remarkOf, Remark.make, hmarked.toNat_lineOf hsize]
  omega

/-- **Line feeds lower the remarks.**  Behind line feeds a source that begins with no interpreter
line has the same remarks in the same order, each as many lines lower; no line number overflows if
the bytes of the longer source can be numbered. -/
theorem remarks_behind_line_feeds (language : Language) (extension : String) (path : Path) (k : Nat)
    (source : List Char) (hplain : ¬"#!".toList <+: source) :
    ofSource language extension path (List.replicate k '\n' ++ source) =
        (ofSource language extension path source).map (Remark.lowered k) ∧
      (Numbered (List.replicate k '\n' ++ source) →
        ∀ r ∈ ofSource language extension path source,
          (r.lowered k).line.toNat = r.line.toNat + k) := by
  refine ⟨ofTree_lowered language path (language.visible_feeds extension k hplain),
    fun hsize r hr => ?_⟩
  have htext := language.text_parse extension source
  have hbytes := Text.Utf8.length_le_length_encode (List.replicate k '\n' ++ source)
  rw [List.length_append, List.length_replicate] at hbytes
  have hsmall : (Text.Utf8.encode (List.replicate k '\n' ++ source)).length < 2 ^ 32 := hsize
  have hnumbered : Numbered (language.parse extension source).text := by
    rw [htext]
    refine Nat.lt_of_le_of_lt ?_ hsize
    rw [Text.Utf8.encode, Text.Utf8.encode, List.flatMap_append, List.length_append]
    exact Nat.le_add_left _ _
  have hline := line_le_length hr hnumbered
  rw [htext] at hline
  have hvalue : (r.lowered k).line.toNat = (r.line.toNat + k % 2 ^ 32) % 2 ^ 32 := rfl
  omega

/-- Functions within functions, told apart by the layout alone. -/
def indentedSource : List Char :=
  "def f():\n    # TODO: a\n    def g():\n        pass\n        # FIXME b\n# TODO c".toList

theorem remarks_behind_line_feeds_indented :
    ¬"#!".toList <+: indentedSource ∧ Numbered (List.replicate 3 '\n' ++ indentedSource) ∧
      ofSource .python "py" (.ofString "p") (List.replicate 3 '\n' ++ indentedSource) =
        [⟨"TODO: a", .ofString "p", 5, some "f"⟩, ⟨"FIXME b", .ofString "p", 8, some "g"⟩,
          ⟨"TODO c", .ofString "p", 9, none⟩] ∧
      ∀ r ∈ ofSource .python "py" (.ofString "p") indentedSource,
        (r.lowered 3).line.toNat = r.line.toNat + 3 := by
  have hplain : ¬"#!".toList <+: indentedSource := by decide
  have hnumbered : Numbered (List.replicate 3 '\n' ++ indentedSource) := by
    rw [Numbered]
    decide +kernel
  have hremarks : ofSource .python "py" (.ofString "p") indentedSource =
      [⟨"TODO: a", .ofString "p", 2, some "f"⟩, ⟨"FIXME b", .ofString "p", 5, some "g"⟩,
        ⟨"TODO c", .ofString "p", 6, none⟩] := by
    decide +kernel
  obtain ⟨hlowered, hlines⟩ :=
    remarks_behind_line_feeds .python "py" (.ofString "p") 3 indentedSource hplain
  rw [hremarks] at hlowered
  exact ⟨hplain, hnumbered, hlowered, hlines hnumbered⟩

end Extraction

end TodoIndex
