import Mathlib.Data.List.Forall2
import TodoIndex.Extraction
import TodoIndex.Proofs.Marker.Cleaning
import TodoIndex.Proofs.Syntax.Positions
import TodoIndex.Proofs.Text.Utf8

/-! # Remarks in the order of the source

A tree has all the text of its source, so the position of a comment in it is a place in the source.
The remarks of a source go along the marked comments, one for each, and each of them is on the line
on which its comment starts.
-/

namespace TodoIndex

theorem Language.text_parse (language : Language) (extension : String) (source : List Char) :
    (language.parse extension source).text = source := by
  cases language with
  | go => exact Syntax.Parser.text_wholeTree _ _
  | rust => exact Syntax.Parser.text_wholeTree _ _
  | python => exact Syntax.Parser.text_wholeTree _ _
  | javascript => exact Syntax.Parser.text_wholeTree _ _
  | typescript => exact Syntax.Parser.text_wholeTree _ _

namespace Extraction

open Syntax (Tree Position)

variable {language : Language} {path : Path} {tree : Tree} {p q : Position}

/-! ## One remark for each marked comment -/

/-- The remark that a comment makes if it carries a marker. -/
def remarkOf (language : Language) (path : Path) (comment : Syntax.Comment) : Remark :=
  .make (String.ofList (Marker.clean comment.raw)) path (lineOf comment)
    (functionOf language comment)

theorem ofTree_eq (language : Language) (path : Path) (tree : Tree) :
    ofTree language path tree =
      (tree.comments.filter fun c => Marker.hasMarker c.raw).map (remarkOf language path) := by
  rw [ofTree]
  induction tree.comments with
  | nil => rfl
  | cons c comments ih =>
      cases hmarked : Marker.hasMarker c.raw <;> simp [remarkOf?, remarkOf, hmarked, ih]

/-- At a position is a comment with a marker, and no node around it is a comment. -/
def MarkedAt (tree : Tree) (p : Position) : Prop :=
  tree.Outermost p ∧ Marker.hasMarker (tree.textAt p) = true

/-- The positions of the marked comments. -/
def marked (tree : Tree) : List Position :=
  tree.spots.filter fun p => Marker.hasMarker (tree.textAt p)

theorem mem_marked_iff : p ∈ marked tree ↔ MarkedAt tree p := by
  rw [marked, List.mem_filter, Tree.mem_spots_iff]
  rfl

theorem pairwise_marked (tree : Tree) : (marked tree).Pairwise (· < ·) :=
  tree.pairwise_spots.filter _

theorem ofTree_eq_marked (language : Language) (path : Path) (tree : Tree) :
    ofTree language path tree =
      (marked tree).map fun p => remarkOf language path (tree.commentAt p) := by
  rw [ofTree_eq, Tree.comments_eq, List.filter_map, List.map_map]
  rfl

/-! ## Lines -/

theorem MarkedAt.exists_after (h : MarkedAt tree p) :
    ∃ after, tree.text = tree.before p ++ tree.textAt p ++ after := by
  obtain ⟨c, hc, -⟩ := h.1.comment
  have htext : tree.textAt p = c.text := by simp [Tree.textAt, hc]
  rw [htext]
  exact Tree.exists_after hc

theorem MarkedAt.textAt_ne_nil (h : MarkedAt tree p) : tree.textAt p ≠ [] := by
  intro hnil
  have hmarker := h.2
  rw [hnil] at hmarker
  cases hmarker

/-- A source whose bytes can be numbered in 32 bits, as the places in a tree are. -/
def Numbered (source : List Char) : Prop :=
  (Text.Utf8.encode source).length < UInt32.size

theorem toNat_lineOf (comment : Syntax.Comment) :
    (lineOf comment).toNat = (1 + comment.row) % UInt32.size := by
  have hvalue : (lineOf comment).toNat = (comment.row % 2 ^ 32 + 1) % 2 ^ 32 := rfl
  have hsize : UInt32.size = 2 ^ 32 := rfl
  rw [hvalue, hsize]
  omega

/-- The line of a comment has a number of 32 bits if the bytes of the source do. -/
theorem MarkedAt.toNat_lineOf (h : MarkedAt tree p)
    (hsize : Numbered tree.text) :
    (lineOf (tree.commentAt p)).toNat = 1 + Text.lineFeeds (tree.before p) := by
  obtain ⟨after, hafter⟩ := h.exists_after
  have hfeeds : Text.lineFeeds (tree.before p) ≤ (tree.before p).length := List.count_le_length
  have hbytes := Text.Utf8.length_le_length_encode tree.text
  have hlength := congrArg List.length hafter
  have hsome := List.length_pos_iff.mpr h.textAt_ne_nil
  simp only [List.length_append] at hlength
  rw [Numbered] at hsize
  have hrow : 1 + Text.lineFeeds (tree.before p) < UInt32.size := by omega
  exact (Extraction.toNat_lineOf _).trans (Nat.mod_eq_of_lt hrow)

/-- Later comments do not start on earlier lines. -/
theorem lineFeeds_before_le (hpq : p < q) (hp : MarkedAt tree p) (hq : MarkedAt tree q) :
    Text.lineFeeds (tree.before p) ≤ Text.lineFeeds (tree.before q) := by
  obtain ⟨c, hc, -⟩ := hp.1.comment
  obtain ⟨d, hd, -⟩ := hq.1.comment
  exact (Tree.before_isPrefix hpq hc hd).sublist.count_le _

theorem lineFeeds_before_le_text (h : MarkedAt tree p) :
    Text.lineFeeds (tree.before p) ≤ Text.lineFeeds tree.text := by
  obtain ⟨after, hafter⟩ := h.exists_after
  rw [hafter, Text.lineFeeds_append, Text.lineFeeds_append]
  omega

/-! ## What a remark says -/

/-- A remark tells of the comment at a position of the tree of a source: it is for the given path,
has the comment's text, clean and with a marker word in it, and the line on which the comment
starts. -/
structure Tells (path : Path) (source : List Char) (tree : Tree) (p : Position) (r : Remark) :
    Prop where
  path : r.path = path
  place : ∃ after, source = tree.before p ++ tree.textAt p ++ after
  comment : r.comment = String.ofList (Marker.clean (tree.textAt p))
  word : ∃ w, Marker.IsWord w ∧ w <:+: r.comment.toList
  function : r.function ≠ some ""
  line : Numbered source → r.line.toNat = 1 + Text.lineFeeds (tree.before p)

theorem nameOf_ne_empty (function : Option String) : Remark.nameOf function ≠ some "" := by
  intro h
  have hname := (Option.filter_eq_some_iff.mp h).2
  cases hname

theorem MarkedAt.tells (language : Language) (path : Path) (h : MarkedAt tree p) :
    Tells path tree.text tree p (remarkOf language path (tree.commentAt p)) where
  path := rfl
  place := h.exists_after
  comment := rfl
  word := by
    obtain ⟨w, hw, hin⟩ := Marker.exists_word_of_clean h.2
    exact ⟨w, hw, by rwa [remarkOf, Remark.make, String.toList_ofList]⟩
  function := nameOf_ne_empty _
  line := h.toNat_lineOf

theorem pairwise_lines (language : Language) (path : Path) (tree : Tree)
    (hsize : Numbered tree.text) :
    ((ofTree language path tree).map Remark.line).Pairwise (· ≤ ·) := by
  rw [ofTree_eq_marked, List.map_map, List.pairwise_map]
  refine (pairwise_marked tree).imp_of_mem fun {p q} hp hq hpq => ?_
  have hmarkedp := mem_marked_iff.mp hp
  have hmarkedq := mem_marked_iff.mp hq
  have hle := lineFeeds_before_le hpq hmarkedp hmarkedq
  have hlines : (lineOf (tree.commentAt p)).toNat ≤ (lineOf (tree.commentAt q)).toNat := by
    rw [hmarkedp.toNat_lineOf hsize, hmarkedq.toNat_lineOf hsize]
    omega
  exact UInt32.le_iff_toNat_le.mpr hlines

theorem line_of_mem {r : Remark} (hr : r ∈ ofTree language path tree)
    (hsize : Numbered tree.text) :
    1 ≤ r.line.toNat ∧ r.line.toNat ≤ 1 + Text.lineFeeds tree.text := by
  rw [ofTree_eq_marked] at hr
  obtain ⟨p, hp, rfl⟩ := List.mem_map.mp hr
  have hmarked := mem_marked_iff.mp hp
  have hline := hmarked.toNat_lineOf hsize
  have hle := lineFeeds_before_le_text hmarked
  rw [remarkOf, Remark.make, hline]
  omega

/-- **Remarks in the order of the source.**  Along the positions of the marked comments of a source,
in the order of the source and each of them once, the remarks of the source tell of these.  Their
lines do not decrease, and are lines of the source. -/
theorem remarks_in_source_order (language : Language) (extension : String) (path : Path)
    (source : List Char) :
    ∃ spots : List Position,
      spots.Pairwise (· < ·) ∧
      (∀ p, p ∈ spots ↔ MarkedAt (language.parse extension source) p) ∧
      List.Forall₂ (Tells path source (language.parse extension source)) spots
        (ofSource language extension path source) ∧
      (Numbered source →
        ((ofSource language extension path source).map Remark.line).Pairwise (· ≤ ·) ∧
        ∀ r ∈ ofSource language extension path source,
          1 ≤ r.line.toNat ∧ r.line.toNat ≤ 1 + Text.lineFeeds source) := by
  have htext := language.text_parse extension source
  refine ⟨marked (language.parse extension source), pairwise_marked _, fun p => mem_marked_iff,
    ?_, fun hsize => ?_⟩
  · rw [ofSource, ofTree_eq_marked, List.forall₂_map_right_iff, List.forall₂_same]
    intro p hp
    have htells := (mem_marked_iff.mp hp).tells language path
    rwa [htext] at htells
  · rw [← htext] at hsize
    refine ⟨pairwise_lines language path _ hsize, fun r hr => ?_⟩
    have hline := line_of_mem hr hsize
    rwa [htext] at hline

/-- Marked comments on one line, in a function within a function and around a comment, and marker
words in a text that is no comment. -/
def nestedSource : List Char :=
  ("fn f() \x7b /* TODO: a */ // fixme(b) c\n let s = \"// TODO: d\";\n" ++
    " fn g() \x7b\n  /* /* TODO:\n e */ */\n \x7d\n\x7d\n// FIXME [h]").toList

def nestedRemarks : List Remark :=
  [⟨"TODO: a", .ofString "p", 1, some "f"⟩, ⟨"fixme(b) c", .ofString "p", 1, some "f"⟩,
    ⟨"/* TODO: e */", .ofString "p", 4, some "g"⟩, ⟨"FIXME [h]", .ofString "p", 8, none⟩]

theorem remarks_in_source_order_nested :
    ofSource .rust "rs" (.ofString "p") nestedSource = nestedRemarks ∧ Numbered nestedSource ∧
      (nestedRemarks.map Remark.line).Pairwise (· ≤ ·) ∧
      ∀ r ∈ nestedRemarks, 1 ≤ r.line.toNat ∧ r.line.toNat ≤ 8 := by
  have hremarks : ofSource .rust "rs" (.ofString "p") nestedSource = nestedRemarks := by
    decide +kernel
  have hnumbered : Numbered nestedSource := by
    rw [Numbered]
    decide +kernel
  obtain ⟨-, -, -, -, hlines⟩ := remarks_in_source_order .rust "rs" (.ofString "p") nestedSource
  rw [hremarks] at hlines
  exact ⟨hremarks, hnumbered, hlines hnumbered⟩

end Extraction

end TodoIndex
