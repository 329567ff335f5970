import TodoIndex.Proofs.Extraction
import TodoIndex.Reading

/-! # Lines of files

However malformed the bytes of a file are, its line feeds are those of the text that is read from
it.  So the lines of the text are the lines of the file, and the line of a remark is the line of the
file on which its comment starts.
-/

namespace TodoIndex

namespace Text

/-- The byte of a line feed. -/
def lineFeed : UInt8 := 0x0A

namespace Utf8

variable {s : Bytes}

/-! ## Decoding line by line -/

theorem decodeLossy_append_feed (s t : Bytes) :
    decodeLossy (s ++ lineFeed :: t) = decodeLossy s ++ '\n' :: decodeLossy t :=
  decodeLossy_append_ascii (by decide) s t

/-- Malformed parts are shown as another character, so a line feed comes from its byte only. -/
theorem not_feed_mem_decodeLossy (h : lineFeed ∉ s) : '\n' ∉ decodeLossy s := by
  intro hmem
  obtain ⟨head, hhead, hshown⟩ := List.mem_map.mp hmem
  cases head with
  | char c n =>
      obtain rfl : c = '\n' := hshown
      exact h (mem_of_mem_headsAfter (c := '\n') (by decide) (by decide) hhead)
  | malformed n => cases hshown

theorem lineFeeds_decodeLossy_line (h : lineFeed ∉ s) :
    lineFeeds (decodeLossy s) = s.count lineFeed := by
  rw [List.count_eq_zero.mpr h]
  exact List.count_eq_zero.mpr (not_feed_mem_decodeLossy h)

/-- Decoding keeps each line feed and adds none. -/
theorem lineFeeds_decodeLossy (s : Bytes) : lineFeeds (decodeLossy s) = s.count lineFeed := by
  induction s using separated_induction lineFeed with
  | last s h => exact lineFeeds_decodeLossy_line h
  | cut s t h ih =>
      calc lineFeeds (decodeLossy (s ++ lineFeed :: t))
          = lineFeeds (decodeLossy s) + lineFeeds ('\n' :: decodeLossy t) := by
            rw [decodeLossy_append_feed, lineFeeds_append]
        _ = s.count lineFeed + (lineFeeds (decodeLossy t) + 1) := by
            rw [lineFeeds_decodeLossy_line h, lineFeeds, lineFeeds, List.count_cons_self]
        _ = (s ++ lineFeed :: t).count lineFeed := by
            rw [ih, List.count_append, List.count_cons_self]

/-- The lines of the text are the lines of the bytes, each decoded alone. -/
theorem splitOn_decodeLossy (s : Bytes) :
    (decodeLossy s).splitOn '\n' = (s.splitOn lineFeed).map decodeLossy := by
  induction s using separated_induction lineFeed with
  | last s h =>
      rw [List.splitOn_eq_singleton h, List.splitOn_eq_singleton (not_feed_mem_decodeLossy h),
        List.map_singleton]
  | cut s t h ih =>
      rw [decodeLossy_append_feed, List.splitOn_append_cons_self_of_not_mem h,
        List.splitOn_append_cons_self_of_not_mem (not_feed_mem_decodeLossy h), ih, List.map_cons]

end Utf8

end Text

namespace Reading

open Extraction (MarkedAt lineOf remarkOf)
open Syntax (Tree Position)
open Text (Bytes lineFeed)
open Text.Utf8 (decodeLossy)

variable {content : Bytes} {tree : Tree} {p : Position}

/-! ## Lines of remarks -/

/-- A remark has the number of the line of a file on which the comment at a position starts: the
bytes in front of the comment, decoded, are the text in front of the position.  Lines are counted in
32 bits, which are enough for a file with fewer line feeds. -/
def OnLineOf (content : Bytes) (tree : Tree) (p : Position) (r : Remark) : Prop :=
  ∃ front rest, content = front ++ rest ∧ decodeLossy front = tree.before p ∧
    tree.textAt p <+: decodeLossy rest ∧
    r.line.toNat = (1 + front.count lineFeed) % UInt32.size ∧
    (1 + content.count lineFeed < UInt32.size → r.line.toNat = 1 + front.count lineFeed)

theorem onLineOf_remarkOf (language : Language) (path : Path) (h : MarkedAt tree p)
    (htext : tree.text = decodeLossy content) :
    OnLineOf content tree p (remarkOf language path (tree.commentAt p)) := by
  obtain ⟨after, hafter⟩ := h.exists_after
  rw [htext, List.append_assoc] at hafter
  obtain ⟨front, rest, rfl, hfront, hrest⟩ := Text.Utf8.exists_bytes_of_decodeLossy hafter
  have hline : (lineOf (tree.commentAt p)).toNat = (1 + front.count lineFeed) % UInt32.size := by
    rw [Extraction.toNat_lineOf, ← Text.Utf8.lineFeeds_decodeLossy, hfront]
    rfl
  refine ⟨front, rest, rfl, hfront, ?_, hline, fun hcounted => ?_⟩
  · rw [hrest]
    exact List.prefix_append _ _
  · rw [List.count_append] at hcounted
    exact hline.trans (Nat.mod_eq_of_lt (by omega))

theorem readSource_value (language : Language) (extension : String) (disk : Disk) (path : Path) :
    (readSource language extension disk path).value =
      match disk.contents path with
      | .error e => .error (.io path e)
      | .ok content =>
          .ok (Extraction.ofSource language extension path (decodeLossy content)) := by
  rw [readSource]
  cases disk.contents path <;> rfl

/-- **Decoding keeps the lines.**  Whatever bytes stand on both sides of a line feed, they are
decoded as if they stood alone; so the text of a file has the line feeds of the file, and its lines
are the file's, each decoded alone.  The remarks of a file that can be read go along the marked
comments of its text, and each has the number of the line of the file on which its comment
starts. -/
theorem lines_are_those_of_the_file :
    (∀ a b : Bytes, decodeLossy (a ++ lineFeed :: b) = decodeLossy a ++ '\n' :: decodeLossy b) ∧
    (∀ content : Bytes,
      Text.lineFeeds (decodeLossy content) = content.count lineFeed ∧
      (decodeLossy content).splitOn '\n' = (content.splitOn lineFeed).map decodeLossy) ∧
    ∀ (language : Language) (extension : String) (disk : Disk) (path : Path),
      match disk.contents path, (readSource language extension disk path).value with
      | .ok content, .ok remarks =>
          let tree := language.parse extension (decodeLossy content)
          ∃ spots : List Position, spots.Pairwise (· < ·) ∧ (∀ p, p ∈ spots ↔ MarkedAt tree p) ∧
            List.Forall₂ (OnLineOf content tree) spots remarks
      | .error e, .error cause => cause = .io path e
      | _, _ => False := by
  refine ⟨Text.Utf8.decodeLossy_append_feed, fun content =>
    ⟨Text.Utf8.lineFeeds_decodeLossy content, Text.Utf8.splitOn_decodeLossy content⟩,
    fun language extension disk path => ?_⟩
  rw [readSource_value]
  cases disk.contents path with
  | error e => rfl
  | ok content =>
      have htext := language.text_parse extension (decodeLossy content)
      refine ⟨Extraction.marked _, Extraction.pairwise_marked _,
        fun p => Extraction.mem_marked_iff, ?_⟩
      rw [Extraction.ofSource, Extraction.ofTree_eq_marked, List.forall₂_map_right_iff,
        List.forall₂_same]
      intro p hp
      exact onLineOf_remarkOf language path (Extraction.mem_marked_iff.mp hp) htext

/-- A Go file in another encoding, with a truncated sequence in front of a line feed. -/
def strayBytes : Bytes :=
  Text.bytesOf "package p\n// caf" ++ [0xE9] ++ Text.bytesOf "\n// " ++ [0xE2, 0x82, lineFeed] ++
    Text.bytesOf "// TODO: " ++ [0xED, 0xA0, 0x80] ++ Text.bytesOf "\n"

example : Extraction.ofSource .go "go" (.ofString "p.go") (decodeLossy strayBytes) =
    [⟨"TODO: \uFFFD\uFFFD\uFFFD", .ofString "p.go", 4, none⟩] := by
  decide +kernel

end Reading

end TodoIndex
