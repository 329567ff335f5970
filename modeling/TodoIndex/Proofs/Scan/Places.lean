import Mathlib.Data.Prod.Basic
import TodoIndex.Proofs.Extraction
import TodoIndex.Proofs.Helper.Lines
import TodoIndex.Proofs.Scan.Results
import TodoIndex.Proofs.Walk.Files

/-! # Places of stored remarks

A remark is made for each marked comment of a source, and for each line of a helper's output that
gives a line number.  Two of them can lie on one line, and nothing takes one of them away.  So the
remarks that a scan stores have places of their own just if the lines that are found in each file
are all different, and files whose names become the same text have no line in common.
-/

namespace TodoIndex

open Text (Bytes bytesOf)

/-! ## Lines in a file -/

namespace Extraction

variable {language : Language} {extension : String} {path : Path} {source : List Char}

/-- The lines on which the marked comments of a source start, in the order of the comments. -/
def markedLines (language : Language) (extension : String) (source : List Char) : List UInt32 :=
  ((language.parse extension source).comments.filter fun c => Marker.hasMarker c.raw).map lineOf

theorem spots_ofSource (language : Language) (extension : String) (path : Path)
    (source : List Char) :
    (ofSource language extension path source).map (fun r => (r.path, r.line)) =
      (markedLines language extension source).map (Prod.mk path) := by
  rw [ofSource, ofTree_eq, markedLines, List.map_map, List.map_map]
  rfl

end Extraction

namespace Helper

/-- The line numbers that are in an output, in its order. -/
def numbersIn (output : List Char) : List UInt32 :=
  (Text.lines output).filterMap numberOf?

theorem spot_readLine (path : Path) (line : List Char) :
    (readLine path line).remark?.map (fun r => (r.path, r.line)) =
      (numberOf? line).map (Prod.mk path) := by
  rw [remark?_readLine, Option.map_map]
  rfl

theorem spots_remarksOf (path : Path) (output : List Char) :
    (remarksOf path output).map (fun r => (r.path, r.line)) =
      (numbersIn output).map (Prod.mk path) := by
  rw [remarksOf, readOutput, numbersIn, List.filterMap_map, List.map_filterMap, List.map_filterMap]
  exact List.filterMap_congr fun line _ => spot_readLine path line

end Helper

namespace Engine

variable {e : Engine} {disk : Disk} {root path : Path} {name : String}

/-- The lines for which a reader finds remarks in a file, in the order of the remarks. -/
def linesFound (e : Engine) (disk : Disk) (path : Path) : Reader → List UInt32
  | .builtIn language =>
      match disk.contents path with
      | .ok content => Extraction.markedLines language ((Extension.ofPath? path).getD "")
          (Text.Utf8.decodeLossy content)
      | .error _ => []
  | .helper command =>
      match e.run disk command path e.helperLimit with
      | .exited 0 output _ => Helper.numbersIn (Text.Utf8.decodeLossy output)
      | _ => []

/-- The lines for which remarks are found in a file by the reader that claims it. -/
def linesIn (e : Engine) (disk : Disk) (path : Path) : List UInt32 :=
  match e.readers.claimOfPath? path with
  | some claim => e.linesFound disk path claim.reader
  | none => []

/-- The remarks of a file are in that file, on the lines that its reader finds. -/
theorem spots_remarksOf (e : Engine) (disk : Disk) (path : Path) :
    (e.remarksOf disk path).map (fun r => (r.path, r.line)) =
      (e.linesIn disk path).map (Prod.mk path) := by
  unfold remarksOf reading? linesIn
  cases e.readers.claimOfPath? path with
  | none => rfl
  | some claim =>
      obtain ⟨reader, extensions⟩ := claim
      cases reader with
      | builtIn language =>
          simp only [Option.map_some, Reading.read, Reading.readSource, linesFound]
          cases disk.contents path with
          | error cause => rfl
          | ok content => exact Extraction.spots_ofSource _ _ _ _
      | helper command =>
          simp only [Option.map_some, Reading.read, Helper.read, linesFound]
          cases e.run disk command path e.helperLimit with
          | notStarted cause => rfl
          | timedOut => rfl
          | killed signal output errors => rfl
          | exited code output errors =>
              cases code with
              | zero => exact Helper.spots_remarksOf _ _
              | succ code => rfl

/-- The places that a document records for the remarks of a file. -/
theorem recorded_places_remarksOf (e : Engine) (disk : Disk) (path : Path) :
    (e.remarksOf disk path).map (fun r => r.recorded.place) =
      (e.linesIn disk path).map (Prod.mk (Path.ofString path.display).components) := by
  have hspots := congrArg
    (List.map fun spot : Path × UInt32 => ((Path.ofString spot.1.display).components, spot.2))
    (e.spots_remarksOf disk path)
  rw [List.map_map, List.map_map] at hspots
  exact hspots

/-! ## Places of their own -/

/-- No two remarks are found for one line of a file, or for one line of two files whose names are
the same when they are made text. -/
structure OneEach (e : Engine) (disk : Disk) (root : Path) : Prop where
  inFile : ∀ path ∈ e.filesOf disk root, (e.linesIn disk path).Nodup
  between : (e.filesOf disk root).Pairwise fun p q =>
    (Path.ofString p.display).same (Path.ofString q.display) = true →
      (e.linesIn disk p).Disjoint (e.linesIn disk q)

theorem disjoint_map_mk {α β : Type} {a b : α} {l m : List β} :
    (l.map (Prod.mk a)).Disjoint (m.map (Prod.mk b)) ↔ (a = b → l.Disjoint m) := by
  constructor
  · rintro h rfl
    exact fun x hl hm => h (List.mem_map_of_mem hl) (List.mem_map_of_mem hm)
  · intro h spot hl hm
    obtain ⟨x, hx, rfl⟩ := List.mem_map.mp hl
    obtain ⟨y, hy, heq⟩ := List.mem_map.mp hm
    obtain ⟨rfl, rfl⟩ := Prod.mk.inj heq
    exact h rfl hx hy

/-- The remarks that a scan finds are recorded at places of their own just if no two are found for
one line. -/
theorem nodup_recorded_places_iff :
    (((e.remarksBelow disk root).map Remark.recorded).map Remark.place).Nodup ↔
      OneEach e disk root := by
  rw [List.map_map, remarksBelow, List.map_flatMap]
  have hplaces : ∀ path, (e.remarksOf disk path).map (Remark.place ∘ Remark.recorded) =
      (e.linesIn disk path).map (Prod.mk (Path.ofString path.display).components) :=
    e.recorded_places_remarksOf disk
  simp only [hplaces, List.nodup_flatMap, List.nodup_map_iff (Prod.mk_right_injective _)]
  have hbetween : ∀ {p q : Path}, Function.onFun List.Disjoint (fun path =>
      (e.linesIn disk path).map (Prod.mk (Path.ofString path.display).components)) p q ↔
        ((Path.ofString p.display).same (Path.ofString q.display) = true →
          (e.linesIn disk p).Disjoint (e.linesIn disk q)) := by
    intro p q
    rw [Path.same_iff]
    exact disjoint_map_mk
  exact ⟨fun h => ⟨h.1, h.2.imp hbetween.mp⟩, fun h => ⟨h.inFile, h.between.imp hbetween.mpr⟩⟩

/-- **When a scan stores one remark for each place.**  A scan that succeeds puts in the place of
the store document one in which the project has remarks.  No two of these have one place just if no
two are found for one line of a file, nor for one line of two files whose names become the same
text. -/
theorem stored_places_nodup_iff {obstacle : Store.Obstacle} {report : Report}
    (h : (e.runScanUnder obstacle disk root name).value.outcome = .ok report) :
    ∃ document stored remarks,
      Disk.Replaced (disk.createFolders (Store.folderOf e.storePath)).2
        (e.runScanUnder obstacle disk root name).value.disk e.storePath document ∧
      Store.loadFrom e.storePath (.ok document) = .ok stored ∧
      stored.project? (nameOf root name) = some remarks ∧
      ((remarks.map Remark.place).Nodup ↔ OneEach e disk root) := by
  have hscan : (e.scanAs obstacle disk root (nameOf root name)).value =
      (.ok report, (e.runScanUnder obstacle disk root name).value.disk) :=
    Prod.ext h rfl
  obtain ⟨g, old, hgather, -, -, hsave⟩ := scanAs_value hscan
  rw [conclude_gathered hgather old] at hsave
  refine ⟨_, _, (e.remarksBelow disk root).map Remark.recorded, Store.replaced_of_save hsave,
    Store.loadFrom_document _ _, ?_, nodup_recorded_places_iff⟩
  rw [Store.recorded_replaceProject]
  exact (Store.updated_replaceProject _ _ _).same

/-- Where all names are text, only the lines of each file matter. -/
theorem oneEach_iff_of_text (hnames : disk.top.WellNamed)
    (htext : ∀ path ∈ e.filesOf disk root, Path.ofString path.display = path) :
    OneEach e disk root ↔ ∀ path ∈ e.filesOf disk root, (e.linesIn disk path).Nodup := by
  refine ⟨OneEach.inFile, fun hlines => ⟨hlines, ?_⟩⟩
  refine (Walk.pairwise_files hnames _ _).imp_of_mem fun {p q} hp hq hdiffer hsame => ?_
  rw [htext p hp, htext q hq, hdiffer] at hsame
  cases hsame

/-! ## Remarks on one line -/

/-- In the mixed project every file has one marked comment, or none. -/
theorem stored_places_nodup_mixed :
    ∃ document stored remarks,
      Disk.Replaced (mixedProject.createFolders (Store.folderOf mixedEngine.storePath)).2
        (mixedEngine.runScan mixedProject (.ofString "p") "p").value.disk mixedEngine.storePath
        document ∧
      Store.loadFrom mixedEngine.storePath (.ok document) = .ok stored ∧
      stored.project? (nameOf (.ofString "p") "p") = some remarks ∧
      (remarks.map Remark.place).Nodup := by
  obtain ⟨document, stored, remarks, hreplaced, hload, hproject, hiff⟩ :=
    stored_places_nodup_iff outcome_mixed
  refine ⟨document, stored, remarks, hreplaced, hload, hproject, hiff.mpr ?_⟩
  exact (oneEach_iff_of_text (by decide +kernel) (by decide +kernel)).mpr (by decide +kernel)

/-- What one would like to say of a scan: that no two of the remarks which are stored for its
project have one place. -/
def StoresOneEach (e : Engine) (disk : Disk) (root : Path) (name : String) : Prop :=
  ∀ report new remarks, (e.runScan disk root name).value.outcome = .ok report →
    (e.loadStore (e.runScan disk root name).value.disk).value = .ok new →
      new.project? (nameOf root name) = some remarks → (remarks.map Remark.place).Nodup

/-- A project with two marked comments on one line of a file. -/
def crowdedProject : Disk :=
  ⟨.folder (bytesOf "p") (.file (bytesOf "a.go")
    (bytesOf "package p\n/* TODO: one */ /* TODO: two */\n") false .empty) .empty, []⟩

/-- An engine with a helper for text that tells of one line twice. -/
def stammeringEngine : Engine :=
  .make (.defaults (Path.ofString "data")) ⟨[.make (.helper (.ofString "helper")) ["txt"]]⟩
    fun _ _ _ _ => .exited 0 (bytesOf "7:TODO: one\n7:TODO: two\n") []

def noteProject : Disk :=
  ⟨.folder (bytesOf "p") (.file (bytesOf "a.txt") [] false .empty) .empty, []⟩

/-- A project with two files whose names become the same text. -/
def blurredProject : Disk :=
  ⟨.folder (bytesOf "p") (.file (254 :: bytesOf ".go") remarkedSource false
    (.file (255 :: bytesOf ".go") remarkedSource false .empty)) .empty, []⟩

/-- The places of the remarks that are stored for a project after a scan of it, if it succeeds. -/
def placesAfter? (e : Engine) (disk : Disk) (root : Path) (name : String) :
    Option (List (List Path.Component × UInt32)) :=
  match (e.runScan disk root name).value.outcome,
      (e.loadStore (e.runScan disk root name).value.disk).value with
  | .ok _, .ok new => (new.project? (nameOf root name)).map (List.map Remark.place)
  | _, _ => none

theorem StoresOneEach.nodup {places : List (List Path.Component × UInt32)}
    (h : StoresOneEach e disk root name) (hplaces : e.placesAfter? disk root name = some places) :
    places.Nodup := by
  unfold placesAfter? at hplaces
  split at hplaces
  · rename_i report new houtcome hload
    obtain ⟨remarks, hremarks, rfl⟩ := Option.map_eq_some_iff.mp hplaces
    exact h report new remarks houtcome hload hremarks
  · cases hplaces

/-- Each of these projects has two remarks stored at one place. -/
theorem not_stores_one_each :
    ¬ StoresOneEach mixedEngine crowdedProject (.ofString "p") "p" ∧
      ¬ StoresOneEach stammeringEngine noteProject (.ofString "p") "p" ∧
        ¬ StoresOneEach mixedEngine blurredProject (.ofString "p") "p" := by
  have htwice : ∀ {e disk root name}, (placesAfter? e disk root name).any (!·.Nodup) = true →
      ¬ StoresOneEach e disk root name := by
    intro e disk root name hany hone
    obtain ⟨places, hplaces, hnot⟩ := (Option.any_eq_true _ _).mp hany
    simp [hone.nodup hplaces] at hnot
  exact ⟨htwice (by decide +kernel), htwice (by decide +kernel), htwice (by decide +kernel)⟩

end Engine

end TodoIndex
