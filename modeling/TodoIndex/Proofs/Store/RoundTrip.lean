import TodoIndex.Proofs.Store.AllOrNothing
import TodoIndex.Proofs.Store.Documents

/-! # Loading what was saved

A save that succeeds has put the document where its path ended.  The path still ends there, and
the store is loaded from it, as long as the directory of the path is a directory after the save.
It is none only if the path led to its directory through the link that the save has replaced.
-/

namespace TodoIndex

open Text (Bytes)

namespace View

variable {v : View} {links : Nat} {place target : List Bytes} {name : Bytes}

/-- A path of one name ends at that name in its directory. -/
theorem ends_at_name {spot : Spot} (hname : IsName name) (hspot : spot.EndsAt target)
    (h : seek v false links place [name] = .ok spot) : place ++ [name] = target := by
  rw [seek_name hname] at h
  cases hview : v (place ++ [name]) with
  | none =>
      simp only [hview] at h
      split at h
      · cases h
        exact hspot.1
      · cases h
  | some entry =>
      rw [hview] at h
      cases entry with
      | folder inside =>
          dsimp only at h
          rw [seek_nil] at h
          split at h
          · cases h
            exact hspot
          · cases h
      | file content executable =>
          cases h
          exact hspot
      | link other =>
          cases h
          exact hspot

end View

namespace Disk

variable {first d : Disk} {path : Path} {content : Bytes}

theorem entry_of_seek_link {place : List Bytes} {target : Bytes}
    (h : d.seek false path = .ok (.found place (.link target))) :
    d.entry false path = .ok (.link target) := by
  obtain ⟨there, hfind, hbare⟩ := find_of_seek_found h
  rw [entry, hfind, Entry.bare_eq_link.mp hbare]

/-- What has replaced a document is found if the directory of its path is still one. -/
theorem Replaced.seek_of_isFolder (h : Replaced first d path content)
    (hfolder : d.isFolder (Store.folderOf path) = true) :
    ∃ new executable, ∀ followLast,
      d.seek followLast path = .ok (.found new (.file content executable)) := by
  obtain ⟨spot, new, executable, hseek, hends, hfree, hview⟩ := h.ends
  obtain ⟨place, hplace⟩ := isFolder_iff.mp hfolder
  have hstart := start_congr h.here path
  obtain ⟨hallowed, hseek⟩ := seek_eq_ok_iff.mp hseek
  replace hplace := (seek_eq_ok_iff.mp hplace).2
  obtain ⟨front, name, hpieces, hname⟩ := View.name_of_ends hends hfree hseek
  obtain ⟨hfrom, pieces, idles, hsplit, hidles, hsame⟩ := Store.split_at_folder hpieces hname
  rw [hsame, ← hfrom, hstart] at hplace
  have hmore : idles ++ [name] ≠ [] := by simp
  -- Both before and after, the path comes to the name in the same directory.
  have hshown : ∀ at_ entry, d.view at_ = some entry →
      (∀ bytes mode, entry ≠ .file bytes mode) → first.view at_ = some entry := by
    intro at_ entry hentry hnofile
    rw [hview] at hentry
    by_cases hnew : at_ = new
    · rw [hnew, View.set_same] at hentry
      cases hentry
      exact absurd rfl (hnofile content executable)
    · rwa [View.set_other hnew] at hentry
  obtain ⟨less, hbefore⟩ := View.seek_behind_folder hplace hshown
  obtain ⟨fewer, hafter⟩ := View.seek_behind_folder hplace fun at_ entry hentry _ => hentry
  rw [hsplit, hbefore false _ hmore, View.seek_append_idle hidles] at hseek
  have hnew : place ++ [name] = new := View.ends_at_name hname hends hseek
  refine ⟨new, executable, fun followLast => ?_⟩
  rw [seek_of_allowed hallowed, hstart, hsplit, hafter followLast _ hmore, View.seek_append_idle hidles,
    View.seek_name hname, hnew, hview, View.set_same]
  rfl

/-- What has replaced a document is read if the directory of its path is still one. -/
theorem Replaced.contents_of_isFolder (h : Replaced first d path content)
    (hfolder : d.isFolder (Store.folderOf path) = true) : d.contents path = .ok content := by
  obtain ⟨new, executable, hfound⟩ := h.seek_of_isFolder hfolder
  rw [contents_eq, hfound true]
  rfl

end Disk

namespace Store

open Disk (Replaced)

variable {s : Store} {disk saved : Disk} {path : Path} {obstacle : Obstacle}

/-- A save that succeeds has replaced the document, once its directory was there. -/
theorem replaced_of_save (h : s.saveUnder obstacle disk path = (.ok (), saved)) :
    Replaced (disk.createFolders (folderOf path)).2 saved path s.document := by
  have hcourse := course_savingUnder obstacle s disk path
  unfold saveUnder at h
  generalize s.savingUnder obstacle disk path = saving at h hcourse
  cases hcourse with
  | failed _ _ => cases h
  | @done before last _ hreplaced =>
      have hlast : last = saved := by
        have hdisk := congrArg Prod.snd h
        simpa only [getLast?_disk] using hdisk
      rwa [← hlast]

theorem load_of_contents {bytes : Bytes} (hcontents : saved.contents path = .ok bytes)
    (hread : ofDocument? bytes = some s) : load saved path = .ok s := by
  rw [load, hcontents]
  dsimp only
  rw [hread]

/-- **Stores are loaded as they were saved.**  After a save that succeeds the same store is
loaded, unless the path led to its own directory through the link at its end, which the save has
replaced; and every document that an older version could have written for a store is loaded as
that store. -/
theorem round_trip (hs : Built s) :
    (∀ (obstacle : Obstacle) (disk : Disk) (path : Path) (saved : Disk),
      s.saveUnder obstacle disk path = (.ok (), saved) →
        load saved path = .ok s ∨
          saved.isFolder (folderOf path) = false ∧
            (∃ target,
              (disk.createFolders (folderOf path)).2.entry false path = .ok (.link target)) ∧
            load saved path = .error (.io path .notDirectory)) ∧
    ∀ form, Form s form →
      Json.ofBytes? (Text.Utf8.encode form.print) = some form ∧
      ∀ (disk : Disk) (path : Path) (bytes : Bytes), disk.contents path = .ok bytes →
        Json.ofBytes? bytes = some form → load disk path = .ok s := by
  have hrecorded := hs.holdsMade.recorded_eq
  constructor
  · intro obstacle disk path saved hsave
    have hreplaced := replaced_of_save hsave
    have hown := s.ofDocument?_document
    rw [hrecorded] at hown
    have hload : saved.contents path = .ok s.document → load saved path = .ok s :=
      fun hcontents => load_of_contents hcontents hown
    by_cases hfolder : saved.isFolder (folderOf path) = true
    · exact .inl (hload (hreplaced.contents_of_isFolder hfolder))
    · rcases hreplaced.contents_cases with hcontents | ⟨hstuck, -, place, target, hlink⟩
      · exact .inl (hload hcontents)
      · refine .inr ⟨by simpa using hfolder, ⟨target, Disk.entry_of_seek_link hlink⟩, ?_⟩
        rw [load, hstuck]
  · intro form hform
    refine ⟨hform.printable.ofBytes?_print, fun disk path bytes hcontents hbytes => ?_⟩
    have hread := ofDocument?_of_form hform hbytes
    rw [hrecorded] at hread
    exact load_of_contents hcontents hread

theorem save_eq (h : (s.save disk path).1 = .ok ()) :
    s.saveUnder .none disk path = (.ok (), (s.save disk path).2) := by
  rw [← h]
  rfl

/-! ## Two projects -/

def pairedRemark : Remark :=
  .make "TODO: \"one\" \u0001" (.ofString "p/a.go") 3 none

/-- A project with a remark that has no function, and one without remarks. -/
def paired : Store :=
  ((empty.replaceProject "p" [pairedRemark]).2.replaceProject "q" []).2

theorem built_paired : Built paired := by
  refine .replaceProject _ (.replaceProject _ .empty fun r hr => ?_) fun r hr => by cases hr
  rw [List.mem_singleton.mp hr]
  exact ⟨_, _, _, _, rfl⟩

/-- The form of an older version: without the function, and with `null` for no remarks. -/
def pairedForm : Json :=
  .ofFields [("projects", .ofFields
    [("p", .array [.ofFields [("comment", .ofString pairedRemark.comment),
        ("file_path", .ofString "p/a.go"), ("line_number", .natural 3)]]),
      ("q", .null)])]

theorem form_paired : Form paired pairedForm := by
  refine .projects (.cons ⟨rfl, .array (.cons ?_ .nil)⟩ (.cons ⟨rfl, .null⟩ .nil))
  have hfunction : FunctionForm pairedRemark.function [] := .absent
  exact .mk hfunction

/-- A working directory with nothing in it. -/
def bareDisk : Disk :=
  ⟨.empty, []⟩

/-- The same with the document of the older version. -/
def oldDisk : Disk :=
  (bareDisk.writeFile (.ofString "d.json") (Text.Utf8.encode pairedForm.print)).2

theorem round_trip_paired :
    load (paired.save bareDisk (.ofString "d.json")).2 (.ofString "d.json") = .ok paired ∧
      load oldDisk (.ofString "d.json") = .ok paired := by
  obtain ⟨hsaved, hforms⟩ := round_trip built_paired
  constructor
  · have houtcome : (paired.save bareDisk (.ofString "d.json")).1 = .ok () := by decide +kernel
    have hthere : (paired.save bareDisk (.ofString "d.json")).2.isFolder
        (folderOf (.ofString "d.json")) = true := by decide +kernel
    rcases hsaved .none bareDisk (.ofString "d.json") _ (save_eq houtcome) with hload | ⟨hgone, -⟩
    · exact hload
    · rw [hthere] at hgone
      cases hgone
  · obtain ⟨hread, hload⟩ := hforms pairedForm form_paired
    have hcontents : oldDisk.contents (.ofString "d.json") =
        .ok (Text.Utf8.encode pairedForm.print) := by decide +kernel
    exact hload oldDisk (.ofString "d.json") _ hcontents hread

/-! ## A link in the way -/

/-- A working directory with a link `l` to itself. -/
def loopedDisk : Disk :=
  ⟨.link (Text.bytesOf "l") (Text.bytesOf ".") .empty, []⟩

/-- A path through a missing directory and the link to the link. -/
def loopedPath : Path :=
  .ofString "x/../l/l"

/-- A save under the path makes the missing directory and puts the document in the place of the
link; then the path leads nowhere, although nothing was wrong with it before. -/
theorem save_through_link : ¬ ∀ (s : Store) (disk : Disk) (path : Path) (saved : Disk),
    Built s → s.save disk path = (.ok (), saved) → load saved path = .ok s := by
  intro hall
  have houtcome : (empty.save loopedDisk loopedPath).1 = .ok () := by decide +kernel
  have hload := hall empty loopedDisk loopedPath _ .empty (save_eq houtcome)
  have hcontents : (empty.save loopedDisk loopedPath).2.contents loopedPath =
      .error .notDirectory := by decide +kernel
  rw [load, hcontents] at hload
  cases hload

end Store

end TodoIndex
