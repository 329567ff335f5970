import TodoIndex.Commandline.Reach
import TodoIndex.Commandline.Service
import TodoIndex.Files.Difference
import TodoIndex.Shell.Runner

/-!
# The program

What the program does is decided without looking at the machine: the paths that a run looks at
are read first, and what the run changed is written afterwards.
-/

namespace TodoIndex

namespace Main

/-- Whether a file can be run, as far as its contents show. -/
def canRun : List UInt8 -> Bool
  | 35 :: 33 :: _ => true
  | _ => false

def typeOf? (e : IO.FS.DirEntry) : IO (Option IO.FS.FileType) := do
  try
    let info <- e.path.symlinkMetadata
    pure (some info.type)
  catch _ => pure none

/-- The absolute path at the end of a link, or nothing if it leads nowhere. -/
def linkTarget (e : IO.FS.DirEntry) : IO String := do
  try
    let target <- IO.FS.realPath e.path
    pure target.toString
  catch _ => pure ""

/-- Read a file; one that cannot be read counts as empty. -/
def readFile (e : IO.FS.DirEntry) : IO Entry := do
  try
    let content := (<- IO.FS.readBinFile e.path).data.toList
    pure (.file content (canRun content))
  catch _ => pure (.file [] false)

partial def readEntry (e : IO.FS.DirEntry) : IO (Option Entry) := do
  match <- typeOf? e with
  | none => pure none
  | some .symlink => pure (some (.link (Text.bytesOf (<- linkTarget e))))
  | some .file => some <$> readFile e
  | some .other => pure (some (.file [] false))
  | some .dir =>
      let mut inside := Folder.empty
      for inner in <- e.path.readDir do
        if let some entry <- readEntry inner then
          inside := inside.insert (Text.bytesOf inner.fileName) entry
      pure (some (.folder inside))

/-- The directory that a disk has at a place, or an empty one. -/
def folderAt (disk : Disk) (place : List Text.Bytes) : Entry :=
  .folder ((disk.top.folderAt? place).getD .empty)

/-- Read what is at the end of some names below a directory, with what is on the way. -/
partial def readNames (disk : Disk) (place : List Text.Bytes) (folder : String) :
    List String -> IO Disk
  | [] => pure disk
  | name :: names => do
      let entry : IO.FS.DirEntry := ⟨folder, name⟩
      let bytes := Text.bytesOf name
      let inside := s!"{folder}/{name}"
      match <- typeOf? entry with
      | none => pure disk
      | some .symlink =>
          let target <- linkTarget entry
          let disk := disk.put place bytes (.link (Text.bytesOf target))
          if target.isEmpty then pure disk
          else readNames disk [] "" (((target.splitOn "/").filter (!·.isEmpty)) ++ names)
      | some .dir =>
          if names.isEmpty then
            match <- readEntry entry with
            | some found => pure (disk.put place bytes found)
            | none => pure disk
          else
            let disk := disk.put place bytes (folderAt disk (place ++ [bytes]))
            readNames disk (place ++ [bytes]) inside names
      | some _ =>
          match <- readEntry entry with
          | some found => pure (disk.put place bytes found)
          | none => pure disk

def namesOf (path : Path) : List String :=
  (path.display.splitOn "/").filter fun name => !name.isEmpty && name != "."

def readPath (disk : Disk) (path : Path) : IO Disk :=
  readNames disk [] "" (namesOf (disk.absolute path))

/-- Read all that a run looks at, as it becomes known. -/
def readReach (environment : Environment) (words : List String) :
    (rounds : Nat) -> Disk -> IO Disk
  | 0, disk => pure disk
  | rounds + 1, disk => do
      let disk <- (Commandline.reach environment disk words).foldlM readPath disk
      readReach environment words rounds disk

/-- The directory in which the program runs, with nothing known of it. -/
def readHere : IO Disk := do
  let here <- IO.currentDir
  let place := (namesOf (Path.ofString here.toString)).map Text.bytesOf
  let disk : Disk := ⟨.empty, place⟩
  pure (disk.createFolders (Disk.pathOf place)).2

/-- Read the part of the disk that a run looks at. -/
def readDisk (environment : Environment) (words : List String) : IO Disk := do
  readReach environment words 4 (<- readHere)

/-- The path of a place as the system takes it. -/
def shownPlace (place : List Text.Bytes) : String :=
  (Disk.pathOf place).display

/-- Write one thing that a run changed; a file is replaced as a whole. -/
def writeDifference : Difference -> IO Unit
  | .folder place => IO.FS.createDirAll (shownPlace place)
  | .gone place => IO.FS.removeFile (shownPlace place)
  | .file place content => do
      let path := shownPlace place
      let temporary := path ++ ".new"
      IO.FS.writeBinFile temporary ⟨content.toArray⟩
      IO.FS.rename temporary path

def writeDisk (old new : Disk) : IO Unit :=
  (old.differences new).forM writeDifference

/-- Print what a run prints and write what it changed. -/
def conclude (disk : Disk) (finish : Commandline.Finish) : IO Unit := do
  writeDisk disk finish.disk
  let output <- IO.getStdout
  let errors <- IO.getStderr
  output.putStr finish.output
  output.flush
  errors.putStr finish.errors
  errors.flush

/-- The home directory that a list of users has for one of them. -/
def homeIn? (users : List String) (user : String) : Option String :=
  users.findSome? fun line =>
    match line.splitOn ":" with
    | _ :: _ :: id :: _ :: _ :: home :: _ => if id = user then some home else none
    | _ => none

def readRecordedHome : IO (Option String) := do
  try
    let users <- IO.FS.lines "/etc/passwd"
    let status <- IO.FS.lines "/proc/self/status"
    pure <| status.toList.findSome? fun line =>
      match line.splitOn "\t" with
      | "Uid:" :: user :: _ => homeIn? users.toList user
      | _ => none
  catch _ => pure none

def readVariables : IO (List (String × String)) := do
  let bytes <- IO.FS.readBinFile "/proc/self/environ"
  let entries := (Text.shown bytes.data.toList).toList.splitOnP fun c => c = '\x00'
  pure <| entries.filterMap fun entry =>
    match Text.splitFirst? '=' entry with
    | some (name, contents) => some (String.ofList name, String.ofList contents)
    | none => none

def readEnvironment : IO Environment := do
  pure ⟨<- readVariables, <- readRecordedHome⟩

/-- Look at the disk again and again. -/
partial def serve (environment : Environment) (words : List String)
    (service : Commandline.Service) : IO Unit := do
  IO.sleep (UInt32.ofNat service.interval)
  let disk <- readDisk environment words
  let (finish, next) := service.look disk (<- IO.monoMsNow)
  conclude disk finish
  if let some service := next then serve environment words service

def runDaemon (environment : Environment) (words : List String) (disk : Disk)
    (request : Commandline.Request) : IO UInt32 := do
  let helpers := Shell.runner environment.bindings
  let (finish, service) := Commandline.Service.start helpers environment disk request
  conclude disk finish
  if let some service := service then serve environment words service
  pure (UInt32.ofNat finish.code)

/-- Run a command that ends by itself. -/
def runOnce (environment : Environment) (words : List String) (disk : Disk) : IO UInt32 := do
  let finish := Commandline.run (Shell.runner environment.bindings) environment disk [] words
  conclude disk finish
  pure (UInt32.ofNat finish.code)

end Main

end TodoIndex

open TodoIndex in
def main (words : List String) : IO UInt32 := do
  let environment <- Main.readEnvironment
  let disk <- Main.readDisk environment words
  match Commandline.Asked.ofWords environment words with
  | .ok (.run ⟨document, .daemon⟩) => Main.runDaemon environment words disk ⟨document, .daemon⟩
  | _ => Main.runOnce environment words disk
