import TodoIndex.Files.Disk
import TodoIndex.Helper.Output

/-!
# Running helper commands

A helper command is run on one file and has to end in time and with success; then its output
holds remarks.  How commands run is not said here: a `Runner` tells how a run ends.
-/

namespace TodoIndex

/-- Why the remarks of a file could not be found. -/
inductive ReadError where
  | io (path : Path) (cause : OsError)
  | notStarted (command : Path) (cause : OsError)
  | failed (command path : Path) (status errors : String)
  | timedOut (command path : Path) (seconds : Nat)
  deriving DecidableEq, Inhabited

namespace ReadError

def message : ReadError -> String
  | .io path e => s!"Failed to read {path}: {e}"
  | .notStarted command e => s!"Failed to start parser '{command}': {e}"
  | .failed command path status errors =>
      s!"Parser '{command}' failed on {path} ({status}): {errors}"
  | .timedOut command path seconds =>
      s!"Parser '{command}' timed out after {seconds}s on {path}"

instance : ToString ReadError where
  toString := message

end ReadError

namespace Helper

/-- How a run of a command ended. -/
inductive Ending where
  | notStarted (cause : OsError)
  | timedOut
  | exited (code : Nat) (output errors : Text.Bytes)
  | killed (signal : Nat) (output errors : Text.Bytes)
  deriving DecidableEq, Inhabited

/-- How commands run: on a disk, a command with the file it is to read and the time it has, in
milliseconds. -/
abbrev Runner := Disk -> (command file : Path) -> (limit : Nat) -> Ending

def signalName? : Nat -> Option String
  | 1 => some "SIGHUP"
  | 2 => some "SIGINT"
  | 3 => some "SIGQUIT"
  | 4 => some "SIGILL"
  | 5 => some "SIGTRAP"
  | 6 => some "SIGABRT"
  | 7 => some "SIGBUS"
  | 8 => some "SIGFPE"
  | 9 => some "SIGKILL"
  | 10 => some "SIGUSR1"
  | 11 => some "SIGSEGV"
  | 12 => some "SIGUSR2"
  | 13 => some "SIGPIPE"
  | 14 => some "SIGALRM"
  | 15 => some "SIGTERM"
  | 16 => some "SIGSTKFLT"
  | 24 => some "SIGXCPU"
  | 25 => some "SIGXFSZ"
  | 26 => some "SIGVTALRM"
  | 27 => some "SIGPROF"
  | 29 => some "SIGIO"
  | 30 => some "SIGPWR"
  | 31 => some "SIGSYS"
  | _ => none

def signalText (signal : Nat) : String :=
  match signalName? signal with
  | some name => s!"signal: {signal} ({name})"
  | none => s!"signal: {signal}"

/-- What a failed run printed on its error output. -/
def errorText (errors : Text.Bytes) : String :=
  String.ofList (Text.trim (Text.Utf8.decodeLossy errors))

def readEnding (command file : Path) (limit : Nat) : Ending -> Noted (Except ReadError (List Remark))
  | .notStarted e => pure (.error (.notStarted command e))
  | .timedOut => pure (.error (.timedOut command file (limit / 1000)))
  | .killed signal _ errors =>
      pure (.error (.failed command file (signalText signal) (errorText errors)))
  | .exited code output errors =>
      if code = 0 then do
        let text := Text.Utf8.decodeLossy output
        Noted.addAll (notesOf file text)
        pure (.ok (remarksOf file text))
      else pure (.error (.failed command file s!"exit status: {code}" (errorText errors)))

def read (run : Runner) (disk : Disk) (command file : Path) (limit : Nat) :
    Noted (Except ReadError (List Remark)) :=
  readEnding command file limit (run disk command file limit)

end Helper

end TodoIndex
