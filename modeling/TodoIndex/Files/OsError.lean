/-!
# Failures of file operations

The causes for which an operation on files can fail, with the numbers and the wording
the operating system gives them.
-/

namespace TodoIndex

/-- Why a file operation failed. -/
inductive OsError where
  | notFound
  | noExec
  | accessDenied
  | busy
  | exists
  | notDirectory
  | isDirectory
  | textBusy
  | noSpace
  | nameTooLong
  | notEmpty
  | tooManyLinks
  | invalidArgument
  /-- A path that holds the byte zero names nothing. -/
  | zeroByte
  | notText
  deriving DecidableEq, Repr, Inhabited

namespace OsError

/-- The system's number and wording of a failure that the system itself reports. -/
def numbered? : OsError -> Option (Nat × String)
  | .notFound => some (2, "No such file or directory")
  | .noExec => some (8, "Exec format error")
  | .accessDenied => some (13, "Permission denied")
  | .busy => some (16, "Device or resource busy")
  | .exists => some (17, "File exists")
  | .notDirectory => some (20, "Not a directory")
  | .isDirectory => some (21, "Is a directory")
  | .invalidArgument => some (22, "Invalid argument")
  | .textBusy => some (26, "Text file busy")
  | .noSpace => some (28, "No space left on device")
  | .nameTooLong => some (36, "File name too long")
  | .notEmpty => some (39, "Directory not empty")
  | .tooManyLinks => some (40, "Too many levels of symbolic links")
  | .zeroByte => none
  | .notText => none

def message (e : OsError) : String :=
  match e.numbered? with
  | some (number, text) => s!"{text} (os error {number})"
  | none =>
      match e with
      | .zeroByte => "file name contained an unexpected NUL byte"
      | _ => "stream did not contain valid UTF-8"

instance : ToString OsError where
  toString := message

end OsError

end TodoIndex
