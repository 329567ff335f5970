import TodoIndex.Extraction
import TodoIndex.Helper.Run
import TodoIndex.Readers

/-!
# Reading files

The remarks of a file, found by the reader that has its extension.
-/

namespace TodoIndex

namespace Reading

def noteOf (r : Remark) : Note :=
  let function := r.function.getD "-"
  ⟨.debug, .parse, s!"marker: {r.path}:{r.line} in {function}"⟩

/-- The remarks of a file in a built-in language; what is no text in it does not matter. -/
def readSource (language : Language) (extension : String) (disk : Disk) (path : Path) :
    Noted (Except ReadError (List Remark)) :=
  match disk.contents path with
  | .error e => pure (.error (.io path e))
  | .ok content => do
      let remarks := Extraction.ofSource language extension path (Text.Utf8.decodeLossy content)
      Noted.addAll (remarks.map noteOf)
      pure (.ok remarks)

def read (run : Helper.Runner) (limit : Nat) (reader : Reader) (disk : Disk) (path : Path) :
    Noted (Except ReadError (List Remark)) :=
  match reader with
  | .builtIn language => readSource language ((Extension.ofPath? path).getD "") disk path
  | .helper command => Helper.read run disk command path limit

end Reading

end TodoIndex
