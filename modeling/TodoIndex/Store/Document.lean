import TodoIndex.Json.Printer
import TodoIndex.Json.Reader
import TodoIndex.Store.Basic

/-!
# Store documents

The JSON form of a store: an object `projects` that holds for each project the array of its
remarks.  Older documents have `null` for an empty list or map and an empty name for no function;
these are read as well.
-/

namespace TodoIndex

namespace Store

def remarkToJson (r : Remark) : Json :=
  .ofFields
    [("comment", .ofString r.comment), ("file_path", .ofString r.path.display),
      ("line_number", .natural r.line.toNat),
      ("function", (r.function.map Json.ofString).getD .null)]

def toJson (s : Store) : Json :=
  .ofFields
    [("projects", .ofFields (s.projects.entries.map fun (name, remarks) =>
      (name, .array (remarks.map remarkToJson))))]

/-- The function of a remark; an empty name is none. -/
def functionOfJson? (value : Json) : Option (Option String) :=
  (Json.nullable? Json.string? value).map Remark.nameOf

def remarkOfJson? (value : Json) : Option Remark := do
  match <- Json.record? ["comment", "file_path", "line_number", "function"] value with
  | [comment, path, line, function] =>
      let comment <- Json.required? Json.string? comment
      let path <- Json.required? Json.string? path
      let line <- Json.required? Json.word? line
      let function <- Json.optional? none functionOfJson? function
      some ⟨comment, Path.ofString path, line, function⟩
  | _ => none

/-- The remarks of a project; `null` is an empty list. -/
def remarksOfJson? (value : Json) : Option (List Remark) :=
  (Json.nullable? (Json.listOf? remarkOfJson?) value).map (·.getD [])

/-- The projects; `null` is an empty map. -/
def projectsOfJson? (value : Json) : Option (OrderedMap (List Remark)) :=
  (Json.nullable? (Json.mapOf? remarksOfJson?) value).map fun entries =>
    .ofList (entries.getD [])

def ofJson? (value : Json) : Option Store := do
  match <- Json.record? ["projects"] value with
  | [projects] => (Json.optional? .empty projectsOfJson? projects).map (⟨·⟩)
  | _ => none

def text (s : Store) : List Char :=
  s.toJson.print

def document (s : Store) : Text.Bytes :=
  Text.Utf8.encode s.text

/-- ASCII white space: what a document may consist of that stands for the empty store. -/
def isBlankByte (b : UInt8) : Bool :=
  b == 9 || b == 10 || b == 12 || b == 13 || b == 32

def ofDocument? (bytes : Text.Bytes) : Option Store :=
  if bytes.all isBlankByte then some empty
  else (Json.ofBytes? bytes).bind ofJson?

end Store

end TodoIndex
