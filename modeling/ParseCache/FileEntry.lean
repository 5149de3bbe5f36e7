/-
  ParseCache.FileEntry — a file under a project part, with the state of its
  editor.

  Entries are what requests to the collection are made of: they say which
  document is meant, and may carry unsaved content and a revision.  No content
  and empty content are different things, also in JSON.
-/
import ParseCache.Json.Printer
import ParseCache.Json.Reader
import ParseCache.Json.Record
import ParseCache.Path.Basic

namespace ParseCache

/-- A file under a project part. -/
structure FileEntry where
  path : Path
  part : String
  arguments : List String
  /-- The content of the editor, if it has unsaved changes. -/
  unsaved : Option String
  revision : UInt32
deriving Repr, DecidableEq, Inhabited

namespace FileEntry

/-- An entry without arguments and without editor state. -/
def new (path : Path) (part : String) : FileEntry := ⟨path, part, [], none, 0⟩

/-- Whether two entries say the same, however their paths are spelled. -/
def same (a b : FileEntry) : Bool :=
  a.path.same b.path && a.part == b.part && a.arguments == b.arguments
    && a.unsaved == b.unsaved && a.revision == b.revision

/-- The names of the fields, in order. -/
def fieldNames : List String :=
  ["file_path", "project_part_id", "file_arguments", "unsaved_content", "document_revision"]

/-- The entry as JSON.  Absent content has no field. -/
def toJson (e : FileEntry) : Json :=
  .object (
    [("file_path", .string e.path.text),
     ("project_part_id", .string e.part),
     ("file_arguments", .ofTexts e.arguments)]
    ++ (e.unsaved.map fun content => ("unsaved_content", Json.string content)).toList
    ++ [("document_revision", .ofNat e.revision.toNat)])

/-- The entry a JSON value stands for. -/
def ofJson? (v : Json) : Option FileEntry := do
  match ← Json.record? fieldNames v with
  | [path, part, arguments, unsaved, revision] =>
    return {
      path := ⟨← Json.required Json.asText path⟩
      part := ← Json.required Json.asText part
      arguments := ← Json.optional (Json.asList Json.asText) [] arguments
      unsaved := ← Json.optional (Json.asNullable Json.asText) none unsaved
      revision := ← Json.optional Json.asWord 0 revision }
  | _ => none

/-- The text of the entry in JSON. -/
def render (e : FileEntry) : String := e.toJson.render

/-- The entry a text in JSON stands for. -/
def read? (text : String) : Option FileEntry := (Json.read? text).bind ofJson?

end FileEntry

end ParseCache
