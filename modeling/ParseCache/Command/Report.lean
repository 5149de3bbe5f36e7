/-
  ParseCache.Command.Report — what is printed about documents.

  A report is taken from a document after the command is done with it.
  Reports are printed as text, in a form for dependencies and one for states,
  or as JSON.
-/
import ParseCache.Document.Basic
import ParseCache.Engine
import ParseCache.Include.Engine

namespace ParseCache

/-- What is printed about a document. -/
structure DocumentReport where
  path : Path
  part : String
  revision : UInt32
  intact : Bool
  dirty : Bool
  failed : Bool
  /-- In path order; none where the file itself is gone. -/
  dependencies : List Path
  /-- The names no source was found for. -/
  unresolved : List String
deriving Repr, DecidableEq

namespace DocumentReport

/-- The report on a document. -/
def ofDocument (disk : Disk) (d : Document CountingIndex Include.ScannedUnit) : DocumentReport where
  path := d.key.path
  part := d.key.part
  revision := d.revision
  intact := d.isIntact disk
  dirty := d.dirty
  failed := d.failed
  dependencies :=
    match d.dependencies? disk with
    | .ok paths => paths.sorted
    | .error _ => []
  unresolved :=
    match d.handles.unit.resource with
    | some unit => unit.found.unresolved
    | none => []

/-! ## §1. Text. -/

/-- The words that name a document. -/
def title (r : DocumentReport) : String := r.path.text ++ " (" ++ r.part ++ ")"

/-- The lines on what a document depends on. -/
def dependencyLines (r : DocumentReport) : List String :=
  (r.title ++ ":") ::
    if r.failed then ["  parse failed"]
    else (r.dependencies.map fun p => "  " ++ p.text)
      ++ r.unresolved.map fun name => "  unresolved: " ++ name

/-- The word for the state of a document.  A failure counts before dirt, and
dirt before a file that is gone. -/
def label (r : DocumentReport) : String :=
  if r.failed then "failed"
  else if r.dirty then "dirty"
  else if r.intact then "intact"
  else "missing"

/-- The line on the state of a document. -/
def statusLine (r : DocumentReport) : String :=
  r.title ++ " rev " ++ toString r.revision.toNat ++ ": " ++ r.label ++ ", "
    ++ toString r.dependencies.length ++ " dependencies"

/-- The last line of a list of states. -/
def summaryLine (reports : List DocumentReport) : String :=
  "Checked " ++ toString reports.length ++ " documents, "
    ++ toString (reports.countP (·.dirty)) ++ " dirty, "
    ++ toString (reports.countP (·.failed)) ++ " failed"

/-- Lines, each with its line break. -/
def unlines (lines : List String) : String := String.join (lines.map (· ++ "\n"))

/-- Reports on dependencies as text. -/
def dependencyText (reports : List DocumentReport) : String :=
  unlines (reports.flatMap dependencyLines)

/-- Reports on states as text. -/
def statusText (reports : List DocumentReport) : String :=
  unlines (reports.map statusLine ++ ["", summaryLine reports])

/-! ## §2. JSON. -/

/-- A report as JSON. -/
def toJson (r : DocumentReport) : Json :=
  .object [("path", .string r.path.text), ("project_part", .string r.part),
    ("revision", .ofNat r.revision.toNat), ("intact", .bool r.intact), ("dirty", .bool r.dirty),
    ("failed", .bool r.failed), ("dependencies", .ofTexts (r.dependencies.map (·.text))),
    ("unresolved", .ofTexts r.unresolved)]

/-- Reports as a text in JSON. -/
def jsonText (reports : List DocumentReport) : String :=
  (Json.array (reports.map toJson)).renderPretty ++ "\n"

end DocumentReport

end ParseCache
