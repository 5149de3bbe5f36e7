/-
  ParseCache.Document.Basic — a cached file and the validity of what is cached.

  Two pairs of time points decide what a document owes.  Its part is outdated,
  and a parse from scratch is owed, when the part changed at or after the
  baseline, the time of the last parse.  A reparse is owed while the document
  is dirty; a reparse settles that only if its snapshot had seen the latest
  dirty event, which is what comparing dirty points tells.

  `incorporate` is the only place where the dependency set, the failure flag
  and the baseline change, and the only place that clears the dirty flag.
-/
import ParseCache.Disk
import ParseCache.Document.Key
import ParseCache.FileEntry
import ParseCache.ProjectPart
import ParseCache.Update.Basic

namespace ParseCache

/-- A document. -/
structure Document (ι υ : Type) where
  key : DocumentKey
  arguments : List String
  part : ProjectPart
  /-- The time of the last parse, or of creation before the first one. -/
  baseline : TimePoint
  dependencies : PathSet
  revision : UInt32
  /-- The time of the latest dirty event, or of creation before the first. -/
  dirtyPoint : TimePoint
  failed : Bool
  dirty : Bool
  /-- It is shown in the editor that has the focus. -/
  used : Bool
  /-- It is visible in some editor. -/
  visible : Bool
  handles : Handles ι υ
deriving Repr

namespace Document

variable {ι υ : Type}

/-- A document that has not been parsed yet, made at the given time. -/
def new (path : Path) (part : ProjectPart) (arguments : List String) (time : TimePoint) :
    Document ι υ where
  key := ⟨path, part.id⟩
  arguments := arguments
  part := part
  baseline := time
  dependencies := PathSet.empty.insert path
  revision := 0
  dirtyPoint := time
  failed := false
  dirty := false
  used := false
  visible := false
  handles := .null

/-! ## §1. Queries. -/

/-- Whether the primary file exists. -/
def fileExists (d : Document ι υ) (disk : Disk) : Bool := disk.holds d.key.path

/-- Whether what is cached may be trusted. -/
def isIntact (d : Document ι υ) (disk : Disk) : Bool := d.fileExists disk && !d.failed

/-- Whether the part changed at or after the last parse. -/
def isOutdated (d : Document ι υ) : Bool := decide (d.baseline ≤ d.part.changed)

/-- The name of a document in reports. -/
def display (d : Document ι υ) : String :=
  "Document(" ++ d.key.path.text ++ ", " ++ d.key.part ++ ", " ++ toString d.revision.toNat ++ ")"

/-- The document as an entry. -/
def entry (d : Document ι υ) : FileEntry :=
  { FileEntry.new d.key.path d.key.part with arguments := d.arguments, revision := d.revision }

/-- The files the unit depends on, unless the primary file is gone. -/
def dependencies? (d : Document ι υ) (disk : Disk) : Except DocumentError PathSet :=
  if d.fileExists disk then .ok d.dependencies else .error (.fileDoesNotExist d.key.path)

/-- Whether a change to `path` makes the document dirty: it depends on it,
and if it is its own file, that file still exists. -/
def isAffectedBy (d : Document ι υ) (disk : Disk) (path : Path) : Bool :=
  d.dependencies.contains path && (!path.same d.key.path || d.fileExists disk)

/-! ## §2. Events. -/

/-- A dirty event at the given time. -/
def markDirty (d : Document ι υ) (time : TimePoint) : Document ι υ :=
  { d with dirtyPoint := time, dirty := true }

/-- Installs another version of its part.  Any other part is ignored. -/
def setPart (d : Document ι υ) (part : ProjectPart) : Document ι υ :=
  if part.id = d.key.part then { d with part := part } else d

/-! ## §3. Updates. -/

/-- What an update starting now works on. -/
def snapshot (d : Document ι υ) (buffers : Buffers) : Snapshot where
  parseNeeded := d.isOutdated
  reparseNeeded := d.dirty
  dirtyPoint := d.dirtyPoint
  file := d.key.path
  fileArguments := d.arguments
  buffers := buffers
  part := d.part.id
  partArguments := d.part.arguments

/-- Whether a result replaces the dependency set. -/
def installs (r : UpdateResult) : Bool := !r.failed && (r.parsedAt.isSome || r.reparsed)

/-- Applies the result of an update.  A failure is noted and clears the dirty
flag; a success moves the baseline to the start of its parse, replaces the
dependencies, and clears the dirty flag if it reparsed what the latest dirty
event was about. -/
def incorporate (d : Document ι υ) (r : UpdateResult) : Document ι υ :=
  if r.failed then { d with failed := true, dirty := false }
  else
    { d with
      failed := false
      baseline := r.parsedAt.getD d.baseline
      dependencies := if installs r then r.dependencies.insert d.key.path else d.dependencies
      dirty := d.dirty && !(r.reparsed && r.dirtyPoint == some d.dirtyPoint) }

end Document

end ParseCache
