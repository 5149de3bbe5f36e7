/-
  ParseCache.Update.Basic — what goes into an update and what comes out of it.

  An update works on a snapshot, taken before the engine is called, so that
  events that arrive while the engine works can be told from those before.
  Its result carries the dirty point of the snapshot back to the document.
-/
import ParseCache.Buffers
import ParseCache.Handle
import ParseCache.PathSet
import ParseCache.TimePoint.Basic

namespace ParseCache

/-- What a document hands to an update. -/
structure Snapshot where
  /-- The project part changed since the last parse. -/
  parseNeeded : Bool
  /-- The document is dirty. -/
  reparseNeeded : Bool
  /-- The latest dirty event. -/
  dirtyPoint : TimePoint
  file : Path
  fileArguments : List String
  buffers : Buffers
  part : String
  partArguments : List String
deriving Repr, DecidableEq

/-- The arguments of the part, followed by those of the file. -/
def Snapshot.arguments (s : Snapshot) : List String := s.partArguments ++ s.fileArguments

/-- What an update found. -/
structure UpdateResult where
  failed : Bool
  /-- When the parse started, if one succeeded. -/
  parsedAt : Option TimePoint
  /-- When the reparse started, if one was tried. -/
  reparsedAt : Option TimePoint
  /-- A reparse succeeded. -/
  reparsed : Bool
  /-- The files the unit depends on. -/
  dependencies : PathSet
  /-- The dirty point of the snapshot, if a reparse was tried. -/
  dirtyPoint : Option TimePoint
deriving Repr, DecidableEq

/-- The result of doing nothing. -/
def UpdateResult.nothing : UpdateResult := ⟨false, none, none, false, .empty, none⟩

/-- Which steps an update takes. -/
inductive UpdateMode
  /-- Parse if needed, then reparse if the document is dirty. -/
  | asNeeded
  /-- Parse if there is no unit or the part changed. -/
  | parseIfNeeded
  /-- Reparse the unit, whatever its state. -/
  | forceReparse
deriving Repr, DecidableEq

/-- The engine's resources of one document. -/
structure Handles (ι υ : Type) where
  index : Handle ι
  unit : Handle υ
deriving Repr

/-- Neither an index nor a unit. -/
def Handles.null {ι υ : Type} : Handles ι υ := ⟨.null, .null⟩

end ParseCache
