/-
  ParseCache.Engine — the boundary to whatever parses source files.

  An engine makes an index per document, parses a file into a unit, brings a
  unit up to date, and tells which files a unit depends on.  Failing is an
  ordinary outcome.  A call gets the whole workspace and gives it back, for
  two reasons: an engine reads the disk, and while it works the rest of the
  program goes on, so that documents may be marked dirty, removed or
  reconfigured before it returns.
-/
import ParseCache.Workspace

namespace ParseCache

/-- What an engine is asked to parse. -/
structure Request where
  file : Path
  arguments : List String
  /-- The buffers that count instead of what is on disk. -/
  buffers : Buffers
deriving Repr, DecidableEq

/-- The request that an update starting from a snapshot makes. -/
def Snapshot.request (s : Snapshot) : Request := ⟨s.file, s.arguments, s.buffers⟩

/-- A parsing engine with its types of indexes and units, in surroundings of
type `σ`. -/
structure Engine (ι υ σ : Type) where
  /-- Makes an index. -/
  newIndex : Workspace ι υ σ → ι × Workspace ι υ σ
  /-- Parses a file from scratch. -/
  parse : Request → ι → Workspace ι υ σ → (Except EngineError υ × ι) × Workspace ι υ σ
  /-- Brings a unit up to date. -/
  reparse : Request → υ → Workspace ι υ σ → Except EngineError υ × Workspace ι υ σ
  /-- The files a unit was read from, with or without the primary file. -/
  dependencies : υ → PathSet

/-- An index that counts the units parsed through it. -/
structure CountingIndex where
  parsed : Nat
deriving Repr, DecidableEq, Inhabited

end ParseCache
