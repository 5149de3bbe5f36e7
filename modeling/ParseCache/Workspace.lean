/-
  ParseCache.Workspace — the state of the cache and of what surrounds it.

  A workspace holds the disk, the clock, the unsaved buffers, the project
  parts, the watches, and every document ever made.  A document is known by
  its number, which stays its own when the collection lets go of it: `held`
  lists the numbers of the documents the collection holds, in key order.  A
  handle refers to a document by number, or to none.

  The last component is left to whoever drives the cache, above all to
  engines that remember something from call to call.
-/
import ParseCache.Document.Basic
import ParseCache.WatchRegistry

namespace ParseCache

/-- The cache, the disk it watches, and the state of its surroundings.  The
types are those of an engine's indexes, of its units, and of the
surroundings. -/
structure Workspace (ι υ σ : Type) where
  disk : Disk
  clock : Clock
  buffers : Buffers
  parts : ProjectParts
  watches : WatchRegistry
  /-- Documents are created only where their file exists. -/
  requireFiles : Bool
  documents : List (Document ι υ)
  held : List Nat
  context : σ
deriving Repr

/-- A reference to a document.  One that has been reset refers to none. -/
structure DocumentHandle where
  number? : Option Nat
deriving Repr, DecidableEq, Inhabited

/-- The handle that refers to no document. -/
def DocumentHandle.null : DocumentHandle := ⟨none⟩

namespace Workspace

variable {ι υ σ : Type}

/-- A workspace without documents. -/
def new (disk : Disk) (requireFiles : Bool) (context : σ) : Workspace ι υ σ :=
  let (time, clock) := Clock.start.now
  { disk, clock, requireFiles, context
    buffers := .new time
    parts := .empty
    watches := .empty
    documents := []
    held := [] }

/-- Takes the current time. -/
def now (w : Workspace ι υ σ) : TimePoint × Workspace ι υ σ :=
  let (time, clock) := w.clock.now
  (time, { w with clock := clock })

/-! ## §1. Single documents. -/

/-- Changes one document. -/
def modify (w : Workspace ι υ σ) (n : Nat) (f : Document ι υ → Document ι υ) :
    Workspace ι υ σ :=
  { w with documents := w.documents.modify n f }

/-- The number a handle refers to. -/
def numberOf (w : Workspace ι υ σ) (h : DocumentHandle) : Except DocumentError Nat :=
  match h.number? with
  | some n => if n < w.documents.length then .ok n else .error .documentIsNull
  | none => .error .documentIsNull

/-- The document a handle refers to. -/
def documentOf (w : Workspace ι υ σ) (h : DocumentHandle) :
    Except DocumentError (Document ι υ) :=
  match h.number?.bind (w.documents[·]?) with
  | some d => .ok d
  | none => .error .documentIsNull

/-- A dirty event on one document. -/
def markDirty (w : Workspace ι υ σ) (n : Nat) : Workspace ι υ σ :=
  let (time, w) := w.now
  w.modify n (·.markDirty time)

/-- Marks a document dirty if it satisfies `p`, and tells whether it did. -/
def markDirtyIf (w : Workspace ι υ σ) (p : Document ι υ → Bool) (n : Nat) :
    Bool × Workspace ι υ σ :=
  if w.documents[n]?.any p then (true, w.markDirty n) else (false, w)

/-- Marks the documents among `ns` that satisfy `p` dirty, one after the
other, and returns them. -/
def markDirtyAll (p : Workspace ι υ σ → Document ι υ → Bool) :
    List Nat → Workspace ι υ σ → List Nat × Workspace ι υ σ
  | [], w => ([], w)
  | n :: rest, w =>
    let (marked, w) := w.markDirtyIf (p w) n
    let (others, w) := markDirtyAll p rest w
    (if marked then n :: others else others, w)

/-! ## §2. The collection. -/

/-- The held documents that satisfy `p`, in key order. -/
def heldWhere (w : Workspace ι υ σ) (p : Document ι υ → Bool) : List Nat :=
  w.held.filter fun n => w.documents[n]?.any p

/-- The held document with a key. -/
def lookup? (w : Workspace ι υ σ) (key : DocumentKey) : Option Nat :=
  (w.heldWhere fun d => d.key.same key).head?

/-- Whether a document with a key is held. -/
def hasDocument (w : Workspace ι υ σ) (key : DocumentKey) : Bool := (w.lookup? key).isSome

/-- The held document with a key, or the error that there is none. -/
def lookup (w : Workspace ι υ σ) (key : DocumentKey) : Except DocumentError Nat :=
  match w.lookup? key with
  | some n => .ok n
  | none => .error (.documentDoesNotExist key.path key.part)

/-- The held documents of a file, in key order. -/
def documentsOf (w : Workspace ι υ σ) (path : Path) : List Nat :=
  w.heldWhere fun d => d.key.path.same path

/-- Whether the key of document `n` comes before `key`. -/
def precedes (w : Workspace ι υ σ) (key : DocumentKey) (n : Nat) : Bool :=
  w.documents[n]?.any fun d => (d.key.compare key).isLT

/-- Adds a document and holds it, at its place in key order. -/
def add (w : Workspace ι υ σ) (d : Document ι υ) : Nat × Workspace ι υ σ :=
  let n := w.documents.length
  (n, { w with
    documents := w.documents ++ [d]
    held := w.held.takeWhile (w.precedes d.key) ++ n :: w.held.dropWhile (w.precedes d.key) })

/-- Lets go of the documents that satisfy `p`. -/
def release (w : Workspace ι υ σ) (p : Document ι υ → Bool) : Workspace ι υ σ :=
  { w with held := w.held.filter fun n => !w.documents[n]?.any p }

end Workspace

end ParseCache
