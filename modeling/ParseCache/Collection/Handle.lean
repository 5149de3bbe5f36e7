/-
  ParseCache.Collection.Handle — working on documents through handles.

  A handle may have been reset, and then everything asked of it is refused.
  A handle to a document that the collection has let go of still works.
-/
import ParseCache.Collection.Basic
import ParseCache.Document.Digest
import ParseCache.Update.Run

namespace ParseCache.Workspace

variable {ι υ σ α : Type}

/-- Does something to the document a handle refers to. -/
def through (w : Workspace ι υ σ) (h : DocumentHandle)
    (f : Nat → Workspace ι υ σ → α × Workspace ι υ σ) : Except DocumentError α × Workspace ι υ σ :=
  match w.numberOf h with
  | .error refusal => (.error refusal, w)
  | .ok n => let (a, w) := f n w; (.ok a, w)

/-- Changes the document a handle refers to. -/
def modifyThrough (w : Workspace ι υ σ) (h : DocumentHandle) (f : Document ι υ → Document ι υ) :
    Except DocumentError Unit × Workspace ι υ σ :=
  w.through h fun n w => ((), w.modify n f)

/-- Updates the document a handle refers to. -/
def updateThrough (w : Workspace ι υ σ) (e : Engine ι υ σ) (mode : UpdateMode)
    (h : DocumentHandle) : Except DocumentError Unit × Workspace ι υ σ :=
  w.through h fun n w => ((), w.update e mode n)

/-- A dirty event on the document a handle refers to. -/
def markDirtyThrough (w : Workspace ι υ σ) (h : DocumentHandle) :
    Except DocumentError Unit × Workspace ι υ σ :=
  w.through h fun n w => ((), w.markDirty n)

/-- The name of a handle in reports. -/
def displayOf (w : Workspace ι υ σ) (h : DocumentHandle) : String :=
  match w.documentOf h with
  | .ok d => d.display
  | .error _ => "Document(null)"

/-- Whether two handles refer to documents with the same key, or both to
none. -/
def sameDocument (w : Workspace ι υ σ) (a b : DocumentHandle) : Bool :=
  match w.documentOf a, w.documentOf b with
  | .ok a, .ok b => a.key.same b.key
  | .error _, .error _ => true
  | _, _ => false

/-- What a hash of a handle reads: the digest of its document's key, if it has
one. -/
def digestOf (w : Workspace ι υ σ) (h : DocumentHandle) : Option (List UInt8) :=
  match w.documentOf h with
  | .ok d => some d.key.digest
  | .error _ => none

end ParseCache.Workspace
