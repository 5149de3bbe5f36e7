/-
  ParseCache.Handle — sole ownership of a resource of the engine.

  A handle holds at most one resource, an index or a parsed unit.  A resource
  leaves its handle by being disposed: when it is replaced, when the handle is
  told to dispose it, and when the handle itself goes.  Every operation
  returns what happened to resources, in order, so that a history of operations
  can be balanced: what entered, in order, is what was disposed followed by what
  is held.
-/

namespace ParseCache

/-- A handle and the resource it holds, if any. -/
structure Handle (α : Type) where
  resource : Option α
deriving Repr, DecidableEq, Inhabited

/-- What happens to a resource at a handle. -/
inductive HandleEvent (α : Type)
  /-- It was made for the handle, which held nothing. -/
  | created (r : α)
  /-- The handle came to hold it. -/
  | entered (r : α)
  | disposed (r : α)
deriving Repr, DecidableEq

namespace HandleEvent

variable {α : Type}

/-- The resource, where one was made. -/
def created? : HandleEvent α → Option α
  | created r => some r
  | _ => none

/-- The resource, where one came to be held. -/
def entered? : HandleEvent α → Option α
  | entered r => some r
  | _ => none

/-- The resource, where one was disposed. -/
def disposed? : HandleEvent α → Option α
  | disposed r => some r
  | _ => none

end HandleEvent

namespace Handle

variable {α : Type}

/-- A handle that holds nothing. -/
def null : Handle α := ⟨none⟩

/-- A handle that holds `r`. -/
def of (r : α) : Handle α := ⟨some r⟩

/-- Whether nothing is held. -/
def isNull (h : Handle α) : Bool := h.resource.isNone

/-- Disposes what is held. -/
def dispose (h : Handle α) : Handle α × List (HandleEvent α) :=
  (null, h.resource.toList.map .disposed)

/-- Holds `r`; what was held before is disposed first. -/
def replace (h : Handle α) (r : α) : Handle α × List (HandleEvent α) :=
  (of r, h.dispose.2 ++ [.entered r])

/-- Holds the result of `create` unless something is held. -/
def getOrInsert (h : Handle α) (create : Unit → α) : Handle α × List (HandleEvent α) :=
  match h.resource with
  | some _ => (h, [])
  | none => (of (create ()), [.created (create ()), .entered (create ())])

/-- Changes the held resource in place. -/
def modify (h : Handle α) (f : α → α) : Handle α := ⟨h.resource.map f⟩

end Handle

/-! ## §1. Histories. -/

/-- What is done to a handle. -/
inductive HandleStep (α : Type)
  | replace (r : α)
  | getOrInsert (r : α)
  | modify (f : α → α)
  | dispose
  /-- The handle goes and a null handle takes its place. -/
  | renew

/-- A handle and what has happened to resources at it so far, in order. -/
structure HandleHistory (α : Type) where
  handle : Handle α
  log : List (HandleEvent α)
deriving Repr

namespace HandleHistory

variable {α : Type}

/-- A new handle. -/
def start : HandleHistory α := ⟨.null, []⟩

/-- Takes over what an operation left, and writes down what happened. -/
def note (s : HandleHistory α) (outcome : Handle α × List (HandleEvent α)) : HandleHistory α :=
  ⟨outcome.1, s.log ++ outcome.2⟩

/-- The end of the handle. -/
def close (s : HandleHistory α) : HandleHistory α := s.note s.handle.dispose

/-- One step. -/
def step (s : HandleHistory α) : HandleStep α → HandleHistory α
  | .replace r => s.note (s.handle.replace r)
  | .getOrInsert r => s.note (s.handle.getOrInsert fun _ => r)
  | .modify f => { s with handle := s.handle.modify f }
  | .dispose => s.note s.handle.dispose
  | .renew => s.close

/-- A new handle after some steps. -/
def run (steps : List (HandleStep α)) : HandleHistory α := steps.foldl step start

/-- The resources made for the handle. -/
def created (s : HandleHistory α) : List α := s.log.filterMap HandleEvent.created?

/-- The resources that ever entered the handle. -/
def entered (s : HandleHistory α) : List α := s.log.filterMap HandleEvent.entered?

/-- The resources disposed through the handle. -/
def disposed (s : HandleHistory α) : List α := s.log.filterMap HandleEvent.disposed?

/-- The resources disposed once the handle has gone as well. -/
def drop (s : HandleHistory α) : List α := s.close.disposed

end HandleHistory

end ParseCache
