/-
  ParseCache.Update.Run — one update: parse from scratch, reparse, or both.

  An update has two halves.  The first drops the unit if the part changed and
  parses if there is no unit; the second reparses.  Each takes the time before
  it calls the engine, so that whatever happens during the call is later.
  After a failure no unit is held.
-/
import ParseCache.Engine

namespace ParseCache

/-- What an update has found so far, and the resources it leaves. -/
structure Progress (ι υ : Type) where
  result : UpdateResult
  handles : Handles ι υ
deriving Repr

namespace Engine

variable {ι υ σ : Type}

/-- The dependencies of a unit and its primary file. -/
def dependenciesOf (e : Engine ι υ σ) (s : Snapshot) (unit : υ) : PathSet :=
  (e.dependencies unit).insert s.file

/-- The index a handle holds, or a new one. -/
def indexOf (e : Engine ι υ σ) (h : Handle ι) (w : Workspace ι υ σ) : ι × Workspace ι υ σ :=
  match h.resource with
  | some index => (index, w)
  | none => e.newIndex w

/-- Parses from scratch. -/
def parseStep (e : Engine ι υ σ) (s : Snapshot) (h : Handles ι υ) (w : Workspace ι υ σ) :
    Progress ι υ × Workspace ι υ σ :=
  let (time, w) := w.now
  let (index, w) := e.indexOf h.index w
  let ((outcome, index), w) := e.parse s.request index w
  match outcome with
  | .ok unit =>
    ({ result := { UpdateResult.nothing with
        parsedAt := some time, dependencies := e.dependenciesOf s unit }
       handles := ⟨.of index, (h.unit.replace unit).1⟩ }, w)
  | .error _ =>
    ({ result := { UpdateResult.nothing with failed := true }
       handles := { h with index := .of index } }, w)

/-- The first half of an update. -/
def parseIfNeeded (e : Engine ι υ σ) (s : Snapshot) (h : Handles ι υ) (w : Workspace ι υ σ) :
    Progress ι υ × Workspace ι υ σ :=
  let h := if s.parseNeeded then { h with unit := h.unit.dispose.1 } else h
  if h.unit.isNull then e.parseStep s h w else (⟨.nothing, h⟩, w)

/-- The second half of an update. -/
def reparseStep (e : Engine ι υ σ) (s : Snapshot) (p : Progress ι υ) (w : Workspace ι υ σ) :
    Progress ι υ × Workspace ι υ σ :=
  let (time, w) := w.now
  let result := { p.result with reparsedAt := some time, dirtyPoint := some s.dirtyPoint }
  let failure : Progress ι υ :=
    { result := { result with failed := true }
      handles := { p.handles with unit := p.handles.unit.dispose.1 } }
  match p.handles.unit.resource with
  | none => (failure, w)
  | some unit =>
    match e.reparse s.request unit w with
    | (.ok unit, w) =>
      ({ result := { result with reparsed := true, dependencies := e.dependenciesOf s unit }
         handles := { p.handles with unit := .of unit } }, w)
    | (.error _, w) => (failure, w)

/-- A whole update. -/
def run (e : Engine ι υ σ) (mode : UpdateMode) (s : Snapshot) (h : Handles ι υ)
    (w : Workspace ι υ σ) : Progress ι υ × Workspace ι υ σ :=
  match mode with
  | .parseIfNeeded => e.parseIfNeeded s h w
  | .forceReparse => e.reparseStep s ⟨.nothing, h⟩ w
  | .asNeeded =>
    let (p, w) := e.parseIfNeeded s h w
    if !p.result.failed && s.reparseNeeded then e.reparseStep s p w else (p, w)

end Engine

namespace Workspace

variable {ι υ σ : Type}

/-- Applies the result of an update to a document.  If the result replaced
the dependency set, the document's watches follow it. -/
def incorporate (w : Workspace ι υ σ) (n : Nat) (r : UpdateResult) : Workspace ι υ σ :=
  let w := w.modify n (·.incorporate r)
  match w.documents[n]? with
  | some d =>
    if Document.installs r then
      { w with watches := (w.watches.setWatched d.key d.dependencies).2 }
    else w
  | none => w

/-- Updates a document: takes the snapshot, runs the engine, keeps the
resources it leaves, and applies the result. -/
def update (w : Workspace ι υ σ) (e : Engine ι υ σ) (mode : UpdateMode) (n : Nat) :
    Workspace ι υ σ :=
  match w.documents[n]? with
  | none => w
  | some d =>
    let (p, w) := e.run mode (d.snapshot w.buffers) d.handles w
    let w := w.modify n fun d => { d with handles := p.handles }
    w.incorporate n p.result

end Workspace

end ParseCache
