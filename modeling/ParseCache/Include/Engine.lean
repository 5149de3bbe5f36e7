/-
  ParseCache.Include.Engine — the engine that only follows includes.

  Its unit is what a scan of the file found.  A reparse scans again with the
  arguments the unit was parsed with; arguments cannot change while a unit
  lives.
-/
import ParseCache.Engine
import ParseCache.Include.Scan

namespace ParseCache.Include

/-- A scanned file. -/
structure ScannedUnit where
  file : Path
  arguments : List String
  found : Scanned
  reparses : Nat
deriving Repr, DecidableEq

/-- The include directories are those of the request's arguments, and buffers
count instead of files. -/
def parse (request : Request) (disk : Disk) : Except EngineError ScannedUnit :=
  match scan ⟨disk, request.buffers⟩ request.file request.arguments with
  | .ok found => .ok ⟨request.file, request.arguments, found, 0⟩
  | .error e => .error e

/-- Scans the file of a unit again. -/
def reparse (request : Request) (unit : ScannedUnit) (disk : Disk) :
    Except EngineError ScannedUnit :=
  match scan ⟨disk, request.buffers⟩ unit.file unit.arguments with
  | .ok found => .ok { unit with found := found, reparses := unit.reparses + 1 }
  | .error e => .error e

/-- The include scanner.  It leaves its surroundings as they are. -/
def engine {σ : Type} : Engine CountingIndex ScannedUnit σ where
  newIndex w := (⟨0⟩, w)
  parse request index w :=
    match parse request w.disk with
    | .ok unit => ((.ok unit, ⟨index.parsed + 1⟩), w)
    | .error e => ((.error e, index), w)
  reparse request unit w := (reparse request unit w.disk, w)
  dependencies unit := PathSet.ofList unit.found.includes

/-! ## §1. The scanner on its own. -/

/-- An index and the unit scanned through it, without a document. -/
structure Scanner where
  index : CountingIndex
  unit : Option ScannedUnit
deriving Repr

namespace Scanner

/-- Nothing scanned yet. -/
def start : Scanner := ⟨⟨0⟩, none⟩

/-- Parses while there is no unit, and reparses the unit from then on.  A
failure leaves the unit as it was. -/
def advance (s : Scanner) (request : Request) (disk : Disk) : Except EngineError Unit × Scanner :=
  match s.unit with
  | none =>
    match parse request disk with
    | .ok unit => (.ok (), ⟨⟨s.index.parsed + 1⟩, some unit⟩)
    | .error e => (.error e, s)
  | some unit =>
    match reparse request unit disk with
    | .ok unit => (.ok (), { s with unit := some unit })
    | .error e => (.error e, s)

end Scanner

end ParseCache.Include
