/-
  ParseCache.Scenario.Updates — updates one after the other, without a
  document.

  One index handle and one unit handle live through all updates.  The
  snapshot of each is made up on the spot, its dirty point being the current
  time.
-/
import ParseCache.Scenario.Report

namespace ParseCache.Scenario

variable {ι υ : Type}

/-- An update to be run. -/
structure GivenUpdate where
  mode : UpdateMode
  parseNeeded : Bool
  reparseNeeded : Bool
  fileArguments : List String
  partArguments : List String
  buffers : List (Path × String)
deriving Repr

/-- What can be seen of an update. -/
structure UpdateReport (ι υ : Type) where
  arguments : List String
  result : UpdateResult
  /-- Whether the parse started after the dirty point of the snapshot. -/
  parseAfterDirty : Option Bool
  /-- Whether the reparse started after the dirty point of the snapshot. -/
  reparseAfterDirty : Option Bool
  /-- Whether the reparse started after the parse. -/
  reparseAfterParse : Option Bool
  /-- Whether the result carries the dirty point of the snapshot. -/
  dirtyIsInput : Option Bool
  handles : Handles ι υ
  log : List (LogEntry υ)

/-- Whether one point is later than another, if both are set. -/
def later? (a b : Option TimePoint) : Option Bool := do return decide ((← b) < (← a))

/-- Buffers written one after the other. -/
def buffersOf (w : Staged ι υ) (given : List (Path × String)) : Buffers × Staged ι υ :=
  let (time, w) := w.now
  given.foldl (fun (b, w) (path, content) =>
    let (time, w) := Workspace.now w
    (b.put path content time, w)) (Buffers.new time, w)

/-- Runs one update. -/
def runUpdate (e : Engine ι υ (Stage υ)) (file : Path) (given : GivenUpdate)
    (h : Handles ι υ) (w : Staged ι υ) : UpdateReport ι υ × Staged ι υ :=
  let (buffers, w) := buffersOf { w with context := { w.context with log := [] } } given.buffers
  let (dirtyPoint, w) := w.now
  let s : Snapshot :=
    { parseNeeded := given.parseNeeded
      reparseNeeded := given.reparseNeeded
      dirtyPoint := dirtyPoint
      file := file
      fileArguments := given.fileArguments
      buffers := buffers
      part := ""
      partArguments := given.partArguments }
  let (p, w) := e.run given.mode s h w
  ({ arguments := s.arguments
     result := p.result
     parseAfterDirty := later? p.result.parsedAt (some dirtyPoint)
     reparseAfterDirty := later? p.result.reparsedAt (some dirtyPoint)
     reparseAfterParse := later? p.result.reparsedAt p.result.parsedAt
     dirtyIsInput := p.result.dirtyPoint.map (· == dirtyPoint)
     handles := p.handles
     log := w.context.log }, w)

/-- Runs updates one after the other on the same handles. -/
def runUpdates (e : Engine ι υ (Stage υ)) (file : Path) :
    List GivenUpdate → Handles ι υ → Staged ι υ → List (UpdateReport ι υ)
  | [], _, _ => []
  | given :: rest, h, w =>
    let (r, w) := runUpdate e file given h w
    r :: runUpdates e file rest r.handles w

/-- Updates with the scripted engine, where nothing happens during calls.  A
unit with given dependencies may be there from the start. -/
def scriptedUpdates (disk : Disk) (file : Path) (script : List Outcome)
    (preset : Option (List Path)) (given : List GivenUpdate) :
    List (UpdateReport CountingIndex ScriptedUnit) :=
  let unit : Option ScriptedUnit := preset.map fun deps => ⟨deps, 0⟩
  runUpdates (engineOf 0) file given ⟨.null, ⟨unit⟩⟩ (Workspace.new disk false (.new script))

/-- Updates with the include scanner. -/
def scannedUpdates (disk : Disk) (file : Path) (given : List GivenUpdate) :
    List (UpdateReport CountingIndex Include.ScannedUnit) :=
  runUpdates Include.engine file given .null (Workspace.new disk false (.new []))

end ParseCache.Scenario
