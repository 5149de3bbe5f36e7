/-
  ParseCache.Scenario.Report — what can be seen after every step.

  Sets of paths have no order of their own; reports list them by their text.
-/
import ParseCache.Include.Engine
import ParseCache.Scenario.Run

namespace ParseCache

/-- The paths, ordered by their text. -/
def Path.sortByText (paths : List Path) : List Path :=
  paths.mergeSort fun a b => (Ord.compare a.text b.text).isLE

/-- The paths of a set, ordered by their text. -/
def PathSet.byText (s : PathSet) : List Path := Path.sortByText s.paths

/-- The buffers of a store, ordered by the text of their paths. -/
def Buffers.byText (b : Buffers) : List Buffer :=
  b.toList.mergeSort fun a b => (Ord.compare a.path.text b.path.text).isLE

namespace WatchEvent

/-- The paths that began to be watched, ordered by their text. -/
def watched (events : List WatchEvent) : List Path :=
  Path.sortByText (events.filterMap fun | .watch p => some p | .unwatch _ => none)

/-- The paths that ceased to be watched, ordered by their text. -/
def unwatched (events : List WatchEvent) : List Path :=
  Path.sortByText (events.filterMap fun | .unwatch p => some p | .watch _ => none)

end WatchEvent

namespace Scenario

variable {ι υ : Type}

/-- The visible state of a document. -/
structure DocumentState (υ : Type) where
  display : String
  arguments : List String
  partArguments : List String
  dirty : Bool
  failed : Bool
  intact : Bool
  fileExists : Bool
  outdated : Bool
  used : Bool
  visible : Bool
  /-- The ranks of the part's change, the baseline and the dirty point. -/
  ranks : List Nat
  dependencies : Except DocumentError (List Path)
  unit : Option υ

/-- The visible state of the document a handle refers to. -/
def stateOf (w : Staged ι υ) (h : DocumentHandle) : Except DocumentError (DocumentState υ) :=
  (w.documentOf h).map fun d =>
    { display := d.display
      arguments := d.arguments
      partArguments := d.part.arguments
      dirty := d.dirty
      failed := d.failed
      intact := d.isIntact w.disk
      fileExists := d.fileExists w.disk
      outdated := d.isOutdated
      used := d.used
      visible := d.visible
      ranks := TimePoint.ranks [d.part.changed, d.baseline, d.dirtyPoint]
      dependencies := (d.dependencies? w.disk).map PathSet.byText
      unit := d.handles.unit.resource }

/-- What can be seen after a step. -/
structure StepReport (υ : Type) where
  answer : Answer υ
  documents : List (Except DocumentError (DocumentState υ))
  kept : List (String × Except DocumentError (DocumentState υ))
  watched : List Path
  events : List WatchEvent
  buffers : List Buffer
  log : List (LogEntry υ)

/-- Makes a step happen and reports what can be seen. -/
def report (e : Engine ι υ (Stage υ)) (w : Staged ι υ) (s : Step) :
    StepReport υ × Staged ι υ :=
  let before := w.watches.events.length
  let (answer, w) := s.run e { w with context := { w.context with log := [] } }
  ({ answer := answer
     documents := w.held.map fun n => stateOf w ⟨some n⟩
     kept := w.context.kept.entries.map fun (name, h) => (name, stateOf w h)
     watched := w.watches.watched
     events := w.watches.events.drop before
     buffers := w.buffers.byText
     log := w.context.log }, w)

/-- The reports of a whole scenario. -/
def reports (e : Engine ι υ (Stage υ)) : List Step → Staged ι υ → List (StepReport υ)
  | [], _ => []
  | s :: rest, w =>
    let (r, w) := report e w s
    r :: reports e rest w

/-- A scenario played with the include scanner. -/
def scanned (disk : Disk) (requireFiles : Bool) (steps : List Step) :
    List (StepReport Include.ScannedUnit) :=
  reports Include.engine steps (Workspace.new disk requireFiles (.new []))

/-- A scenario played with the scripted engine. -/
def scripted (disk : Disk) (requireFiles : Bool) (script : List Outcome) (steps : List Step) :
    List (StepReport ScriptedUnit) :=
  reports (engineOf (countOutcomes script + countSteps steps)) steps
    (Workspace.new disk requireFiles (.new script))

end Scenario

end ParseCache
