/-
  ParseCache.Scenario.Step — the language of scenarios.

  A scenario is a list of steps: what happens on disk, what is asked of the
  collection, what is done through handles.  The engine of a scenario may be
  scripted: every call takes the next outcome of a queue, and an outcome may
  hold steps that happen while the call is running.
-/
import ParseCache.Collection.Handle

namespace ParseCache.Scenario

/-- Which document a step is about. -/
inductive Target
  /-- The document of a handle kept under a name. -/
  | kept (name : String)
  /-- The document held under a key. -/
  | listed (key : DocumentKey)
deriving Repr, DecidableEq

/-- A point of time of a document. -/
inductive Moment
  | unset
  | now
  | part
  | baseline
  | dirty
  /-- The dirty point of a snapshot kept under a name. -/
  | snapshot (name : String)
deriving Repr, DecidableEq

/-- A hand-made result of an update. -/
structure GivenResult where
  failed : Bool
  parsedAt : Moment
  reparsed : Bool
  dependencies : List Path
  dirtyPoint : Moment
deriving Repr, DecidableEq

/-- What is done through a handle. -/
inductive Act
  | hold (name : String)
  | update (mode : UpdateMode)
  | markDirty
  | markIfOutdated
  | markIfDepends (path : Path)
  | setRevision (revision : UInt32)
  | setUsed (on : Bool)
  | setVisible (on : Bool)
  | setPart (id : String) (arguments : List String)
  | info
  | unit
  | snapshot (name : String)
  | incorporate (result : GivenResult)
deriving Repr, DecidableEq

mutual

/-- One step of a scenario. -/
inductive Step
  /-- Writes a file or makes a directory. -/
  | write (path : Path) (node : Node)
  /-- Removes a file or directory. -/
  | erase (path : Path)
  /-- Appends outcomes to the queue. -/
  | script (outcomes : List Outcome)
  | upsertParts (parts : List (String × List String))
  | removeParts (ids : List String)
  | part (id : String)
  | create (entries : List FileEntry)
  | update (entries : List FileEntry)
  | remove (entries : List FileEntry)
  | find (key : DocumentKey)
  | has (key : DocumentKey)
  | size
  | touch (path : Path)
  | markOutdated
  | focus (path : Path)
  | reveal (paths : List Path)
  | dirtyDocuments
  | dirtyInBackground
  | focused
  | isWatched (path : Path)
  | content (path : Path)
  | reset (name : String)
  | same (a b : Target)
  | act (target : Target) (act : Act)

/-- How one call of the scripted engine ends. -/
inductive Outcome
  | mk (failure : Option String) (dependencies : Option (List Path)) (during : List Step)

end

instance : Inhabited Step := ⟨.size⟩

namespace Outcome

/-- The outcome of a call when the queue is empty. -/
def plain : Outcome := .mk none none []

instance : Inhabited Outcome := ⟨plain⟩

/-- The text of the failure, if the call fails. -/
def failure : Outcome → Option String
  | .mk failure _ _ => failure

/-- The dependencies of the unit, if they are given. -/
def dependencies : Outcome → Option (List Path)
  | .mk _ dependencies _ => dependencies

/-- What happens while the call runs. -/
def during : Outcome → List Step
  | .mk _ _ during => during

end Outcome

/-! ## §1. Counting outcomes. -/

mutual

/-- The outcomes a step may add to the queue, with those inside them. -/
def Step.outcomes : Step → Nat
  | .script outcomes => countOutcomes outcomes
  | _ => 0

/-- An outcome and those inside it. -/
def Outcome.outcomes : Outcome → Nat
  | .mk _ _ during => countSteps during + 1

/-- The outcomes inside steps. -/
def countSteps : List Step → Nat
  | [] => 0
  | s :: rest => s.outcomes + countSteps rest

/-- The outcomes in a queue. -/
def countOutcomes : List Outcome → Nat
  | [] => 0
  | o :: rest => o.outcomes + countOutcomes rest

end

end ParseCache.Scenario
