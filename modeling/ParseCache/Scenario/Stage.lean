/-
  ParseCache.Scenario.Stage — what a scenario remembers, and its engine.

  The stage of a scenario keeps the queue of outcomes, the log of engine
  calls, and the handles and snapshots kept under names.  It is the context of
  the workspace, so that steps that happen during an engine call find it.

  The scripted engine does not look at any file.  Its units hold the
  dependencies that the outcome gave them and count their reparses.
-/
import ParseCache.Scenario.Step

namespace ParseCache.Scenario

/-- What a step returns, in terms of the engine's units. -/
inductive Answer (υ : Type)
  /-- The step has nothing to say. -/
  | nothing
  /-- The step succeeded. -/
  | done
  | refused (e : DocumentError)
  | flag (value : Bool)
  /-- Documents, by the names they have in reports. -/
  | documents (names : List String)
  | document (name : Option String)
  | part (id : String) (arguments : List String)
  | size (count : Nat)
  | content (text : Option String)
  /-- Two handles compared, and what their hashes read. -/
  | same (equal sameDigest : Bool)
  | info (display : String) (entry : Except DocumentError FileEntry)
  | unit (file : Path) (unit : Option (υ × PathSet))
  | snapshot (s : Snapshot) (dirtyIsCurrent : Bool)

/-- Which engine function was called. -/
inductive Call
  | parse
  | reparse
deriving Repr, DecidableEq

/-- What the log of a scripted engine holds. -/
inductive LogEntry (υ : Type)
  | index
  | call (call : Call) (request : Request)
  /-- A step that happened while a call was running. -/
  | during (answer : Answer υ)

/-- What a scenario remembers. -/
structure Stage (υ : Type) where
  script : List Outcome
  log : List (LogEntry υ)
  kept : Table String DocumentHandle
  snapshots : Table String Snapshot

/-- A stage with a queue of outcomes. -/
def Stage.new {υ : Type} (script : List Outcome) : Stage υ := ⟨script, [], .empty, .empty⟩

/-- A workspace with a stage. -/
abbrev Staged (ι υ : Type) := Workspace ι υ (Stage υ)

namespace Staged

variable {ι υ : Type}

/-- Writes to the log. -/
def note (w : Staged ι υ) (entry : LogEntry υ) : Staged ι υ :=
  { w with context := { w.context with log := w.context.log ++ [entry] } }

/-- Takes the next outcome. -/
def nextOutcome (w : Staged ι υ) : Outcome × Staged ι υ :=
  match w.context.script with
  | [] => (.plain, w)
  | o :: rest => (o, { w with context := { w.context with script := rest } })

end Staged

/-- A unit of the scripted engine, with its dependencies as the script lists
them. -/
structure ScriptedUnit where
  dependencies : List Path
  reparses : Nat
deriving Repr, DecidableEq

/-- A workspace with a scripted engine. -/
abbrev ScriptedWorkspace := Staged CountingIndex ScriptedUnit

/-- The scripted engine.  `play` makes the steps of an outcome happen. -/
def scriptedEngine (play : List Step → ScriptedWorkspace → ScriptedWorkspace) :
    Engine CountingIndex ScriptedUnit (Stage ScriptedUnit) where
  newIndex w := (⟨0⟩, Staged.note w .index)
  parse request index w :=
    let (o, w) := Staged.nextOutcome (Staged.note w (.call .parse request))
    let w := play o.during w
    match o.failure with
    | some text => ((.error (.parse text), index), w)
    | none => ((.ok ⟨o.dependencies.getD [], 0⟩, ⟨index.parsed + 1⟩), w)
  reparse request unit w :=
    let (o, w) := Staged.nextOutcome (Staged.note w (.call .reparse request))
    let w := play o.during w
    match o.failure with
    | some text => (.error (.parse text), w)
    | none => (.ok ⟨o.dependencies.getD unit.dependencies, unit.reparses + 1⟩, w)
  dependencies unit := PathSet.ofList unit.dependencies

end ParseCache.Scenario
