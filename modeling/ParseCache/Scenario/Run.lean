/-
  ParseCache.Scenario.Run — making the steps of a scenario happen.

  `Step.run` makes one step happen with any engine.  With the scripted engine
  a step may call the engine, whose outcome may hold steps again; every call
  takes an outcome off the queue, so the number of outcomes there will ever be
  bounds how deep this goes.
-/
import ParseCache.Scenario.Stage

namespace ParseCache.Scenario

variable {ι υ : Type}

/-! ## §1. Targets, names and times. -/

/-- The handle a target means. -/
def Target.handle (t : Target) (w : Staged ι υ) : Except DocumentError DocumentHandle :=
  match t with
  | .kept name =>
    match w.context.kept.get? name with
    | some h => .ok h
    | none => .error .documentIsNull
  | .listed key =>
    match w.lookup key with
    | .ok n => .ok ⟨some n⟩
    | .error e => .error e

/-- The names of documents in reports. -/
def names (w : Staged ι υ) (ns : List Nat) : List String :=
  ns.map fun n => w.displayOf ⟨some n⟩

/-- Keeps a handle under a name. -/
def keep (w : Staged ι υ) (name : String) (h : DocumentHandle) : Staged ι υ :=
  { w with context := { w.context with kept := w.context.kept.set name h } }

/-- A point of time of a document. -/
def Moment.time (m : Moment) (d : Document ι υ) (w : Staged ι υ) :
    Option TimePoint × Staged ι υ :=
  match m with
  | .unset => (none, w)
  | .now => let (time, w) := w.now; (some time, w)
  | .part => (some d.part.changed, w)
  | .baseline => (some d.baseline, w)
  | .dirty => (some d.dirtyPoint, w)
  | .snapshot name => ((w.context.snapshots.get? name).map (·.dirtyPoint), w)

/-- The result a hand-made result stands for. -/
def GivenResult.resolve (r : GivenResult) (d : Document ι υ) (w : Staged ι υ) :
    UpdateResult × Staged ι υ :=
  let (parsedAt, w) := r.parsedAt.time d w
  let (dirtyPoint, w) := r.dirtyPoint.time d w
  ({ failed := r.failed, parsedAt := parsedAt, reparsedAt := none, reparsed := r.reparsed
     dependencies := PathSet.ofList r.dependencies, dirtyPoint := dirtyPoint }, w)

/-! ## §2. Answers. -/

/-- The answer of something that may be refused. -/
def Answer.ofExcept {α : Type} (answer : α → Answer υ) : Except DocumentError α → Answer υ
  | .ok a => answer a
  | .error e => .refused e

/-- The answer of something that has nothing to say unless it is refused. -/
def Answer.quiet : Except DocumentError Unit → Answer υ := ofExcept fun _ => .nothing

/-- The answer of something that may be refused and changes the workspace. -/
def answered {α : Type} (answer : Staged ι υ → α → Answer υ)
    (r : Except DocumentError α × Staged ι υ) : Answer υ × Staged ι υ :=
  (Answer.ofExcept (answer r.2) r.1, r.2)

/-- The answer of a change that has nothing to say unless it is refused. -/
def quietly (r : Except DocumentError Unit × Staged ι υ) : Answer υ × Staged ι υ :=
  (Answer.quiet r.1, r.2)

/-- The answer of a change that returns documents. -/
def listing (r : List Nat × Staged ι υ) : Answer υ × Staged ι υ :=
  (.documents (names r.2 r.1), r.2)

/-! ## §3. Steps. -/

/-- Does something through a handle. -/
def Act.run (e : Engine ι υ (Stage υ)) (h : DocumentHandle) (w : Staged ι υ) :
    Act → Answer υ × Staged ι υ
  | .hold name => (.nothing, keep w name h)
  | .update mode => quietly (w.updateThrough e mode h)
  | .markDirty => quietly (w.markDirtyThrough h)
  | .markIfOutdated =>
    answered (fun _ b => .flag b) (w.through h fun n w => w.markDirtyIf (·.isOutdated) n)
  | .markIfDepends path =>
    answered (fun _ b => .flag b)
      (w.through h fun n w => w.markDirtyIf (·.isAffectedBy w.disk path) n)
  | .setRevision revision => quietly (w.modifyThrough h fun d => { d with revision := revision })
  | .setUsed on => quietly (w.modifyThrough h fun d => { d with used := on })
  | .setVisible on => quietly (w.modifyThrough h fun d => { d with visible := on })
  | .setPart id arguments =>
    let (part, clock) := ProjectPart.new id arguments w.clock
    quietly (({ w with clock := clock } : Staged ι υ).modifyThrough h (·.setPart part))
  | .info => (.info (w.displayOf h) ((w.documentOf h).map (·.entry)), w)
  | .unit =>
    (Answer.ofExcept
      (fun d => .unit d.key.path (d.handles.unit.resource.map fun u => (u, e.dependencies u)))
      (w.documentOf h), w)
  | .snapshot name =>
    match w.documentOf h with
    | .error refusal => (.refused refusal, w)
    | .ok d =>
      let s := d.snapshot w.buffers
      (.snapshot s (s.dirtyPoint == d.dirtyPoint),
        { w with context := { w.context with snapshots := w.context.snapshots.set name s } })
  | .incorporate given =>
    match w.documentOf h with
    | .error refusal => (.refused refusal, w)
    | .ok d =>
      let (r, w) := given.resolve d w
      quietly (w.through h fun n w => ((), w.incorporate n r))

/-- Makes one step happen. -/
def Step.run (e : Engine ι υ (Stage υ)) (w : Staged ι υ) : Step → Answer υ × Staged ι υ
  | .write path node => (.nothing, { w with disk := w.disk.write path node })
  | .erase path => (.nothing, { w with disk := w.disk.remove path })
  | .script outcomes =>
    (.nothing, { w with context := { w.context with script := w.context.script ++ outcomes } })
  | .upsertParts given =>
    let (parts, clock) := ProjectPart.newList given w.clock
    listing (({ w with clock := clock } : Staged ι υ).upsertParts parts)
  | .removeParts ids => answered (fun _ _ => .done) (w.removeParts ids)
  | .part id => (Answer.ofExcept (fun p => .part p.id p.arguments) (w.parts.find id), w)
  | .create entries => answered (fun w ns => .documents (names w ns)) (w.create entries)
  | .update entries => answered (fun w ns => .documents (names w ns)) (w.updateEntries entries)
  | .remove entries => answered (fun _ _ => .done) (w.removeDocuments entries)
  | .find key => (Answer.ofExcept (fun n => .documents (names w [n])) (w.lookup key), w)
  | .has key => (.flag (w.hasDocument key), w)
  | .size => (.size w.held.length, w)
  | .touch path => listing (w.touch path)
  | .markOutdated => listing w.markOutdated
  | .focus path => (.nothing, w.focus path)
  | .reveal paths => (.nothing, w.reveal paths)
  | .dirtyDocuments => (.documents (names w w.dirtyDocuments), w)
  | .dirtyInBackground => (.documents (names w w.dirtyInBackground), w)
  | .focused => (.document (w.focused?.map fun n => w.displayOf ⟨some n⟩), w)
  | .isWatched path => (.flag (w.watches.isWatched path), w)
  | .content path => (.content (w.buffers.content? path), w)
  | .reset name =>
    (.nothing, if (w.context.kept.get? name).isSome then keep w name .null else w)
  | .same a b =>
    match a.handle w, b.handle w with
    | .error refusal, _ => (.refused refusal, w)
    | _, .error refusal => (.refused refusal, w)
    | .ok a, .ok b => (.same (w.sameDocument a b) (w.digestOf a == w.digestOf b), w)
  | .act target what =>
    match target.handle w with
    | .error refusal => (.refused refusal, w)
    | .ok h => what.run e h w

/-! ## §4. Steps during engine calls. -/

/-- Makes the steps of an outcome happen, engine calls nested at most `n`
deep. -/
def play : Nat → List Step → ScriptedWorkspace → ScriptedWorkspace
  | 0, _, w => w
  | n + 1, steps, w =>
    steps.foldl (fun w s =>
      let (answer, w) := s.run (scriptedEngine (play n)) w
      Staged.note w (.during answer)) w

/-- The scripted engine for a scenario in which `n` outcomes occur. -/
def engineOf (n : Nat) : Engine CountingIndex ScriptedUnit (Stage ScriptedUnit) :=
  scriptedEngine (play n)

end ParseCache.Scenario
