/-
  ParseCache.Collection.Basic — the operations of the document collection.

  The collection turns what happens to files, buffers and project parts into
  dirty marks on the documents concerned.  Every loop over documents goes
  through them in key order.

  `create`, `updateEntries` and `removeDocuments` look at the keys of all
  entries before they change anything, and refuse the whole request if one of
  them is wrong.  Only a missing file stops `create` half-way.
-/
import ParseCache.Workspace

namespace ParseCache.Workspace

variable {ι υ σ : Type}

/-! ## §1. Changed files and buffers. -/

/-- Notes that the file at `path` changed: every held document that depends
on the normal form of `path` gets dirty.  Returns those documents. -/
def touch (w : Workspace ι υ σ) (path : Path) : List Nat × Workspace ι υ σ :=
  markDirtyAll (fun w d => d.isAffectedBy w.disk path.normalize) w.held w

/-- Stores an unsaved buffer. -/
def putBuffer (w : Workspace ι υ σ) (path : Path) (content : String) : Workspace ι υ σ :=
  let (time, w) := w.now
  { w with buffers := w.buffers.put path content time }

/-- Stores the unsaved content of an entry, if it has some. -/
def putUnsaved (w : Workspace ι υ σ) (e : FileEntry) : Workspace ι υ σ :=
  match e.unsaved with
  | some content => w.putBuffer e.path content
  | none => w

/-- Drops an unsaved buffer, and tells whether there was one. -/
def dropBuffer (w : Workspace ι υ σ) (path : Path) : Bool × Workspace ι υ σ :=
  let (time, clock) := w.clock.now
  match w.buffers.remove path time with
  | (true, buffers) => (true, { w with buffers := buffers, clock := clock })
  | (false, _) => (false, w)

/-! ## §2. Creating documents. -/

/-- The key an entry refers to. -/
def keyOf (e : FileEntry) : DocumentKey := ⟨e.path, e.part⟩

/-- Refuses the first entry whose part is not registered. -/
def requireParts (w : Workspace ι υ σ) : List FileEntry → Except DocumentError Unit
  | [] => .ok ()
  | e :: rest => do
    let _ ← w.parts.find e.part
    w.requireParts rest

/-- Refuses the first entry whose document is held already or was listed
before. -/
def requireNew (w : Workspace ι υ σ) : List FileEntry → List DocumentKey → Except DocumentError Unit
  | [], _ => .ok ()
  | e :: rest, seen =>
    if w.hasDocument (keyOf e) || seen.any (keyOf e).same then
      .error (.documentAlreadyExists e.path e.part)
    else w.requireNew rest (keyOf e :: seen)

/-- Creates the document of one entry. -/
def createOne (w : Workspace ι υ σ) (e : FileEntry) : Except DocumentError Nat × Workspace ι υ σ :=
  match w.parts.find e.part with
  | .error refusal => (.error refusal, w)
  | .ok part =>
    let (time, w) := w.now
    if w.requireFiles && !w.disk.holds e.path then (.error (.fileDoesNotExist e.path), w)
    else
      let d : Document ι υ :=
        { Document.new e.path part e.arguments time with revision := e.revision }
      let (n, w) := w.add d
      (.ok n, { w with watches := w.watches.register d.key })

/-- Creates documents in order, storing and announcing unsaved content first.
A missing file stops it; what was done for earlier entries stays. -/
def createAll : List FileEntry → Workspace ι υ σ → Except DocumentError (List Nat) × Workspace ι υ σ
  | [], w => (.ok [], w)
  | e :: rest, w =>
    let w := match e.unsaved with
      | some content => ((w.putBuffer e.path content).touch e.path).2
      | none => w
    match w.createOne e with
    | (.error refusal, w) => (.error refusal, w)
    | (.ok n, w) =>
      match createAll rest w with
      | (.error refusal, w) => (.error refusal, w)
      | (.ok ns, w) => (.ok (n :: ns), w)

/-- Creates documents. -/
def create (w : Workspace ι υ σ) (entries : List FileEntry) :
    Except DocumentError (List Nat) × Workspace ι υ σ :=
  match w.requireParts entries with
  | .error refusal => (.error refusal, w)
  | .ok () =>
    match w.requireNew entries [] with
    | .error refusal => (.error refusal, w)
    | .ok () => createAll entries w

/-! ## §3. Updating and removing documents. -/

/-- The first entry that satisfies `p`, as the error that it has no
document. -/
def refuseFirst (entries : List FileEntry) (p : FileEntry → Bool) : Except DocumentError Unit :=
  match entries.find? p with
  | some e => .error (.documentDoesNotExist e.path e.part)
  | none => .ok ()

/-- Applies the editor state of entries in order: the content is stored, all
documents of the file get the revision, and the file counts as changed.
Returns the documents that got a revision, as often as they did. -/
def updateAll : List FileEntry → Workspace ι υ σ → List Nat × Workspace ι υ σ
  | [], w => ([], w)
  | e :: rest, w =>
    let w := w.putUnsaved e
    let concerned := w.documentsOf e.path
    let w := concerned.foldl (fun w n => w.modify n fun d => { d with revision := e.revision }) w
    let (others, w) := updateAll rest (w.touch e.path).2
    (concerned ++ others, w)

/-- Applies new editor state to existing documents. -/
def updateEntries (w : Workspace ι υ σ) (entries : List FileEntry) :
    Except DocumentError (List Nat) × Workspace ι υ σ :=
  match refuseFirst entries fun e => (w.documentsOf e.path).isEmpty with
  | .error refusal => (.error refusal, w)
  | .ok () =>
    let (concerned, w) := updateAll entries w
    (.ok concerned, w)

/-- Lets go of the document with a key, and of its watches. -/
def evict (w : Workspace ι υ σ) (key : DocumentKey) : Workspace ι υ σ :=
  let w := w.release fun d => d.key.same key
  { w with watches := w.watches.remove key }

/-- Removes the document of one entry with its watches and the buffer of its
file. -/
def removeOne (w : Workspace ι υ σ) (e : FileEntry) : Workspace ι υ σ :=
  match (w.evict (keyOf e)).dropBuffer e.path with
  | (true, w) => (w.touch e.path).2
  | (false, w) => w

/-- Removes documents. -/
def removeDocuments (w : Workspace ι υ σ) (entries : List FileEntry) :
    Except DocumentError Unit × Workspace ι υ σ :=
  match refuseFirst entries fun e => !w.hasDocument (keyOf e) with
  | .error refusal => (.error refusal, w)
  | .ok () => (.ok (), entries.foldl removeOne w)

/-! ## §4. Project parts. -/

/-- Marks every held document whose part is outdated dirty, and returns
them. -/
def markOutdated (w : Workspace ι υ σ) : List Nat × Workspace ι υ σ :=
  markDirtyAll (fun _ d => d.isOutdated) w.held w

/-- Gives the registered version of a part to the documents under it. -/
def installPart (w : Workspace ι υ σ) (id : String) : Workspace ι υ σ :=
  match w.parts.find id with
  | .error _ => w
  | .ok part =>
    (w.heldWhere fun d => d.key.part == id).foldl (fun w n => w.modify n (·.setPart part)) w

/-- Registers parts and stamps those whose arguments changed. -/
def registerParts (w : Workspace ι υ σ) (parts : List ProjectPart) :
    List String × Workspace ι υ σ :=
  let (changed, registry, clock) := ProjectParts.upsert parts w.parts w.clock
  (changed, { w with parts := registry, clock := clock })

/-- Registers parts, hands those that changed to their documents, and marks
every document that is outdated now. -/
def upsertParts (w : Workspace ι υ σ) (parts : List ProjectPart) : List Nat × Workspace ι υ σ :=
  let (changed, w) := w.registerParts parts
  (changed.foldl installPart w).markOutdated

/-- Removes parts and evicts their documents.  An id that is not registered
stops it before anything is evicted. -/
def removeParts (w : Workspace ι υ σ) (ids : List String) :
    Except DocumentError Unit × Workspace ι υ σ :=
  let (outcome, registry) := ProjectParts.remove ids w.parts
  let w := { w with parts := registry }
  match outcome with
  | .error refusal => (.error refusal, w)
  | .ok () =>
    let keys := (w.heldWhere fun d => ids.contains d.key.part).filterMap fun n =>
      w.documents[n]?.map (·.key)
    (.ok (), keys.foldl evict w)

/-! ## §5. Editors. -/

/-- Changes every held document. -/
def modifyHeld (w : Workspace ι υ σ) (f : Document ι υ → Document ι υ) : Workspace ι υ σ :=
  w.held.foldl (fun w n => w.modify n f) w

/-- The editor of `path` gets the focus. -/
def focus (w : Workspace ι υ σ) (path : Path) : Workspace ι υ σ :=
  w.modifyHeld fun d => { d with used := d.key.path.same path }

/-- Exactly the editors of `paths` are visible. -/
def reveal (w : Workspace ι υ σ) (paths : List Path) : Workspace ι υ σ :=
  w.modifyHeld fun d => { d with visible := paths.any d.key.path.same }

/-- The documents that owe a reparse. -/
def dirtyDocuments (w : Workspace ι υ σ) : List Nat := w.heldWhere (·.dirty)

/-- The dirty documents that are visible without having the focus. -/
def dirtyInBackground (w : Workspace ι υ σ) : List Nat :=
  w.heldWhere fun d => d.dirty && d.visible && !d.used

/-- The document that has the focus. -/
def focused? (w : Workspace ι υ σ) : Option Nat := (w.heldWhere (·.used)).head?

end ParseCache.Workspace
