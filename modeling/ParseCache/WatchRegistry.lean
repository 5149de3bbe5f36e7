/-
  ParseCache.WatchRegistry — which files are watched, and for whom.

  Every registered document has a set of paths.  A path is watched while at
  least one set holds it: the registry counts the sets a path is in, asks the
  watcher to watch it when the count leaves zero, and to unwatch it when the
  count is back at zero.  A document that is not registered cannot get a set,
  so results that arrive after its removal change nothing.
-/
import ParseCache.Buffers
import ParseCache.Document.Key
import ParseCache.PathSet

namespace ParseCache

/-- A call on the watcher. -/
inductive WatchEvent
  | watch (path : Path)
  | unwatch (path : Path)
deriving Repr, DecidableEq

/-- The registered documents, the set of each, the number of sets each watched
path is in, and the calls made on the watcher, the latest last. -/
structure WatchRegistry where
  registered : Table DocumentKey Unit
  sets : Table DocumentKey PathSet
  counts : Table Path Nat
  events : List WatchEvent
deriving Repr, DecidableEq, Inhabited

namespace WatchRegistry

/-- A registry that watches nothing. -/
def empty : WatchRegistry := ⟨.empty, .empty, .empty, []⟩

/-- Lets a document have a set. -/
def register (r : WatchRegistry) (key : DocumentKey) : WatchRegistry :=
  { r with registered := r.registered.set key () }

/-- One more set holds the path. -/
def acquire (r : WatchRegistry) (path : Path) : WatchRegistry :=
  match r.counts.get? path with
  | some n => { r with counts := r.counts.set path (n + 1) }
  | none => { r with counts := r.counts.set path 1, events := r.events ++ [.watch path] }

/-- One set less holds the path. -/
def release (r : WatchRegistry) (path : Path) : WatchRegistry :=
  match r.counts.get? path with
  | none => r
  | some n =>
    if n ≤ 1 then { r with counts := r.counts.erase path, events := r.events ++ [.unwatch path] }
    else { r with counts := r.counts.set path (n - 1) }

/-- The set of a document, empty if it has none. -/
def setOf (r : WatchRegistry) (key : DocumentKey) : PathSet := (r.sets.get? key).getD .empty

/-- Replaces the set of a document, and tells whether the document was
registered.  Paths that are in both sets are left alone. -/
def setWatched (r : WatchRegistry) (key : DocumentKey) (paths : PathSet) :
    Bool × WatchRegistry :=
  if r.registered.has key then
    let previous := r.setOf key
    let r := { r with sets := r.sets.set key paths }
    let r := (paths.diff previous).foldl acquire r
    (true, (previous.diff paths).foldl release r)
  else (false, r)

/-- Drops the set of a document and unregisters it. -/
def remove (r : WatchRegistry) (key : DocumentKey) : WatchRegistry :=
  let previous := r.setOf key
  previous.paths.foldl release
    { r with registered := r.registered.erase key, sets := r.sets.erase key }

/-- Whether a path is watched. -/
def isWatched (r : WatchRegistry) (path : Path) : Bool := r.counts.has path

/-- The watched paths in path order. -/
def watched (r : WatchRegistry) : List Path := r.counts.keys.mergeSort Path.le

end WatchRegistry

end ParseCache
