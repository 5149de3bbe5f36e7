/-
  ParseCache.Include.Scan — the files a source file includes, transitively.

  A scan starts from a primary file and follows include directives.  It keeps
  the set of paths it has met and a queue of files whose directives are still
  to be followed; a path enters the queue only when it is met for the first
  time, so every file is read at most once.  A directive that leads nowhere
  puts its name among the unresolved ones, and an included file that cannot be
  read is included all the same.

  Unsaved buffers shadow the disk: a path with a buffer exists and reads as
  that buffer.
-/
import ParseCache.Buffers
import ParseCache.Disk
import ParseCache.Error
import ParseCache.Include.Argument
import ParseCache.Include.Directive
import ParseCache.PathSet

namespace ParseCache.Include

/-! ## §1. Where sources are read from. -/

/-- The disk, with unsaved buffers over it. -/
structure Sources where
  disk : Disk
  buffers : Buffers
deriving Repr

namespace Sources

/-- Whether a path is a buffer or a file. -/
def holds (s : Sources) (p : Path) : Bool := (s.buffers.file? p).isSome || s.disk.isFile p

/-- The text of a source. -/
def read (s : Sources) (p : Path) : Except EngineError String :=
  match s.buffers.content? p with
  | some content => .ok content
  | none =>
    match s.disk.read p with
    | .ok content => .ok content
    | .error cause => .error (.read p cause.message)

/-- The paths a directive in `current` may mean, in the order they are tried:
for a quoted name first the directory of `current`, then for any name the
search directories. -/
def candidates (current : Path) (searchPaths : List Path) (d : Directive) : List Path :=
  let name : Path := ⟨String.ofList d.name⟩
  let beside := match d.form with
    | .quoted => current.parent?.toList
    | .angled => []
  (beside ++ searchPaths).map fun directory => directory.resolve name

/-- The source a directive in `current` leads to. -/
def resolve? (s : Sources) (current : Path) (searchPaths : List Path) (d : Directive) :
    Option Path :=
  (candidates current searchPaths d).find? s.holds

/-- A bound on the number of paths in normal form that can be sources.  A file
has one absolute such path, and at most one relative one for every number of
leading `..`, of which a path within the limit has fewer than `pathLimit`. -/
def bound (s : Sources) : Nat :=
  s.buffers.size + s.disk.nodes.length * (Disk.pathLimit + 1)

end Sources

/-! ## §2. The scan. -/

/-- The state of a scan: the paths met, the files whose directives are still
to be followed, what has been included, and the names that led nowhere. -/
structure ScanState where
  visited : PathSet
  queue : List (Path × String)
  includes : PathSet
  unresolved : List String
deriving Repr

namespace ScanState

/-- Follows one directive of the file `current`. -/
def follow (sources : Sources) (searchPaths : List Path) (current : Path)
    (s : ScanState) (d : Directive) : ScanState :=
  match sources.resolve? current searchPaths d with
  | none =>
    let name := String.ofList d.name
    if s.unresolved.contains name then s else { s with unresolved := s.unresolved ++ [name] }
  | some found =>
    if s.visited.contains found then s
    else
      let s := { s with visited := s.visited.insert found, includes := s.includes.insert found }
      match sources.read found with
      | .ok content => { s with queue := s.queue ++ [(found, content)] }
      | .error _ => s

/-- Follows all directives of the file at the head of the queue. -/
def step (sources : Sources) (searchPaths : List Path) (s : ScanState) : ScanState :=
  match s.queue with
  | [] => s
  | (current, source) :: rest =>
    (directives source).foldl (follow sources searchPaths current) { s with queue := rest }

/-- At most `n` steps; it stops early where nothing is queued. -/
def run (sources : Sources) (searchPaths : List Path) : Nat → ScanState → ScanState
  | 0, s => s
  | n + 1, s =>
    if s.queue.isEmpty then s else run sources searchPaths n (s.step sources searchPaths)

/-- Nothing met but the primary file. -/
def start (primary : Path) (source : String) : ScanState :=
  { visited := PathSet.empty.insert primary
    queue := [(primary, source)]
    includes := .empty
    unresolved := [] }

end ScanState

/-- What a scan found: the included files in path order, and the names that
could not be resolved in the order of their characters. -/
structure Scanned where
  includes : List Path
  unresolved : List String
deriving Repr, DecidableEq

/-- Scans a primary file.  It fails exactly when that file cannot be read
under the spelling it was given in; from then on it goes by its normal form.
Every step takes a path off the queue, and at most `bound` paths besides the
primary ever enter it. -/
def scan (sources : Sources) (file : Path) (arguments : List String) :
    Except EngineError Scanned :=
  match sources.read file with
  | .error e => .error e
  | .ok source =>
    let found := ScanState.run sources (searchPaths arguments) (sources.bound + 1)
      (ScanState.start file.normalize source)
    .ok ⟨found.includes.sorted, found.unresolved.mergeSort fun a b => (compare a b).isLE⟩

end ParseCache.Include
