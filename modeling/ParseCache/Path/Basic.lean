/-
  ParseCache.Path.Basic — paths as text, and the components the text stands for.

  A path is kept as the text it was written in, because reports show that
  text.  What it means is its list of components: `a//b/`, `a/./b` and `a/b`
  are three texts with the same components.  Two paths are the same path,
  `p.same q`, exactly when their components agree, and `Path.compare` orders
  paths by components, so that it ties exactly on sameness.

  The name of a component never holds a slash; everything else may occur in
  it.
-/

namespace ParseCache

/-- A path, kept as it was spelled. -/
structure Path where
  text : String
deriving Repr, DecidableEq, Inhabited

namespace Path

/-! ## §1. Components. -/

/-- One step of a path: the root, a leading `.`, a `..`, or a name. -/
inductive Component
  | root
  | here
  | up
  | name (text : String)
deriving Repr, DecidableEq

namespace Component

/-- The place of a kind of component in the order of paths. -/
def rank : Component → Nat
  | root => 0
  | here => 1
  | up => 2
  | name _ => 3

/-- Kinds are ordered root, `.`, `..`, name; two names by their characters. -/
def compare : Component → Component → Ordering
  | name a, name b => Ord.compare a b
  | a, b => Ord.compare a.rank b.rank

/-- The text a component is written with. -/
def text : Component → String
  | root => "/"
  | here => "."
  | up => ".."
  | name s => s

/-- What a piece between two slashes stands for.  An empty piece and a `.`
stand for nothing. -/
def ofSegment? : List Char → Option Component
  | [] => none
  | ['.'] => none
  | ['.', '.'] => some up
  | s => some (name (String.ofList s))

end Component

/-! ## §2. From text to components. -/

/-- Whether the path starts at the root. -/
def isAbsolute (p : Path) : Bool := p.text.toList.head? == some '/'

/-- The pieces of the text between its slashes. -/
def segments (p : Path) : List (List Char) := p.text.toList.splitOn '/'

/-- The components of a path.  A `.` counts only where it opens a relative
path. -/
def components (p : Path) : List Component :=
  if p.isAbsolute then
    .root :: p.segments.filterMap Component.ofSegment?
  else
    match p.segments with
    | ['.'] :: rest => .here :: rest.filterMap Component.ofSegment?
    | segments => segments.filterMap Component.ofSegment?

/-- Whether two spellings name the same path. -/
def same (p q : Path) : Bool := p.components == q.components

/-- The order of paths: by components, a path before its extensions. -/
def compare (p q : Path) : Ordering :=
  List.compareLex Component.compare p.components q.components

/-- Whether `p` comes before `q` or names the same path. -/
def le (p q : Path) : Bool := (p.compare q).isLE

theorem same_iff {p q : Path} : p.same q = true ↔ p.components = q.components := by
  simp [same]

@[simp] theorem same_refl (p : Path) : p.same p = true := by simp [same]

theorem same_comm (p q : Path) : p.same q = q.same p := by
  rw [Bool.eq_iff_iff, same_iff, same_iff, eq_comm]

theorem same_trans {p q r : Path} (h : p.same q = true) (h' : q.same r = true) :
    p.same r = true :=
  same_iff.2 ((same_iff.1 h).trans (same_iff.1 h'))

/-! ## §3. From components to text. -/

/-- The path with the given components, written with single slashes.  A root
is expected at the head only. -/
def ofComponents : List Component → Path
  | .root :: rest => ⟨"/" ++ "/".intercalate (rest.map Component.text)⟩
  | components => ⟨"/".intercalate (components.map Component.text)⟩

/-! ## §4. Joining and taking apart. -/

/-- `q` read from the directory `p`.  An absolute `q` stands for itself. -/
def join (p q : Path) : Path :=
  if q.isAbsolute then q
  else match p.text.toList.getLast? with
    | none => q
    | some '/' => ⟨p.text ++ q.text⟩
    | some _ => ⟨p.text ++ "/" ++ q.text⟩

/-- Drops the trailing pieces that stand for nothing. -/
def trimSegments (segments : List (List Char)) : List (List Char) :=
  (segments.reverse.dropWhile fun s => (Component.ofSegment? s).isNone).reverse

/-- The opening of a path that no parent can drop, and the pieces after it:
the root, a leading `.`, or nothing. -/
def opening (p : Path) : String × List (List Char) :=
  if p.isAbsolute then ("/", p.segments.tail)
  else match p.segments with
    | ['.'] :: rest => (".", rest)
    | segments => ("", segments)

/-- The pieces `segments` written after `opening`. -/
def written (opening : String) (segments : List (List Char)) : Path :=
  let body := String.ofList (List.intercalate ['/'] segments)
  if opening = "." ∧ segments ≠ [] then ⟨"./" ++ body⟩ else ⟨opening ++ body⟩

/-- The path without its last component, as a piece of its own text.  The
root and the empty path have no parent. -/
def parent? (p : Path) : Option Path :=
  let (opening, segments) := p.opening
  match trimSegments segments with
  | [] => if opening = "." then some ⟨""⟩ else none
  | counted => some (written opening (trimSegments counted.dropLast))

/-- The path and its successive parents, at most `n` of them. -/
def ancestorsWithin : Nat → Path → List Path
  | 0, p => [p]
  | n + 1, p =>
    match p.parent? with
    | none => [p]
    | some q => p :: ancestorsWithin n q

/-- The path, its parent, and so on up to the root or the empty path.  Every
parent has fewer pieces, so their number bounds the steps. -/
def ancestors (p : Path) : List Path := ancestorsWithin p.segments.length p

end Path

end ParseCache
