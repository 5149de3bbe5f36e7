/-
  ParseCache.Path.Normal — the normal form of a path.

  Normalising reads the components from left to right and keeps a stack: a
  name is pushed, a `.` is dropped, a `..` takes the last name back.  At the
  root a `..` has nothing to take and stays at the root; at the start of a
  relative path it is kept.  No file is looked at, so `a/../b` is `b` whether
  or not `a` exists.
-/
import ParseCache.Path.Basic

namespace ParseCache.Path

/-- One step of normalising.  The stack holds the result so far, its last
component first. -/
def Component.reduce : List Component → Component → List Component
  | stack, .here => stack
  | .name _ :: stack, .up => stack
  | .root :: stack, .up => .root :: stack
  | stack, .up => .up :: stack
  | stack, c => c :: stack

/-- The components of the normal form. -/
def reduced (components : List Component) : List Component :=
  (components.foldl Component.reduce []).reverse

/-- The path with `.` and `..` resolved by text alone. -/
def normalize (p : Path) : Path := ofComponents (reduced p.components)

/-- `q` read from the directory `p`, in normal form. -/
def resolve (p q : Path) : Path := (p.join q).normalize

end ParseCache.Path
