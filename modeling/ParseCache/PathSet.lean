/-
  ParseCache.PathSet — finite sets of paths.

  Membership is sameness of paths, not of spellings.  A set keeps the
  spelling a path was first put in with: inserting `a//b` into a set that
  holds `a/b` changes nothing.
-/
import ParseCache.Path.Basic

namespace ParseCache

/-- A set of paths, in the order they were first put in. -/
structure PathSet where
  paths : List Path
deriving Repr, DecidableEq, Inhabited

namespace PathSet

/-- The set without paths. -/
def empty : PathSet := ⟨[]⟩

/-- Whether some spelling of `p` is in the set. -/
def contains (s : PathSet) (p : Path) : Bool := s.paths.any p.same

/-- Adds `p` unless a spelling of it is there. -/
def insert (s : PathSet) (p : Path) : PathSet :=
  if s.contains p then s else ⟨s.paths ++ [p]⟩

/-- The set of the given paths, put in one after the other. -/
def ofList (paths : List Path) : PathSet := paths.foldl insert empty

theorem contains_insert (s : PathSet) (p q : Path) :
    (s.insert p).contains q = (q.same p || s.contains q) := by
  rw [insert]
  split
  · rename_i h
    obtain ⟨r, hr, hpr⟩ := List.any_eq_true.1 h
    cases hq : q.same p
    · rfl
    · rw [Bool.true_or]
      exact List.any_eq_true.2 ⟨r, hr, Path.same_trans hq hpr⟩
  · simp [contains, Bool.or_comm]

/-- A set made from a list holds the spellings of what is listed. -/
theorem contains_ofList (paths : List Path) (q : Path) :
    (ofList paths).contains q = paths.any q.same := by
  suffices h : ∀ s : PathSet,
      (paths.foldl insert s).contains q = (paths.any q.same || s.contains q) by
    simpa [ofList, empty, contains] using h empty
  induction paths with
  | nil => simp
  | cons p rest ih =>
    intro s
    rw [List.foldl_cons, ih, contains_insert, List.any_cons]
    cases q.same p <;> cases rest.any q.same <;> rfl

/-- The paths of `s` that are not in `t`, as `s` spells them. -/
def diff (s t : PathSet) : List Path := s.paths.filter fun p => !t.contains p

/-- The paths in path order. -/
def sorted (s : PathSet) : List Path := s.paths.mergeSort Path.le

end PathSet

end ParseCache
