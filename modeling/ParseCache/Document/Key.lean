/-
  ParseCache.Document.Key — the identity of a document.

  A document is a file under a project part.  Two keys are the same when their
  paths are and their parts are equal; keys are ordered by path and then by
  part.
-/
import ParseCache.Path.Basic
import ParseCache.Table

namespace ParseCache

/-- A file and the project part it is compiled under. -/
structure DocumentKey where
  path : Path
  part : String
deriving Repr, DecidableEq, Inhabited

namespace DocumentKey

/-- Whether two keys mean the same document. -/
def same (a b : DocumentKey) : Bool := a.path.same b.path && a.part == b.part

theorem same_iff {a b : DocumentKey} :
    a.same b = true ↔ a.path.components = b.path.components ∧ a.part = b.part := by
  simp [same, Path.same_iff]

instance : Keyed DocumentKey := ⟨same⟩

instance : LawfulKeyed DocumentKey where
  refl _ := same_iff.2 ⟨rfl, rfl⟩
  symm h := same_iff.2 ⟨(same_iff.1 h).1.symm, (same_iff.1 h).2.symm⟩
  trans h h' := same_iff.2
    ⟨(same_iff.1 h).1.trans (same_iff.1 h').1, (same_iff.1 h).2.trans (same_iff.1 h').2⟩

@[simp] theorem keyed_same (a b : DocumentKey) : Keyed.same a b = a.same b := rfl

theorem same_refl (a : DocumentKey) : a.same a = true := LawfulKeyed.refl a

theorem same_comm (a b : DocumentKey) : a.same b = b.same a := by
  unfold same
  rw [Path.same_comm, BEq.comm]

/-- Keys that mean the same document are not told apart. -/
theorem same_congr {a b : DocumentKey} (h : a.same b = true) (c : DocumentKey) :
    a.same c = b.same c := Keyed.same_congr h c

/-- The order of keys. -/
def compare (a b : DocumentKey) : Ordering :=
  (a.path.compare b.path).then (Ord.compare a.part b.part)

/-- Whether `a` comes before `b` or means the same. -/
def le (a b : DocumentKey) : Bool := (a.compare b).isLE

/-- The keys in order; keys that mean the same keep their places. -/
def sort (keys : List DocumentKey) : List DocumentKey := keys.mergeSort le

/-- How many different documents the keys mean. -/
def distinct (keys : List DocumentKey) : Nat :=
  (keys.foldl (fun (t : Table DocumentKey Unit) k => t.set k ()) .empty).size

/-- The pairs of places, the smaller first, that hold keys meaning the same. -/
def samePairs (keys : List DocumentKey) : List (Nat × Nat) :=
  let placed := keys.zipIdx
  placed.flatMap fun (a, i) => placed.filterMap fun (b, j) =>
    if i < j && a.same b then some (i, j) else none

end DocumentKey

end ParseCache
