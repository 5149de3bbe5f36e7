/-
  ParseCache.Buffers — editor contents that are not saved yet.

  A store holds at most one buffer per path.  Writing to a path replaces its
  buffer, and the buffer then carries the spelling of that last write.  The
  store remembers when it last changed: a write or a removal that finds
  something moves that point, a removal that finds nothing does not.
-/
import ParseCache.Table
import ParseCache.Path.Basic
import ParseCache.TimePoint.Basic

namespace ParseCache

instance : Keyed Path := ⟨Path.same⟩

instance : LawfulKeyed Path where
  refl := Path.same_refl
  symm h := (Path.same_comm _ _).trans h
  trans := Path.same_trans

@[simp] theorem Path.keyed_same (p q : Path) : Keyed.same p q = p.same q := rfl

/-- The unsaved content of one file. -/
structure Buffer where
  path : Path
  content : String
deriving Repr, DecidableEq, Inhabited

/-- The unsaved buffers and the point of their last change. -/
structure Buffers where
  files : Table Path Buffer
  changed : TimePoint
deriving Repr, DecidableEq, Inhabited

namespace Buffers

/-- A store without buffers, made at the given time. -/
def new (time : TimePoint) : Buffers := ⟨.empty, time⟩

/-- Writes a buffer at the given time. -/
def put (b : Buffers) (path : Path) (content : String) (time : TimePoint) : Buffers :=
  ⟨b.files.set path ⟨path, content⟩, time⟩

/-- Removes a buffer at the given time, and tells whether there was one. -/
def remove (b : Buffers) (path : Path) (time : TimePoint) : Bool × Buffers :=
  if b.files.has path then (true, ⟨b.files.erase path, time⟩) else (false, b)

/-- The buffer of a path. -/
def file? (b : Buffers) (path : Path) : Option Buffer := b.files.get? path

/-- The unsaved content of a path. -/
def content? (b : Buffers) (path : Path) : Option String := (b.file? path).map (·.content)

/-- All buffers. -/
def toList (b : Buffers) : List Buffer := b.files.values

/-- How many buffers there are. -/
def size (b : Buffers) : Nat := b.files.size

/-- A written path has the new content, whatever its spelling; the others keep
theirs. -/
theorem content?_put (b : Buffers) (p q : Path) (content : String) (time : TimePoint) :
    (b.put p content time).content? q = if q.same p then some content else b.content? q := by
  simp only [content?, file?, put, Table.get?_set, Path.keyed_same]
  split <;> rfl

/-- A removed path has no buffer, whatever its spelling; the others keep
theirs. -/
theorem file?_remove (b : Buffers) (p q : Path) (time : TimePoint) :
    (b.remove p time).2.file? q = if q.same p then none else b.file? q := by
  rw [remove]
  split
  · exact b.files.get?_erase p q
  · rename_i hhas
    by_cases hsame : q.same p = true
    · rw [if_pos hsame]
      show b.files.get? q = none
      rw [Table.has_eq_isSome_get?, Bool.not_eq_true, Option.isSome_eq_false_iff,
        Option.isNone_iff_eq_none] at hhas
      rw [b.files.get?_congr hsame]
      exact hhas
    · rw [if_neg hsame]

/-- So it has no content, and the others keep theirs. -/
theorem content?_remove (b : Buffers) (p q : Path) (time : TimePoint) :
    (b.remove p time).2.content? q = if q.same p then none else b.content? q := by
  unfold content?
  rw [file?_remove]
  split <;> rfl

end Buffers

end ParseCache
