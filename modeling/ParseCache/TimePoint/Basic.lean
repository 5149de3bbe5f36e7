/-
  ParseCache.TimePoint.Basic — the points of time that order events.

  The cache never asks how long something took, only which of two events came
  first.  A clock therefore issues points in strictly increasing order; no
  point is issued twice, so a point names the event it was issued for.
-/

namespace ParseCache

/-- A point on the clock. -/
structure TimePoint where
  ticks : Nat
deriving Repr, DecidableEq, Inhabited

namespace TimePoint

instance : LE TimePoint := ⟨fun a b => a.ticks ≤ b.ticks⟩
instance : LT TimePoint := ⟨fun a b => a.ticks < b.ticks⟩
instance (a b : TimePoint) : Decidable (a ≤ b) := inferInstanceAs (Decidable (a.ticks ≤ b.ticks))
instance (a b : TimePoint) : Decidable (a < b) := inferInstanceAs (Decidable (a.ticks < b.ticks))

/-- The place of each point among the distinct points of the list, the
earliest being 0. -/
def ranks (points : List TimePoint) : List Nat :=
  points.map fun p => ((points.filter (· < p)).map ticks).eraseDups.length

end TimePoint

/-- A clock, by the last point it issued. -/
structure Clock where
  last : TimePoint
deriving Repr, DecidableEq, Inhabited

namespace Clock

/-- A clock that has issued nothing yet. -/
def start : Clock := ⟨⟨0⟩⟩

/-- Issues the next point. -/
def now (c : Clock) : TimePoint × Clock :=
  let next : TimePoint := ⟨c.last.ticks + 1⟩
  (next, ⟨next⟩)

/-- Every point is later than all that were issued before. -/
theorem last_lt_now (c : Clock) : c.last < c.now.1 := Nat.lt_succ_self _

end Clock

end ParseCache
