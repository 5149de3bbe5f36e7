/-
  ParseCache.TimePoint.Issue — issuing time points to concurrent callers.

  The callers share one counter, the last point issued.  A caller reads the
  real clock, then the counter, and tries to exchange the counter for a later
  value: the clock reading, or one more than the counter where the clock has
  not moved on.  If another caller was faster the exchange fails, and the
  caller starts over from the counter it now sees.  Once its exchange has gone
  through the caller knows only what the counter held before, and computes the
  point it hands out a second time from that.

  An interleaving is a list of events, run by `Issuer.run`; every exchange and
  every point handed out is written down, in the order of the events.  The
  counter is a 64-bit word, and so is a clock reading: a value past the limit
  stays at the limit.
-/
import ParseCache.Table
import ParseCache.TimePoint.Basic

namespace ParseCache

instance : Keyed Nat := ⟨(· == ·)⟩

instance : LawfulKeyed Nat where
  refl _ := beq_self_eq_true _
  symm h := beq_iff_eq.2 (beq_iff_eq.1 h).symm
  trans h h' := beq_iff_eq.2 ((beq_iff_eq.1 h).trans (beq_iff_eq.1 h'))

/-- How far a request for a point has come. -/
inductive IssueStage
  /-- It has seen the counter at this value, and means to exchange it. -/
  | saw (counter : Nat)
  /-- It has exchanged the counter, which was at this value until then. -/
  | replaced (previous : Nat)
deriving Repr, DecidableEq

/-- A request for a point, under way: the clock reading it was made with and
how far it has come. -/
structure PendingIssue where
  reading : Nat
  stage : IssueStage
deriving Repr, DecidableEq

/-- What is written down of a request. -/
inductive IssueEntry
  /-- The caller, whose clock showed `reading`, exchanged the counter for
  `stored`. -/
  | exchanged (caller reading stored : Nat)
  /-- The caller was given `point`. -/
  | returned (caller : Nat) (point : TimePoint)
deriving Repr, DecidableEq

/-- The caller and the point, where a point was given. -/
def IssueEntry.point? : IssueEntry → Option (Nat × TimePoint)
  | .exchanged .. => none
  | .returned caller point => some (caller, point)

/-- The counter, the requests under way by caller, and what has been written
down so far, the latest first. -/
structure Issuer where
  counter : Nat
  pending : Table Nat PendingIssue
  history : List IssueEntry
deriving Repr, DecidableEq

namespace Issuer

/-- The largest value of the counter. -/
def limit : Nat := UInt64.size - 1

/-- The point after `previous` for a caller whose clock shows `reading`. -/
def next (reading previous : Nat) : Nat := max (min reading limit) (min (previous + 1) limit)

/-- What a caller does in one indivisible step. -/
inductive Event
  /-- Takes a clock reading and looks at the counter. -/
  | load (caller reading : Nat)
  /-- Tries to exchange the counter. -/
  | exchange (caller : Nat)
  /-- Fails to exchange the counter although nobody else did. -/
  | miss (caller : Nat)
  /-- Hands out the point, after the exchange. -/
  | finish (caller : Nat)
deriving Repr, DecidableEq

/-- Nothing issued and nobody asking. -/
def start : Issuer := ⟨0, .empty, []⟩

/-- `caller`, whose clock shows `reading`, sees the counter as it is. -/
def look (s : Issuer) (caller reading : Nat) : Issuer :=
  { s with pending := s.pending.set caller ⟨reading, .saw s.counter⟩ }

/-- `caller` exchanges the counter, which is the one it saw. -/
def store (s : Issuer) (caller reading : Nat) : Issuer :=
  { counter := next reading s.counter
    pending := s.pending.set caller ⟨reading, .replaced s.counter⟩
    history := .exchanged caller reading (next reading s.counter) :: s.history }

/-- `caller`, whose exchange replaced `previous`, gets its point. -/
def handOut (s : Issuer) (caller reading previous : Nat) : Issuer :=
  { s with
    pending := s.pending.erase caller
    history := .returned caller ⟨next reading previous⟩ :: s.history }

/-- One event.  An exchange succeeds exactly when the counter is still the one
the caller saw; an event that is not the caller's turn does nothing. -/
def step (s : Issuer) : Event → Issuer
  | .load caller reading =>
    match s.pending.get? caller with
    | none => s.look caller reading
    | some _ => s
  | .exchange caller =>
    match s.pending.get? caller with
    | some ⟨reading, .saw counter⟩ =>
      if counter = s.counter then s.store caller reading else s.look caller reading
    | _ => s
  | .miss caller =>
    match s.pending.get? caller with
    | some ⟨reading, .saw _⟩ => s.look caller reading
    | _ => s
  | .finish caller =>
    match s.pending.get? caller with
    | some ⟨reading, .replaced previous⟩ => s.handOut caller reading previous
    | _ => s

/-- A whole interleaving. -/
def run (s : Issuer) (events : List Event) : Issuer := events.foldl step s

/-- The points given out, with their callers, the latest first. -/
def issued (s : Issuer) : List (Nat × TimePoint) := s.history.filterMap IssueEntry.point?

/-- The points issued to `caller`, the earliest first. -/
def pointsOf (s : Issuer) (caller : Nat) : List TimePoint :=
  ((s.issued.filter fun e => e.1 == caller).map (·.2)).reverse

end Issuer

/-! ## §1. A contended run. -/

/-- `callers` callers that take a point each in every one of `rounds` rounds.
In a round all of them look at the counter before the first exchange, so
every caller but the first finds it changed and tries again. -/
def contendedRounds (callers rounds : Nat) : List Issuer.Event :=
  (List.replicate rounds round).flatten
where
  round : List Issuer.Event :=
    (List.range callers).map (Issuer.Event.load · 0)
      ++ (List.range callers).flatMap fun t => [.exchange t, .exchange t, .finish t]

namespace TimePoint

/-- Whether each point is later than the one before it. -/
def increasing : List TimePoint → Bool
  | a :: b :: rest => decide (a < b) && increasing (b :: rest)
  | _ => true

/-- How many different points the list holds. -/
def distinct (points : List TimePoint) : Nat :=
  runs ((points.map ticks).mergeSort)
where
  runs : List Nat → Nat
    | [] => 0
    | [_] => 1
    | a :: b :: rest => (if a = b then 0 else 1) + runs (b :: rest)

end TimePoint

end ParseCache
