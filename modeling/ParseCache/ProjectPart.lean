/-
  ParseCache.ProjectPart — named compile configurations and their registry.

  A part carries the point of its last change.  Documents compare that point
  with the time of their last parse, so the registry moves it only when the
  arguments of a part really differ from the ones it had.
-/
import ParseCache.Error
import ParseCache.Table
import ParseCache.TimePoint.Basic

namespace ParseCache

/-- A compile configuration shared by source files. -/
structure ProjectPart where
  id : String
  arguments : List String
  changed : TimePoint
deriving Repr, DecidableEq, Inhabited

namespace ProjectPart

/-- A part made at the current time. -/
def new (id : String) (arguments : List String) (clock : Clock) : ProjectPart × Clock :=
  let (now, clock) := clock.now
  (⟨id, arguments, now⟩, clock)

/-- The part with other arguments, changed at the current time. -/
def setArguments (part : ProjectPart) (arguments : List String) (clock : Clock) :
    ProjectPart × Clock :=
  let (now, clock) := clock.now
  ({ part with arguments := arguments, changed := now }, clock)

/-- The part without arguments, changed at the current time. -/
def clear (part : ProjectPart) (clock : Clock) : ProjectPart × Clock :=
  part.setArguments [] clock

/-- Whether two parts configure the same thing in the same way, whenever they
were made. -/
def same (a b : ProjectPart) : Bool := a.id == b.id && a.arguments == b.arguments

/-- Parts with the given ids and arguments, made one after the other. -/
def newList : List (String × List String) → Clock → List ProjectPart × Clock
  | [], clock => ([], clock)
  | (id, arguments) :: rest, clock =>
    let (part, clock) := new id arguments clock
    let (parts, clock) := newList rest clock
    (part :: parts, clock)

end ProjectPart

/-- The known parts by id. -/
structure ProjectParts where
  parts : Table String ProjectPart
deriving Repr, DecidableEq, Inhabited

namespace ProjectParts

/-- A registry without parts. -/
def empty : ProjectParts := ⟨.empty⟩

/-- Registers one part, and tells whether its configuration changed.  A known
part with the same arguments stays as it is; with other arguments it keeps its
place and is stamped anew. -/
def upsertOne (r : ProjectParts) (part : ProjectPart) (clock : Clock) :
    Bool × ProjectParts × Clock :=
  match r.parts.get? part.id with
  | none => (true, ⟨r.parts.set part.id part⟩, clock)
  | some known =>
    if known.arguments = part.arguments then (false, r, clock)
    else
      let (updated, clock) := known.setArguments part.arguments clock
      (true, ⟨r.parts.set part.id updated⟩, clock)

/-- Registers parts in order.  The first component lists the ids whose
configuration changed, as often as it did. -/
def upsert : List ProjectPart → ProjectParts → Clock → List String × ProjectParts × Clock
  | [], r, clock => ([], r, clock)
  | part :: rest, r, clock =>
    let (changed, r, clock) := r.upsertOne part clock
    let (ids, r, clock) := upsert rest r clock
    (if changed then part.id :: ids else ids, r, clock)

/-- Removes parts in order.  At the first id that is not there it stops with
an error; the parts removed before stay removed. -/
def remove : List String → ProjectParts → Except DocumentError Unit × ProjectParts
  | [], r => (.ok (), r)
  | id :: rest, r =>
    if r.parts.has id then remove rest ⟨r.parts.erase id⟩
    else (.error (.projectPartDoesNotExist id), r)

/-- The part with an id. -/
def find (r : ProjectParts) (id : String) : Except DocumentError ProjectPart :=
  match r.parts.get? id with
  | some part => .ok part
  | none => .error (.projectPartDoesNotExist id)

/-- Whether a part has this id. -/
def has (r : ProjectParts) (id : String) : Bool := r.parts.has id

/-- All parts. -/
def toList (r : ProjectParts) : List ProjectPart := r.parts.values

end ProjectParts

end ParseCache
