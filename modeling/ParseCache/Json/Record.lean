/-
  ParseCache.Json.Record — reading JSON values as the data they stand for.

  A record with named fields may be written as an object, where fields that
  are not its own are skipped and a field given twice is refused, or as an
  array of its fields in order, where trailing fields may be missing.
-/
import ParseCache.Json.Basic

namespace ParseCache.Json

/-- The values given for a name. -/
def given (fields : List (String × Json)) (name : String) : List Json :=
  (fields.filter fun f => f.1 == name).map (·.2)

/-- The value of each named field, or nothing where it is missing. -/
def record? (names : List String) : Json → Option (List (Option Json))
  | .object fields =>
    names.mapM fun name =>
      match given fields name with
      | [] => some none
      | [value] => some (some value)
      | _ => none
  | .array items =>
    if items.length ≤ names.length then
      some (items.map some ++ List.replicate (names.length - items.length) none)
    else none
  | _ => none

/-- Reads a field that must be there. -/
def required {α : Type} (read : Json → Option α) (field : Option Json) : Option α :=
  field.bind read

/-- Reads a field that may be missing. -/
def optional {α : Type} (read : Json → Option α) (default : α) : Option Json → Option α
  | none => some default
  | some value => read value

/-- Reads a string. -/
def asText : Json → Option String
  | .string s => some s
  | _ => none

/-- Reads a truth value. -/
def asBool : Json → Option Bool
  | .bool b => some b
  | _ => none

/-- Reads null as nothing, and anything else by `read`. -/
def asNullable {α : Type} (read : Json → Option α) : Json → Option (Option α)
  | .null => some none
  | value => (read value).map some

/-- Reads an array item by item. -/
def asList {α : Type} (read : Json → Option α) : Json → Option (List α)
  | .array items => items.mapM read
  | _ => none

/-- Reads a whole number of 32 bits.  It must be written with digits only. -/
def asWord : Json → Option UInt32
  | .number written =>
    if written ≠ [] ∧ written.all Char.isDigit then
      let n := written.foldl (fun n c => n * 10 + (c.toNat - '0'.toNat)) 0
      if n < UInt32.size then some (UInt32.ofNat n) else none
    else none
  | _ => none

end ParseCache.Json
