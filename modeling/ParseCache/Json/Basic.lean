/-
  ParseCache.Json.Basic — JSON values.

  Numbers are kept as they were written, since a configuration may hold, in
  fields that are skipped, numbers of any size.  For the same reason there are
  values for a string whose escapes leave half of a surrogate pair and for an
  object with such a name: they may be skipped, but they stand for nothing.
-/

namespace ParseCache

/-- A JSON value. -/
inductive Json
  | null
  | bool (value : Bool)
  /-- A number, as written. -/
  | number (written : List Char)
  | string (value : String)
  /-- A string that holds half of a surrogate pair. -/
  | halfString
  | array (items : List Json)
  | object (fields : List (String × Json))
  /-- An object one of whose names holds half of a surrogate pair. -/
  | halfObject
deriving Inhabited

namespace Json

/-- A whole number. -/
def ofNat (n : Nat) : Json := .number (Nat.toDigits 10 n)

/-- An array of strings. -/
def ofTexts (texts : List String) : Json := .array (texts.map .string)

end Json

end ParseCache
