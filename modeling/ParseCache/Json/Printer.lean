/-
  ParseCache.Json.Printer — writing JSON.

  `render` writes a value without any white space, `renderPretty` with a line
  per item, indented by two spaces.  In strings only the quote, the backslash
  and the control characters are escaped, five of them by a letter.  What
  `render` writes of a value that has a text, `read?` reads back.
-/
import ParseCache.Json.Basic

namespace ParseCache.Json

/-! ## §1. Strings. -/

/-- The lower-case hexadecimal digit of a number below 16. -/
def hexDigit (n : Nat) : Char :=
  if n < 10 then Char.ofNat ('0'.toNat + n) else Char.ofNat ('a'.toNat + (n - 10))

/-- A character as it stands inside a string. -/
def escape (c : Char) : List Char :=
  if c = '"' then ['\\', '"']
  else if c = '\\' then ['\\', '\\']
  else if c = '\n' then ['\\', 'n']
  else if c = '\r' then ['\\', 'r']
  else if c = '\t' then ['\\', 't']
  else if c = '\x08' then ['\\', 'b']
  else if c = '\x0c' then ['\\', 'f']
  else if c.toNat < 0x20 then
    ['\\', 'u', '0', '0', hexDigit (c.toNat / 16), hexDigit (c.toNat % 16)]
  else [c]

/-- A string in quotes. -/
def quote (s : String) : List Char := '"' :: (s.toList.flatMap escape ++ ['"'])

/-! ## §2. Without white space. -/

mutual

/-- A value without white space. -/
def chars : Json → List Char
  | .null => "null".toList
  | .bool true => "true".toList
  | .bool false => "false".toList
  | .number written => written
  | .string s => quote s
  | .halfString => quote ""
  | .halfObject => ['\x7b', '\x7d']
  | .array [] => ['[', ']']
  | .array (item :: items) => '[' :: (chars item ++ itemsChars items ++ [']'])
  | .object [] => ['\x7b', '\x7d']
  | .object ((name, value) :: fields) =>
    '\x7b' :: (quote name ++ ':' :: chars value ++ fieldsChars fields ++ ['\x7d'])

/-- The items after the first. -/
def itemsChars : List Json → List Char
  | [] => []
  | item :: items => ',' :: (chars item ++ itemsChars items)

/-- The fields after the first. -/
def fieldsChars : List (String × Json) → List Char
  | [] => []
  | (name, value) :: fields => ',' :: (quote name ++ ':' :: chars value ++ fieldsChars fields)

end

/-- The text of a value without white space. -/
def render (v : Json) : String := String.ofList v.chars

/-! ## §3. With a line per item. -/

/-- A line break and the white space of a nesting depth. -/
def newline (depth : Nat) : List Char := '\n' :: List.replicate (2 * depth) ' '

mutual

/-- A value whose first line stands at a depth. -/
def prettyChars (depth : Nat) : Json → List Char
  | .array [] => ['[', ']']
  | .array (item :: items) =>
    '[' :: (newline (depth + 1) ++ prettyChars (depth + 1) item
      ++ prettyItems (depth + 1) items ++ newline depth ++ [']'])
  | .object [] => ['\x7b', '\x7d']
  | .object ((name, value) :: fields) =>
    '\x7b' :: (newline (depth + 1) ++ quote name ++ [':', ' '] ++ prettyChars (depth + 1) value
      ++ prettyFields (depth + 1) fields ++ newline depth ++ ['\x7d'])
  | .null => chars .null
  | .bool b => chars (.bool b)
  | .number written => written
  | .string s => quote s
  | .halfString => quote ""
  | .halfObject => ['\x7b', '\x7d']

/-- The items after the first. -/
def prettyItems (depth : Nat) : List Json → List Char
  | [] => []
  | item :: items => ',' :: (newline depth ++ prettyChars depth item ++ prettyItems depth items)

/-- The fields after the first. -/
def prettyFields (depth : Nat) : List (String × Json) → List Char
  | [] => []
  | (name, value) :: fields =>
    ',' :: (newline depth ++ quote name ++ [':', ' '] ++ prettyChars depth value
      ++ prettyFields depth fields)

end

/-- The text of a value with a line per item. -/
def renderPretty (v : Json) : String := String.ofList (prettyChars 0 v)

end ParseCache.Json
