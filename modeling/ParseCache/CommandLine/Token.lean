/-
  ParseCache.CommandLine.Token — the form of a single argument.

  An argument that starts with two dashes is an option by name, one that
  starts with a single dash is one or more options by letter, and anything
  else is a word.  A lone dash is a word, and two dashes alone are a
  separator.
-/

namespace ParseCache.CommandLine

/-- The form of an argument. -/
inductive Token
  /-- `--`: whatever follows is a word. -/
  | separator
  /-- `--name` or `--name=value`. -/
  | long (name : String) (value : Option String)
  /-- The letters behind a single dash. -/
  | short (letters : List Char)
  | word (text : String)
deriving Repr, DecidableEq

/-- The text behind the first equals sign. -/
def attached? (text : List Char) : Option String :=
  match text.dropWhile (· != '=') with
  | [] => none
  | _ :: value => some (String.ofList value)

/-- The form of an argument. -/
def Token.ofArgument (argument : String) : Token :=
  match argument.toList with
  | ['-', '-'] => .separator
  | '-' :: '-' :: rest => .long (String.ofList (rest.takeWhile (· != '='))) (attached? rest)
  | '-' :: letter :: letters => .short (letter :: letters)
  | _ => .word argument

/-- Whether an argument can be the value of the option before it. -/
def isValue (argument : String) : Bool :=
  match Token.ofArgument argument with
  | .word _ => true
  | _ => false

end ParseCache.CommandLine
