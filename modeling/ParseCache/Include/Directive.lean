/-
  ParseCache.Include.Directive — recognising include directives.

  A line is a directive when it reads: white space, `#`, white space,
  `include`, white space, and then a name in quotes or in angle brackets.
  White space may be absent everywhere.  A quoted name may lack its closing
  quote, an angled one may not lack its bracket; neither may be empty.  What
  follows the name does not matter.
-/
import ParseCache.Text.Blank

namespace ParseCache.Include

/-- How the name of a directive is delimited. -/
inductive Form
  | quoted
  | angled
deriving Repr, DecidableEq

/-- An include directive. -/
structure Directive where
  form : Form
  name : List Char
deriving Repr, DecidableEq

/-- `text` without `opening` in front of it. -/
def strip? (opening text : List Char) : Option (List Char) :=
  if opening.isPrefixOf text then some (text.drop opening.length) else none

/-- The directive with the given name, unless the name is empty. -/
def directive? (form : Form) : List Char → Option Directive
  | [] => none
  | name => some ⟨form, name⟩

/-- Reads the delimited name at the start of a text. -/
def readName? : List Char → Option Directive
  | '"' :: rest => directive? .quoted (rest.takeWhile (· ≠ '"'))
  | '<' :: rest => if rest.contains '>' then directive? .angled (rest.takeWhile (· ≠ '>')) else none
  | _ => none

/-- The directive a line holds, if it is one. -/
def ofLine? (line : List Char) : Option Directive := do
  let rest ← strip? ['#'] (Text.trimStart line)
  let rest ← strip? "include".toList (Text.trimStart rest)
  readName? (Text.trimStart rest)

/-- The directives of a source text, in order. -/
def directives (source : String) : List Directive :=
  (Text.lines source.toList).filterMap ofLine?

end ParseCache.Include
