/-
  ParseCache.Command.Basic — what the program can be asked to do.

  There are three commands.  `deps` parses the documents of some files and
  prints what they depend on, `status` parses every document and prints its
  state, and `touch` parses documents, reports a changed file, brings the
  documents that got dirty up to date, and prints those.
-/
import ParseCache.Path.Basic

namespace ParseCache

/-- A command with its files. -/
inductive Command
  | deps (files : List Path)
  | status
  /-- `files` are the documents parsed first; none means all. -/
  | touch (path : Path) (files : List Path)
deriving Repr, DecidableEq

/-- The form of the output. -/
inductive Format
  | text
  | json
deriving Repr, DecidableEq

/-- The form a name asks for.  Every name but `json` asks for text. -/
def Format.ofName (name : String) : Format := if name = "json" then .json else .text

/-- A command, the form of its output, and the configuration file it was
given. -/
structure Invocation where
  config : Option Path
  format : Format
  command : Command
deriving Repr, DecidableEq

end ParseCache
