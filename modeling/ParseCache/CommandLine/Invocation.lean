/-
  ParseCache.CommandLine.Invocation — what a command line asks for.

  The program's options may also stand among those of the command, and count
  there where they are given twice.
-/
import ParseCache.Command.Basic
import ParseCache.CommandLine.Level

namespace ParseCache.CommandLine

/-- The word that asks for help, on the whole or on a command. -/
def helpWord : String := "help"

/-- The command of a name and the paths behind it. -/
def commandOf : CommandName → List Path → Except Ending Command
  | .deps, [] => .error (.mistake .missingFile)
  | .deps, files => .ok (.deps files)
  | .status, _ => .ok .status
  | .touch, [] => .error (.mistake .missingFile)
  | .touch, path :: files => .ok (.touch path files)

/-- How a request for help ends.  It may name one command. -/
def helpOn : List String → Ending
  | [] => .help
  | word :: rest =>
    if (CommandName.ofText? word).isSome || word == helpWord then
      match rest with
      | [] => .help
      | next :: _ => .mistake (.unknownCommand next)
    else .mistake (.unknownCommand word)

/-- Reads the arguments of a command.  `outer` is what was given before
it. -/
def readCommand (name : CommandName) (outer : Given) (arguments : List String) :
    Except Ending Invocation := do
  let (inner, _) ← Given.read (.ofCommand name) arguments .nothing
  let command ← commandOf name (inner.words.map (⟨·⟩))
  let config := (inner.value? .config).or (outer.value? .config)
  return {
    config := config.map (⟨·⟩)
    format := Format.ofName ((inner.value? .format).getD "text")
    command := command }

/-- Reads a command line. -/
def read (arguments : List String) : Except Ending Invocation := do
  let (outer, rest) ← Given.read .program arguments .nothing
  match rest with
  | [] => .error (.mistake .missingCommand)
  | word :: rest =>
    match CommandName.ofText? word with
    | some name => readCommand name outer rest
    | none => .error (if word == helpWord then helpOn rest else .mistake (.unknownCommand word))

end ParseCache.CommandLine
