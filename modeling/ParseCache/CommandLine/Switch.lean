/-
  ParseCache.CommandLine.Switch — the options, the commands, and the mistakes
  one can make with them.
-/

namespace ParseCache.CommandLine

/-! ## §1. Options and commands. -/

/-- An option. -/
inductive Switch
  | config
  | verbose
  | format
  | help
  | version
deriving Repr, DecidableEq

namespace Switch

/-- The name behind two dashes. -/
def name : Switch → String
  | config => "config"
  | verbose => "verbose"
  | format => "format"
  | help => "help"
  | version => "version"

/-- The letter behind one dash. -/
def letter : Switch → Char
  | config => 'c'
  | verbose => 'v'
  | format => 'f'
  | help => 'h'
  | version => 'V'

/-- Whether the option needs a value. -/
def takesValue : Switch → Bool
  | config => true
  | format => true
  | _ => false

end Switch

/-- The name of a command. -/
inductive CommandName
  | deps
  | status
  | touch
deriving Repr, DecidableEq

namespace CommandName

/-- The word for a command. -/
def text : CommandName → String
  | deps => "deps"
  | status => "status"
  | touch => "touch"

/-- The command a word names. -/
def ofText? (word : String) : Option CommandName :=
  [deps, status, touch].find? fun name => name.text == word

end CommandName

/-! ## §2. What ends the reading. -/

/-- A mistake on the command line. -/
inductive Mistake
  | unknownOption (written : String)
  | missingValue (option : Switch)
  | unwantedValue (option : Switch)
  | repeated (option : Switch)
  | emptyPath
  | missingCommand
  | unknownCommand (name : String)
  | missingFile
  | unexpected (argument : String)
deriving Repr, DecidableEq

/-- The text shown for a mistake. -/
def Mistake.message : Mistake → String
  | unknownOption written => "unexpected argument '" ++ written ++ "' found"
  | missingValue option => "a value is required for '--" ++ option.name ++ "' but none was supplied"
  | unwantedValue option => "unexpected value for '--" ++ option.name ++ "' found"
  | repeated option => "the argument '--" ++ option.name ++ "' cannot be used multiple times"
  | emptyPath => "a value is required for a path but none was supplied"
  | missingCommand => "a subcommand is required but one was not provided"
  | unknownCommand name => "unrecognized subcommand '" ++ name ++ "'"
  | missingFile => "a required file was not provided"
  | unexpected argument => "unexpected argument '" ++ argument ++ "' found"

/-- What ends the reading of a command line before a command is known. -/
inductive Ending
  | help
  | version
  | mistake (cause : Mistake)
deriving Repr, DecidableEq

end ParseCache.CommandLine
