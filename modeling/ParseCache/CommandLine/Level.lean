/-
  ParseCache.CommandLine.Level — the options and the words of one level.

  A command line has two levels: the program's, which ends at the name of a
  command, and the command's, which runs to the end.  A level is read from
  left to right, every option and every word being checked where it stands,
  and the first thing that settles the matter ends it: a request for help, a
  request for the version, or a mistake.
-/
import ParseCache.CommandLine.Switch
import ParseCache.CommandLine.Token

namespace ParseCache.CommandLine

/-! ## §1. Levels. -/

/-- What a level does with words. -/
inductive WordRule
  /-- A word ends the level. -/
  | ends
  /-- A word is a mistake. -/
  | refused
  /-- A word is a path, which may not be empty. -/
  | paths
deriving Repr, DecidableEq

/-- The options that a level knows and what it does with words. -/
structure Level where
  options : List Switch
  words : WordRule
deriving Repr, DecidableEq

namespace Level

/-- The level of the program. -/
def program : Level := ⟨[.config, .verbose, .help, .version], .ends⟩

/-- The level of a command. -/
def ofCommand (name : CommandName) : Level where
  options := [.config, .verbose, .format, .help]
  words :=
    match name with
    | .status => .refused
    | _ => .paths

end Level

/-- The options and words read so far.  An option without a value has the
empty text for it. -/
structure Given where
  options : List (Switch × String)
  words : List String
deriving Repr, DecidableEq

namespace Given

/-- Nothing read yet. -/
def nothing : Given := ⟨[], []⟩

/-- The value of an option, if it was given. -/
def value? (g : Given) (s : Switch) : Option String := g.options.lookup s

/-! ## §2. Single options and words. -/

/-- Adds a word to a level that it does not end. -/
def addWord (rule : WordRule) (g : Given) (word : String) : Except Ending Given :=
  match rule with
  | .paths =>
    if word = "" then .error (.mistake .emptyPath)
    else .ok { g with words := g.words ++ [word] }
  | _ => .error (.mistake (.unexpected word))

/-- Adds an option.  An option may be given once, and its value may be empty
only where it is no path. -/
def addOption (g : Given) (s : Switch) (value : String) : Except Ending Given :=
  match s with
  | .help => .error .help
  | .version => .error .version
  | s =>
    if (g.value? s).isSome then .error (.mistake (.repeated s))
    else if s = .config ∧ value = "" then .error (.mistake .emptyPath)
    else .ok { g with options := g.options ++ [(s, value)] }

/-- Adds options by letter.  One that takes a value takes the letters behind
it, without a leading equals sign; where there are none, it is returned and
its value is still to come. -/
def addLetters (known : List Switch) : List Char → Given → Except Ending (Given × Option Switch)
  | [], g => .ok (g, none)
  | c :: rest, g =>
    match known.find? fun s => s.letter == c with
    | none => .error (.mistake (.unknownOption (String.ofList ['-', c])))
    | some s =>
      match s.takesValue, rest with
      | false, rest =>
        match g.addOption s "" with
        | .error e => .error e
        | .ok g => addLetters known rest g
      | true, [] => .ok (g, some s)
      | true, '=' :: value => (g.addOption s (String.ofList value)).map (·, none)
      | true, value => (g.addOption s (String.ofList value)).map (·, none)

/-- Adds an option by name.  One whose value is still to come is returned. -/
def addLong (known : List Switch) (name : String) (value : Option String) (g : Given) :
    Except Ending (Given × Option Switch) :=
  match known.find? fun s => s.name == name with
  | none => .error (.mistake (.unknownOption ("--" ++ name)))
  | some s =>
    match s.takesValue, value with
    | true, none => .ok (g, some s)
    | true, some value => (g.addOption s value).map (·, none)
    | false, none => (g.addOption s "").map (·, none)
    | false, some _ => .error (.mistake (.unwantedValue s))

/-- Adds an option whose value is an argument of its own. -/
def addValue (g : Given) (s : Switch) (value : String) : Except Ending Given :=
  if isValue value then g.addOption s value else .error (.mistake (.missingValue s))

/-! ## §3. Reading a level. -/

/-- Reads a level.  A word that ends it is returned with what follows it. -/
def read (level : Level) : List String → Given → Except Ending (Given × List String)
  | [], g => .ok (g, [])
  | argument :: rest, g =>
    match Token.ofArgument argument with
    | .word word =>
      if level.words = .ends then .ok (g, word :: rest)
      else (g.addWord level.words word).bind (read level rest)
    | .separator => (rest.foldlM (addWord level.words) g).map (·, [])
    | .long name value =>
      match addLong level.options name value g, rest with
      | .error e, _ => .error e
      | .ok (g, none), rest => read level rest g
      | .ok (_, some s), [] => .error (.mistake (.missingValue s))
      | .ok (g, some s), value :: rest => (g.addValue s value).bind (read level rest)
    | .short letters =>
      match addLetters level.options letters g, rest with
      | .error e, _ => .error e
      | .ok (g, none), rest => read level rest g
      | .ok (_, some s), [] => .error (.mistake (.missingValue s))
      | .ok (g, some s), value :: rest => (g.addValue s value).bind (read level rest)

end Given

end ParseCache.CommandLine
