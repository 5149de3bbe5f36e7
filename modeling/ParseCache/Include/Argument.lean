/-
  ParseCache.Include.Argument — include directories among compile arguments.

  A directory is given to `-I` or `-isystem`, either joined to the flag or as
  the argument after it.  The argument after a flag that stands alone is its
  directory whatever it looks like; a flag at the very end has none.
-/
import ParseCache.Path.Basic

namespace ParseCache.Include

/-- A flag that takes an include directory. -/
inductive Flag
  | user
  | system
deriving Repr, DecidableEq

/-- The text of a flag. -/
def Flag.text : Flag → String
  | user => "-I"
  | system => "-isystem"

/-- What a single argument says about include directories. -/
inductive Argument
  /-- A flag whose directory is the next argument. -/
  | alone (flag : Flag)
  /-- A flag with its directory, which is not empty. -/
  | joined (flag : Flag) (directory : String)
  | other
deriving Repr, DecidableEq

/-- Reads an argument as a given flag. -/
def Argument.readAs (flag : Flag) (argument : String) : Argument :=
  let opening := flag.text.toList
  if opening.isPrefixOf argument.toList then
    match argument.toList.drop opening.length with
    | [] => .alone flag
    | directory => .joined flag (String.ofList directory)
  else .other

/-- Reads an argument.  No argument starts with both flags. -/
def Argument.read (argument : String) : Argument :=
  match readAs .user argument with
  | .other => readAs .system argument
  | found => found

/-- The include directories of an argument list, in order. -/
def searchPaths : List String → List Path
  | [] => []
  | argument :: rest =>
    match Argument.read argument with
    | .other => searchPaths rest
    | .joined _ directory => ⟨directory⟩ :: searchPaths rest
    | .alone _ =>
      match rest with
      | [] => []
      | directory :: rest => ⟨directory⟩ :: searchPaths rest

end ParseCache.Include
