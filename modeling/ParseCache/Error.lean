/-
  ParseCache.Error — what can go wrong, by cause, with the text shown for it.
-/
import ParseCache.Path.Basic

namespace ParseCache

/-- Why a request to the collection or to a document was refused. -/
inductive DocumentError
  /-- The handle refers to no document any more. -/
  | documentIsNull
  | fileDoesNotExist (path : Path)
  | documentAlreadyExists (path : Path) (part : String)
  | documentDoesNotExist (path : Path) (part : String)
  | projectPartDoesNotExist (id : String)
deriving Repr, DecidableEq

/-- The text shown for a refusal. -/
def DocumentError.message : DocumentError → String
  | documentIsNull => "Document is null"
  | fileDoesNotExist path => "File does not exist: " ++ path.text
  | documentAlreadyExists path part =>
    "Document already exists: " ++ path.text ++ " (" ++ part ++ ")"
  | documentDoesNotExist path part =>
    "Document does not exist: " ++ path.text ++ " (" ++ part ++ ")"
  | projectPartDoesNotExist id => "Project part does not exist: " ++ id

/-- Why an engine could not parse or reparse. -/
inductive EngineError
  /-- A source could not be read; `cause` is the text of the reason. -/
  | read (path : Path) (cause : String)
  /-- A reparse was asked for where nothing had been parsed. -/
  | noTranslationUnit
  | parse (text : String)
deriving Repr, DecidableEq

/-- The text shown for an engine failure. -/
def EngineError.message : EngineError → String
  | read path cause => "Failed to read " ++ path.text ++ ": " ++ cause
  | noTranslationUnit => "No translation unit to reparse"
  | parse text => "Parse failed: " ++ text

/-- Why a configuration could not be loaded. -/
inductive ConfigError
  | io (path : Path) (cause : String)
  /-- The text is no configuration in JSON. -/
  | malformed
  | invalid (text : String)
deriving Repr, DecidableEq

/-- The text shown for a configuration that was refused. -/
def ConfigError.message : ConfigError → String
  | io path cause => "Failed to read config " ++ path.text ++ ": " ++ cause
  | malformed => "Failed to parse config"
  | invalid text => "Invalid config: " ++ text

end ParseCache
