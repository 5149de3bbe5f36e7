/-
  ParseCache.Command.Run — running a command on a disk.

  A run loads the configuration, builds the collection, and updates documents
  with the include scanner.  Its exit code is 2 if it never got that far, 1 if
  one of the documents it prints failed, and 0 otherwise.
-/
import ParseCache.Collection.Handle
import ParseCache.Command.Report
import ParseCache.CommandLine.Invocation
import ParseCache.Config

namespace ParseCache

/-- A collection whose documents are scanned for includes. -/
abbrev ScanCache := Workspace CountingIndex Include.ScannedUnit Unit

/-- Why a command could not be run. -/
inductive CommandError
  | config (cause : ConfigError)
  | noConfig
  | document (cause : DocumentError)
  | notConfigured (file : Path)
deriving Repr, DecidableEq

/-- The text shown for a command that could not be run. -/
def CommandError.message : CommandError → String
  | config cause => cause.message
  | noConfig =>
    "No configuration file found (looked for " ++ ", ".intercalate Config.fileNames ++ ")"
  | document cause => cause.message
  | notConfigured file => file.text ++ " is not a configured document"

namespace Command

/-! ## §1. Loading. -/

/-- A path on the command line, read from the working directory. -/
def resolve (disk : Disk) (p : Path) : Path := disk.workPath.resolve p

/-- The configuration file of a run: the one given, or the nearest one. -/
def configPath (disk : Disk) : Option Path → Except CommandError Path
  | some path => .ok (disk.workPath.join path)
  | none =>
    match Config.discover? disk disk.workPath with
    | some path => .ok path
    | none => .error .noConfig

/-- The configuration of a run. -/
def openConfig (disk : Disk) (given : Option Path) : Except CommandError Config := do
  match Config.load disk (← configPath disk given) with
  | .ok c => return c
  | .error cause => .error (.config cause)

/-- The collection of a configuration: its parts are registered, and its
documents created. -/
def openCache (disk : Disk) (c : Config) : Except CommandError ScanCache :=
  let w : ScanCache := .new disk c.requireFiles ()
  let (parts, clock) := ProjectPart.newList c.resolvedParts w.clock
  let (_, w) := Workspace.upsertParts { w with clock := clock } parts
  match w.create c.entries with
  | (.ok _, w) => .ok w
  | (.error cause, _) => .error (.document cause)

/-! ## §2. Running. -/

/-- The documents of some files, file after file. -/
def documentsOf (w : ScanCache) : List Path → Except CommandError (List Nat)
  | [] => .ok []
  | file :: rest =>
    match w.documentsOf (resolve w.disk file) with
    | [] => .error (.notConfigured file)
    | found => (documentsOf w rest).map (found ++ ·)

/-- The documents of some files, or all documents where no file is named. -/
def select (w : ScanCache) : List Path → Except CommandError (List Nat)
  | [] => .ok w.held
  | files => documentsOf w files

/-- Updates documents one after the other. -/
def updateEach (mode : UpdateMode) (documents : List Nat) (w : ScanCache) : ScanCache :=
  documents.foldl (fun w n => w.update Include.engine mode n) w

/-- A command that has run: the collection it leaves and the documents it
prints. -/
structure Finished where
  cache : ScanCache
  printed : List Nat
deriving Repr

/-- Runs a command on a collection. -/
def runOn (w : ScanCache) : Command → Except CommandError Finished
  | .deps files => do
    let documents ← select w files
    return ⟨updateEach .parseIfNeeded documents w, documents⟩
  | .status => .ok ⟨updateEach .parseIfNeeded w.held w, w.held⟩
  | .touch path files => do
    let documents ← select w files
    let (dirtied, w) := (updateEach .parseIfNeeded documents w).touch (resolve w.disk path)
    return ⟨updateEach .asNeeded dirtied w, dirtied⟩

/-- Loads the configuration and runs a command. -/
def run (disk : Disk) (i : Invocation) : Except CommandError Finished := do
  runOn (← openCache disk (← openConfig disk i.config)) i.command

namespace Finished

/-- The documents a command prints. -/
def documents (f : Finished) : List (Document CountingIndex Include.ScannedUnit) :=
  f.printed.filterMap fun n => f.cache.documents[n]?

/-- The reports a command prints. -/
def reports (f : Finished) : List DocumentReport :=
  f.documents.map (.ofDocument f.cache.disk)

/-- Whether one of the printed documents failed. -/
def hasFailures (f : Finished) : Bool := f.documents.any (·.failed)

end Finished

/-! ## §3. Output. -/

/-- The text a command prints for its reports. -/
def text (c : Command) (format : Format) (reports : List DocumentReport) : String :=
  match format, c with
  | .json, _ => DocumentReport.jsonText reports
  | .text, .deps _ => DocumentReport.dependencyText reports
  | .text, _ => DocumentReport.statusText reports

/-- What a run leaves for its caller. -/
structure Outcome where
  code : UInt32
  output : String
  /-- The reason why nothing was run. -/
  complaint : Option String
deriving Repr, DecidableEq

/-- The outcome of an invocation. -/
def outcome (disk : Disk) (i : Invocation) : Outcome :=
  match run disk i with
  | .error cause => ⟨2, "", some cause.message⟩
  | .ok f => ⟨if f.hasFailures then 1 else 0, i.command.text i.format f.reports, none⟩

/-- The name and version of the program. -/
def versionText : String := "ucache 0.1.0\n"

/-- The text shown on request. -/
def helpText : String :=
  DocumentReport.unlines [
    "Usage: ucache [OPTIONS] <COMMAND>",
    "",
    "Commands:",
    "  deps <FILES>...          Parse documents and print the files each one depends on",
    "  status                   Parse every configured document and print its cache state",
    "  touch <PATH> [FILES]...  Report a file change and reparse the documents it dirties",
    "  help [COMMAND]           Print this message",
    "",
    "Options:",
    "  -c, --config <CONFIG>    Configuration file path",
    "  -f, --format <FORMAT>    Output format of a command (text, json)",
    "  -v, --verbose            Enable verbose output",
    "  -h, --help               Print help",
    "  -V, --version            Print version"]

/-- The outcome of a command line. -/
def answer (disk : Disk) (arguments : List String) : Outcome :=
  match CommandLine.read arguments with
  | .ok i => outcome disk i
  | .error .help => ⟨0, helpText, none⟩
  | .error .version => ⟨0, versionText, none⟩
  | .error (.mistake cause) => ⟨2, "", some cause.message⟩

end Command

end ParseCache
