/-
  ParseCache.Config — what is to be cached, and under which arguments.

  A configuration lists project parts and documents.  It is valid when the ids
  of its parts are distinct and every document refers to one of them.  Paths
  in it, and include directories among the arguments of its parts, are read
  from its base directory, which is the directory it was loaded from.
-/
import ParseCache.Disk
import ParseCache.Error
import ParseCache.FileEntry
import ParseCache.Include.Argument

namespace ParseCache

/-- A project part of a configuration. -/
structure PartConfig where
  id : String
  arguments : List String
deriving Repr, DecidableEq, Inhabited

/-- A document of a configuration. -/
structure DocumentConfig where
  path : Path
  part : String
  arguments : List String
deriving Repr, DecidableEq, Inhabited

/-- A configuration. -/
structure Config where
  parts : List PartConfig
  documents : List DocumentConfig
  /-- Whether a document may be created only if its file exists. -/
  requireFiles : Bool
  /-- Where relative paths are read from. -/
  base : Option Path
deriving Repr, DecidableEq, Inhabited

/-! ## §1. JSON. -/

namespace PartConfig

/-- The part as JSON. -/
def toJson (p : PartConfig) : Json :=
  .object [("id", .string p.id), ("arguments", .ofTexts p.arguments)]

/-- The part a JSON value stands for. -/
def ofJson? (v : Json) : Option PartConfig := do
  match ← Json.record? ["id", "arguments"] v with
  | [id, arguments] =>
    return {
      id := ← Json.required Json.asText id
      arguments := ← Json.optional (Json.asList Json.asText) [] arguments }
  | _ => none

end PartConfig

namespace DocumentConfig

/-- The document as JSON. -/
def toJson (d : DocumentConfig) : Json :=
  .object [("path", .string d.path.text), ("project_part", .string d.part),
    ("arguments", .ofTexts d.arguments)]

/-- The document a JSON value stands for. -/
def ofJson? (v : Json) : Option DocumentConfig := do
  match ← Json.record? ["path", "project_part", "arguments"] v with
  | [path, part, arguments] =>
    return {
      path := ⟨← Json.required Json.asText path⟩
      part := ← Json.required Json.asText part
      arguments := ← Json.optional (Json.asList Json.asText) [] arguments }
  | _ => none

end DocumentConfig

namespace Config

/-- The configuration of nothing. -/
def empty : Config := ⟨[], [], true, none⟩

/-- The configuration as JSON.  The base directory is not part of it. -/
def toJson (c : Config) : Json :=
  .object [("project_parts", .array (c.parts.map PartConfig.toJson)),
    ("documents", .array (c.documents.map DocumentConfig.toJson)),
    ("check_file_exists", .bool c.requireFiles)]

/-- The configuration a JSON value stands for, without a base directory. -/
def ofJson? (v : Json) : Option Config := do
  match ← Json.record? ["project_parts", "documents", "check_file_exists"] v with
  | [parts, documents, requireFiles] =>
    return {
      parts := ← Json.optional (Json.asList PartConfig.ofJson?) [] parts
      documents := ← Json.optional (Json.asList DocumentConfig.ofJson?) [] documents
      requireFiles := ← Json.optional Json.asBool true requireFiles
      base := none }
  | _ => none

/-- The text of the configuration in JSON. -/
def render (c : Config) : String := c.toJson.render

/-! ## §2. Validity. -/

/-- The first id that occurred before. -/
def repeatedId? : List PartConfig → List String → Option String
  | [], _ => none
  | part :: rest, seen =>
    if seen.contains part.id then some part.id else repeatedId? rest (part.id :: seen)

/-- Accepts a configuration whose ids are distinct and whose documents refer
to them. -/
def validate (c : Config) : Except ConfigError Unit :=
  match repeatedId? c.parts [] with
  | some id => .error (.invalid ("duplicate project part '" ++ id ++ "'"))
  | none =>
    match c.documents.find? fun d => !(c.parts.any fun p => p.id == d.part) with
    | some d =>
      .error (.invalid ("document '" ++ d.path.text ++ "' refers to unknown project part '"
        ++ d.part ++ "'"))
    | none => .ok ()

/-- The valid configuration a text in JSON stands for. -/
def read (text : String) : Except ConfigError Config := do
  match (Json.read? text).bind ofJson? with
  | none => .error .malformed
  | some c =>
    c.validate
    return c

/-! ## §3. Paths. -/

/-- A path of the configuration, read from its base directory. -/
def resolve (c : Config) (p : Path) : Path :=
  match c.base with
  | some base => if p.isAbsolute then p.normalize else base.resolve p
  | none => p.normalize

/-- A directory among arguments, read from the base directory. -/
def resolveText (c : Config) (directory : String) : String := (c.resolve ⟨directory⟩).text

/-- Arguments with every include directory read from the base directory. -/
def resolveArguments (c : Config) : List String → List String
  | [] => []
  | argument :: rest =>
    match Include.Argument.read argument with
    | .other => argument :: c.resolveArguments rest
    | .joined flag directory => (flag.text ++ c.resolveText directory) :: c.resolveArguments rest
    | .alone flag =>
      match rest with
      | [] => [flag.text]
      | directory :: rest => flag.text :: c.resolveText directory :: c.resolveArguments rest

/-- The ids and resolved arguments of the parts. -/
def resolvedParts (c : Config) : List (String × List String) :=
  c.parts.map fun p => (p.id, c.resolveArguments p.arguments)

/-- The documents as entries, their paths resolved. -/
def entries (c : Config) : List FileEntry :=
  c.documents.map fun d => { FileEntry.new (c.resolve d.path) d.part with arguments := d.arguments }

/-! ## §4. Loading. -/

/-- Loads a configuration file.  Its directory becomes the base directory. -/
def load (disk : Disk) (path : Path) : Except ConfigError Config :=
  match disk.read path with
  | .error cause => .error (.io path cause.message)
  | .ok text => do
    let c ← read text
    return { c with base := path.parent? }

/-- The names a configuration file may have, in the order they are tried. -/
def fileNames : List String := ["unitcache.json", ".unitcache.json"]

/-- The first configuration file in `start` or a directory above it. -/
def discover? (disk : Disk) (start : Path) : Option Path :=
  start.ancestors.findSome? fun directory =>
    (fileNames.map fun name => directory.join ⟨name⟩).find? disk.isFile

end Config

end ParseCache
