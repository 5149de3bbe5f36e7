/-
  ParseCache.Command.Footprint — the paths a command looks at.

  A command needs of the disk only what stands where it looks.  Where it looks
  depends in turn on what it finds: the configuration names the documents, and
  each source names the places where its includes may be.  So whoever brings a
  disk together for a command adds the paths of the footprint until it does
  not grow any more.
-/
import ParseCache.Command.Run

namespace ParseCache

namespace Include

/-- The paths that the directives of a source may mean. -/
def lookups (s : Sources) (searchPaths : List Path) (current file : Path) : List Path :=
  match s.read file with
  | .ok source => (directives source).flatMap (Sources.candidates current searchPaths)
  | .error _ => []

/-- The paths a scan looks at. -/
def footprint (s : Sources) (file : Path) (arguments : List String) : List Path :=
  let searchPaths := searchPaths arguments
  let includes := match scan s file arguments with
    | .ok found => found.includes
    | .error _ => []
  file :: (lookups s searchPaths file.normalize file
    ++ includes.flatMap fun p => p :: lookups s searchPaths p p)

end Include

namespace Command

/-- Where the configuration file may be. -/
def configCandidates (disk : Disk) : Option Path → List Path
  | some path => [disk.workPath.join path]
  | none => disk.workPath.ancestors.flatMap fun directory =>
    Config.fileNames.map fun name => directory.join ⟨name⟩

/-- The arguments a configuration gives to a part. -/
def argumentsOf (c : Config) (part : String) : List String :=
  (c.resolvedParts.lookup part).getD []

/-- The paths an invocation looks at on a disk. -/
def footprint (disk : Disk) (i : Invocation) : List Path :=
  configCandidates disk i.config ++
    match openConfig disk i.config with
    | .error _ => []
    | .ok c =>
      let w : ScanCache := .new disk c.requireFiles ()
      c.entries.flatMap fun e =>
        Include.footprint ⟨disk, w.buffers⟩ e.path (argumentsOf c e.part ++ e.arguments)

end Command

end ParseCache
