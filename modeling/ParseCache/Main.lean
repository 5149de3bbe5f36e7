/-
  ParseCache.Main — the program.

  Commands run on a disk that is a value.  The program brings together the
  part of the real disk that the command looks at, runs the command on it, and
  prints what comes out.
-/
import ParseCache.Command.Footprint

namespace ParseCache.Main

/-- The part of the real disk that has been looked at. -/
structure Survey where
  disk : Disk
  seen : List Place

/-- Looks at a place.  A file that cannot be read counts as one that is no
text. -/
def look (s : Survey) (place : Place) : IO Survey := do
  if s.seen.contains place then return s
  let s := { s with seen := place :: s.seen }
  if s.disk.node? place ≠ none ∨ s.disk.node? place.dropLast ≠ some .directory then return s
  let text := (Path.ofComponents (.root :: place.map .name)).text
  match ← (IO.FS.readBinFile text).toBaseIO with
  | .ok bytes => return { s with disk := s.disk.set place (.ofBytes bytes) }
  | .error (.inappropriateType ..) => return { s with disk := s.disk.set place .directory }
  | .error (.noFileOrDirectory ..) => return s
  | .error _ => return { s with disk := s.disk.set place .binary }

/-- Looks at everything an invocation looks at. -/
partial def survey (i : Invocation) (s : Survey) : IO Survey := do
  let places := (Command.footprint s.disk i).flatMap s.disk.routeOf
  match places.filter fun place => !s.seen.contains place with
  | [] => return s
  | unseen => survey i (← unseen.foldlM look s)

/-- The working directory and nothing else. -/
def start : IO Survey := do
  let path : Path := ⟨(← IO.currentDir).toString⟩
  return ⟨.fresh ((Disk.fresh []).placeOf path), []⟩

/-- The disk a command line needs. -/
def diskFor (arguments : List String) : IO Disk := do
  let s ← start
  match CommandLine.read arguments with
  | .ok i => return (← survey i s).disk
  | .error _ => return s.disk

end ParseCache.Main

/-- Runs the program. -/
def main (arguments : List String) : IO UInt32 := do
  let outcome := ParseCache.Command.answer (← ParseCache.Main.diskFor arguments) arguments
  (← IO.getStdout).putStr outcome.output
  if let some complaint := outcome.complaint then (← IO.getStderr).putStrLn complaint
  return outcome.code
