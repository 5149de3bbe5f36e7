/-
  ParseCache.Disk — the file system as a value.

  A disk is a finite table from places to what stands there, and the place of
  the working directory.  A place is the list of names that leads to it from
  the root.  There are no links, so every file has one place, but many paths:
  `Disk.find` walks a path piece by piece and, other than normalising, looks
  at every directory on the way, so that `a/../b` is found only if `a` is a
  directory.

  Of a file the cache only needs its text.  A file whose bytes are not UTF-8
  has none.
-/
import ParseCache.Path.Normal

namespace ParseCache

/-- What stands at a place. -/
inductive Node
  | directory
  | text (content : String)
  /-- A file that is not UTF-8 text. -/
  | binary
deriving Repr, DecidableEq, Inhabited

/-- A file with the given bytes. -/
def Node.ofBytes (bytes : ByteArray) : Node :=
  match String.fromUTF8? bytes with
  | some content => .text content
  | none => .binary

/-- Why a path could not be read. -/
inductive IoError
  | notFound
  | notDirectory
  | isDirectory
  | nameTooLong
  | notText
  | zeroInName
deriving Repr, DecidableEq

/-- The words of the operating system for each cause. -/
def IoError.message : IoError → String
  | notFound => "No such file or directory (os error 2)"
  | notDirectory => "Not a directory (os error 20)"
  | isDirectory => "Is a directory (os error 21)"
  | nameTooLong => "File name too long (os error 36)"
  | notText => "stream did not contain valid UTF-8"
  | zeroInName => "file name contained an unexpected NUL byte"

/-- A place: the names from the root down. -/
abbrev Place := List String

/-- The working directory and what stands where.  The root is a directory and
is not listed. -/
structure Disk where
  workDir : Place
  nodes : List (Place × Node)
deriving Repr, DecidableEq, Inhabited

namespace Disk

/-! ## §1. Looking up. -/

/-- What stands at a place. -/
def node? (d : Disk) : Place → Option Node
  | [] => some .directory
  | place => d.nodes.lookup place

/-- The longest name, in bytes. -/
def nameLimit : Nat := 255

/-- The longest path, in bytes. -/
def pathLimit : Nat := 4095

/-- Follows the pieces of a path from `place`.  Every piece, also one that
stands for nothing, needs a directory to be read in. -/
def walk (d : Disk) : Place → List (List Char) → Except IoError (Place × Node)
  | place, [] =>
    match d.node? place with
    | some node => .ok (place, node)
    | none => .error .notFound
  | place, segment :: rest =>
    match d.node? place with
    | none => .error .notFound
    | some .directory =>
      match Path.Component.ofSegment? segment with
      | some (.name name) =>
        if nameLimit < name.utf8ByteSize then .error .nameTooLong
        else d.walk (place ++ [name]) rest
      | some .up => d.walk place.dropLast rest
      | _ => d.walk place rest
    | some _ => .error .notDirectory

/-- The place a path leads to and what stands there. -/
def find (d : Disk) (p : Path) : Except IoError (Place × Node) :=
  if p.text.toList.contains '\x00' then .error .zeroInName
  else if p.text.isEmpty then .error .notFound
  else if pathLimit < p.text.utf8ByteSize then .error .nameTooLong
  else d.walk (if p.isAbsolute then [] else d.workDir) p.segments

/-- The places that following the pieces of a path from `place` leads
through, if there is a directory at each. -/
def route : Place → List (List Char) → List Place
  | place, [] => [place]
  | place, segment :: rest =>
    place :: match Path.Component.ofSegment? segment with
      | some (.name name) => route (place ++ [name]) rest
      | some .up => route place.dropLast rest
      | _ => route place rest

/-- The places a path leads through. -/
def routeOf (d : Disk) (p : Path) : List Place :=
  if p.text.toList.contains '\x00' then []
  else route (if p.isAbsolute then [] else d.workDir) p.segments

/-- Whether the path leads to anything. -/
def holds (d : Disk) (p : Path) : Bool :=
  match d.find p with
  | .ok _ => true
  | .error _ => false

/-- Whether the path leads to a file. -/
def isFile (d : Disk) (p : Path) : Bool :=
  match d.find p with
  | .ok (_, .directory) => false
  | .ok _ => true
  | .error _ => false

/-- The text of the file the path leads to. -/
def read (d : Disk) (p : Path) : Except IoError String :=
  match d.find p with
  | .ok (_, .text content) => .ok content
  | .ok (_, .directory) => .error .isDirectory
  | .ok (_, .binary) => .error .notText
  | .error e => .error e

/-! ## §2. Changing. -/

/-- The working directory as a path. -/
def workPath (d : Disk) : Path := Path.ofComponents (.root :: d.workDir.map .name)

/-- The place a path names when `.` and `..` are resolved by text alone. -/
def placeOf (d : Disk) (p : Path) : Place :=
  (d.workPath.resolve p).components.filterMap fun
    | .name s => some s
    | _ => none

/-- Puts `node` at a place, replacing what stood there. -/
def set (d : Disk) (place : Place) (node : Node) : Disk :=
  { d with nodes := (place, node) :: d.nodes.filter fun e => e.1 != place }

/-- Makes every directory on the way down to `names` below `place`, or fails
where a file is in the way. -/
def makeDirectories (d : Disk) (place : Place) : List String → Option Disk
  | [] => if d.node? place = some .directory then some d else none
  | name :: rest =>
    match d.node? place with
    | some .directory =>
      let next := place ++ [name]
      let d := if d.node? next = none then d.set next .directory else d
      d.makeDirectories next rest
    | _ => none

/-- Writes a file, or makes a directory, with the directories above it.  Where
that is impossible nothing changes but the directories already made. -/
def write (d : Disk) (p : Path) (node : Node) : Disk :=
  let place := d.placeOf p
  match node with
  | .directory => (d.makeDirectories [] place).getD d
  | file =>
    match d.makeDirectories [] place.dropLast with
    | none => d
    | some made => if made.node? place = some .directory then made else made.set place file

/-- Removes the file or directory at a path with all that is below it. -/
def remove (d : Disk) (p : Path) : Disk :=
  let place := d.placeOf p
  { d with nodes := d.nodes.filter fun e => !place.isPrefixOf e.1 }

/-- A disk with the given working directory and nothing below it. -/
def fresh (workDir : Place) : Disk :=
  ((⟨workDir, []⟩ : Disk).makeDirectories [] workDir).getD ⟨workDir, []⟩

end Disk

end ParseCache
