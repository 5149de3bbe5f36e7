/-
  ParseCache.Document.Digest — what a hash of a document reads.

  A hash reads bytes.  Of a path it reads the components one after the other,
  without slashes and without the root, and then a word made from their
  lengths, which tells `ab/c` from `a/bc`; of a part it reads the id and a
  byte that no text contains.  Keys that mean the same have the same digest
  (`digest_eq_of_same`).  The converse fails: the root leaves no trace, so
  `/a` and `a` have one digest.
-/
import ParseCache.Document.Key

namespace ParseCache

namespace Path

/-- The bytes of a text. -/
def bytesOf (text : String) : List UInt8 := text.toUTF8.toList

/-- The bytes of the components, component by component. -/
def chunks (p : Path) : List (List UInt8) :=
  (p.components.filter (· ≠ .root)).map fun c => bytesOf c.text

/-- The word with `length` taken in: it is added, and the sum is rotated to
the right by two bits. -/
def mixLength (word : UInt64) (length : Nat) : UInt64 :=
  let sum := word + UInt64.ofNat length
  (sum >>> 2) ||| (sum <<< 62)

/-- The eight bytes of a word, the lowest first. -/
def wordBytes (word : UInt64) : List UInt8 :=
  [0, 8, 16, 24, 32, 40, 48, 56].map fun (shift : UInt64) => (word >>> shift).toUInt8

/-- What a hash of a path reads. -/
def digest (p : Path) : List UInt8 :=
  p.chunks.flatten ++ wordBytes ((p.chunks.map (·.length)).foldl mixLength 0)

end Path

namespace DocumentKey

/-- What a hash of a key reads. -/
def digest (k : DocumentKey) : List UInt8 := k.path.digest ++ Path.bytesOf k.part ++ [0xFF]

theorem digest_eq_of_same {a b : DocumentKey} (h : a.same b = true) : a.digest = b.digest := by
  obtain ⟨hpath, hpart⟩ := same_iff.1 h
  simp only [digest, Path.digest, Path.chunks, hpath, hpart]

end DocumentKey

end ParseCache
