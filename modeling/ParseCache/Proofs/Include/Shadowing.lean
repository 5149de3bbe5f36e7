/-
  ParseCache.Proofs.Include.Shadowing — what lies under a buffer does not
  matter.

  A scan asks for files in three places: it reads its primary file, it tries the
  candidates of quoted and of angled names, and it reads what it found.  In all
  of them a buffer comes before the disk.  So the disk counts only where there is
  no buffer: two disks that look the same there give the same scan.

  The disks are compared under paths that start at the root and are in normal
  form, because a scan asks under no others.  Under `..` a file can be seen that
  a buffer shadows under its plain name.

  Main results:
    * `agree_of_bare` — sources over two such disks agree on every rooted path;
    * `bare_of_fileChange` — rewriting or deleting a file under a buffer leads
      to such a disk;
    * `scan_of_bare` — the scans find the same, or cannot read the same file.
-/
import ParseCache.Proofs.Include.Closure
import ParseCache.Proofs.Include.SourceChange

namespace ParseCache.Include

variable {buffers : Buffers} {d d' : Disk} {file : Path} {arguments : List String}

/-- The disks look the same wherever no buffer lies over them: the same files
are there, with the same text.  Why a file has no text may differ. -/
structure SameWhereBare (buffers : Buffers) (d d' : Disk) : Prop where
  isFile : ∀ q : Path, q.isAbsolute = true → q.normalize.same q = true →
    buffers.file? q = none → d'.isFile q = d.isFile q
  text : ∀ q : Path, q.isAbsolute = true → q.normalize.same q = true →
    buffers.file? q = none → (d'.read q).toOption = (d.read q).toOption

/-! ## §1. Sources. -/

/-- Reading a path in normal form never reaches what lies under a buffer. -/
theorem text_of_bare (h : SameWhereBare buffers d d') {q : Path} (habs : q.isAbsolute = true)
    (hnormal : q.normalize.same q = true) :
    (Sources.read ⟨d', buffers⟩ q).toOption = (Sources.read ⟨d, buffers⟩ q).toOption := by
  cases hbuffer : buffers.file? q with
  | some buffer =>
    have hcontent : buffers.content? q = some buffer.content := by
      rw [Buffers.content?, hbuffer]
      rfl
    simp only [toOption_read, hcontent]
  | none =>
    have hcontent : buffers.content? q = none := by
      rw [Buffers.content?, hbuffer]
      rfl
    simp only [toOption_read, hcontent]
    exact h.text q habs hnormal hbuffer

/-- Neither does asking whether there is a source. -/
theorem holds_of_bare (h : SameWhereBare buffers d d') {q : Path} (habs : q.isAbsolute = true)
    (hnormal : q.normalize.same q = true) :
    Sources.holds ⟨d', buffers⟩ q = Sources.holds ⟨d, buffers⟩ q := by
  show ((buffers.file? q).isSome || d'.isFile q) = ((buffers.file? q).isSome || d.isFile q)
  cases hbuffer : buffers.file? q with
  | some buffer => rfl
  | none => rw [h.isFile q habs hnormal hbuffer]

theorem agree_of_bare (h : SameWhereBare buffers d d') {q : Path} (hq : q.Rooted) :
    Agree ⟨d, buffers⟩ ⟨d', buffers⟩ q := by
  have hnormal : q.normalize.same q = true := by
    rw [hq.2]
    exact Path.same_refl q
  exact ⟨holds_of_bare h hq.1 hnormal, text_of_bare h hq.1 hnormal⟩

/-- A change of one file is invisible where a buffer lies over it. -/
theorem bare_of_fileChange {path : Path} (habs : path.isAbsolute = true)
    (hnormal : path.normalize.same path = true) (hshadowed : buffers.file? path ≠ none)
    (h : Disk.FileChange path.place d d') : SameWhereBare buffers d d' := by
  -- a path in normal form that leads to the file is a spelling of its path
  have hother : ∀ q : Path, q.isAbsolute = true → q.normalize.same q = true →
      buffers.file? q = none → ∀ node, d.find q ≠ .ok (path.place, node) := by
    intro q hqabs hqnormal hbare node hfind
    obtain ⟨hplace, -, -⟩ := Disk.place_of_find hqabs hfind
    have hsame : q.normalize = path.normalize := by
      rw [Path.normalize_eq_ofPlace hqabs, Path.normalize_eq_ofPlace habs, hplace]
    have hspelled : q.same path = true := by
      rw [Path.same_comm] at hqnormal
      refine Path.same_trans hqnormal ?_
      rw [hsame]
      exact hnormal
    exact hshadowed ((Table.get?_congr buffers.files hspelled).symm.trans hbare)
  constructor
  · intro q hqabs hqnormal hbare
    exact (h.same_sight hqabs (hother q hqabs hqnormal hbare)).1
  · intro q hqabs hqnormal hbare
    exact (h.same_sight hqabs (hother q hqabs hqnormal hbare)).2

/-! ## §2. Scans. -/

/-- A scan that fails says that its primary file could not be read, and why. -/
theorem scan_eq_error {S : Sources} (h : (S.read file).toOption = none)
    (arguments : List String) : ∃ cause, scan S file arguments = .error (.read file cause) := by
  rw [toOption_read] at h
  cases hcontent : S.buffers.content? file with
  | some content =>
    rw [hcontent] at h
    cases h
  | none =>
    cases hread : S.disk.read file with
    | ok content =>
      rw [hcontent, hread] at h
      cases h
    | error cause =>
      refine ⟨cause.message, ?_⟩
      simp only [scan, Sources.read, hcontent, hread]

/-- Unsaved buffers shadow the disk.  If two disks look the same wherever there
is no buffer, then a scan over them finds the same includes and the same
unresolved names, or on both it fails to read its primary file. -/
theorem scan_of_bare (h : SameWhereBare buffers d d') (habs : file.isAbsolute = true)
    (hnormal : file.normalize.same file = true)
    (hdirectories : ∀ directory ∈ searchPaths arguments, directory.isAbsolute = true) :
    (∃ found, scan ⟨d, buffers⟩ file arguments = .ok found ∧
      scan ⟨d', buffers⟩ file arguments = .ok found) ∨
    ∃ cause cause', scan ⟨d, buffers⟩ file arguments = .error (.read file cause) ∧
      scan ⟨d', buffers⟩ file arguments = .error (.read file cause') := by
  -- the primary file is read as it is spelled, everything else in normal form
  have hprimary := text_of_bare h habs hnormal
  cases hread : (Sources.read ⟨d, buffers⟩ file).toOption with
  | none =>
    right
    obtain ⟨cause, hfail⟩ := scan_eq_error hread arguments
    obtain ⟨cause', hfail'⟩ := scan_eq_error (hprimary.trans hread) arguments
    exact ⟨cause, cause', hfail, hfail'⟩
  | some source =>
    left
    cases hscan : scan ⟨d, buffers⟩ file arguments with
    | error e =>
      obtain ⟨e', hfail⟩ := (scan_error_iff _ file arguments).1 ⟨e, hscan⟩
      rw [hfail] at hread
      cases hread
    | ok found =>
      have hnew : NothingNew Path.Rooted ⟨d, buffers⟩ ⟨d', buffers⟩ := by
        intro q hq hholds
        rw [← (agree_of_bare h hq).1]
        exact hholds
      have hrooted : file.normalize.Rooted :=
        ⟨Path.isAbsolute_normalize habs, Path.normalize_normalize file⟩
      exact ⟨found, rfl, scan_congr hscan (closed_rooted hdirectories) hrooted hnew hprimary
        fun q hq _ => agree_of_bare h hq⟩

/-- A header in a search directory.  On disk it includes another file than in the
editor. -/
def shadowedHeader : Disk :=
  ⟨[], [(["r"], .directory), (["r", "a.c"], .text "#include <a.h>\n"),
    (["r", "inc"], .directory), (["r", "inc", "a.h"], .text "#include \"old.h\"\n")]⟩

/-- The editor's version of the header. -/
def headerBuffer : Buffers := (Buffers.new ⟨0⟩).put ⟨"/r/inc/a.h"⟩ "#include \"new.h\"\n" ⟨1⟩

/-- Deleting the header under its buffer changes nothing that a scan finds. -/
theorem scan_without_shadowed :
    (shadowedHeader.remove ⟨"/r/inc/a.h"⟩).isFile ⟨"/r/inc/a.h"⟩ = false ∧
    scan ⟨shadowedHeader, headerBuffer⟩ ⟨"/r/a.c"⟩ ["-I/r/inc"]
      = .ok ⟨[⟨"/r/inc/a.h"⟩], ["new.h"]⟩ ∧
    scan ⟨shadowedHeader.remove ⟨"/r/inc/a.h"⟩, headerBuffer⟩ ⟨"/r/a.c"⟩ ["-I/r/inc"]
      = .ok ⟨[⟨"/r/inc/a.h"⟩], ["new.h"]⟩ := by
  have hbare : SameWhereBare headerBuffer shadowedHeader
      (shadowedHeader.remove ⟨"/r/inc/a.h"⟩) :=
    bare_of_fileChange (by decide +kernel) (by decide +kernel) (by decide +kernel)
      (Disk.fileChange_remove (by decide +kernel) (by decide +kernel))
  have hscan : scan ⟨shadowedHeader, headerBuffer⟩ ⟨"/r/a.c"⟩ ["-I/r/inc"]
      = .ok ⟨[⟨"/r/inc/a.h"⟩], ["new.h"]⟩ := eq_ok_of_toOption (by decide +kernel)
  have habs : (⟨"/r/a.c"⟩ : Path).isAbsolute = true := by decide +kernel
  have hdirectories : ∀ directory ∈ searchPaths ["-I/r/inc"], directory.isAbsolute = true := by
    decide +kernel
  rcases scan_of_bare hbare habs (by decide +kernel) hdirectories with
    ⟨found, hfound, hfound'⟩ | ⟨cause, cause', hfail, -⟩
  · rw [hscan] at hfound
    cases hfound
    exact ⟨by decide +kernel, hscan, hfound'⟩
  · rw [hscan] at hfail
    cases hfail

end ParseCache.Include
