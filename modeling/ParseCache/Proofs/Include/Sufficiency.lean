/-
  ParseCache.Proofs.Include.Sufficiency — what a scan reports is all it depends
  on.

  A scan tries many paths that it never reports: candidates that were no
  sources, and those a better candidate hid.  None of them matters, unless it
  becomes a source.  So two environments in which the files that were reported
  are the same, and of which the second knows no source that the first does
  not, give the same result.

  Main results:
    * `agree_of_keeps` — on a path that is kept the two agree;
    * `scan_eq_of_kept` — the second scan finds what the first one found.
-/
import ParseCache.Proofs.Include.SourceChange

namespace ParseCache.Include

variable {S S' : Sources}

/-- The second sources still have the path, and it reads the same there; or it
can be read in neither. -/
structure Keeps (S S' : Sources) (p : Path) : Prop where
  holds : S'.holds p = true
  text : (S'.read p).toOption = (S.read p).toOption

theorem agree_of_keeps {p : Path} (h : Keeps S S' p)
    (hnew : S'.holds p = true → S.holds p = true) : Agree S S' p :=
  ⟨h.holds.trans (hnew h.holds).symm, h.text⟩

/-- Whatever a directive may mean is in normal form, also in a file and in
directories that are not. -/
theorem closed_normal (directories : List Path) :
    Closed (fun q => q.normalize = q) directories := by
  intro current d _ found hfound
  -- a candidate is resolved against its directory, and that normalises
  obtain ⟨directory, -, rfl⟩ := List.mem_map.1 hfound
  exact Path.normalize_normalize _

theorem normal_of_mem_includes {file : Path} {arguments : List String} {found : Scanned}
    (hscan : scan S file arguments = .ok found) {p : Path} (hp : p ∈ found.includes) :
    p.normalize = p := by
  cases hread : S.read file with
  | error e =>
    rw [scan, hread] at hscan
    cases hscan
  | ok source =>
    rw [scan, hread] at hscan
    cases hscan
    have hsound := ScanState.sound_run S (searchPaths arguments) (S.bound + 1)
      (ScanState.sound_start file.normalize source)
    exact hsound.normal p (List.mem_mergeSort.1 hp)

/-- The primary file and the files it includes decide what a scan finds: where
they are kept, and no path becomes a source, another scan finds the same,
whatever else was rewritten or deleted. -/
theorem scan_eq_of_kept {file : Path} (hfile : file.normalize = file) {arguments : List String}
    {found : Scanned} (hscan : scan S file arguments = .ok found)
    (hkept : ∀ p ∈ file :: found.includes, Keeps S S' p)
    (hnew : ∀ q, S'.holds q = true → S.holds q = true) :
    scan S' file arguments = .ok found := by
  have hagree : ∀ p ∈ file :: found.includes, Agree S S' p := fun p hp =>
    agree_of_keeps (hkept p hp) (hnew p)
  refine scan_congr hscan (closed_normal _) (Path.normalize_normalize file)
    (fun q _ => hnew q) (hkept file List.mem_cons_self).text fun q hq hmet => ?_
  -- a path in normal form that is spelled like one of them is that one
  rcases hmet with hsame | ⟨p, hp, hsame⟩
  · rw [hfile] at hsame
    rw [Path.eq_of_same hq hfile hsame]
    exact hagree file List.mem_cons_self
  · rw [Path.eq_of_same hq (normal_of_mem_includes hscan hp) hsame]
    exact hagree p (List.mem_cons_of_mem file hp)

/-- Two headers of one name, of which the one beside the primary file hides the
other; that one is a buffer. -/
def hiddenHeader : Sources where
  disk := ⟨[], [(["r"], .directory), (["r", "a.c"], .text "#include \"a.h\"\n#include <b.h>\n"),
    (["r", "a.h"], .text "")]⟩
  buffers := (Buffers.new ⟨0⟩).put ⟨"/r/inc/a.h"⟩ "#include \"c.h\"" ⟨1⟩

/-- Dropping the header that is hidden changes nothing. -/
theorem scan_eq_without_hidden :
    scan { hiddenHeader with buffers := (hiddenHeader.buffers.remove ⟨"/r/inc/a.h"⟩ ⟨2⟩).2 }
      ⟨"/r/a.c"⟩ ["-I/r/inc"] = .ok ⟨[⟨"/r/a.h"⟩], ["b.h"]⟩ := by
  have hscan : scan hiddenHeader ⟨"/r/a.c"⟩ ["-I/r/inc"] = .ok ⟨[⟨"/r/a.h"⟩], ["b.h"]⟩ :=
    eq_ok_of_toOption (by decide +kernel)
  -- the hidden header is not among the files that have to be kept
  refine scan_eq_of_kept (by decide +kernel) hscan ?_ fun q => holds_of_holds_remove _ _ _ q
  intro p hp
  rcases List.mem_cons.1 hp with rfl | hp
  · exact ⟨by decide +kernel, by decide +kernel⟩
  · obtain rfl := List.mem_singleton.1 hp
    exact ⟨by decide +kernel, by decide +kernel⟩

end ParseCache.Include
