/-
  ParseCache.Proofs.Include.SourceChange — changes of one source.

  Writing or deleting a file, and storing or dropping a buffer, each change
  what one path reads as.  Under a different name the change can be seen too,
  but among paths that start at the root and are in normal form there is only
  one name, the normal form of the path that was changed.

  Main results:
    * `edit_write`, `edit_remove`, `edit_put`, `edit_dropBuffer` — each of the
      four is an `Edit`;
    * `scan_of_edit` — a scan that did not meet the edited path finds the same
      after the edit.
-/
import ParseCache.Proofs.Include.Dependence

namespace ParseCache

/-- A path that starts at the root, in normal form. -/
def Path.Rooted (p : Path) : Prop := p.isAbsolute = true ∧ p.normalize = p

theorem Path.rooted_resolve {p : Path} (h : p.isAbsolute = true) (q : Path) :
    (p.resolve q).Rooted :=
  ⟨isAbsolute_resolve h q, normalize_normalize _⟩

namespace Include

/-! ## §1. Edits. -/

/-- From `S` to `S'` no source appeared, and rooted paths other than the
normal form of `path` are seen as before. -/
structure Edit (path : Path) (S S' : Sources) : Prop where
  nothingNew : NothingNew Path.Rooted S S'
  agree : ∀ q, q.Rooted → q ≠ path.normalize → Agree S S' q
  onDisk : ∀ q, q.Rooted → S'.disk.holds q = true → S.disk.holds q = true

theorem Edit.refl (path : Path) (S : Sources) : Edit path S S where
  nothingNew _ _ h := h
  agree _ _ _ := ⟨rfl, rfl⟩
  onDisk _ _ h := h

/-- Without a buffer a path reads as on disk, but for the wording of errors. -/
theorem toOption_read (S : Sources) (q : Path) :
    (S.read q).toOption =
      match S.buffers.content? q with
      | some content => some content
      | none => (S.disk.read q).toOption := by
  unfold Sources.read
  cases S.buffers.content? q with
  | some content => rfl
  | none =>
    simp only
    cases S.disk.read q <;> rfl

/-- Where one file changes, only its own rooted name shows it. -/
theorem edit_of_fileChange {path : Path} (habs : path.isAbsolute = true) {S : Sources}
    {disk : Disk} (h : Disk.FileChange path.place S.disk disk) :
    Edit path S { S with disk := disk } where
  nothingNew q hq hholds := by
    unfold Sources.holds at hholds ⊢
    rw [Bool.or_eq_true] at hholds ⊢
    rcases hholds with hbuffer | hfile
    · exact Or.inl hbuffer
    · exact Or.inr (h.isFile_of_isFile hq.1 hfile)
  agree q hq hne := by
    -- another rooted path in normal form leads to another place
    have hother : ∀ node, S.disk.find q ≠ .ok (path.place, node) := by
      intro node hfind
      obtain ⟨hplace, -, -⟩ := Disk.place_of_find hq.1 hfind
      refine hne ?_
      rw [← hq.2, Path.normalize_eq_ofPlace hq.1, Path.normalize_eq_ofPlace habs, hplace]
    obtain ⟨hfile, hread⟩ := h.same_sight hq.1 hother
    refine ⟨?_, ?_⟩
    · unfold Sources.holds
      rw [hfile]
    · rw [toOption_read, toOption_read, hread]
  onDisk q hq hholds := h.holds_of_holds hq.1 hholds

/-- Rewriting a file. -/
theorem edit_write {path : Path} (habs : path.isAbsolute = true) {S : Sources}
    (hfile : S.disk.isFile path = true) {node : Node} (hnode : node ≠ .directory) :
    Edit path S { S with disk := S.disk.write path node } :=
  edit_of_fileChange habs (Disk.fileChange_write habs hfile hnode)

/-- Deleting a file. -/
theorem edit_remove {path : Path} (habs : path.isAbsolute = true) {S : Sources}
    (hfile : S.disk.isFile path = true) : Edit path S { S with disk := S.disk.remove path } :=
  edit_of_fileChange habs (Disk.fileChange_remove habs hfile)

theorem holds_eq (S : Sources) (q : Path) :
    S.holds q = ((S.buffers.content? q).isSome || S.disk.isFile q) := by
  unfold Sources.holds Buffers.content?
  rw [Option.isSome_map]

/-- Rooted names of one path are spelled alike. -/
theorem not_same {path q : Path} (hq : q.Rooted) (hne : q ≠ path.normalize) :
    q.same path = false := by
  rw [Bool.eq_false_iff]
  intro hsame
  refine hne ?_
  rw [← hq.2]
  exact Path.normalize_eq_of_same hsame

/-- A buffer that is stored makes its path a source, and changes no other. -/
theorem holds_put (S : Sources) (path : Path) (content : String) (time : TimePoint) (q : Path) :
    Sources.holds { S with buffers := S.buffers.put path content time } q
      = (q.same path || S.holds q) := by
  rw [holds_eq, holds_eq]
  show ((S.buffers.put path content time).content? q).isSome.or _ = _
  rw [Buffers.content?_put]
  cases q.same path <;> rfl

/-- Storing a buffer where there was a source. -/
theorem edit_put {path : Path} {S : Sources} {content : String} {time : TimePoint}
    (hnew : NothingNew Path.Rooted S { S with buffers := S.buffers.put path content time }) :
    Edit path S { S with buffers := S.buffers.put path content time } where
  nothingNew := hnew
  agree q hq hne := by
    have hother := not_same hq hne
    refine ⟨?_, ?_⟩
    · rw [holds_put, hother, Bool.false_or]
    · rw [toOption_read, toOption_read]
      show (match (S.buffers.put path content time).content? q with | some _ => _ | none => _) = _
      rw [Buffers.content?_put, hother, if_neg Bool.false_ne_true]
  onDisk _ _ h := h

/-- A buffer that is dropped leaves no source that was not one before. -/
theorem holds_of_holds_remove (S : Sources) (path : Path) (time : TimePoint) (q : Path)
    (hholds : Sources.holds { S with buffers := (S.buffers.remove path time).2 } q = true) :
    S.holds q = true := by
  rw [holds_eq] at hholds ⊢
  rw [Bool.or_eq_true] at hholds ⊢
  rcases hholds with hbuffer | hfile
  · left
    have hbuffer : ((S.buffers.remove path time).2.content? q).isSome = true := hbuffer
    rw [Buffers.content?_remove] at hbuffer
    split at hbuffer
    · cases hbuffer
    · exact hbuffer
  · exact Or.inr hfile

/-- Dropping a buffer. -/
theorem edit_dropBuffer (path : Path) (S : Sources) (time : TimePoint) :
    Edit path S { S with buffers := (S.buffers.remove path time).2 } where
  nothingNew q _ := holds_of_holds_remove S path time q
  agree q hq hne := by
    have hsame : (S.buffers.remove path time).2.content? q = S.buffers.content? q := by
      rw [Buffers.content?_remove, not_same hq hne, if_neg Bool.false_ne_true]
    refine ⟨?_, ?_⟩
    · rw [holds_eq, holds_eq]
      show (((S.buffers.remove path time).2.content? q).isSome || _) = _
      rw [hsame]
    · rw [toOption_read, toOption_read]
      show (match (S.buffers.remove path time).2.content? q with | some _ => _ | none => _) = _
      rw [hsame]
  onDisk _ _ h := h

/-! ## §2. Scans that did not meet the edited path. -/

/-- From rooted directories rooted paths are reached. -/
theorem closed_rooted {directories : List Path}
    (h : ∀ directory ∈ directories, directory.isAbsolute = true) :
    Closed Path.Rooted directories := by
  intro current d hcurrent found hfound
  obtain ⟨directory, hmem, rfl⟩ := List.mem_map.1 hfound
  rcases List.mem_append.1 hmem with hmem | hmem
  · cases hform : d.form with
    | angled =>
      rw [hform] at hmem
      cases hmem
    | quoted =>
      rw [hform] at hmem
      have hparent : current.parent? = some directory := by simpa using hmem
      exact Path.rooted_resolve (Path.isAbsolute_parent? hcurrent.1 hparent) _
  · exact Path.rooted_resolve (h directory hmem) _

/-- A scan that met the edited path neither as its primary file nor among its
includes finds the same afterwards. -/
theorem scan_of_edit {path file : Path} {S S' : Sources} (hedit : Edit path S S')
    {arguments : List String} {found : Scanned} (hscan : scan S file arguments = .ok found)
    (hfile : file.Rooted)
    (hdirectories : ∀ directory ∈ searchPaths arguments, directory.isAbsolute = true)
    (hprimary : path.normalize.same file = false)
    (hincludes : ∀ p ∈ found.includes, path.normalize.same p = false) :
    scan S' file arguments = .ok found := by
  have hne : file ≠ path.normalize := by
    rintro rfl
    rw [Path.same_refl] at hprimary
    cases hprimary
  refine scan_congr hscan (closed_rooted hdirectories) ?_ hedit.nothingNew
    (hedit.agree file hfile hne).2 fun q hq hmet => hedit.agree q hq ?_
  · rw [hfile.2]
    exact hfile
  · rintro rfl
    rw [hfile.2] at hmet
    rcases hmet with hmet | ⟨p, hp, hmet⟩
    · rw [hprimary] at hmet
      cases hmet
    · rw [hincludes p hp] at hmet
      cases hmet

end Include

end ParseCache
