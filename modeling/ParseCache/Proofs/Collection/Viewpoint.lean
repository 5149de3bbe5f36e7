/-
  ParseCache.Proofs.Collection.Viewpoint — one tree, seen from several directories.

  The working directory is where a path starts that does not start at the root; all
  other paths lead to the same place from everywhere.  So whatever asks for absolute
  paths only goes alike under all working directories: reading a file, scanning a
  document whose file and include directories start at the root, and creating
  documents for files that do.

  Main results:
    * `find_seenFrom` — what an absolute path leads to;
    * `parent?_of_read` — the directory of a file that was read;
    * `verdict_seenFrom` — what a scan of an anchored document finds;
    * `upsertFresh_seenFrom`, `create_seenFrom` — how a collection is set up.
-/
import Mathlib.Data.List.DropRight
import ParseCache.Proofs.Collection.Loading
import ParseCache.Proofs.Include.Shadowing
import ParseCache.Proofs.Include.Verdict

namespace ParseCache

open Include

variable {ι υ σ : Type}

/-! ## §1. Disks. -/

namespace Disk

/-- The same tree, from another working directory. -/
def seenFrom (disk : Disk) (place : Place) : Disk := { disk with workDir := place }

variable (disk : Disk) (place : Place) {p : Path}

/-- A walk from a given place does not ask where the working directory is. -/
theorem walk_seenFrom (segments : List (List Char)) :
    ∀ start : Place, (disk.seenFrom place).walk start segments = disk.walk start segments := by
  induction segments with
  | nil => exact fun _ => rfl
  | cons segment rest ih =>
    intro start
    -- what stands at a place does not depend on where one is
    have hnode : (disk.seenFrom place).node? start = disk.node? start := rfl
    unfold walk
    rw [hnode]
    simp only [ih]

/-- The working directory is where paths start that do not start at the root. -/
theorem find_seenFrom (h : p.isAbsolute = true) : (disk.seenFrom place).find p = disk.find p := by
  unfold find
  rw [if_pos h, if_pos h, walk_seenFrom]

/-- An absolute path is looked up from the root, so it is found or not from
everywhere. -/
theorem holds_seenFrom (h : p.isAbsolute = true) :
    (disk.seenFrom place).holds p = disk.holds p := by
  unfold holds
  rw [find_seenFrom disk place h]

theorem isFile_seenFrom (h : p.isAbsolute = true) :
    (disk.seenFrom place).isFile p = disk.isFile p := by
  unfold isFile
  rw [find_seenFrom disk place h]

/-- It also reads the same from everywhere. -/
theorem read_seenFrom (h : p.isAbsolute = true) : (disk.seenFrom place).read p = disk.read p := by
  unfold read
  rw [find_seenFrom disk place h]

/-- Pieces that stand for nothing stay at the root. -/
theorem walk_of_blank {segments : List (List Char)}
    (h : ∀ segment ∈ segments, Path.Component.ofSegment? segment = none) :
    disk.walk [] segments = .ok ([], .directory) := by
  induction segments with
  | nil => rfl
  | cons segment rest ih =>
    have hroot : disk.node? [] = some .directory := rfl
    unfold walk
    rw [hroot, h segment List.mem_cons_self]
    exact ih fun s hs => h s (List.mem_cons_of_mem _ hs)

end Disk

namespace Path

/-- Before the first slash of a path that starts at the root there is nothing. -/
theorem segments_of_isAbsolute {p : Path} (h : p.isAbsolute = true) :
    p.segments = [] :: p.segments.tail := by
  have hhead : p.text.toList.head? = some '/' := by simpa [isAbsolute] using h
  obtain ⟨rest, htext⟩ := List.head?_eq_some_iff.1 hhead
  unfold segments
  rw [htext, List.splitOn_cons_eq_if_modifyHead, if_pos (by rfl)]
  rfl

/-- Of the paths that start at the root, only its spellings have no parent. -/
theorem blank_of_parent? {p : Path} (h : p.isAbsolute = true) (hnone : p.parent? = none) :
    ∀ segment ∈ p.segments, Component.ofSegment? segment = none := by
  rw [parent?, opening, if_pos h] at hnone
  simp only at hnone
  split at hnone
  · rename_i htrimmed
    have hblank := List.rdropWhile_eq_nil_iff.1 htrimmed
    rw [segments_of_isAbsolute h]
    intro segment hsegment
    rcases List.mem_cons.1 hsegment with rfl | hsegment
    · rfl
    · exact Option.isNone_iff_eq_none.1 (hblank segment hsegment)
  · cases hnone

end Path

/-- The root is a directory, so a file that was read has a parent. -/
theorem Disk.parent?_of_read {disk : Disk} {p : Path} {content : String}
    (h : p.isAbsolute = true) (hread : disk.read p = .ok content) :
    ∃ parent, p.parent? = some parent ∧ parent.isAbsolute = true := by
  cases hparent : p.parent? with
  | some parent => exact ⟨parent, rfl, Path.isAbsolute_parent? h hparent⟩
  | none =>
    unfold Disk.read at hread
    split at hread
    · rename_i place text hfind
      have hwalk := Disk.find_eq_ok hfind
      rw [if_pos h, Disk.walk_of_blank disk (Path.blank_of_parent? h hparent)] at hwalk
      cases hwalk
    all_goals cases hread

/-! ## §2. Documents. -/

namespace Document

/-- The file and the include directories of the document start at the root. -/
structure Anchored (d : ScannedDocument) : Prop where
  file : d.key.path.Rooted
  directories : ∀ directory ∈ searchPaths (d.part.arguments ++ d.arguments),
    directory.isAbsolute = true

variable {d : ScannedDocument} (disk : Disk) (place : Place)

/-- A scan of an anchored document finds the same from everywhere. -/
theorem verdict_seenFrom (h : d.Anchored) (buffers : Buffers) :
    d.verdict ⟨disk.seenFrom place, buffers⟩ = d.verdict ⟨disk, buffers⟩ := by
  have hbare : SameWhereBare buffers disk (disk.seenFrom place) :=
    ⟨fun q habs _ _ => disk.isFile_seenFrom place habs,
      fun q habs _ _ => congrArg Except.toOption (disk.read_seenFrom place habs)⟩
  have hnormal : d.key.path.normalize.same d.key.path = true := by
    rw [h.file.2]
    exact Path.same_refl _
  have hread : Sources.read ⟨disk.seenFrom place, buffers⟩ d.key.path =
      Sources.read ⟨disk, buffers⟩ d.key.path := by
    unfold Sources.read
    simp only [disk.read_seenFrom place h.file.1]
  unfold verdict
  rcases scan_of_bare hbare h.file.1 hnormal h.directories with
    ⟨found, hscan, hscan'⟩ | ⟨cause, cause', hscan, hscan'⟩
  · rw [hscan, hscan']
  · -- both say why the file could not be read
    unfold scan at hscan hscan' ⊢
    rw [hread] at hscan' ⊢
    split at hscan
    · rfl
    · cases hscan

theorem Shows.of_verdict_eq {S S' : Sources} (h : d.Shows S)
    (hverdict : d.verdict S' = d.verdict S) : d.Shows S' where
  ok found hok := h.ok found (hverdict.symm.trans hok)
  error cause herror := h.error cause (hverdict.symm.trans herror)

/-- A document with an absolute path has its file from everywhere. -/
theorem fileExists_seenFrom (h : d.key.path.isAbsolute = true) :
    d.fileExists (disk.seenFrom place) = d.fileExists disk :=
  disk.holds_seenFrom place h

theorem isAffectedBy_seenFrom (h : d.key.path.isAbsolute = true) (path : Path) :
    d.isAffectedBy (disk.seenFrom place) path = d.isAffectedBy disk path := by
  unfold isAffectedBy
  rw [fileExists_seenFrom disk place h]

theorem ofDocument_seenFrom (h : d.key.path.isAbsolute = true) :
    DocumentReport.ofDocument (disk.seenFrom place) d = .ofDocument disk d := by
  unfold DocumentReport.ofDocument isIntact dependencies?
  rw [fileExists_seenFrom disk place h]

end Document

/-! ## §3. Collections. -/

namespace Workspace

/-- The same collection over the same tree, from another working directory. -/
def seenFrom (w : Workspace ι υ σ) (place : Place) : Workspace ι υ σ :=
  { w with disk := w.disk.seenFrom place }

variable (place : Place)

/-- A round of marks is the same from everywhere, if its test is. -/
theorem markDirtyAll_seenFrom {p : Workspace ι υ σ → Document ι υ → Bool}
    (hp : ∀ w : Workspace ι υ σ, p (w.seenFrom place) = p w) (ns : List Nat) :
    ∀ w : Workspace ι υ σ, markDirtyAll p ns (w.seenFrom place) =
      ((markDirtyAll p ns w).1, (markDirtyAll p ns w).2.seenFrom place) := by
  induction ns with
  | nil => exact fun _ => rfl
  | cons n rest ih =>
    intro w
    have hone : (w.seenFrom place).markDirtyIf (p (w.seenFrom place)) n =
        ((w.markDirtyIf (p w) n).1, (w.markDirtyIf (p w) n).2.seenFrom place) := by
      unfold markDirtyIf
      rw [hp]
      show (if w.documents[n]?.any (p w) = true then _ else _) = _
      split <;> rfl
    unfold markDirtyAll
    rw [hone]
    simp only [ih]

theorem installPart_seenFrom (w : Workspace ι υ σ) (id : String) :
    (w.seenFrom place).installPart id = (w.installPart id).seenFrom place := by
  have hfind : (w.seenFrom place).parts.find id = w.parts.find id := rfl
  unfold installPart
  rw [hfind]
  cases w.parts.find id with
  | error refusal => rfl
  | ok part =>
    exact List.foldl_hom (fun w : Workspace ι υ σ => w.seenFrom place) fun w n => rfl

/-- Registering parts has nothing to do with the disk. -/
theorem upsertFresh_seenFrom (w : Workspace ι υ σ) (given : List (String × List String)) :
    ((w.seenFrom place).upsertFresh given).2 = (w.upsertFresh given).2.seenFrom place := by
  have hinstalled : (w.registerFresh given).1.foldl installPart
        ((w.registerFresh given).2.seenFrom place) =
      ((w.registerFresh given).1.foldl installPart (w.registerFresh given).2).seenFrom place :=
    List.foldl_hom (fun w : Workspace ι υ σ => w.seenFrom place) (installPart_seenFrom place)
  rw [upsertFresh_eq, upsertFresh_eq]
  show (((w.registerFresh given).1.foldl installPart
    ((w.registerFresh given).2.seenFrom place)).markOutdated).2 = _
  rw [hinstalled]
  exact congrArg Prod.snd (markDirtyAll_seenFrom place (fun _ => rfl) _ _)

theorem requireParts_seenFrom (w : Workspace ι υ σ) (entries : List FileEntry) :
    (w.seenFrom place).requireParts entries = w.requireParts entries := by
  induction entries with
  | nil => rfl
  | cons e rest ih =>
    unfold requireParts
    rw [ih]
    rfl

theorem requireNew_seenFrom (w : Workspace ι υ σ) (entries : List FileEntry) :
    ∀ seen : List DocumentKey,
      (w.seenFrom place).requireNew entries seen = w.requireNew entries seen := by
  induction entries with
  | nil => exact fun _ => rfl
  | cons e rest ih =>
    intro seen
    unfold requireNew
    rw [ih]
    rfl

/-- Whether the file of a document exists can be told from everywhere. -/
theorem createOne_seenFrom (w : Workspace ι υ σ) {e : FileEntry} (h : e.path.isAbsolute = true) :
    (w.seenFrom place).createOne e =
      ((w.createOne e).1, (w.createOne e).2.seenFrom place) := by
  have hholds : (w.seenFrom place).disk.holds e.path = w.disk.holds e.path :=
    w.disk.holds_seenFrom place h
  have hfind : (w.seenFrom place).parts.find e.part = w.parts.find e.part := rfl
  unfold createOne
  rw [hfind]
  cases w.parts.find e.part with
  | error refusal => rfl
  | ok part =>
    -- both sides ask the disk once, and then do the same
    show (if (w.requireFiles && !(w.seenFrom place).disk.holds e.path) = true then _ else _) =
      (Prod.fst (if (w.requireFiles && !w.disk.holds e.path) = true then _ else _),
        seenFrom (Prod.snd (if (w.requireFiles && !w.disk.holds e.path) = true then _ else _))
          place)
    rw [hholds]
    split <;> rfl

/-- Entry by entry, documents of absolute paths are created alike. -/
theorem createAll_seenFrom {entries : List FileEntry}
    (h : ∀ e ∈ entries, e.path.isAbsolute = true ∧ e.unsaved = none) :
    ∀ w : Workspace ι υ σ, createAll entries (w.seenFrom place) =
      ((createAll entries w).1, (createAll entries w).2.seenFrom place) := by
  induction entries with
  | nil => exact fun _ => rfl
  | cons e rest ih =>
    intro w
    obtain ⟨habs, hunsaved⟩ := h e List.mem_cons_self
    have hquiet : ∀ w : Workspace ι υ σ, w.announce e = w := by
      intro w
      unfold announce
      rw [hunsaved]
    rw [createAll_eq, createAll_eq, hquiet, hquiet, createOne_seenFrom place w habs]
    rcases w.createOne e with ⟨refusal | n, w'⟩
    · rfl
    · simp only
      rw [ih (fun e he => h e (List.mem_cons_of_mem _ he)) w']
      rcases createAll rest w' with ⟨refusal | ns, w''⟩ <;> rfl

/-- A request for documents of absolute paths is refused alike, or creates the
same. -/
theorem create_seenFrom {entries : List FileEntry}
    (h : ∀ e ∈ entries, e.path.isAbsolute = true ∧ e.unsaved = none) (w : Workspace ι υ σ) :
    (w.seenFrom place).create entries =
      ((w.create entries).1, (w.create entries).2.seenFrom place) := by
  unfold create
  rw [requireParts_seenFrom, requireNew_seenFrom, createAll_seenFrom place h]
  cases w.requireParts entries with
  | error refusal => rfl
  | ok _ =>
    simp only
    cases w.requireNew entries [] <;> rfl

end Workspace

end ParseCache
