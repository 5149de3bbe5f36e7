/-
  ParseCache.Proofs.Collection.OwnFile — what a document hears of its own file.

  A file has many names.  A change is announced under any of them, and the
  collection brings the name to its normal form before it asks which documents
  depend on it.  A document keeps the name it was created with, and depends on
  its file under that name, whatever the engine says.  The two names are
  compared piece by piece, so a document that was created through `x/..` does
  not recognise its own file.

  Main results:
    * `owned_of_reached` — in every state a document depends on its file under
      its own name;
    * `listens_updateAll` — editor state for a document that listens leaves it
      dirty, whatever else the request says;
    * `hears_iff` — a document hears of its file under every name exactly if
      it depends on the normal form of its own, as it does if that has the same
      pieces;
    * `unheard_under_another_name` — the hole: a parsed document that a change
      of its file does not reach.
-/
import ParseCache.Include.Engine
import ParseCache.Proofs.Collection.LateResults
import ParseCache.Proofs.Path.Canonical

namespace ParseCache

variable {ι υ σ : Type}

namespace Workspace

/-! ## §1. Documents depend on their files. -/

/-- Every document depends on its file, under the name it has for it. -/
def Owned (w : Workspace ι υ σ) : Prop :=
  ∀ (n : Nat) (d : Document ι υ), w.documents[n]? = some d →
    d.dependencies.contains d.key.path = true

variable {w w' : Workspace ι υ σ}

theorem Owned.stays (h : w.Owned) (hstays : Stays w w') : w'.Owned := by
  intro n d' hd'
  obtain ⟨d, hd, hkey, hdependencies⟩ := hstays.before hd'
  rw [hkey, hdependencies]
  exact h n d hd

/-- Documents that come have their own file as their only dependency. -/
theorem Owned.drift (h : w.Owned) (hdrift : Drift w w') : w'.Owned := by
  intro n d' hd'
  cases hd : w.documents[n]? with
  | none =>
    rw [(hdrift.fresh n d' hd hd').dependencies]
    exact PathSet.contains_insert_self _ _
  | some d =>
    have hsince := hdrift.document hd hd'
    rw [hsince.key, hsince.dependencies]
    exact h n d hd

theorem Owned.perform (h : w.Owned) (o : Occurrence) : (o.perform w).Owned := by
  cases o with
  | action a => exact h.drift (Action.drift_perform w a)
  | upsertParts parts => exact h.stays (stays_upsertParts w parts)

theorem Owned.meanwhile (h : w.Owned) (hmeanwhile : Meanwhile w w') : w'.Owned := by
  induction hmeanwhile with
  | nothing => exact h
  | tick _ ih => exact ih.stays (stays_now _)
  | occur _ o ih => exact ih.perform o
  | remember _ _ ih => exact ih.stays (.of_eq rfl rfl rfl rfl)

/-- A result brings its own dependencies, and the file is added to them. -/
theorem Owned.incorporate (h : w.Owned) (n : Nat) (r : UpdateResult) :
    (w.incorporate n r).Owned := by
  intro m d' hd'
  obtain ⟨d, hd, hkey, hdependencies⟩ := before_incorporate hd'
  rw [hkey, hdependencies]
  split
  · exact PathSet.contains_insert_self _ _
  · exact h m d hd

/-- In every state that is reached, documents depend on their own files. -/
theorem owned_of_reached (h : Reached w) : w.Owned := by
  induction h with
  | start disk requireFiles context =>
    intro n d hd
    cases hd
  | meanwhile _ hmeanwhile ih => exact ih.meanwhile hmeanwhile
  | @update w _ e he mode n ih =>
    cases hd : w.documents[n]? with
    | none =>
      rw [update_of_none hd]
      exact ih
    | some d =>
      -- whatever went on during the call is over when the result arrives
      rw [update_eq_incorporate hd]
      have harrived : (w.outcome e mode d).2.Owned :=
        ih.meanwhile (Engine.meanwhile_run he _ _ w mode)
      exact (harrived.stays (stays_supplied w e mode n d)).incorporate n _
  | incorporate _ n r ih => exact ih.incorporate n r

/-! ## §2. Documents that listen. -/

/-- The document owes a reparse. -/
def IsDirty (w : Workspace ι υ σ) (n : Nat) : Prop :=
  ∃ d, w.documents[n]? = some d ∧ d.dirty = true

/-- What is dirty stays so while no result arrives. -/
theorem IsDirty.drift {n : Nat} (h : w.IsDirty n) (hdrift : Drift w w') : w'.IsDirty n := by
  obtain ⟨d, hd, hdirty⟩ := h
  obtain ⟨d', hd', hsince⟩ := hdrift.old n d hd
  exact ⟨d', hd', hsince.dirty_of_dirty hdirty⟩

/-- The document is held for the file at `p`, which exists, and depends on the
normal form of `p`. -/
structure Listens (w : Workspace ι υ σ) (n : Nat) (p : Path) : Prop where
  held : n ∈ w.held
  file : w.disk.holds p = true
  document : ∃ d, w.documents[n]? = some d ∧ d.key.path = p ∧
    d.dependencies.contains p.normalize = true

variable {n : Nat} {p : Path}

theorem Listens.stays (h : w.Listens n p) (hstays : Stays w w') (hdisk : w'.disk = w.disk) :
    w'.Listens n p where
  held := by
    rw [hstays.held]
    exact h.held
  file := by
    rw [hdisk]
    exact h.file
  document := by
    obtain ⟨d, hd, rfl, hdepends⟩ := h.document
    obtain ⟨d', hd', hkey, hdependencies⟩ := hstays.document n d hd
    exact ⟨d', hd', by rw [hkey], by rw [hdependencies]; exact hdepends⟩

/-- A change under a name with the same normal form reaches the document. -/
theorem Listens.touch (h : w.Listens n p) {q : Path} (hq : q.normalize = p.normalize) :
    n ∈ (w.touch q).1 ∧ (w.touch q).2.IsDirty n := by
  obtain ⟨d, hd, rfl, hdepends⟩ := h.document
  have hmem : n ∈ (w.touch q).1 := by
    -- only the normal form of the announced name is looked at
    rw [mem_touch, hd, hq]
    refine ⟨h.held, ?_⟩
    have hfile : d.fileExists w.disk = true := h.file
    rw [Option.any_some, Document.isAffectedBy, hdepends, hfile, Bool.or_true, Bool.true_and]
  obtain ⟨time, -, -, hmarked⟩ := (marks_touch w q).marked n d hmem hd
  exact ⟨hmem, _, hmarked, rfl⟩

/-- A document that listens is one of those of its file. -/
theorem Listens.mem_documentsOf (h : w.Listens n p) {q : Path} (hq : q.same p = true) :
    n ∈ w.documentsOf q := by
  obtain ⟨d, hd, rfl, -⟩ := h.document
  refine mem_heldWhere.2 ⟨h.held, ?_⟩
  rw [hd, Option.any_some, Path.same_comm]
  exact hq

/-! ## §3. Editor state. -/

theorem disk_putUnsaved (w : Workspace ι υ σ) (e : FileEntry) :
    (w.putUnsaved e).disk = w.disk := by
  unfold putUnsaved
  split <;> rfl

theorem disk_revised (w : Workspace ι υ σ) (e : FileEntry) : (w.revised e).disk = w.disk := by
  have hmodified : ∀ (ns : List Nat) (f : Document ι υ → Document ι υ) (w : Workspace ι υ σ),
      (ns.foldl (fun w n => w.modify n f) w).disk = w.disk := by
    intro ns f
    induction ns with
    | nil => exact fun _ => rfl
    | cons n rest ih => exact fun w => ih (w.modify n f)
  exact (hmodified _ _ _).trans (disk_putUnsaved w e)

/-- A request that has an entry for the file of a document that listens. -/
theorem listens_updateAll (entries : List FileEntry) :
    ∀ {w : Workspace ι υ σ}, w.Listens n p → (∃ e ∈ entries, e.path.same p = true) →
      n ∈ (updateAll entries w).1 ∧ (updateAll entries w).2.IsDirty n := by
  induction entries with
  | nil => exact fun _ h => absurd h.choose_spec.1 List.not_mem_nil
  | cons e rest ih =>
    intro w h hentry
    rw [updateAll_cons]
    have hrevised : (w.revised e).Listens n p :=
      h.stays (confines_stays.revised w e) (disk_revised w e)
    obtain ⟨e', he', hsame⟩ := hentry
    rcases List.mem_cons.1 he' with rfl | he'
    · -- it is told now, and stays dirty for the rest of the request
      have hput : (w.putUnsaved e').Listens n p :=
        h.stays (confines_stays.putUnsaved w e') (disk_putUnsaved w e')
      have htold := (hrevised.touch (Path.normalize_eq_of_same hsame)).2
      exact ⟨List.mem_append_left _ (hput.mem_documentsOf hsame),
        htold.drift (confines_drift.updateAll rest _)⟩
    · -- what is said before about other files changes nothing of this
      have htouched : ((w.revised e).touch e.path).2.Listens n p :=
        hrevised.stays (stays_touch _ e.path) (marks_touch _ e.path).disk
      obtain ⟨hmem, hdirty⟩ := ih htouched ⟨e', he', hsame⟩
      exact ⟨List.mem_append_right _ hmem, hdirty⟩

/-- An edit request that is accepted is the loop over its entries. -/
theorem updateEntries_of_ok {entries : List FileEntry} {ns : List Nat}
    (h : (w.updateEntries entries).1 = .ok ns) :
    ns = (updateAll entries w).1 ∧ (w.updateEntries entries).2 = (updateAll entries w).2 := by
  unfold updateEntries at h ⊢
  split
  · rename_i refusal hrefused
    rw [hrefused] at h
    cases h
  · rename_i hnone
    rw [hnone] at h
    cases h
    exact ⟨rfl, rfl⟩

/-- A request with a document for its only entry is not refused. -/
theorem updateEntries_singleton {e : FileEntry} (h : n ∈ w.documentsOf e.path) :
    ∃ ns, (w.updateEntries [e]).1 = .ok ns := by
  have hempty : (w.documentsOf e.path).isEmpty = false := by
    rw [List.isEmpty_eq_false_iff_exists_mem]
    exact ⟨n, h⟩
  unfold updateEntries refuseFirst
  rw [List.find?_singleton, hempty]
  exact ⟨_, rfl⟩

/-! ## §4. Every name of the file. -/

/-- The document hears of the file at `p` under every name: a change that is
announced under a path with the same normal form reaches the document, and so
does every request that is accepted and has editor state for `p`; a request
with nothing else is accepted. -/
structure Hears (w : Workspace ι υ σ) (n : Nat) (p : Path) : Prop where
  touched : ∀ q : Path, q.normalize = p.normalize →
    n ∈ (w.touch q).1 ∧ (w.touch q).2.IsDirty n
  updated : ∀ entries : List FileEntry, (∃ e ∈ entries, e.path.same p = true) →
    ∀ ns, (w.updateEntries entries).1 = .ok ns → n ∈ ns ∧ (w.updateEntries entries).2.IsDirty n
  accepted : ∀ e : FileEntry, e.path.same p = true → ∃ ns, (w.updateEntries [e]).1 = .ok ns

theorem Listens.hears (h : w.Listens n p) : w.Hears n p where
  touched _ hq := h.touch hq
  updated entries hentry ns hns := by
    obtain ⟨rfl, hafter⟩ := updateEntries_of_ok hns
    rw [hafter]
    exact listens_updateAll entries h hentry
  accepted _ he := updateEntries_singleton (h.mem_documentsOf he)

/-- In every state, a held document whose file exists hears of it under every
name exactly if it depends on the normal form of its path.  It does so if that
has the pieces of the path itself. -/
theorem hears_iff (h : Reached w) (hn : n ∈ w.held) {d : Document ι υ}
    (hd : w.documents[n]? = some d) (hfile : d.fileExists w.disk = true) :
    (w.Hears n d.key.path ↔ d.dependencies.contains d.key.path.normalize = true) ∧
      (d.key.path.same d.key.path.normalize = true → w.Hears n d.key.path) := by
  have hiff : w.Hears n d.key.path ↔ d.dependencies.contains d.key.path.normalize = true := by
    constructor
    · intro hears
      -- its own name is one of those the file can be announced under
      obtain ⟨-, haffected⟩ := (mem_touch w _ n).1 (hears.touched d.key.path rfl).1
      rw [hd, Option.any_some, Document.isAffectedBy, Bool.and_eq_true] at haffected
      exact haffected.1
    · intro hdepends
      exact Listens.hears ⟨hn, hfile, d, hd, rfl, hdepends⟩
  refine ⟨hiff, fun hsame => hiff.2 ?_⟩
  rw [← PathSet.contains_congr _ hsame]
  exact owned_of_reached h n d hd

/-! ## §5. A file with another name. -/

/-- Scanning for includes only reads. -/
theorem looksOn_scanner : (Include.engine : Engine CountingIndex Include.ScannedUnit σ).LooksOn where
  newIndex _ := rfl
  parse request index w := by
    unfold Include.engine
    simp only
    split <;> rfl
  reparse _ _ _ := rfl

/-- What it says a unit depends on is a set. -/
theorem distinct_scanner (unit : Include.ScannedUnit) :
    ((Include.engine : Engine CountingIndex Include.ScannedUnit σ).dependencies unit).Distinct :=
  PathSet.distinct_ofList unit.found.includes

theorem orderly_scanner : (Include.engine : Engine CountingIndex Include.ScannedUnit σ).Orderly where
  newIndex _ := .nothing
  parse request index w := by
    unfold Include.engine
    simp only
    split <;> exact .nothing
  reparse _ _ _ := .nothing
  distinct := distinct_scanner

/-- One file, beside an empty directory. -/
def oneFile : Workspace CountingIndex Include.ScannedUnit Unit :=
  .new ⟨[], [(["r"], .directory), (["r", "x"], .directory), (["r", "m.c"], .text "")]⟩ true ()

/-- A document was created under the name `path` and parsed. -/
def scannedAs (path : Path) : Workspace CountingIndex Include.ScannedUnit Unit :=
  ((Action.create [.new path "p"]).perform
    ((Action.upsertParts [("p", [])]).perform oneFile)).update Include.engine .asNeeded 0

theorem reached_scannedAs (path : Path) : Reached (scannedAs path) := by
  have hstart : Reached oneFile := .start _ true ()
  have hcreated := hstart.meanwhile ((Meanwhile.nothing.occur
    (.action (.upsertParts [("p", [])]))).occur (.action (.create [.new path "p"])))
  exact hcreated.update orderly_scanner .asNeeded 0

/-- A piece that stands for nothing does no harm. -/
theorem hears_scannedAs : (scannedAs ⟨"/r/./m.c"⟩).Hears 0 ⟨"/r/./m.c"⟩ := by
  have hcheck : (scannedAs ⟨"/r/./m.c"⟩).documents[0]?.any (fun d =>
      d.fileExists (scannedAs ⟨"/r/./m.c"⟩).disk && d.key.path == ⟨"/r/./m.c"⟩) = true := by
    decide +kernel
  obtain ⟨d, hd, hcheck⟩ := (Option.any_eq_true _ _).1 hcheck
  obtain ⟨hfile, hpath⟩ := Bool.and_eq_true_iff.1 hcheck
  have hpath : d.key.path = ⟨"/r/./m.c"⟩ := beq_iff_eq.1 hpath
  have hears := (hears_iff (reached_scannedAs _) (by decide +kernel) hd hfile).2
  rw [hpath] at hears
  exact hears (by decide +kernel)

/-- A directory and a way back do: the file is there, it has been parsed, and a
change of it reaches nobody. -/
theorem unheard_under_another_name :
    ¬ ∀ (w : Workspace CountingIndex Include.ScannedUnit Unit) (n : Nat)
      (d : Document CountingIndex Include.ScannedUnit), Reached w → n ∈ w.held →
      w.documents[n]? = some d → d.handles.unit.isNull = false → d.failed = false →
      d.fileExists w.disk = true → w.Hears n d.key.path := by
  intro h
  have hcheck : (scannedAs ⟨"/r/x/../m.c"⟩).documents[0]?.any (fun d =>
      (!d.handles.unit.isNull && !d.failed && d.fileExists (scannedAs ⟨"/r/x/../m.c"⟩).disk) &&
        d.key.path == ⟨"/r/x/../m.c"⟩) = true := by
    decide +kernel
  obtain ⟨d, hd, hcheck⟩ := (Option.any_eq_true _ _).1 hcheck
  simp only [Bool.and_eq_true, Bool.not_eq_true', beq_iff_eq] at hcheck
  obtain ⟨⟨⟨hunit, hfailed⟩, hfile⟩, hpath⟩ := hcheck
  have hears := h _ 0 d (reached_scannedAs _) (by decide +kernel) hd hunit hfailed hfile
  rw [hpath] at hears
  -- the normal form names the same file, and is not what the document depends on
  have hmem := (hears.touched ⟨"/r/m.c"⟩ (by decide +kernel)).1
  revert hmem
  decide +kernel

end Workspace

end ParseCache
