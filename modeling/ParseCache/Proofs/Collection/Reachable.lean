/-
  ParseCache.Proofs.Collection.Reachable — the cache in all reachable states.

  A cache over the include scanner is run: documents come and go, project parts
  change, editors send buffers, documents are updated, and files are rewritten
  or erased and then announced.  As long as nothing becomes a source that was
  none before, the cache stays coherent.  A path that becomes a source is out
  of reach, since a scan does not record where it looked in vain.

  Main results:
    * `coherent_perform` — every operation of the collection keeps the cache
      coherent;
    * `coherent_of_reach` — so does every run;
    * `scan_eq_of_trusted` — what a document trusts is what a scan from scratch
      would find, if changed files are announced by absolute paths;
    * `stale_after_relative_change` — paths relative to the working directory
      are not enough.
-/
import ParseCache.Proofs.Collection.Action
import ParseCache.Proofs.Collection.Coherence
import ParseCache.Proofs.Collection.Turnover

namespace ParseCache

/-- The actions that reach past the cache. -/
def Action.changesDisk : Action → Bool
  | .write _ _ | .erase _ => true
  | _ => false

namespace Include

variable {σ : Type}

/-! ## §1. Operations that leave sources alone. -/

namespace Quiet

variable {w w' w'' : Cache σ}

theorem refl (w : Cache σ) : Quiet w w := ⟨.refl w, rfl, rfl, fun _ hn => Or.inl hn⟩

/-- Two operations that leave sources alone do so together. What comes in one of
them was not there before the first. -/
theorem trans (h : Quiet w w') (h' : Quiet w' w'') : Quiet w w'' where
  drift := h.drift.trans h'.drift
  disk := h'.disk.trans h.disk
  buffers := h'.buffers.trans h.buffers
  held n hn := by
    rcases h'.held n hn with hmid | hnone
    · exact h.held n hmid
    · -- documents do not vanish, so there was none before either
      right
      cases hd : w.documents[n]? with
      | none => rfl
      | some d =>
        obtain ⟨d', hd', -⟩ := h.drift.old n d hd
        rw [hnone] at hd'
        cases hd'

/-- Dirty marks are no sources. -/
theorem of_marks {ns : List Nat} (h : Workspace.Marks ns w w') : Quiet w w' :=
  ⟨.of_marks h, h.disk, h.buffers, fun _ hn => Or.inl (h.held ▸ hn)⟩

/-- Drift that changes documents only. -/
theorem of_documents (hdrift : Workspace.Drift w w')
    (hrest : w' = { w with documents := w'.documents }) : Quiet w w' := by
  refine ⟨hdrift, ?_, ?_, fun n hn => Or.inl ?_⟩
  · rw [hrest]
  · rw [hrest]
  · rw [hrest] at hn
    exact hn

end Quiet

/-- A document may come, and it is one that was not there. -/
theorem quiet_createOne (w : Cache σ) (e : FileEntry) : Quiet w (w.createOne e).2 := by
  have hdrift := Workspace.drift_createOne w e
  rcases w.createOne_cases e with ⟨-, heq⟩ | ⟨part, -, -, -, heq⟩ | ⟨part, -, -, heq⟩
  · rw [heq]
    exact .refl w
  · rw [heq] at hdrift ⊢
    exact ⟨hdrift, rfl, rfl, fun _ hn => Or.inl hn⟩
  · rw [heq] at hdrift ⊢
    refine ⟨hdrift, rfl, rfl, fun n hn => ?_⟩
    rcases Workspace.mem_held_come.1 hn with rfl | hn
    · exact Or.inr (List.getElem?_eq_none (Nat.le_refl _))
    · exact Or.inl hn

/-- Letting go of a document leaves its file and its buffer. -/
theorem quiet_evict (w : Cache σ) (key : DocumentKey) : Quiet w (w.evict key) :=
  ⟨Workspace.drift_evict w key, rfl, rfl, fun _ hn => Or.inl (List.mem_filter.1 hn).1⟩

theorem quiet_evictAll (keys : List DocumentKey) :
    ∀ w : Cache σ, Quiet w (keys.foldl Workspace.evict w) := by
  induction keys with
  | nil => exact Quiet.refl
  | cons key rest ih =>
    intro w
    exact (quiet_evict w key).trans (ih _)

/-- Removing parts evicts their documents, and does not look at files. -/
theorem quiet_removeParts (w : Cache σ) (ids : List String) : Quiet w (w.removeParts ids).2 := by
  have hregistry : Quiet w { w with parts := (ProjectParts.remove ids w.parts).2 } :=
    ⟨.of_documents_eq rfl (TimePoint.le_refl _) rfl (ProjectParts.named_remove ids w.parts),
      rfl, rfl, fun _ hn => Or.inl hn⟩
  unfold Workspace.removeParts
  rcases hremoved : ProjectParts.remove ids w.parts with ⟨refusal | _, registry⟩
  · rw [hremoved] at hregistry
    exact hregistry
  · rw [hremoved] at hregistry
    exact hregistry.trans (quiet_evictAll _ _)

/-- Registering parts changes documents in place and marks some of them. -/
theorem quiet_upsertFresh (w : Cache σ) (given : List (String × List String)) :
    Quiet w (w.upsertFresh given).2 := by
  have hdrift := Workspace.drift_upsertFresh w given
  rw [Workspace.upsertFresh_eq] at hdrift ⊢
  have hinstalled := Workspace.installParts_rest (w.registerFresh given).1 (w.registerFresh given).2
  generalize (w.registerFresh given).1.foldl Workspace.installPart (w.registerFresh given).2
    = installed at hdrift hinstalled ⊢
  have hmarks := Workspace.marks_markOutdated installed
  refine ⟨hdrift, ?_, ?_, fun n hn => Or.inl ?_⟩
  · rw [hmarks.disk, hinstalled]
    rfl
  · rw [hmarks.buffers, hinstalled]
    rfl
  · rw [hmarks.held, hinstalled] at hn
    exact hn

/-! ## §2. Operations that store buffers.

Each entry of a request stores one buffer.  That nothing new is a source after
the request says the same of every entry, because no later entry takes a
source away. -/

/-- Every source is one still. -/
def Grows (S S' : Sources) : Prop := ∀ q, S.holds q = true → S'.holds q = true

theorem Grows.of_eq {S S' : Sources} (h : S' = S) : Grows S S' := by
  intro q hq
  rw [h]
  exact hq

theorem Grows.trans {S S' S'' : Sources} (h : Grows S S') (h' : Grows S' S'') : Grows S S'' :=
  fun q hq => h' q (h q hq)

/-- A buffer makes its path a source and takes none away. -/
theorem grows_putBuffer (w : Cache σ) (path : Path) (content : String) :
    Grows (sourcesOf w) (sourcesOf (w.putBuffer path content)) := by
  intro q hq
  refine (holds_put (sourcesOf w) path content w.clock.now.1 q).trans ?_
  rw [hq, Bool.or_true]

/-- The sources are the disk and the buffers, and nothing else of a cache. -/
theorem sourcesOf_quiet {w w' : Cache σ} (h : Quiet w w') : sourcesOf w' = sourcesOf w := by
  unfold sourcesOf
  rw [h.disk, h.buffers]

/-- Requests to create and to update documents take no source away. -/
theorem confines_grows :
    Workspace.Confines fun w w' : Cache σ => Grows (sourcesOf w) (sourcesOf w') where
  refl _ := .of_eq rfl
  trans := .trans
  putBuffer := grows_putBuffer
  touch w path := .of_eq (sourcesOf_touch w path)
  revise _ _ _ := .of_eq rfl

theorem grows_createOne (w : Cache σ) (e : FileEntry) :
    Grows (sourcesOf w) (sourcesOf (w.createOne e).2) :=
  .of_eq (sourcesOf_quiet (quiet_createOne w e))

/-- A buffer is stored and announced. -/
theorem coherent_putBuffer {w w₁ : Cache σ} (h : Coherent w) (path : Path) (content : String)
    (hdrift : Workspace.Drift w w₁) (hheld : w₁.held = w.held)
    (hsources : sourcesOf w₁ = sourcesOf (w.putBuffer path content))
    (hnew : NothingNew Path.Rooted (sourcesOf w) (sourcesOf w₁)) : Coherent (w₁.touch path).2 := by
  refine coherent_edit h hdrift (fun n hn => Or.inl (hheld ▸ hn)) ?_
  rw [hsources] at hnew ⊢
  exact edit_put hnew

/-- What an entry stores is announced at once, so units that read it are not
trusted any more. -/
theorem coherent_announce {w : Cache σ} (h : Coherent w) (e : FileEntry)
    (hnew : NothingNew Path.Rooted (sourcesOf w) (sourcesOf (w.announce e))) :
    Coherent (w.announce e) := by
  unfold Workspace.announce at hnew ⊢
  split
  · rename_i content hcontent
    rw [hcontent] at hnew
    simp only [sourcesOf_touch] at hnew
    exact coherent_putBuffer h e.path content (Workspace.drift_putBuffer w e.path content) rfl rfl
      hnew
  · exact h

/-- Requests to create documents keep a cache coherent, by induction on the
entries, if nothing new is a source in the end. No later entry takes a source
away, so nothing new is one after the first entry either. -/
theorem coherent_createAll (entries : List FileEntry) :
    ∀ {w : Cache σ}, Coherent w →
      NothingNew Path.Rooted (sourcesOf w) (sourcesOf (Workspace.createAll entries w).2) →
      Coherent (Workspace.createAll entries w).2 := by
  induction entries with
  | nil =>
    intro w h _
    exact h
  | cons e rest ih =>
    intro w h hnew
    have hquiet := quiet_createOne (w.announce e) e
    have hone := sourcesOf_quiet hquiet
    rw [Workspace.createAll_cons] at hnew ⊢
    cases houtcome : ((w.announce e).createOne e).1 with
    | error refusal =>
      rw [houtcome] at hnew
      simp only [hone] at hnew
      exact coherent_quiet (coherent_announce h e hnew) hquiet
    | ok n =>
      rw [houtcome] at hnew
      -- what this entry makes a source is one at the end of the request too
      have hrest := confines_grows.createAll grows_createOne rest ((w.announce e).createOne e).2
      have hannounced : NothingNew Path.Rooted (sourcesOf w) (sourcesOf (w.announce e)) := by
        intro q hq hholds
        exact hnew q hq (hrest q (by rw [hone]; exact hholds))
      refine ih (coherent_quiet (coherent_announce h e hannounced) hquiet) ?_
      intro q hq hholds
      rw [hone]
      exact confines_grows.announce w e q (hnew q hq hholds)

theorem coherent_create {w : Cache σ} (h : Coherent w) (entries : List FileEntry)
    (hnew : NothingNew Path.Rooted (sourcesOf w) (sourcesOf (w.create entries).2)) :
    Coherent (w.create entries).2 := by
  unfold Workspace.create at hnew ⊢
  split
  · exact h
  · rename_i hparts
    rw [hparts] at hnew
    split
    · exact h
    · rename_i hkeys
      simp only [hkeys] at hnew
      exact coherent_createAll entries h hnew

/-- The revision of an entry is not read by a scan. -/
theorem sourcesOf_revised (w : Cache σ) (e : FileEntry) :
    sourcesOf (w.revised e) = sourcesOf (w.putUnsaved e) := by
  rw [Workspace.revised, Workspace.modifyAll_rest]
  rfl

/-- The content of an entry is stored, if it has some, and its path is announced
in any case. -/
theorem coherent_revised {w : Cache σ} (h : Coherent w) (e : FileEntry)
    (hnew : NothingNew Path.Rooted (sourcesOf w) (sourcesOf (w.revised e))) :
    Coherent ((w.revised e).touch e.path).2 := by
  have hdrift := Workspace.confines_drift.revised w e
  have hheld : (w.revised e).held = w.held := (Workspace.confines_stays.revised w e).held
  cases hunsaved : e.unsaved with
  | some content =>
    have hput : w.putUnsaved e = w.putBuffer e.path content := by
      unfold Workspace.putUnsaved
      rw [hunsaved]
    refine coherent_putBuffer h e.path content hdrift hheld ?_ hnew
    rw [sourcesOf_revised, hput]
  | none =>
    have hput : w.putUnsaved e = w := by
      unfold Workspace.putUnsaved
      rw [hunsaved]
    refine coherent_edit h hdrift (fun n hn => Or.inl (hheld ▸ hn)) ?_
    rw [sourcesOf_revised, hput]
    exact Edit.refl _ _

/-- Lists of edits keep a cache coherent, by the same induction as lists of
entries to create. -/
theorem coherent_updateAll (entries : List FileEntry) :
    ∀ {w : Cache σ}, Coherent w →
      NothingNew Path.Rooted (sourcesOf w) (sourcesOf (Workspace.updateAll entries w).2) →
      Coherent (Workspace.updateAll entries w).2 := by
  induction entries with
  | nil =>
    intro w h _
    exact h
  | cons e rest ih =>
    intro w h hnew
    rw [Workspace.updateAll_cons] at hnew ⊢
    have hrest := confines_grows.updateAll rest ((w.revised e).touch e.path).2
    rw [sourcesOf_touch] at hrest
    have hrevised : NothingNew Path.Rooted (sourcesOf w) (sourcesOf (w.revised e)) :=
      fun q hq hholds => hnew q hq (hrest q hholds)
    -- nothing is new after the rest that was not there before it
    refine ih (coherent_revised h e hrevised) ?_
    intro q hq hholds
    rw [sourcesOf_touch, sourcesOf_revised]
    exact confines_grows.putUnsaved w e q (hnew q hq hholds)

theorem coherent_updateEntries {w : Cache σ} (h : Coherent w) (entries : List FileEntry)
    (hnew : NothingNew Path.Rooted (sourcesOf w) (sourcesOf (w.updateEntries entries).2)) :
    Coherent (w.updateEntries entries).2 := by
  unfold Workspace.updateEntries at hnew ⊢
  split
  · exact h
  · rename_i hkeys
    simp only [hkeys] at hnew
    exact coherent_updateAll entries h hnew

/-! ## §3. Operations that drop buffers. -/

/-- Dropping a buffer takes sources away at most, so nothing need be said about
new ones. -/
theorem coherent_removeOne {w : Cache σ} (h : Coherent w) (e : FileEntry) :
    Coherent (w.removeOne e) := by
  have hevicted := coherent_quiet h (quiet_evict w (Workspace.keyOf e))
  unfold Workspace.removeOne
  generalize w.evict (Workspace.keyOf e) = evicted at hevicted ⊢
  have hdrift := Workspace.drift_dropBuffer evicted e.path
  rcases Workspace.dropBuffer_cases evicted e.path with ⟨-, hdropped⟩ | ⟨-, hdropped⟩
  · rw [hdropped] at hdrift ⊢
    exact coherent_edit hevicted hdrift (fun _ hn => Or.inl hn)
      (edit_dropBuffer e.path (sourcesOf evicted) evicted.clock.now.1)
  · rw [hdropped]
    exact hevicted

theorem coherent_removeAll (entries : List FileEntry) :
    ∀ {w : Cache σ}, Coherent w → Coherent (entries.foldl Workspace.removeOne w) := by
  induction entries with
  | nil =>
    intro w h
    exact h
  | cons e rest ih =>
    intro w h
    exact ih (coherent_removeOne h e)

/-- Requests to remove documents keep a cache coherent. They add no source, so
nothing is asked of it. -/
theorem coherent_removeDocuments {w : Cache σ} (h : Coherent w) (entries : List FileEntry) :
    Coherent (w.removeDocuments entries).2 := by
  unfold Workspace.removeDocuments
  split
  · exact h
  · exact coherent_removeAll entries h

/-! ## §4. Runs. -/

/-- Every action that does not reach past the cache. -/
theorem coherent_perform {w : Cache σ} (h : Coherent w) (a : Action)
    (hdisk : a.changesDisk = false)
    (hnew : NothingNew Path.Rooted (sourcesOf w) (sourcesOf (a.perform w))) :
    Coherent (a.perform w) := by
  have hdrift := a.drift_perform w
  cases a with
  | create entries => exact coherent_create h entries hnew
  | updateEntries entries => exact coherent_updateEntries h entries hnew
  | removeDocuments entries => exact coherent_removeDocuments h entries
  | upsertParts given => exact coherent_quiet h (quiet_upsertFresh w given)
  | removeParts ids => exact coherent_quiet h (quiet_removeParts w ids)
  | touch path => exact coherent_quiet h (.of_marks (Workspace.marks_touch w path))
  | markOutdated => exact coherent_quiet h (.of_marks (Workspace.marks_markOutdated w))
  | markDirty n => exact coherent_quiet h (.of_marks (Workspace.marks_markDirty w n))
  | markIfOutdated n => exact coherent_quiet h (.of_marks (Workspace.marks_markDirtyIf w _ n))
  | markIfDepends n path => exact coherent_quiet h (.of_marks (Workspace.marks_markDirtyIf w _ n))
  | focus path => exact coherent_quiet h (.of_documents hdrift (Workspace.modifyAll_rest _ _ w))
  | reveal paths => exact coherent_quiet h (.of_documents hdrift (Workspace.modifyAll_rest _ _ w))
  | setPart n id arguments => exact coherent_quiet h ⟨hdrift, rfl, rfl, fun _ hn => Or.inl hn⟩
  | setRevision n revision => exact coherent_quiet h (.of_documents hdrift rfl)
  | setUsed n on => exact coherent_quiet h (.of_documents hdrift rfl)
  | setVisible n on => exact coherent_quiet h (.of_documents hdrift rfl)
  | write path node => cases hdisk
  | erase path => cases hdisk

/-- The caches that runs lead to.  Files that change are there before, and
are announced by the names that `named` admits. -/
inductive Reach (named : Path → Prop) : Cache σ → Prop
  | start (disk : Disk) (requireFiles : Bool) (context : σ) :
    Reach named (Workspace.new disk requireFiles context)
  /-- Nothing becomes a source that was none. -/
  | act {w : Cache σ} (a : Action) : Reach named w → a.changesDisk = false →
    NothingNew (fun _ => True) (sourcesOf w) (sourcesOf (a.perform w)) → Reach named (a.perform w)
  | update {w : Cache σ} (mode : UpdateMode) (n : Nat) : Reach named w →
    Reach named (w.update engine mode n)
  | rewrite {w : Cache σ} (path : Path) (node : Node) : Reach named w → named path →
    w.disk.isFile path = true → node ≠ .directory →
    Reach named (((Action.write path node).perform w).touch path).2
  | erase {w : Cache σ} (path : Path) : Reach named w → named path → w.disk.isFile path = true →
    Reach named (((Action.erase path).perform w).touch path).2

/-- Every cache that is reached through absolute paths is coherent. -/
theorem coherent_of_reach {w : Cache σ} (hw : Reach (·.isAbsolute = true) w) : Coherent w := by
  induction hw with
  | start disk requireFiles context =>
    intro n hn
    cases hn
  | act a _ hdisk hnew ih => exact coherent_perform ih a hdisk fun q _ => hnew q trivial
  | update mode n _ ih => exact coherent_update ih mode n
  | @rewrite w path node _ habs hfile hnode ih =>
    have hedit : Edit path (sourcesOf w) ⟨w.disk.write path node, w.buffers⟩ :=
      edit_write (S := sourcesOf w) habs hfile hnode
    exact coherent_edit ih ((Action.write path node).drift_perform w) (fun _ hn => Or.inl hn) hedit
  | @erase w path _ habs hfile ih =>
    have hedit : Edit path (sourcesOf w) ⟨w.disk.remove path, w.buffers⟩ :=
      edit_remove (S := sourcesOf w) habs hfile
    exact coherent_edit ih ((Action.erase path).drift_perform w) (fun _ hn => Or.inl hn) hedit

/-- The held document `d`, number `n`, is intact, clean and not outdated, and has
the unit `t`. -/
structure TrustedUnit (w : Cache σ) (n : Nat) (d : Document CountingIndex ScannedUnit)
    (t : ScannedUnit) : Prop where
  held : n ∈ w.held
  document : w.documents[n]? = some d
  rooted : RootedDocument d
  intact : d.isIntact w.disk = true
  unit : d.handles.unit.resource = some t
  clean : d.dirty = false
  current : d.isOutdated = false

/-- In every cache reached through absolute paths, a unit that is trusted holds
what scanning the document's file now would find. -/
theorem scan_eq_of_trusted {w : Cache σ} (hw : Reach (·.isAbsolute = true) w) {n : Nat}
    {d : Document CountingIndex ScannedUnit} {t : ScannedUnit} (h : TrustedUnit w n d t) :
    scan (sourcesOf w) d.key.path (d.part.arguments ++ d.arguments) = .ok t.found := by
  have hunit : d.handles.unit = .of t := by
    show d.handles.unit = ⟨some t⟩
    rw [← h.unit]
  have hexists : d.fileExists w.disk = true := by
    have hintact := h.intact
    unfold Document.isIntact at hintact
    rw [Bool.and_eq_true] at hintact
    exact hintact.1
  exact (coherent_of_reach hw n h.held d h.document).right t
    ⟨hunit, h.current, h.clean, hexists⟩ h.rooted

/-! ## §5. A file and its header. -/

instance : DecidablePred Path.Rooted := fun _ => inferInstanceAs (Decidable (_ ∧ _))

instance (d : Document CountingIndex ScannedUnit) : Decidable (RootedDocument d) :=
  decidable_of_iff (d.key.path.Rooted ∧
      ∀ directory ∈ searchPaths (d.part.arguments ++ d.arguments), directory.isAbsolute = true)
    ⟨fun h => ⟨h.1, h.2⟩, fun h => ⟨h.1, h.2⟩⟩

/-- The trusted unit of a document, if it has one. -/
def trusted? (w : Cache σ) (n : Nat) :
    Option (Document CountingIndex ScannedUnit × ScannedUnit) :=
  match w.documents[n]? with
  | none => none
  | some d =>
    match d.handles.unit.resource with
    | none => none
    | some t =>
      if n ∈ w.held ∧ RootedDocument d ∧ d.isIntact w.disk = true ∧ d.dirty = false ∧
          d.isOutdated = false then some (d, t)
      else none

theorem trustedUnit_of_trusted? {w : Cache σ} {n : Nat}
    {d : Document CountingIndex ScannedUnit} {t : ScannedUnit} (h : trusted? w n = some (d, t)) :
    TrustedUnit w n d t := by
  unfold trusted? at h
  split at h
  · cases h
  · rename_i d' hd
    split at h
    · cases h
    · rename_i t' ht
      split at h
      · rename_i hall
        obtain ⟨hheld, hrooted, hintact, hclean, hcurrent⟩ := hall
        cases h
        exact ⟨hheld, hd, hrooted, hintact, ht, hclean, hcurrent⟩
      · cases h

/-- `/r/a.c`, which includes the empty `/r/a.h`. -/
def twoFiles : Cache Unit :=
  let disk := (Disk.fresh ["r"]).write ⟨"/r/a.c"⟩ (.text "#include \"a.h\"\n")
  .new (disk.write ⟨"/r/a.h"⟩ (.text "")) true ()

/-- A document of the first file, parsed. -/
def parsedFile : Cache Unit :=
  ((Action.create [.new ⟨"/r/a.c"⟩ "p"]).perform
    ((Action.upsertParts [("p", [])]).perform twoFiles)).update engine .asNeeded 0

/-- Now the header includes a file that does not exist, and is announced as
`path`. -/
def rewrittenHeader (path : Path) : Cache Unit :=
  (((Action.write path (.text "#include \"b.h\"\n")).perform parsedFile).touch path).2

theorem reach_parsedFile (named : Path → Prop) : Reach named parsedFile := by
  have hparts : Reach named ((Action.upsertParts [("p", [])]).perform twoFiles) :=
    .act _ (.start _ _ _) rfl fun _ _ h => h
  exact .update _ _ (.act _ hparts rfl fun _ _ h => h)

/-- Announced by an absolute path, the change is seen by the next update. -/
theorem scan_eq_after_update :
    ∃ d t, TrustedUnit ((rewrittenHeader ⟨"/r/./a.h"⟩).update engine .asNeeded 0) 0 d t ∧
      t.found.unresolved = ["b.h"] ∧
      scan (sourcesOf ((rewrittenHeader ⟨"/r/./a.h"⟩).update engine .asNeeded 0)) d.key.path
        (d.part.arguments ++ d.arguments) = .ok t.found := by
  have hreach : Reach (·.isAbsolute = true)
      ((rewrittenHeader ⟨"/r/./a.h"⟩).update engine .asNeeded 0) :=
    .update _ _ (.rewrite _ _ (reach_parsedFile _) (by decide) (by decide +kernel) (by decide))
  have hcheck : (trusted? ((rewrittenHeader ⟨"/r/./a.h"⟩).update engine .asNeeded 0) 0).any
      (fun found => found.2.found.unresolved == ["b.h"]) = true := by
    decide +kernel
  obtain ⟨⟨d, t⟩, htrusted, hunresolved⟩ := (Option.any_eq_true _ _).1 hcheck
  have htrusted := trustedUnit_of_trusted? htrusted
  exact ⟨d, t, htrusted, beq_iff_eq.1 hunresolved, scan_eq_of_trusted hreach htrusted⟩

/-- Announced by its path from the working directory, the change is missed: the
unit is trusted, and a scan would find something else. -/
theorem stale_after_relative_change :
    Reach (fun _ => True) (rewrittenHeader ⟨"a.h"⟩) ∧
    ∃ d t, TrustedUnit (rewrittenHeader ⟨"a.h"⟩) 0 d t ∧
      scan (sourcesOf (rewrittenHeader ⟨"a.h"⟩)) d.key.path (d.part.arguments ++ d.arguments)
        ≠ .ok t.found := by
  refine ⟨.rewrite _ _ (reach_parsedFile _) trivial (by decide +kernel) (by decide), ?_⟩
  have hcheck : (trusted? (rewrittenHeader ⟨"a.h"⟩) 0).any (fun found =>
      (scan (sourcesOf (rewrittenHeader ⟨"a.h"⟩)) found.1.key.path
        (found.1.part.arguments ++ found.1.arguments)).toOption != some found.2.found) = true := by
    decide +kernel
  obtain ⟨⟨d, t⟩, htrusted, hdiffers⟩ := (Option.any_eq_true _ _).1 hcheck
  refine ⟨d, t, trustedUnit_of_trusted? htrusted, fun hscan => ?_⟩
  rw [hscan] at hdiffers
  exact bne_iff_ne.1 hdiffers rfl

end Include

end ParseCache
