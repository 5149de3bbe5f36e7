/-
  ParseCache.Proofs.Collection.Action — everything that happens to documents
  besides updates.

  An `Action` is one operation of the collection, one event on a document, or
  one change of the disk.  Actions happen between updates and, since an engine
  call leaves the rest of the program running, also during them.

  Main results:
    * `drift_perform` — no action does more than drift;
    * `installed_perform` — the documents an action gives a part to carry a
      stamp of their own afterwards;
    * `notified_perform` — the documents a change notification reaches are
      dirty afterwards, by an event of their own.
-/
import ParseCache.Proofs.Collection.Configuration

namespace ParseCache

/-- One operation of the collection, event on a document, or change of the
disk.  Documents are given by number; parts are built on the spot. -/
inductive Action
  | create (entries : List FileEntry)
  | updateEntries (entries : List FileEntry)
  | removeDocuments (entries : List FileEntry)
  | upsertParts (given : List (String × List String))
  | removeParts (ids : List String)
  /-- The file at a path changed, and its dependents are to be told. -/
  | touch (path : Path)
  | markOutdated
  | focus (path : Path)
  | reveal (paths : List Path)
  | markDirty (n : Nat)
  | markIfOutdated (n : Nat)
  | markIfDepends (n : Nat) (path : Path)
  | setPart (n : Nat) (id : String) (arguments : List String)
  | setRevision (n : Nat) (revision : UInt32)
  | setUsed (n : Nat) (on : Bool)
  | setVisible (n : Nat) (on : Bool)
  | write (path : Path) (node : Node)
  | erase (path : Path)
deriving Repr, DecidableEq

namespace Action

variable {ι υ σ : Type}

/-- Makes an action happen. -/
def perform (w : Workspace ι υ σ) : Action → Workspace ι υ σ
  | create entries => (w.create entries).2
  | updateEntries entries => (w.updateEntries entries).2
  | removeDocuments entries => (w.removeDocuments entries).2
  | upsertParts given => (w.upsertFresh given).2
  | removeParts ids => (w.removeParts ids).2
  | touch path => (w.touch path).2
  | markOutdated => w.markOutdated.2
  | focus path => w.focus path
  | reveal paths => w.reveal paths
  | markDirty n => w.markDirty n
  | markIfOutdated n => (w.markDirtyIf (·.isOutdated) n).2
  | markIfDepends n path => (w.markDirtyIf (·.isAffectedBy w.disk path) n).2
  | setPart n id arguments =>
    let (part, clock) := ProjectPart.new id arguments w.clock
    ({ w with clock := clock } : Workspace ι υ σ).modify n (·.setPart part)
  | setRevision n revision => w.modify n fun d => { d with revision := revision }
  | setUsed n on => w.modify n fun d => { d with used := on }
  | setVisible n on => w.modify n fun d => { d with visible := on }
  | write path node => { w with disk := w.disk.write path node }
  | erase path => { w with disk := w.disk.remove path }

/-- The documents that get a new version of their part from an action. -/
def installs (w : Workspace ι υ σ) : Action → List Nat
  | upsertParts given => w.heldWhere fun d => (w.registerFresh given).1.contains d.key.part
  | setPart n id _ => if w.documents[n]?.any (·.key.part == id) then [n] else []
  | _ => []

/-- The documents that an action tells of a changed file. -/
def notifies (w : Workspace ι υ σ) : Action → List Nat
  | touch path => w.heldWhere fun d => d.isAffectedBy w.disk path.normalize
  | _ => []

/-- The documents change only by drift. -/
theorem drift_perform (w : Workspace ι υ σ) (a : Action) : Workspace.Drift w (a.perform w) := by
  cases a with
  | create entries => exact Workspace.confines_drift.create Workspace.drift_createOne w entries
  | updateEntries entries => exact Workspace.confines_drift.updateEntries w entries
  | removeDocuments entries =>
    exact Workspace.confines_drift.removeDocuments Workspace.drift_dropBuffer
      Workspace.drift_evict w entries
  | upsertParts given => exact Workspace.drift_upsertFresh w given
  | removeParts ids => exact Workspace.drift_removeParts w ids
  | touch path => exact Workspace.drift_touch w path
  | markOutdated => exact Workspace.drift_markOutdated w
  | focus path => exact Workspace.drift_focus w path
  | reveal paths => exact Workspace.drift_reveal w paths
  | markDirty n => exact Workspace.drift_markDirty w n
  | markIfOutdated n => exact Workspace.drift_markDirtyIf w _ n
  | markIfDepends n path => exact Workspace.drift_markDirtyIf w _ n
  | setPart n id arguments =>
    refine (Workspace.Drift.of_now w).modify n fun d => ?_
    unfold Document.setPart
    split
    · exact ⟨rfl, rfl, rfl, rfl, rfl, rfl, Or.inr ⟨w.clock.last_lt_now, TimePoint.le_refl _⟩,
        Or.inl ⟨rfl, rfl⟩⟩
    · exact .refl _ _ d
  | setRevision n revision =>
    exact (Workspace.Drift.refl w).modify n fun d =>
      Workspace.drift_editor _ _ d revision d.used d.visible
  | setUsed n on =>
    exact (Workspace.Drift.refl w).modify n fun d =>
      Workspace.drift_editor _ _ d d.revision on d.visible
  | setVisible n on =>
    exact (Workspace.Drift.refl w).modify n fun d =>
      Workspace.drift_editor _ _ d d.revision d.used on
  | write path node =>
    exact Workspace.Drift.of_documents_eq rfl (TimePoint.le_refl _) rfl id
  | erase path =>
    exact Workspace.Drift.of_documents_eq rfl (TimePoint.le_refl _) rfl id

/-- A document that gets a part from an action has a part stamped since the
action began. -/
theorem installed_perform {w : Workspace ι υ σ} (hnamed : w.parts.Named) (a : Action) {n : Nat}
    (hn : n ∈ a.installs w) :
    ∃ d', (a.perform w).documents[n]? = some d' ∧ w.clock.last < d'.part.changed := by
  cases a with
  | upsertParts given =>
    obtain ⟨hheld, hany⟩ := Workspace.mem_heldWhere.1 hn
    obtain ⟨d, hd, hkey⟩ := (Option.any_eq_true _ _).1 hany
    exact Workspace.installed_upsertFresh hnamed given hheld hd (List.contains_iff_mem.1 hkey)
  | setPart m id arguments =>
    rw [installs] at hn
    split at hn
    · rename_i hany
      obtain rfl := List.mem_singleton.1 hn
      obtain ⟨d, hd, hkey⟩ := (Option.any_eq_true _ _).1 hany
      refine ⟨d.setPart ⟨id, arguments, w.clock.now.1⟩, ?_, ?_⟩
      · exact Workspace.getElem?_modify_self (w := w.now.2) hd _
      · rw [Document.setPart, if_pos (beq_iff_eq.1 hkey).symm]
        exact w.clock.last_lt_now
    · exact absurd hn List.not_mem_nil
  | _ => exact absurd hn List.not_mem_nil

/-- A document that is told of a changed file is dirty since then. -/
theorem notified_perform (w : Workspace ι υ σ) (a : Action) {n : Nat} (hn : n ∈ a.notifies w) :
    ∃ d', (a.perform w).documents[n]? = some d' ∧ d'.dirty = true ∧
      w.clock.last < d'.dirtyPoint := by
  cases a with
  | touch path =>
    have hmem := (w.mem_touch path n).2 (Workspace.mem_heldWhere.1 hn)
    obtain ⟨d, hd, -⟩ := (Option.any_eq_true _ _).1 (Workspace.mem_heldWhere.1 hn).2
    obtain ⟨time, hlt, -, hmarked⟩ := (Workspace.marks_touch w path).marked n d hmem hd
    exact ⟨_, hmarked, rfl, hlt⟩
  | _ => exact absurd hn List.not_mem_nil

end Action

end ParseCache
