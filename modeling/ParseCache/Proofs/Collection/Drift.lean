/-
  ParseCache.Proofs.Collection.Drift — what can happen to a document outside
  its updates.

  Only an update gives a document a unit, a dependency set, a failure or a
  baseline.  Everything else that happens to it is drift: it gets dirty, it
  gets another version of its part, its editor state changes.  `Drift` says so
  for whole workspaces, with the points of time between which it happened, and
  every operation of the collection is shown to be drift once.

  Main results:
    * `Drift.trans` — drift upon drift is drift;
    * `confines_drift`, `drift_createOne`, `drift_dropBuffer`, `drift_evict` — the
      steps of requests are drift, and so are the requests.
-/
import ParseCache.Proofs.Collection.Marking
import ParseCache.Proofs.Collection.Requests

namespace ParseCache

variable {ι υ σ : Type}

/-! ## §1. Drift of a document. -/

/-- The document `d` has become `d'` between two points of time, without an
update. -/
structure Document.Drift (since until_ : TimePoint) (d d' : Document ι υ) : Prop where
  key : d'.key = d.key
  arguments : d'.arguments = d.arguments
  baseline : d'.baseline = d.baseline
  dependencies : d'.dependencies = d.dependencies
  failed : d'.failed = d.failed
  handles : d'.handles = d.handles
  part : d'.part = d.part ∨ since < d'.part.changed ∧ d'.part.changed ≤ until_
  dirt : d'.dirty = d.dirty ∧ d'.dirtyPoint = d.dirtyPoint ∨
    d'.dirty = true ∧ since < d'.dirtyPoint ∧ d'.dirtyPoint ≤ until_

namespace Document.Drift

variable {a a' b c : TimePoint} {d d' d'' : Document ι υ}

theorem refl (a b : TimePoint) (d : Document ι υ) : d.Drift a b d :=
  ⟨rfl, rfl, rfl, rfl, rfl, rfl, Or.inl rfl, Or.inl ⟨rfl, rfl⟩⟩

/-- The second drift may begin at any time after the first one began. -/
theorem trans (h : d.Drift a b d') (h' : d'.Drift a' c d'') (ha : a ≤ a') (hbc : b ≤ c) :
    d.Drift a c d'' where
  key := h'.key.trans h.key
  arguments := h'.arguments.trans h.arguments
  baseline := h'.baseline.trans h.baseline
  dependencies := h'.dependencies.trans h.dependencies
  failed := h'.failed.trans h.failed
  handles := h'.handles.trans h.handles
  part := by
    rcases h'.part with hsame | ⟨hlt, hle⟩
    · rw [hsame]
      rcases h.part with hsame' | ⟨hlt, hle⟩
      · exact Or.inl hsame'
      · exact Or.inr ⟨hlt, TimePoint.le_trans hle hbc⟩
    · exact Or.inr ⟨TimePoint.lt_of_le_of_lt ha hlt, hle⟩
  dirt := by
    rcases h'.dirt with ⟨hdirty, hpoint⟩ | ⟨hdirty, hlt, hle⟩
    · rw [hdirty, hpoint]
      rcases h.dirt with hsame | ⟨hdirty', hlt, hle⟩
      · exact Or.inl hsame
      · exact Or.inr ⟨hdirty', hlt, TimePoint.le_trans hle hbc⟩
    · exact Or.inr ⟨hdirty, TimePoint.lt_of_le_of_lt ha hlt, hle⟩

/-- A dirty document stays dirty. -/
theorem dirty_of_dirty (h : d.Drift a b d') (hd : d.dirty = true) : d'.dirty = true := by
  rcases h.dirt with ⟨hdirty, -⟩ | ⟨hdirty, -⟩
  · rw [hdirty, hd]
  · exact hdirty

/-- After drift a document is outdated, or it still has its part: a part that
came since is later than a baseline that had passed before. -/
theorem outdated_or_part (h : d.Drift a b d') (hd : d.baseline ≤ a) :
    d'.isOutdated = true ∨ d'.part = d.part := by
  rcases h.part with hsame | ⟨hlt, -⟩
  · exact Or.inr hsame
  · left
    unfold Document.isOutdated
    rw [decide_eq_true_eq, h.baseline]
    exact TimePoint.le_trans hd (TimePoint.le_of_lt hlt)

/-- An outdated document stays outdated. -/
theorem outdated_of_outdated (h : d.Drift a b d') (hd : d.baseline ≤ a)
    (hout : d.isOutdated = true) : d'.isOutdated = true := by
  rcases h.outdated_or_part hd with hout' | hpart
  · exact hout'
  · unfold Document.isOutdated at hout ⊢
    rw [h.baseline, hpart]
    exact hout

/-- A document that is not outdated was not, and kept its part. -/
theorem current_of_current (h : d.Drift a b d') (hd : d.baseline ≤ a)
    (hcurrent : d'.isOutdated = false) : d'.part = d.part ∧ d.isOutdated = false := by
  constructor
  · rcases h.outdated_or_part hd with hout | hpart
    · rw [hout] at hcurrent
      cases hcurrent
    · exact hpart
  · rw [Bool.eq_false_iff]
    intro hout
    rw [h.outdated_of_outdated hd hout] at hcurrent
    cases hcurrent

end Document.Drift

/-- What a new document looks like, and still looks like after drift. -/
structure Document.Unparsed (since until_ : TimePoint) (d : Document ι υ) : Prop where
  handles : d.handles = .null
  failed : d.failed = false
  dependencies : d.dependencies = PathSet.empty.insert d.key.path
  baseline : since < d.baseline ∧ d.baseline ≤ until_
  dirtyPoint : since < d.dirtyPoint ∧ d.dirtyPoint ≤ until_

namespace Document.Unparsed

variable {a a' b c : TimePoint} {d d' : Document ι υ}

/-- Drift does not parse a document: it looks as new as it did. -/
theorem drift (h : d.Unparsed a b) (h' : d.Drift a' c d') (ha : a ≤ a') (hbc : b ≤ c) :
    d'.Unparsed a c where
  handles := h'.handles.trans h.handles
  failed := h'.failed.trans h.failed
  dependencies := by rw [h'.dependencies, h'.key, h.dependencies]
  baseline := by
    rw [h'.baseline]
    exact ⟨h.baseline.1, TimePoint.le_trans h.baseline.2 hbc⟩
  dirtyPoint := by
    rcases h'.dirt with ⟨-, hpoint⟩ | ⟨-, hlt, hle⟩
    · rw [hpoint]
      exact ⟨h.dirtyPoint.1, TimePoint.le_trans h.dirtyPoint.2 hbc⟩
    · exact ⟨TimePoint.lt_of_le_of_lt ha hlt, hle⟩

/-- What was made after a point of time was made after any earlier one. -/
theorem earlier (h : d.Unparsed b c) (hab : a ≤ b) : d.Unparsed a c where
  handles := h.handles
  failed := h.failed
  dependencies := h.dependencies
  baseline := ⟨TimePoint.lt_of_le_of_lt hab h.baseline.1, h.baseline.2⟩
  dirtyPoint := ⟨TimePoint.lt_of_le_of_lt hab h.dirtyPoint.1, h.dirtyPoint.2⟩

end Document.Unparsed

/-! ## §2. Drift of a workspace. -/

/-- Every part is registered under its own id. -/
def ProjectParts.Named (r : ProjectParts) : Prop :=
  ∀ id part, r.parts.get? id = some part → part.id = id

namespace Workspace

/-- From `w` to `w'` time went on, old documents drifted, and new documents
came that no update has seen. -/
structure Drift (w w' : Workspace ι υ σ) : Prop where
  clock : w.clock.last ≤ w'.clock.last
  context : w'.context = w.context
  named : w.parts.Named → w'.parts.Named
  old : ∀ (n : Nat) (d : Document ι υ), w.documents[n]? = some d →
    ∃ d', w'.documents[n]? = some d' ∧ d.Drift w.clock.last w'.clock.last d'
  fresh : ∀ (n : Nat) (d' : Document ι υ), w.documents[n]? = none → w'.documents[n]? = some d' →
    d'.Unparsed w.clock.last w'.clock.last

namespace Drift

variable {w w' w'' : Workspace ι υ σ}

/-- A document that is found before and after has drifted in between. -/
theorem document (h : Drift w w') {n : Nat} {d d' : Document ι υ}
    (hd : w.documents[n]? = some d) (hd' : w'.documents[n]? = some d') :
    d.Drift w.clock.last w'.clock.last d' := by
  obtain ⟨_, hd'', hdrift⟩ := h.old n d hd
  rw [hd'] at hd''
  cases hd''
  exact hdrift

/-- Where no document changed, only time has to be looked at. -/
theorem of_documents_eq (hdocs : w'.documents = w.documents)
    (hclock : w.clock.last ≤ w'.clock.last) (hcontext : w'.context = w.context)
    (hnamed : w.parts.Named → w'.parts.Named) : Drift w w' where
  clock := hclock
  context := hcontext
  named := hnamed
  old n d hd := ⟨d, by rw [hdocs, hd], .refl _ _ d⟩
  fresh n d' hnone hsome := by
    rw [hdocs, hnone] at hsome
    cases hsome

theorem refl (w : Workspace ι υ σ) : Drift w w :=
  of_documents_eq rfl (TimePoint.le_refl _) rfl id

/-- Drift upon drift is drift. A document that is new at the end came in one of
the two, and has only drifted since. -/
theorem trans (h : Drift w w') (h' : Drift w' w'') : Drift w w'' where
  clock := TimePoint.le_trans h.clock h'.clock
  context := h'.context.trans h.context
  named hn := h'.named (h.named hn)
  old n d hd := by
    obtain ⟨d', hd', hdrift⟩ := h.old n d hd
    obtain ⟨d'', hd'', hdrift'⟩ := h'.old n d' hd'
    exact ⟨d'', hd'', hdrift.trans hdrift' h.clock h'.clock⟩
  fresh n d'' hnone hsome := by
    -- new in the first half or in the second
    cases hmid : w'.documents[n]? with
    | none => exact (h'.fresh n d'' hmid hsome).earlier h.clock
    | some d' =>
      exact (h.fresh n d' hnone hmid).drift (h'.document hmid hsome) h.clock h'.clock

theorem of_now (w : Workspace ι υ σ) : Drift w w.now.2 :=
  of_documents_eq rfl (TimePoint.le_of_lt w.clock.last_lt_now) rfl id

/-- A round of dirty marks is drift: a marked document gets dirty by an event of
its own. -/
theorem of_marks {ns : List Nat} (h : Marks ns w w') : Drift w w' where
  clock := h.clock
  context := h.context
  named hn := by rwa [h.parts]
  old n d hd := by
    obtain ⟨d', hd', rfl | ⟨time, hlt, hle, rfl⟩⟩ := h.document hd
    · exact ⟨_, hd', .refl _ _ _⟩
    · exact ⟨_, hd', ⟨rfl, rfl, rfl, rfl, rfl, rfl, Or.inl rfl, Or.inr ⟨rfl, hlt, hle⟩⟩⟩
  fresh n d' hnone hsome := by
    have hlen : w.documents.length ≤ n := List.getElem?_eq_none_iff.1 hnone
    rw [List.getElem?_eq_none (by rw [h.length]; exact hlen)] at hsome
    cases hsome

/-- One document is changed, in a way that is drift since `w`. -/
theorem modify (h : Drift w w') (n : Nat) {f : Document ι υ → Document ι υ}
    (hf : ∀ d : Document ι υ, d.Drift w.clock.last w'.clock.last (f d)) :
    Drift w (w'.modify n f) where
  clock := h.clock
  context := h.context
  named := h.named
  old m d hd := by
    obtain ⟨d', hd', hdrift⟩ := h.old m d hd
    by_cases hm : n = m
    · subst hm
      exact ⟨f d', getElem?_modify_self hd' f,
        hdrift.trans (hf d') (TimePoint.le_refl _) (TimePoint.le_refl _)⟩
    · exact ⟨d', (getElem?_modify_of_ne w' hm f).trans hd', hdrift⟩
  fresh m d' hnone hsome := by
    by_cases hm : n = m
    · subst hm
      cases hd : w'.documents[n]? with
      -- a document that does not exist is not changed into one that does
      | none =>
        have hlen : w'.documents.length ≤ n := List.getElem?_eq_none_iff.1 hd
        rw [List.getElem?_eq_none (by simpa [Workspace.modify] using hlen)] at hsome
        cases hsome
      | some d =>
        rw [getElem?_modify_self hd f] at hsome
        cases hsome
        exact (h.fresh n d hnone hd).drift (hf d) (TimePoint.le_refl _) (TimePoint.le_refl _)
    · rw [getElem?_modify_of_ne w' hm f] at hsome
      exact h.fresh m d' hnone hsome

/-- The same for a loop that changes documents one after the other. -/
theorem modifyAll {f : Document ι υ → Document ι υ} (ns : List Nat) :
    ∀ {w' : Workspace ι υ σ}, Drift w w' →
      (∀ d : Document ι υ, d.Drift w.clock.last w'.clock.last (f d)) →
      Drift w (ns.foldl (fun w n => w.modify n f) w') := by
  induction ns with
  | nil =>
    intro w' h _
    exact h
  | cons n rest ih =>
    intro w' h hf
    exact ih (h.modify n hf) hf

/-- A document is added that was made just now. -/
theorem of_add (w : Workspace ι υ σ) {d : Document ι υ}
    (hd : d.Unparsed w.clock.last w.clock.now.1) : Drift w (w.now.2.add d).2 where
  clock := TimePoint.le_of_lt w.clock.last_lt_now
  context := rfl
  named hn := hn
  old n d' hd' := by
    refine ⟨d', ?_, .refl _ _ d'⟩
    show (w.documents ++ [d])[n]? = some d'
    rw [List.getElem?_append_left (List.getElem?_eq_some_iff.1 hd').1]
    exact hd'
  fresh n d' hnone hsome := by
    have hlen : w.documents.length ≤ n := List.getElem?_eq_none_iff.1 hnone
    have hsome : (w.documents ++ [d])[n]? = some d' := hsome
    rw [List.getElem?_append_right hlen] at hsome
    obtain rfl := List.mem_singleton.1 (List.mem_of_getElem? hsome)
    exact hd

end Drift

/-! ## §3. Buffers, editors, and documents that come and go. -/

/-- A file that changed leaves marks on documents, and nothing else. -/
theorem drift_touch (w : Workspace ι υ σ) (path : Path) : Drift w (w.touch path).2 :=
  .of_marks (marks_touch w path)

/-- The round that follows a change of parts leaves marks only. -/
theorem drift_markOutdated (w : Workspace ι υ σ) : Drift w w.markOutdated.2 :=
  .of_marks (marks_markOutdated w)

theorem drift_markDirty (w : Workspace ι υ σ) (n : Nat) : Drift w (w.markDirty n) :=
  .of_marks (marks_markDirty w n)

theorem drift_markDirtyIf (w : Workspace ι υ σ) (p : Document ι υ → Bool) (n : Nat) :
    Drift w (w.markDirtyIf p n).2 :=
  .of_marks (marks_markDirtyIf w p n)

/-- Storing a buffer takes time, and no document is looked at. -/
theorem drift_putBuffer (w : Workspace ι υ σ) (path : Path) (content : String) :
    Drift w (w.putBuffer path content) :=
  .of_documents_eq rfl (TimePoint.le_of_lt w.clock.last_lt_now) rfl id

/-- Dropping a buffer does not touch documents either; who is told of it is
another matter. -/
theorem drift_dropBuffer (w : Workspace ι υ σ) (path : Path) : Drift w (w.dropBuffer path).2 := by
  rcases dropBuffer_cases w path with ⟨-, heq⟩ | ⟨-, heq⟩
  · rw [heq]
    exact .of_documents_eq rfl (TimePoint.le_of_lt w.clock.last_lt_now) rfl id
  · rw [heq]
    exact .refl w

/-- A new document comes with the state no update has seen. -/
theorem unparsed_madeFor (w : Workspace ι υ σ) (e : FileEntry) (part : ProjectPart) :
    (w.madeFor e part).Unparsed w.clock.last w.clock.now.1 where
  handles := rfl
  failed := rfl
  dependencies := rfl
  baseline := ⟨w.clock.last_lt_now, TimePoint.le_refl _⟩
  dirtyPoint := ⟨w.clock.last_lt_now, TimePoint.le_refl _⟩

/-- An entry that is refused leaves the documents; any other adds one that no
update has seen. -/
theorem drift_createOne (w : Workspace ι υ σ) (e : FileEntry) : Drift w (w.createOne e).2 := by
  rcases w.createOne_cases e with ⟨-, heq⟩ | ⟨part, -, -, -, heq⟩ | ⟨part, -, -, heq⟩
  · rw [heq]
    exact .refl w
  · rw [heq]
    exact .of_now w
  · rw [heq]
    have hadd := Drift.of_add w (unparsed_madeFor w e part)
    exact hadd.trans (.of_documents_eq rfl (TimePoint.le_refl _) rfl id)

/-- Editor state is of no interest to updates. -/
theorem drift_editor (a b : TimePoint) (d : Document ι υ) (revision : UInt32)
    (used visible : Bool) :
    d.Drift a b { d with revision := revision, used := used, visible := visible } :=
  ⟨rfl, rfl, rfl, rfl, rfl, rfl, Or.inl rfl, Or.inl ⟨rfl, rfl⟩⟩

/-- A document that is let go of stays as it is, and can still be updated. -/
theorem drift_evict (w : Workspace ι υ σ) (key : DocumentKey) : Drift w (w.evict key) :=
  .of_documents_eq rfl (TimePoint.le_refl _) rfl id

/-- The steps of requests are drift: content and revisions reach documents as
editor state. -/
theorem confines_drift : Confines (Drift : Workspace ι υ σ → Workspace ι υ σ → Prop) where
  refl := .refl
  trans := .trans
  putBuffer := drift_putBuffer
  touch := drift_touch
  revise w n revision :=
    (Drift.refl w).modify n fun d => drift_editor _ _ d revision d.used d.visible

theorem drift_focus (w : Workspace ι υ σ) (path : Path) : Drift w (w.focus path) :=
  (Drift.refl w).modifyAll w.held fun d => drift_editor _ _ d d.revision _ d.visible

theorem drift_reveal (w : Workspace ι υ σ) (paths : List Path) : Drift w (w.reveal paths) :=
  (Drift.refl w).modifyAll w.held fun d => drift_editor _ _ d d.revision d.used _

end Workspace

end ParseCache
