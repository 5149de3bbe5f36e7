/-
  ParseCache.Proofs.Collection.Requests — requests, entry by entry.

  A request to create, update or remove documents is a loop over its entries.
  What one turn of such a loop does is named here, and each loop is unrolled
  once.  A relation that holds of the single steps of a turn then holds of the
  whole request, so most theories of the collection need not open a loop again.

  Main results:
    * `createOne_cases` — an entry is refused in one of two ways, or its document
      comes;
    * `createAll_cons`, `updateAll_cons` — a loop is its first turn, and the
      loop over the other entries;
    * `dropBuffer_cases` — a buffer is dropped if it is there;
    * `removeOne_cases` — one turn of a removal, which is no loop of its own but
      ends in one of two ways;
    * `removeParts_cases` — parts are removed with their documents, or an unknown
      id stops it;
    * `Confines` — what the single steps stay within, with one lemma for each
      request that stays within it too.
-/
import ParseCache.Collection.Basic

namespace ParseCache.Workspace

variable {ι υ σ : Type}

/-! ## §1. Documents are created. -/

/-- What comes is held from then on. -/
def come (w : Workspace ι υ σ) (d : Document ι υ) : Workspace ι υ σ :=
  { (w.add d).2 with watches := w.watches.register d.key }

/-- The document an entry asks for, made now under a part. -/
def madeFor (w : Workspace ι υ σ) (e : FileEntry) (part : ProjectPart) : Document ι υ :=
  { Document.new e.path part e.arguments w.now.1 with revision := e.revision }

/-- An entry is refused if its part is not registered, and after a look at the
clock if its file has to exist and does not. Else its document comes. -/
theorem createOne_cases (w : Workspace ι υ σ) (e : FileEntry) :
    (w.parts.parts.get? e.part = none ∧
      w.createOne e = (.error (.projectPartDoesNotExist e.part), w)) ∨
    (∃ part, w.parts.parts.get? e.part = some part ∧
      w.requireFiles = true ∧ w.disk.holds e.path = false ∧
      w.createOne e = (.error (.fileDoesNotExist e.path), w.now.2)) ∨
    (∃ part, w.parts.parts.get? e.part = some part ∧
      (w.requireFiles = true → w.disk.holds e.path = true) ∧
      w.createOne e = (.ok w.documents.length, w.now.2.come (w.madeFor e part))) := by
  cases hpart : w.parts.parts.get? e.part with
  | none =>
    left
    refine ⟨rfl, ?_⟩
    rw [createOne, ProjectParts.find, hpart]
  | some part =>
    have heq : w.createOne e =
        if (w.requireFiles && !w.disk.holds e.path) = true then
          (.error (.fileDoesNotExist e.path), w.now.2)
        else (.ok w.documents.length, w.now.2.come (w.madeFor e part)) := by
      rw [createOne, ProjectParts.find, hpart]
      rfl
    right
    by_cases hmissing : (w.requireFiles && !w.disk.holds e.path) = true
    · rw [if_pos hmissing] at heq
      rw [Bool.and_eq_true, Bool.not_eq_true'] at hmissing
      exact Or.inl ⟨part, rfl, hmissing.1, hmissing.2, heq⟩
    · rw [if_neg hmissing] at heq
      refine Or.inr ⟨part, rfl, fun hrequired => ?_, heq⟩
      rw [hrequired, Bool.true_and, Bool.not_eq_true', Bool.not_eq_false] at hmissing
      exact hmissing

/-- What `createAll` does for an entry before it creates its document. -/
def announce (w : Workspace ι υ σ) (e : FileEntry) : Workspace ι υ σ :=
  match e.unsaved with
  | some content => ((w.putBuffer e.path content).touch e.path).2
  | none => w

theorem createAll_eq (e : FileEntry) (rest : List FileEntry) (w : Workspace ι υ σ) :
    createAll (e :: rest) w =
      match (w.announce e).createOne e with
      | (.error refusal, w) => (.error refusal, w)
      | (.ok n, w) =>
        match createAll rest w with
        | (.error refusal, w) => (.error refusal, w)
        | (.ok ns, w) => (.ok (n :: ns), w) := rfl

/-- The workspace after `createAll`: a refusal stops it, a success goes on. -/
theorem createAll_cons (e : FileEntry) (rest : List FileEntry) (w : Workspace ι υ σ) :
    (createAll (e :: rest) w).2 =
      match ((w.announce e).createOne e).1 with
      | .error _ => ((w.announce e).createOne e).2
      | .ok _ => (createAll rest ((w.announce e).createOne e).2).2 := by
  rw [createAll_eq]
  rcases (w.announce e).createOne e with ⟨refusal | n, w'⟩
  · rfl
  · dsimp only
    rcases createAll rest w' with ⟨refusal | ns, w''⟩
    · rfl
    · rfl

/-! ## §2. Documents are updated. -/

/-- The workspace with the content and the revision of an entry, before its file
counts as changed. -/
def revised (w : Workspace ι υ σ) (e : FileEntry) : Workspace ι υ σ :=
  ((w.putUnsaved e).documentsOf e.path).foldl
    (fun w n => w.modify n fun d => { d with revision := e.revision }) (w.putUnsaved e)

/-- An entry revises the documents of its file, and the file counts as changed
before the next entry is looked at. -/
theorem updateAll_cons (e : FileEntry) (rest : List FileEntry) (w : Workspace ι υ σ) :
    updateAll (e :: rest) w =
      ((w.putUnsaved e).documentsOf e.path ++ (updateAll rest ((w.revised e).touch e.path).2).1,
        (updateAll rest ((w.revised e).touch e.path).2).2) := rfl

/-! ## §3. Documents are removed. -/

/-- Dropping a buffer that is there takes time, and nothing happens otherwise. -/
theorem dropBuffer_cases (w : Workspace ι υ σ) (path : Path) :
    ((w.buffers.file? path).isSome = true ∧ w.dropBuffer path = (true,
      { w with buffers := (w.buffers.remove path w.clock.now.1).2, clock := w.clock.now.2 })) ∨
    ((w.buffers.file? path).isSome = false ∧ w.dropBuffer path = (false, w)) := by
  have hhas : (w.buffers.file? path).isSome = w.buffers.files.has path :=
    (Table.has_eq_isSome_get? _ _).symm
  rw [hhas]
  unfold dropBuffer Buffers.remove
  cases w.buffers.files.has path with
  | true => exact Or.inl ⟨rfl, rfl⟩
  | false => exact Or.inr ⟨rfl, rfl⟩

/-- The document of an entry is gone, and so is the buffer of its file. -/
def dropped (w : Workspace ι υ σ) (e : FileEntry) : Workspace ι υ σ :=
  ((w.evict (keyOf e)).dropBuffer e.path).2

/-- Everybody else is told that the file changed, if there was a buffer. -/
theorem removeOne_cases (w : Workspace ι υ σ) (e : FileEntry) :
    ((w.buffers.file? e.path).isSome = true ∧
      w.removeOne e = ((w.dropped e).touch e.path).2) ∨
    ((w.buffers.file? e.path).isSome = false ∧ w.removeOne e = w.dropped e) := by
  unfold removeOne dropped
  -- letting go of a document leaves the buffers alone
  rcases dropBuffer_cases (w.evict (keyOf e)) e.path with ⟨hsome, heq⟩ | ⟨hnone, heq⟩
  · rw [heq]
    exact Or.inl ⟨hsome, rfl⟩
  · rw [heq]
    exact Or.inr ⟨hnone, rfl⟩

/-! ## §4. Parts are removed. -/

/-- The workspace whose parts have been removed, as far as they could be. -/
def withoutParts (w : Workspace ι υ σ) (ids : List String) : Workspace ι υ σ :=
  { w with parts := (ProjectParts.remove ids w.parts).2 }

/-- Removing parts fails in the registry, and then no document goes, or it evicts
what is held under the removed ids. The table is the same either way. -/
theorem removeParts_cases (w : Workspace ι υ σ) (ids : List String) :
    (∃ refusal, ProjectParts.remove ids w.parts = (.error refusal, (w.withoutParts ids).parts) ∧
      w.removeParts ids = (.error refusal, w.withoutParts ids)) ∨
    (ProjectParts.remove ids w.parts = (.ok (), (w.withoutParts ids).parts) ∧
      w.removeParts ids = (.ok (), ((w.heldWhere fun d => ids.contains d.key.part).filterMap
        fun n => w.documents[n]?.map (·.key)).foldl evict (w.withoutParts ids))) := by
  unfold removeParts withoutParts
  rcases hremoved : ProjectParts.remove ids w.parts with ⟨refusal | _, registry⟩
  · exact Or.inl ⟨refusal, rfl, rfl⟩
  · exact Or.inr ⟨rfl, rfl⟩

/-! ## §5. What requests stay within. -/

/-- Buffers that are stored, changed files and revisions stay within a relation of
workspaces. These are the steps that requests to create and to update documents
have in common. -/
structure Confines (R : Workspace ι υ σ → Workspace ι υ σ → Prop) : Prop where
  refl : ∀ w, R w w
  trans : ∀ {w w' w''}, R w w' → R w' w'' → R w w''
  putBuffer : ∀ w path content, R w (w.putBuffer path content)
  touch : ∀ w path, R w (w.touch path).2
  revise : ∀ w n revision, R w (w.modify n fun d => { d with revision := revision })

namespace Confines

variable {R : Workspace ι υ σ → Workspace ι υ σ → Prop} (h : Confines R)

include h

/-- A loop stays within what its turns stay within. -/
theorem foldl {α : Type} {f : Workspace ι υ σ → α → Workspace ι υ σ} (hf : ∀ w a, R w (f w a))
    (as : List α) (w : Workspace ι υ σ) : R w (as.foldl f w) :=
  List.foldlRecOn as f (h.refl w) fun _ hw a _ => h.trans hw (hf _ a)

theorem putUnsaved (w : Workspace ι υ σ) (e : FileEntry) : R w (w.putUnsaved e) := by
  unfold Workspace.putUnsaved
  split
  · exact h.putBuffer w _ _
  · exact h.refl w

theorem announce (w : Workspace ι υ σ) (e : FileEntry) : R w (w.announce e) := by
  unfold Workspace.announce
  split
  · exact h.trans (h.putBuffer w _ _) (h.touch _ e.path)
  · exact h.refl w

theorem revised (w : Workspace ι υ σ) (e : FileEntry) : R w (w.revised e) :=
  h.trans (h.putUnsaved w e) (h.foldl (fun w n => h.revise w n e.revision) _ _)

theorem updateAll (entries : List FileEntry) :
    ∀ w : Workspace ι υ σ, R w (updateAll entries w).2 := by
  induction entries with
  | nil => exact h.refl
  | cons e rest ih =>
    intro w
    rw [updateAll_cons]
    exact h.trans (h.trans (h.revised w e) (h.touch _ e.path)) (ih _)

/-- A request to update documents is refused and does nothing, or is the loop over
its entries. -/
theorem updateEntries (w : Workspace ι υ σ) (entries : List FileEntry) :
    R w (w.updateEntries entries).2 := by
  unfold Workspace.updateEntries
  split
  · exact h.refl w
  · exact h.updateAll entries w

section

variable (hcreate : ∀ w e, R w (w.createOne e).2)

include hcreate

/-- Where documents that come stay within the relation too, so does the loop over
entries, wherever it stops. -/
theorem createAll (entries : List FileEntry) :
    ∀ w : Workspace ι υ σ, R w (createAll entries w).2 := by
  induction entries with
  | nil => exact h.refl
  | cons e rest ih =>
    intro w
    have hone := h.trans (h.announce w e) (hcreate (w.announce e) e)
    rw [createAll_cons]
    split
    · exact hone
    · exact h.trans hone (ih _)

/-- So does a request, also if it is refused. -/
theorem create (w : Workspace ι υ σ) (entries : List FileEntry) :
    R w (w.create entries).2 := by
  unfold Workspace.create
  split
  · exact h.refl w
  · split
    · exact h.refl w
    · exact h.createAll hcreate entries w

end

section

variable (hdrop : ∀ w path, R w (w.dropBuffer path).2) (hevict : ∀ w key, R w (w.evict key))

include hdrop hevict

theorem dropped (w : Workspace ι υ σ) (e : FileEntry) : R w (w.dropped e) :=
  h.trans (hevict w (keyOf e)) (hdrop _ e.path)

/-- Where buffers and documents that go stay within the relation, so does a turn
that removes them. -/
theorem removeOne (w : Workspace ι υ σ) (e : FileEntry) : R w (w.removeOne e) := by
  have hdropped := h.dropped hdrop hevict w e
  rcases removeOne_cases w e with ⟨-, heq⟩ | ⟨-, heq⟩
  · rw [heq]
    exact h.trans hdropped (h.touch _ e.path)
  · rw [heq]
    exact hdropped

/-- So does a request, also if it is refused. -/
theorem removeDocuments (w : Workspace ι υ σ) (entries : List FileEntry) :
    R w (w.removeDocuments entries).2 := by
  unfold Workspace.removeDocuments
  split
  · exact h.refl w
  · exact h.foldl (h.removeOne hdrop hevict) entries w

end

/-- Where parts and documents that go stay within the relation, so does a request
to remove parts. -/
theorem removeParts (hevict : ∀ w key, R w (w.evict key))
    (hparts : ∀ w ids, R w (w.withoutParts ids)) (w : Workspace ι υ σ)
    (ids : List String) : R w (w.removeParts ids).2 := by
  rcases removeParts_cases w ids with ⟨refusal, -, heq⟩ | ⟨-, heq⟩
  · rw [heq]
    exact hparts w ids
  · rw [heq]
    exact h.trans (hparts w ids) (h.foldl hevict _ _)

end Confines

end ParseCache.Workspace
