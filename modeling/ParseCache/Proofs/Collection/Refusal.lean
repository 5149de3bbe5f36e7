/-
  ParseCache.Proofs.Collection.Refusal — what a refused request leaves behind.

  A request that names several files is refused as a whole.  Requests that
  update or remove documents look at all entries before they begin, and so does
  `create`, as far as parts and keys are concerned.  Whether a file exists it
  asks only when the turn of its entry has come.  By then buffers may have been
  stored, other documents may owe a reparse, and the documents of earlier
  entries are there, and all of it stays.

  Main results:
    * `punctual_of_reached` — in every state the last change of the buffers is
      in the past;
    * `createAll_refused` — where a missing file stops the entries, and what it
      finds done;
    * `refused_create` — a refused `create` leaves everything as it was exactly
      if it was refused before the first entry had any effect;
    * `created_before_missing` — the hole: a document that comes out of a
      refused request.
-/
import ParseCache.Proofs.Collection.LateResults

namespace ParseCache

variable {ι υ σ : Type}

/-- What fails after a map has failed before it. -/
theorem error_of_map_error {α β : Type} {f : α → β} {x : Except DocumentError α}
    {refusal : DocumentError} (h : x.map f = .error refusal) : x = .error refusal := by
  cases x with
  | error _ =>
    cases h
    rfl
  | ok _ => cases h

namespace Workspace

variable {w w' w'' : Workspace ι υ σ}

/-! ## §1. The last change of the buffers. -/

/-- Time went on, and the buffers were left alone or last changed by then. -/
structure Ages (w w' : Workspace ι υ σ) : Prop where
  clock : w.clock.last ≤ w'.clock.last
  buffers : w'.buffers = w.buffers ∨ w'.buffers.changed ≤ w'.clock.last

namespace Ages

theorem refl (w : Workspace ι υ σ) : Ages w w := ⟨TimePoint.le_refl _, Or.inl rfl⟩

theorem trans (h : Ages w w') (h' : Ages w' w'') : Ages w w'' where
  clock := TimePoint.le_trans h.clock h'.clock
  buffers := by
    rcases h'.buffers with hsame | hpast
    · rw [hsame]
      exact h.buffers.imp_right fun hpast => TimePoint.le_trans hpast h'.clock
    · exact Or.inr hpast

theorem of_eq (hclock : w.clock.last ≤ w'.clock.last) (hbuffers : w'.buffers = w.buffers) :
    Ages w w' := ⟨hclock, Or.inl hbuffers⟩

theorem of_marks {ns : List Nat} (h : Marks ns w w') : Ages w w' := of_eq h.clock h.buffers

end Ages

theorem ages_now (w : Workspace ι υ σ) : Ages w w.now.2 :=
  .of_eq (TimePoint.le_of_lt w.clock.last_lt_now) rfl

theorem ages_touch (w : Workspace ι υ σ) (path : Path) : Ages w (w.touch path).2 :=
  .of_marks (marks_touch w path)

/-- A buffer that is stored changes the table now. -/
theorem ages_putBuffer (w : Workspace ι υ σ) (path : Path) (content : String) :
    Ages w (w.putBuffer path content) :=
  ⟨TimePoint.le_of_lt w.clock.last_lt_now, Or.inr (TimePoint.le_refl _)⟩

/-- So does one that is dropped, if it was there. -/
theorem ages_dropBuffer (w : Workspace ι υ σ) (path : Path) : Ages w (w.dropBuffer path).2 := by
  rcases dropBuffer_cases w path with ⟨hsome, heq⟩ | ⟨-, heq⟩
  · have hchanged : (w.buffers.remove path w.clock.now.1).2.changed = w.clock.now.1 := by
      have hhas : w.buffers.files.has path = true := (Table.has_eq_isSome_get? _ _).trans hsome
      rw [Buffers.remove, if_pos hhas]
    rw [heq]
    refine ⟨TimePoint.le_of_lt w.clock.last_lt_now, Or.inr ?_⟩
    show (w.buffers.remove path w.clock.now.1).2.changed ≤ w.clock.now.1
    rw [hchanged]
    exact TimePoint.le_refl _
  · rw [heq]
    exact .refl w

/-- Creating one document leaves the surroundings alone. -/
theorem createOne_rest (w : Workspace ι υ σ) (e : FileEntry) :
    (w.createOne e).2.disk = w.disk ∧ (w.createOne e).2.buffers = w.buffers ∧
      (w.createOne e).2.parts = w.parts ∧ (w.createOne e).2.requireFiles = w.requireFiles := by
  rcases w.createOne_cases e with ⟨-, heq⟩ | ⟨part, -, -, -, heq⟩ | ⟨part, -, -, heq⟩ <;>
    rw [heq] <;> exact ⟨rfl, rfl, rfl, rfl⟩

theorem ages_createOne (w : Workspace ι υ σ) (e : FileEntry) : Ages w (w.createOne e).2 :=
  .of_eq (drift_createOne w e).clock (w.createOne_rest e).2.1

theorem ages_modify (w : Workspace ι υ σ) (n : Nat) (f : Document ι υ → Document ι υ) :
    Ages w (w.modify n f) := .of_eq (TimePoint.le_refl _) rfl

/-- A request changes buffers, if at all, while it runs. -/
theorem confines_ages : Confines (Ages : Workspace ι υ σ → Workspace ι υ σ → Prop) where
  refl := .refl
  trans := .trans
  putBuffer := ages_putBuffer
  touch := ages_touch
  revise w n _ := ages_modify w n _

theorem ages_modifyHeld (w : Workspace ι υ σ) (f : Document ι υ → Document ι υ) :
    Ages w (w.modifyHeld f) :=
  confines_ages.foldl (fun w n => ages_modify w n f) w.held w

/-- A document that is let go of leaves its buffer to the request. -/
theorem ages_evict (w : Workspace ι υ σ) (key : DocumentKey) : Ages w (w.evict key) :=
  .of_eq (TimePoint.le_refl _) rfl

theorem ages_withoutParts (w : Workspace ι υ σ) (ids : List String) :
    Ages w (w.withoutParts ids) :=
  .of_eq (TimePoint.le_refl _) rfl

theorem ages_upsertParts (w : Workspace ι υ σ) (parts : List ProjectPart) :
    Ages w (w.upsertParts parts).2 := by
  have hregistered : Ages w (w.registerParts parts).2 :=
    .of_eq (ProjectParts.last_upsert parts w.parts w.clock) rfl
  have hinstalled : Ages (w.registerParts parts).2
      ((w.registerParts parts).1.foldl installPart (w.registerParts parts).2) := by
    rw [installParts_rest]
    exact .of_eq (TimePoint.le_refl _) rfl
  exact (hregistered.trans hinstalled).trans (.of_marks (marks_markOutdated _))

/-- Whatever occurs, the cache only gets older. -/
theorem ages_perform (w : Workspace ι υ σ) (o : Occurrence) : Ages w (o.perform w) := by
  cases o with
  | upsertParts parts => exact ages_upsertParts w parts
  | action a =>
    cases a with
    | create entries => exact confines_ages.create ages_createOne w entries
    | updateEntries entries => exact confines_ages.updateEntries w entries
    | removeDocuments entries =>
      exact confines_ages.removeDocuments ages_dropBuffer ages_evict w entries
    | upsertParts given =>
      have hbuilt : Ages w { w with clock := (ProjectPart.newList given w.clock).2 } :=
        .of_eq (ProjectPart.newList_stamps given w.clock).1 rfl
      exact hbuilt.trans (ages_upsertParts _ _)
    | removeParts ids => exact confines_ages.removeParts ages_evict ages_withoutParts w ids
    | focus path => exact ages_modifyHeld w _
    | reveal paths => exact ages_modifyHeld w _
    | touch path => exact ages_touch w path
    | markOutdated => exact .of_marks (marks_markOutdated w)
    | markIfOutdated n => exact .of_marks (marks_markDirtyIf w _ n)
    | markIfDepends n path => exact .of_marks (marks_markDirtyIf w _ n)
    | markDirty n => exact .of_marks (marks_markDirty w n)
    | setPart n id arguments => exact (ages_now w).trans (ages_modify _ n _)
    | setRevision n revision => exact ages_modify w n _
    | setUsed n on => exact ages_modify w n _
    | setVisible n on => exact ages_modify w n _
    | write path node => exact .of_eq (TimePoint.le_refl _) rfl
    | erase path => exact .of_eq (TimePoint.le_refl _) rfl

/-- Buffers age through whatever occurs while an engine works. -/
theorem ages_meanwhile (h : Meanwhile w w') : Ages w w' := by
  induction h with
  | nothing => exact .refl w
  | tick _ ih => exact ih.trans (ages_now _)
  | occur _ o ih => exact ih.trans (ages_perform _ o)
  | remember _ _ ih => exact ih.trans (.of_eq (TimePoint.le_refl _) rfl)

/-- A result changes no buffer. -/
theorem ages_incorporate (w : Workspace ι υ σ) (n : Nat) (r : UpdateResult) :
    Ages w (w.incorporate n r) := by
  rw [incorporate_eq]
  exact .of_eq (TimePoint.le_refl _) rfl

theorem ages_update (w : Workspace ι υ σ) {e : Engine ι υ σ} (he : e.Orderly) (mode : UpdateMode)
    (n : Nat) : Ages w (w.update e mode n) := by
  cases hd : w.documents[n]? with
  | none =>
    rw [update_of_none hd]
    exact .refl w
  | some d =>
    rw [update_eq_incorporate hd]
    have hcall : Ages w (w.outcome e mode d).2 :=
      ages_meanwhile (Engine.meanwhile_run he _ _ w mode)
    exact (hcall.trans (ages_modify _ n _)).trans (ages_incorporate _ n _)

/-- The last change of the buffers is in the past. -/
def Punctual (w : Workspace ι υ σ) : Prop := w.buffers.changed ≤ w.clock.last

theorem Punctual.ages (h : w.Punctual) (hages : Ages w w') : w'.Punctual := by
  rcases hages.buffers with hsame | hpast
  · unfold Punctual
    rw [hsame]
    exact TimePoint.le_trans h hages.clock
  · exact hpast

/-- In every state that is reached, buffers changed in the past. -/
theorem punctual_of_reached (h : Reached w) : w.Punctual := by
  induction h with
  | start disk requireFiles context => exact TimePoint.le_refl _
  | meanwhile _ hmeanwhile ih => exact ih.ages (ages_meanwhile hmeanwhile)
  | update _ he mode n ih => exact ih.ages (ages_update _ he mode n)
  | incorporate _ n r ih => exact ih.ages (ages_incorporate _ n r)

/-- Unsaved content that is stored now shows in the buffers, even if it is the
content they had. -/
theorem Punctual.buffers_putBuffer_ne (h : w.Punctual) (path : Path) (content : String) :
    (w.putBuffer path content).buffers ≠ w.buffers := by
  intro hsame
  have hchanged : w.clock.now.1 = w.buffers.changed := congrArg Buffers.changed hsame
  exact TimePoint.ne_of_lt (TimePoint.lt_of_le_of_lt h w.clock.last_lt_now) hchanged.symm

/-! ## §2. Requests that look first. -/

/-- A refused request to update documents leaves everything as it was. -/
theorem refused_updateEntries {entries : List FileEntry} {refusal : DocumentError}
    (h : (w.updateEntries entries).1 = .error refusal) : (w.updateEntries entries).2 = w := by
  unfold updateEntries at h ⊢
  split
  · rfl
  · rename_i hok
    rw [hok] at h
    cases h

/-- A refused request to remove documents leaves everything as it was. -/
theorem refused_removeDocuments {entries : List FileEntry} {refusal : DocumentError}
    (h : (w.removeDocuments entries).1 = .error refusal) : (w.removeDocuments entries).2 = w := by
  unfold removeDocuments at h ⊢
  split
  · rfl
  · rename_i hok
    rw [hok] at h
    cases h

/-! ## §3. Entries in their turn. -/

/-- Every entry belongs to a registered part. -/
def Placed (w : Workspace ι υ σ) (entries : List FileEntry) : Prop :=
  ∀ e ∈ entries, ∃ part, w.parts.find e.part = .ok part

/-- A request is refused for an unknown part, or every entry has its part. -/
theorem requireParts_cases (w : Workspace ι υ σ) (entries : List FileEntry) :
    (∃ id, w.requireParts entries = .error (.projectPartDoesNotExist id)) ∨
      w.requireParts entries = .ok () ∧ w.Placed entries := by
  induction entries with
  | nil => exact Or.inr ⟨rfl, fun e he => absurd he List.not_mem_nil⟩
  | cons e rest ih =>
    unfold requireParts
    cases hpart : w.parts.parts.get? e.part with
    | none =>
      left
      rw [ProjectParts.find, hpart]
      exact ⟨e.part, rfl⟩
    | some part =>
      have hfind : w.parts.find e.part = .ok part := by rw [ProjectParts.find, hpart]
      rw [hfind]
      refine ih.imp id fun hrest => ⟨hrest.1, fun e' he' => ?_⟩
      rcases List.mem_cons.1 he' with rfl | he'
      · exact ⟨part, hfind⟩
      · exact hrest.2 e' he'

/-- A request is refused for a key that is held or repeated, or passes. -/
theorem requireNew_cases (entries : List FileEntry) : ∀ seen : List DocumentKey,
    (∃ path part, w.requireNew entries seen = .error (.documentAlreadyExists path part)) ∨
      w.requireNew entries seen = .ok () := by
  induction entries with
  | nil =>
    intro seen
    exact Or.inr rfl
  | cons e rest ih =>
    intro seen
    unfold requireNew
    split
    · exact Or.inl ⟨_, _, rfl⟩
    · exact ih _

/-- A request is refused for its parts or its keys before anything is done, or
comes down to its entries. -/
theorem create_cases (w : Workspace ι υ σ) (entries : List FileEntry) :
    (∃ refusal, (∀ path, refusal ≠ .fileDoesNotExist path) ∧
      w.create entries = (.error refusal, w)) ∨
    (w.Placed entries ∧ w.requireNew entries [] = .ok () ∧
      w.create entries = createAll entries w) := by
  unfold create
  rcases w.requireParts_cases entries with ⟨id, hparts⟩ | ⟨hparts, hplaced⟩
  · rw [hparts]
    exact Or.inl ⟨.projectPartDoesNotExist id, nofun, rfl⟩
  · rw [hparts]
    rcases w.requireNew_cases entries [] with ⟨path, part, hnew⟩ | hnew
    · simp only [hnew]
      exact Or.inl ⟨.documentAlreadyExists path part, nofun, rfl⟩
    · simp only [hnew]
      exact Or.inr ⟨hplaced, trivial, trivial⟩

/-- An entry under a registered part is refused only because its file is
missing. -/
theorem createOne_refused {e : FileEntry} {part : ProjectPart} {refusal : DocumentError}
    (hpart : w.parts.find e.part = .ok part) (h : (w.createOne e).1 = .error refusal) :
    refusal = .fileDoesNotExist e.path ∧ w.requireFiles = true ∧ w.disk.holds e.path = false ∧
      (w.createOne e).2 = w.now.2 := by
  rcases w.createOne_cases e with ⟨hnone, -⟩ | ⟨_, -, hrequired, hmissing, heq⟩ | ⟨_, -, -, heq⟩
  · rw [ProjectParts.find, hnone] at hpart
    cases hpart
  · rw [heq] at h ⊢
    cases h
    exact ⟨rfl, hrequired, hmissing, rfl⟩
  · rw [heq] at h
    cases h

/-- Where files have to exist, an entry that was not refused has its file. -/
theorem holds_of_createOne {e : FileEntry} {n : Nat} (h : (w.createOne e).1 = .ok n)
    (hrequired : w.requireFiles = true) : w.disk.holds e.path = true := by
  rcases w.createOne_cases e with ⟨-, heq⟩ | ⟨_, -, -, -, heq⟩ | ⟨_, -, hfound, -⟩
  · rw [heq] at h
    cases h
  · rw [heq] at h
    cases h
  · exact hfound hrequired

/-- Storing and announcing unsaved content leaves disk and parts alone. -/
theorem announce_rest (w : Workspace ι υ σ) (e : FileEntry) :
    (w.announce e).disk = w.disk ∧ (w.announce e).parts = w.parts ∧
      (w.announce e).requireFiles = w.requireFiles := by
  unfold announce
  split
  · have hmarks := marks_touch (w.putBuffer e.path ‹_›) e.path
    refine ⟨hmarks.disk, hmarks.parts, ?_⟩
    rw [hmarks.rest]
    rfl
  · exact ⟨rfl, rfl, rfl⟩

/-- Once an entry has its document, the others have their turn. -/
theorem createAll_of_ok {e : FileEntry} {n : Nat} (h : ((w.announce e).createOne e).1 = .ok n)
    (rest : List FileEntry) :
    createAll (e :: rest) w =
      ((createAll rest ((w.announce e).createOne e).2).1.map (n :: ·),
        (createAll rest ((w.announce e).createOne e).2).2) := by
  rw [createAll_eq]
  rcases hone : (w.announce e).createOne e with ⟨refusal | m, w'⟩
  · rw [hone] at h
    cases h
  · rw [hone] at h
    cases h
    dsimp only
    rcases createAll rest w' with ⟨refusal | ns, w''⟩
    · rfl
    · rfl

/-- The entries before the missing file have had their turn, the content of
its own entry has been stored, and the time has been taken. -/
structure Stopped (w : Workspace ι υ σ) (before : List FileEntry) (e : FileEntry)
    (w' : Workspace ι υ σ) : Prop where
  required : w.requireFiles = true
  missing : w.disk.holds e.path = false
  created : ∃ ns, (createAll before w).1 = .ok ns
  left : w' = ((createAll before w).2.announce e).now.2

/-- Entries under registered parts are stopped by nothing but a missing
file. -/
theorem createAll_refused (entries : List FileEntry) :
    ∀ {w : Workspace ι υ σ} {refusal : DocumentError}, w.Placed entries →
      (createAll entries w).1 = .error refusal →
      ∃ before e after, entries = before ++ e :: after ∧ refusal = .fileDoesNotExist e.path ∧
        w.Stopped before e (createAll entries w).2 := by
  induction entries with
  | nil =>
    intro w refusal _ h
    cases h
  | cons e rest ih =>
    intro w refusal hplaced h
    obtain ⟨hdisk, hparts, hrequire⟩ := w.announce_rest e
    obtain ⟨part, hpart⟩ := hplaced e List.mem_cons_self
    rw [← hparts] at hpart
    cases hone : ((w.announce e).createOne e).1 with
    | error refusal' =>
      obtain ⟨hcause, hrequired, hmissing, hleft⟩ := createOne_refused hpart hone
      have hstop : createAll (e :: rest) w = (.error refusal', ((w.announce e).createOne e).2) := by
        rw [createAll_eq, ← Prod.eta ((w.announce e).createOne e), hone]
      rw [hstop] at h ⊢
      cases h
      rw [hrequire] at hrequired
      rw [hdisk] at hmissing
      exact ⟨[], e, rest, rfl, hcause, hrequired, hmissing, ⟨[], rfl⟩, hleft⟩
    | ok n =>
      obtain ⟨hdisk', -, hparts', hrequire'⟩ := (w.announce e).createOne_rest e
      rw [createAll_of_ok hone] at h ⊢
      have hrest := error_of_map_error h
      have hplaced' : Placed ((w.announce e).createOne e).2 rest := by
        intro e' he'
        rw [hparts', hparts]
        exact hplaced e' (List.mem_cons_of_mem _ he')
      obtain ⟨before, e', after, hentries, hcause, hstopped⟩ := ih hplaced' hrest
      obtain ⟨ns, hcreated⟩ := hstopped.created
      refine ⟨e :: before, e', after, by rw [hentries]; rfl, hcause, ?_, ?_, ?_, ?_⟩
      · rw [← hrequire, ← hrequire']
        exact hstopped.required
      · rw [← hdisk, ← hdisk']
        exact hstopped.missing
      · rw [createAll_of_ok hone, hcreated]
        exact ⟨_, rfl⟩
      · rw [createAll_of_ok hone]
        exact hstopped.left

/-- What entries that were not refused leave: one document each, held under
its key.  Their files exist, if that is required. -/
structure Created (w : Workspace ι υ σ) (entries : List FileEntry) (w' : Workspace ι υ σ) :
    Prop where
  files : w.requireFiles = true → ∀ e ∈ entries, w.disk.holds e.path = true
  length : w'.documents.length = w.documents.length + entries.length
  kept : ∀ key, w.hasDocument key = true → w'.hasDocument key = true
  held : ∀ e ∈ entries, w'.hasDocument (keyOf e) = true

/-- A request that goes through leaves a document for each entry, by induction
on the entries. -/
theorem created_createAll (entries : List FileEntry) :
    ∀ {w : Workspace ι υ σ} {ns : List Nat}, w.parts.Named → w.Known →
      (createAll entries w).1 = .ok ns → w.Created entries (createAll entries w).2 := by
  induction entries with
  | nil =>
    intro w ns _ _ _
    exact ⟨fun _ e he => absurd he List.not_mem_nil, rfl, fun _ h => h,
      fun e he => absurd he List.not_mem_nil⟩
  | cons e rest ih =>
    intro w ns hnamed hknown h
    have hstays : Stays w (w.announce e).now.2 := (confines_stays.announce w e).trans (stays_now _)
    rcases createOne_stays_or_come ((confines_stays.announce w e).named hnamed) e with
      ⟨refusal, hrefused, -⟩ | ⟨d, hkey, -, hcreated⟩
    · have hstop : (createAll (e :: rest) w).1 = .error refusal := by
        rw [createAll_eq, ← Prod.eta ((w.announce e).createOne e), hrefused]
      rw [hstop] at h
      cases h
    · have hone : ((w.announce e).createOne e).1 = .ok (w.announce e).documents.length := by
        rw [hcreated]
      have hcome : ((w.announce e).createOne e).2 = (w.announce e).now.2.come d := by rw [hcreated]
      rw [createAll_of_ok hone, hcome] at h ⊢
      obtain ⟨ns', hrest⟩ : ∃ ns', (createAll rest ((w.announce e).now.2.come d)).1 = .ok ns' := by
        cases hrest : (createAll rest ((w.announce e).now.2.come d)).1 with
        | error refusal =>
          rw [hrest] at h
          cases h
        | ok ns' => exact ⟨ns', rfl⟩
      have hafter := ih (w := (w.announce e).now.2.come d) (hstays.named hnamed)
        (known_come (hstays.known hknown) d) hrest
      obtain ⟨hdisk, -, hrequire⟩ := w.announce_rest e
      refine ⟨fun hrequired e' he' => ?_, ?_, fun key hkept => hafter.kept key ?_,
        fun e' he' => ?_⟩
      · rcases List.mem_cons.1 he' with rfl | he'
        · rw [← hdisk]
          exact holds_of_createOne hone (hrequire.trans hrequired)
        · have hfile := hafter.files (hrequire.trans hrequired) e' he'
          rw [← hdisk]
          exact hfile
      · rw [hafter.length, length_come, hstays.length, List.length_cons, Nat.add_assoc,
          Nat.add_comm 1]
      · rw [hasDocument_come (hstays.known hknown), hstays.hasDocument_eq, hkept, Bool.or_true]
      · rcases List.mem_cons.1 he' with rfl | he'
        · refine hafter.kept _ ?_
          rw [hasDocument_come (hstays.known hknown), hkey, DocumentKey.same_refl, Bool.true_or]
        · exact hafter.held e' he'

/-! ## §4. Requests to create documents. -/

/-- Nothing that the collection keeps has changed. -/
structure Untouched (w w' : Workspace ι υ σ) : Prop where
  held : w'.held = w.held
  documents : w'.documents = w.documents
  buffers : w'.buffers = w.buffers
  watches : w'.watches = w.watches

/-- If the request was refused for a missing file, that is the file of the
first entry, and the entry has no unsaved content. -/
def RefusedAtOnce (entries : List FileEntry) (refusal : DocumentError) : Prop :=
  ∀ path, refusal = .fileDoesNotExist path →
    ∃ e rest, entries = e :: rest ∧ e.path = path ∧ e.unsaved = none

/-- The first missing file stops the request.  The documents of the entries
before it were not held, and are now. -/
structure StoppedHalfWay (w : Workspace ι υ σ) (before : List FileEntry) (e : FileEntry)
    (w' : Workspace ι υ σ) : Prop extends Stopped w before e w' where
  found : ∀ e' ∈ before, w.disk.holds e'.path = true
  added : ∀ e' ∈ before, w.hasDocument (keyOf e') = false ∧ w'.hasDocument (keyOf e') = true

/-- A request that is stopped leaves what the entries before the missing file
made, and nothing of those after it. -/
theorem stoppedHalfWay_createAll (h : w.Tidy) {entries : List FileEntry}
    {refusal : DocumentError} (hplaced : w.Placed entries)
    (hnew : w.requireNew entries [] = .ok ())
    (hrefused : (createAll entries w).1 = .error refusal) :
    ∃ before e after, entries = before ++ e :: after ∧ refusal = .fileDoesNotExist e.path ∧
      w.StoppedHalfWay before e (createAll entries w).2 := by
  obtain ⟨before, e, after, rfl, hcause, hstopped⟩ := createAll_refused entries hplaced hrefused
  obtain ⟨ns, hcreated⟩ := hstopped.created
  have hbefore := created_createAll before h.named h.known hcreated
  refine ⟨before, e, after, rfl, hcause, hstopped, hbefore.files hstopped.required,
    fun e' he' => ⟨?_, ?_⟩⟩
  · exact ((requireNew_ok _ hnew).1 e' (List.mem_append_left _ he')).1
  · -- the documents of the entries before stay when the next content is announced
    have hstays := (confines_stays.announce (createAll before w).2 e).trans (stays_now _)
    rw [hstopped.left, hstays.hasDocument_eq]
    exact hbefore.held e' he'

/-- Where the first file is missing and has no unsaved content, nothing has
happened yet. -/
theorem Stopped.untouched {e : FileEntry} (h : w.Stopped [] e w') (he : e.unsaved = none) :
    w.Untouched w' := by
  have hleft : w' = (w.announce e).now.2 := h.left
  unfold announce at hleft
  rw [he] at hleft
  rw [hleft]
  exact ⟨rfl, rfl, rfl, rfl⟩

/-- Anywhere else something has. -/
theorem StoppedHalfWay.touched {before : List FileEntry} {e : FileEntry} (hw : w.Punctual)
    (h : w.StoppedHalfWay before e w') (hsame : w.Untouched w') :
    before = [] ∧ e.unsaved = none := by
  cases before with
  | cons e' rest =>
    obtain ⟨hfree, hheld⟩ := h.added e' List.mem_cons_self
    rw [hasDocument_eq_any, hsame.held, hsame.documents, ← hasDocument_eq_any, hfree] at hheld
    cases hheld
  | nil =>
    refine ⟨rfl, ?_⟩
    cases hunsaved : e.unsaved with
    | none => rfl
    | some content =>
      have hleft : w' = (w.announce e).now.2 := h.left
      unfold announce at hleft
      rw [hunsaved] at hleft
      have hbuffers : w'.buffers = (w.putBuffer e.path content).buffers := by
        rw [hleft]
        exact (marks_touch (w.putBuffer e.path content) e.path).buffers
      exact absurd (hbuffers.symm.trans hsame.buffers) (hw.buffers_putBuffer_ne _ _)

/-- A refused request leaves the collection untouched exactly if it was refused
at once.  Parts and keys are looked at first, and whatever is wrong with them
leaves everything as it was; a missing file stops the entries in their turn. -/
theorem refused_create (h : Reached w) {entries : List FileEntry} {refusal : DocumentError}
    (hrefused : (w.create entries).1 = .error refusal) :
    (w.Untouched (w.create entries).2 ↔ RefusedAtOnce entries refusal) ∧
    ((∀ path, refusal ≠ .fileDoesNotExist path) ∧ (w.create entries).2 = w ∨
      ∃ before e after, entries = before ++ e :: after ∧ refusal = .fileDoesNotExist e.path ∧
        w.StoppedHalfWay before e (w.create entries).2) := by
  suffices hcases : (∀ path, refusal ≠ .fileDoesNotExist path) ∧ (w.create entries).2 = w ∨
      ∃ before e after, entries = before ++ e :: after ∧ refusal = .fileDoesNotExist e.path ∧
        w.StoppedHalfWay before e (w.create entries).2 by
    refine ⟨?_, hcases⟩
    rcases hcases with ⟨hcause, hsame⟩ | ⟨before, e, after, rfl, rfl, hstopped⟩
    · rw [hsame]
      exact ⟨fun _ path hpath => absurd hpath (hcause path), fun _ => ⟨rfl, rfl, rfl, rfl⟩⟩
    · constructor
      · intro hsame path hpath
        cases hpath
        obtain ⟨rfl, hunsaved⟩ := hstopped.touched (punctual_of_reached h) hsame
        exact ⟨e, after, rfl, rfl, hunsaved⟩
      · intro honce
        obtain ⟨e', rest, hentries, hpath, hunsaved⟩ := honce e.path rfl
        cases before with
        | nil =>
          obtain ⟨rfl, -⟩ := List.cons.inj hentries
          exact hstopped.toStopped.untouched hunsaved
        | cons first rest' =>
          -- the first file would be the missing one, and was found
          obtain ⟨rfl, -⟩ := List.cons.inj hentries
          have hfound := hstopped.found first List.mem_cons_self
          rw [hpath, hstopped.missing] at hfound
          cases hfound
  rcases w.create_cases entries with ⟨refusal', hcause, heq⟩ | ⟨hplaced, hnew, heq⟩
  · rw [heq] at hrefused ⊢
    cases hrefused
    exact Or.inl ⟨hcause, rfl⟩
  · rw [heq] at hrefused ⊢
    exact Or.inr (stoppedHalfWay_createAll (tidy_of_reached h) hplaced hnew hrefused)

/-- Of two files only the first exists. -/
def oneOfTwo : Session Unit Unit Unit :=
  [Action.write ⟨"/a.c"⟩ (.text ""), .upsertParts [("p", [])]].foldl Session.act
    (Session.start (.fresh []) true ())

theorem reached_oneOfTwo : Reached oneOfTwo := (reached_start _ _ _).acts _

/-- The missing file is named first. -/
theorem refused_create_missingFirst :
    oneOfTwo.Untouched (oneOfTwo.create [.new ⟨"/b.c"⟩ "p", .new ⟨"/a.c"⟩ "p"]).2 := by
  have hrefused : (oneOfTwo.create [.new ⟨"/b.c"⟩ "p", .new ⟨"/a.c"⟩ "p"]).1
      = .error (.fileDoesNotExist ⟨"/b.c"⟩) := rfl
  refine (refused_create reached_oneOfTwo hrefused).1.2 fun path hpath => ?_
  cases hpath
  exact ⟨_, _, rfl, rfl, rfl⟩

/-- The missing file is named second.  The request is refused, and the document
of the first is there. -/
theorem created_before_missing :
    ¬ ∀ (w : Session Unit Unit Unit) (entries : List FileEntry) (refusal : DocumentError),
      Reached w → (w.create entries).1 = .error refusal →
        w.Untouched (w.create entries).2 := by
  intro h
  have hrefused : (oneOfTwo.create [.new ⟨"/a.c"⟩ "p", .new ⟨"/b.c"⟩ "p"]).1
      = .error (.fileDoesNotExist ⟨"/b.c"⟩) := rfl
  have hheld := (h oneOfTwo _ _ reached_oneOfTwo hrefused).held
  revert hheld
  decide

end Workspace

end ParseCache
