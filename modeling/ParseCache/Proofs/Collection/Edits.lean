/-
  ParseCache.Proofs.Collection.Edits — a request with the state of editors.

  A request to update documents is a list of entries, and the collection goes
  through them one by one: it stores the content, notes the revision, and tells
  everybody who depends on the file.  Entries may repeat a path, a file may have
  documents under several parts, and a header may concern documents of other
  files.  What the loop comes to can be said without it: for every path the last
  entry counts, and a document is dirty afterwards if it depends on any of the
  files.  A request that names a file without documents is refused before any of
  this begins.

  Main results:
    * `Edited` — what a list of entries comes to;
    * `Edited.trans` — one list after another is the two in a row;
    * `edited_step`, `edited_updateAll` — one entry, and the whole loop;
    * `edited_updateEntries` — a request is refused and changes nothing, or does
      exactly this, in every state.
-/
import ParseCache.Proofs.Collection.OwnFile
import ParseCache.Proofs.Collection.States

namespace ParseCache

variable {ι υ σ : Type}

/-! ## §1. What entries come to. -/

/-- The entries for a file, in order. -/
def entriesFor (entries : List FileEntry) (path : Path) : List FileEntry :=
  entries.filter (·.path.same path)

/-- The last revision that is given for a file. -/
def lastRevision? (entries : List FileEntry) (path : Path) : Option UInt32 :=
  ((entriesFor entries path).map (·.revision)).getLast?

/-- The last content that is given for a file. -/
def lastContent? (entries : List FileEntry) (path : Path) : Option String :=
  ((entriesFor entries path).filterMap (·.unsaved)).getLast?

/-- What comes later counts. -/
theorem lastRevision?_append (before after : List FileEntry) (path : Path) :
    lastRevision? (before ++ after) path =
      (lastRevision? after path).or (lastRevision? before path) := by
  unfold lastRevision? entriesFor
  rw [List.filter_append, List.map_append, List.getLast?_append]

/-- Of two lists the second has the last word. -/
theorem lastContent?_append (before after : List FileEntry) (path : Path) :
    lastContent? (before ++ after) path =
      (lastContent? after path).or (lastContent? before path) := by
  unfold lastContent? entriesFor
  rw [List.filter_append, List.filterMap_append, List.getLast?_append]

/-- The document depends on one of the files.  If that is its own, it has to
exist. -/
def Document.Concerned (d : Document ι υ) (disk : Disk) (entries : List FileEntry) : Prop :=
  ∃ e ∈ entries, d.dependencies.contains e.path = true ∧
    (e.path.same d.key.path = true → disk.holds d.key.path = true)

/-- A document is concerned with two lists if it is with one of them. -/
theorem Document.concerned_append (d : Document ι υ) (disk : Disk)
    (before after : List FileEntry) :
    d.Concerned disk (before ++ after) ↔ d.Concerned disk before ∨ d.Concerned disk after := by
  unfold Document.Concerned
  simp only [List.mem_append, or_and_right, exists_or]

/-- What a list of entries makes of the document `d`, if that is held: it has the
last revision given for its file, and is dirty by an event of its own if it is
concerned.  Nothing else of it changes. -/
structure EditedDocument (entries : List FileEntry) (disk : Disk) (held : Prop)
    (d d' : Document ι υ) : Prop where
  rest : d' = { d with revision := d'.revision, dirty := d'.dirty, dirtyPoint := d'.dirtyPoint }
  revised : held → d'.revision = (lastRevision? entries d.key.path).getD d.revision
  unrevised : ¬ held → d'.revision = d.revision
  marked : held → d.Concerned disk entries → d'.dirty = true ∧ d.dirtyPoint < d'.dirtyPoint
  unmarked : ¬ (held ∧ d.Concerned disk entries) →
    d'.dirty = d.dirty ∧ d'.dirtyPoint = d.dirtyPoint

namespace EditedDocument

variable {before after entries : List FileEntry} {disk : Disk} {held : Prop}
  {d d' d'' : Document ι υ}

/-- The latest dirty event is not forgotten. -/
theorem dirtyPoint_le (h : EditedDocument entries disk held d d') :
    d.dirtyPoint ≤ d'.dirtyPoint := by
  by_cases hmarked : held ∧ d.Concerned disk entries
  · exact TimePoint.le_of_lt (h.marked hmarked.1 hmarked.2).2
  · rw [(h.unmarked hmarked).2]
    exact TimePoint.le_refl _

theorem concerned_iff (h : EditedDocument entries disk held d d') (others : List FileEntry) :
    d'.Concerned disk others ↔ d.Concerned disk others := by
  unfold Document.Concerned
  rw [h.rest]

theorem trans (h : EditedDocument before disk held d d')
    (h' : EditedDocument after disk held d' d'') :
    EditedDocument (before ++ after) disk held d d'' where
  rest := by rw [h'.rest, h.rest]
  revised hheld := by
    have hkey : d'.key = d.key := by rw [h.rest]
    rw [h'.revised hheld, hkey, h.revised hheld, lastRevision?_append]
    cases lastRevision? after d.key.path <;> rfl
  unrevised hheld := (h'.unrevised hheld).trans (h.unrevised hheld)
  marked hheld hconcerned := by
    by_cases hafter : d.Concerned disk after
    · have hmarked := h'.marked hheld ((h.concerned_iff after).2 hafter)
      exact ⟨hmarked.1, TimePoint.lt_of_le_of_lt h.dirtyPoint_le hmarked.2⟩
    · -- it was marked before, and is left alone after that
      have hbefore := ((d.concerned_append disk before after).1 hconcerned).resolve_right hafter
      have hmarked := h.marked hheld hbefore
      obtain ⟨hdirty, hpoint⟩ := h'.unmarked fun h'' =>
        hafter ((h.concerned_iff after).1 h''.2)
      rw [hdirty, hpoint]
      exact hmarked
  unmarked hnot := by
    have hbefore : ¬ (held ∧ d.Concerned disk before) := fun h'' =>
      hnot ⟨h''.1, (d.concerned_append disk before after).2 (Or.inl h''.2)⟩
    have hafter : ¬ (held ∧ d'.Concerned disk after) := fun h'' =>
      hnot ⟨h''.1, (d.concerned_append disk before after).2
        (Or.inr ((h.concerned_iff after).1 h''.2))⟩
    exact ⟨(h'.unmarked hafter).1.trans (h.unmarked hbefore).1,
      (h'.unmarked hafter).2.trans (h.unmarked hbefore).2⟩

/-- One entry changes the revision, and then it may mark the document. -/
theorem single {e : FileEntry} {d₁ : Document ι υ}
    (hrevised : d₁ = { d with revision := d₁.revision } ∧
      (held → d₁.revision = (lastRevision? [e] d.key.path).getD d.revision) ∧
      (¬ held → d₁.revision = d.revision))
    (hmarked : ((held ∧ d.Concerned disk [e]) ∧
        ∃ time, d₁.dirtyPoint < time ∧ d' = d₁.markDirty time) ∨
      ¬ (held ∧ d.Concerned disk [e]) ∧ d' = d₁) : EditedDocument [e] disk held d d' := by
  obtain ⟨hrest, hheld, hnot⟩ := hrevised
  have hpoint : d₁.dirtyPoint = d.dirtyPoint := by rw [hrest]
  have hdirty : d₁.dirty = d.dirty := by rw [hrest]
  rcases hmarked with ⟨hreached, time, hlt, rfl⟩ | ⟨hleft, rfl⟩
  · refine ⟨?_, hheld, hnot, fun _ _ => ⟨rfl, ?_⟩, fun hleft => absurd hreached hleft⟩
    · rw [hrest]
      rfl
    · rw [← hpoint]
      exact hlt
  · refine ⟨?_, hheld, hnot, fun h h' => absurd ⟨h, h'⟩ hleft, fun _ => ⟨hdirty, hpoint⟩⟩
    rw [hrest]

end EditedDocument

namespace Workspace

/-- What a list of entries comes to: every path has the last content that is
given for it, the held documents are edited, and only time goes on besides. -/
structure Edited (entries : List FileEntry) (w w' : Workspace ι υ σ) : Prop where
  rest : w' = { w with
    clock := w'.clock, buffers := w'.buffers, documents := w'.documents }
  content : ∀ path, w'.buffers.content? path =
    (lastContent? entries path).or (w.buffers.content? path)
  length : w'.documents.length = w.documents.length
  documents : ∀ (n : Nat) (d : Document ι υ), w.documents[n]? = some d →
    ∃ d', w'.documents[n]? = some d' ∧ EditedDocument entries w.disk (n ∈ w.held) d d'

theorem Edited.nil (w : Workspace ι υ σ) : Edited [] w w where
  rest := rfl
  content _ := rfl
  length := rfl
  documents n d hd := by
    refine ⟨d, hd, rfl, fun _ => rfl, fun _ => rfl, fun _ hconcerned => ?_, fun _ => ⟨rfl, rfl⟩⟩
    obtain ⟨e, he, -⟩ := hconcerned
    cases he

/-- Two lists of edits, one after the other, come to the list of both. -/
theorem Edited.trans {before after : List FileEntry} {w w' w'' : Workspace ι υ σ}
    (h : Edited before w w') (h' : Edited after w' w'') : Edited (before ++ after) w w'' where
  rest := by rw [h'.rest, h.rest]
  content path := by
    rw [h'.content, h.content, lastContent?_append]
    cases lastContent? after path <;> rfl
  length := h'.length.trans h.length
  documents n d hd := by
    obtain ⟨d', hd', hedited⟩ := h.documents n d hd
    obtain ⟨d'', hd'', hedited'⟩ := h'.documents n d' hd'
    have hdisk : w'.disk = w.disk := by rw [h.rest]
    have hheld : w'.held = w.held := by rw [h.rest]
    rw [hdisk, hheld] at hedited'
    exact ⟨d'', hd'', hedited.trans hedited'⟩

/-! ## §2. One entry. -/

theorem putUnsaved_rest (w : Workspace ι υ σ) (e : FileEntry) :
    w.putUnsaved e = { w with
      clock := (w.putUnsaved e).clock, buffers := (w.putUnsaved e).buffers } := by
  unfold putUnsaved
  split <;> rfl

/-- An edited entry changes buffers and documents, and time goes on. -/
theorem revised_rest (w : Workspace ι υ σ) (e : FileEntry) :
    w.revised e = { w with
      clock := (w.revised e).clock
      buffers := (w.putUnsaved e).buffers
      documents := (w.revised e).documents } := by
  unfold revised
  rw [modifyAll_rest]
  generalize (List.foldl _ _ _ : Workspace ι υ σ).documents = documents
  rw [putUnsaved_rest]

/-- The content of an entry is stored under its path. -/
theorem content?_putUnsaved (w : Workspace ι υ σ) (e : FileEntry) (path : Path) :
    (w.putUnsaved e).buffers.content? path =
      (lastContent? [e] path).or (w.buffers.content? path) := by
  unfold putUnsaved lastContent? entriesFor
  -- the entry has content or not, and is for this path or not
  cases hunsaved : e.unsaved <;> cases hsame : e.path.same path <;>
    simp [putBuffer, Buffers.content?_put, Path.same_comm path, hsame, hunsaved]

/-- Only the pieces of a path are compared with what a document depends on. -/
theorem isAffectedBy_congr (d : Document ι υ) (disk : Disk) {p q : Path}
    (h : p.same q = true) : d.isAffectedBy disk p = d.isAffectedBy disk q := by
  have hown : p.same d.key.path = q.same d.key.path := Keyed.same_congr h d.key.path
  unfold Document.isAffectedBy
  rw [PathSet.contains_congr _ h, hown]

/-- A document is concerned with an entry if a change of its file affects it. -/
theorem concerned_singleton (d : Document ι υ) (disk : Disk) (e : FileEntry) :
    d.Concerned disk [e] ↔ d.isAffectedBy disk e.path = true := by
  unfold Document.Concerned Document.isAffectedBy Document.fileExists
  cases hown : e.path.same d.key.path <;> simp [hown]

/-- The held documents of the file have the revision of the entry. -/
theorem getElem?_revised {w : Workspace ι υ σ} {n : Nat} {d : Document ι υ}
    (hd : w.documents[n]? = some d) (e : FileEntry) :
    (w.revised e).documents[n]? = some
      (if n ∈ w.held ∧ e.path.same d.key.path = true then { d with revision := e.revision }
        else d) := by
  have hput : (w.putUnsaved e).documents[n]? = some d := by
    rw [putUnsaved_rest]
    exact hd
  have hmem : n ∈ (w.putUnsaved e).documentsOf e.path ↔
      n ∈ w.held ∧ e.path.same d.key.path = true := by
    unfold documentsOf
    rw [mem_heldWhere, hput, Option.any_some, Path.same_comm, putUnsaved_rest]
  unfold revised
  by_cases hlisted : n ∈ (w.putUnsaved e).documentsOf e.path
  · rw [if_pos (hmem.1 hlisted)]
    exact getElem?_modifyAll rfl _ _ hlisted hput
  · rw [if_neg fun h => hlisted (hmem.2 h), getElem?_modifyAll_of_notMem _ _ _ hlisted]
    exact hput

/-- An entry reaches the held documents it concerns. -/
theorem mem_touch_revised {w : Workspace ι υ σ} {e : FileEntry}
    (hnormal : e.path.normalize.same e.path = true) {n : Nat} {d : Document ι υ}
    (hd : w.documents[n]? = some d) :
    n ∈ ((w.revised e).touch e.path).1 ↔ n ∈ w.held ∧ d.Concerned w.disk [e] := by
  have haffected : ∀ d' : Document ι υ, d'.key = d.key → d'.dependencies = d.dependencies →
      (d'.isAffectedBy (w.revised e).disk e.path.normalize = true ↔ d.Concerned w.disk [e]) := by
    intro d' hkey hdependencies
    rw [disk_revised, isAffectedBy_congr d' w.disk hnormal, concerned_singleton]
    unfold Document.isAffectedBy Document.fileExists
    rw [hkey, hdependencies]
  rw [mem_touch, getElem?_revised hd, Option.any_some, (confines_stays.revised w e).held]
  apply and_congr_right
  intro _
  split
  · exact haffected _ rfl rfl
  · exact haffected d rfl rfl

theorem revision_revise (d : Document ι υ) (e : FileEntry) (held : Prop) [Decidable held] :
    let d' := if held ∧ e.path.same d.key.path = true then { d with revision := e.revision } else d
    d' = { d with revision := d'.revision } ∧
      (held → d'.revision = (lastRevision? [e] d.key.path).getD d.revision) ∧
      (¬ held → d'.revision = d.revision) := by
  unfold lastRevision? entriesFor
  by_cases hheld : held <;> cases hsame : e.path.same d.key.path <;> simp [hheld, hsame]

/-- One turn of the loop does what a list of one entry comes to. -/
theorem edited_step {w : Workspace ι υ σ} (hdated : w.Dated) {e : FileEntry}
    (hnormal : e.path.normalize.same e.path = true) :
    Edited [e] w ((w.revised e).touch e.path).2 := by
  have hmarks := marks_touch (w.revised e) e.path
  refine ⟨?_, fun path => ?_, ?_, fun n d hd => ?_⟩
  · rw [hmarks.rest, revised_rest]
  · rw [hmarks.buffers, revised_rest]
    exact content?_putUnsaved w e path
  · rw [hmarks.length, (confines_stays.revised w e).length]
  · obtain ⟨d', hd', hmarked⟩ :=
      hmarks.marked_or_same (confines_dated.revised w e hdated) (getElem?_revised hd e)
    rw [mem_touch_revised hnormal hd] at hmarked
    exact ⟨d', hd', .single (revision_revise d e (n ∈ w.held)) hmarked⟩

/-! ## §3. The whole request. -/

/-- The documents of a file are the same wherever documents only stay. -/
theorem Stays.documentsOf_eq {w w' : Workspace ι υ σ} (h : Stays w w') (path : Path) :
    w'.documentsOf path = w.documentsOf path := by
  unfold documentsOf heldWhere
  rw [h.held]
  apply List.filter_congr
  intro n _
  cases hd : w.documents[n]? with
  | none =>
    have hlen : w.documents.length ≤ n := List.getElem?_eq_none_iff.1 hd
    rw [List.getElem?_eq_none (by rw [h.length]; exact hlen)]
  | some d =>
    obtain ⟨d', hd', hkey, -⟩ := h.document n d hd
    rw [hd', Option.any_some, Option.any_some, hkey]

/-- Entry by entry, the loop edits documents and lists those of the file. -/
theorem edited_updateAll (entries : List FileEntry) :
    ∀ {w : Workspace ι υ σ}, w.Dated → (∀ e ∈ entries, e.path.normalize.same e.path = true) →
      Edited entries w (updateAll entries w).2 ∧
        (updateAll entries w).1 = entries.flatMap fun e => w.documentsOf e.path := by
  induction entries with
  | nil => exact fun _ _ => ⟨.nil _, rfl⟩
  | cons e rest ih =>
    intro w hdated hnormal
    have hstep := edited_step hdated (hnormal e List.mem_cons_self)
    have hafter : ((w.revised e).touch e.path).2.Dated :=
      dated_touch _ e.path (confines_dated.revised w e hdated)
    obtain ⟨hrest, hlisted⟩ := ih hafter fun e' he' => hnormal e' (List.mem_cons_of_mem _ he')
    rw [updateAll_cons]
    refine ⟨hstep.trans hrest, ?_⟩
    -- the keys are the same wherever the files are looked up
    have hkeys : Stays w ((w.revised e).touch e.path).2 :=
      (confines_stays.revised w e).trans (stays_touch _ e.path)
    rw [hlisted, (confines_stays.putUnsaved w e).documentsOf_eq, List.flatMap_cons]
    simp only [hkeys.documentsOf_eq]

/-- A document of the file at `path` is held. -/
def HoldsFile (w : Workspace ι υ σ) (path : Path) : Prop :=
  ∃ n ∈ w.held, ∃ d, w.documents[n]? = some d ∧ d.key.path.same path = true

theorem holdsFile_iff {w : Workspace ι υ σ} {path : Path} :
    w.HoldsFile path ↔ (w.documentsOf path).isEmpty = false := by
  unfold documentsOf HoldsFile
  rw [List.isEmpty_eq_false_iff_exists_mem]
  simp only [mem_heldWhere, Option.any_eq_true]

/-- A request that has an entry for a file without documents is refused for the
first one, and changes nothing.  Any other is accepted, and comes to what its
entries say; it returns the documents of each file in key order, entry by
entry. -/
theorem edited_updateEntries {engines : Engine ι υ σ → Prop} {direct : Bool}
    {w : Workspace ι υ σ} (h : Arises engines direct w) {entries : List FileEntry}
    (hnormal : ∀ e ∈ entries, e.path.normalize.same e.path = true) :
    (∀ before e after, entries = before ++ e :: after →
      (∀ e' ∈ before, w.HoldsFile e'.path) → ¬ w.HoldsFile e.path →
        w.updateEntries entries = (.error (.documentDoesNotExist e.path e.part), w)) ∧
    ((∀ e ∈ entries, w.HoldsFile e.path) →
      (w.updateEntries entries).1 = .ok (entries.flatMap fun e => w.documentsOf e.path) ∧
        (∀ e ∈ entries, w.Lists e.path (w.documentsOf e.path)) ∧
        Edited entries w (w.updateEntries entries).2) := by
  constructor
  · rintro before e after rfl hbefore hnone
    have hfirst : (before ++ e :: after).find? (fun e => (w.documentsOf e.path).isEmpty) =
        some e := by
      rw [List.find?_eq_some_iff_append]
      rw [holdsFile_iff, Bool.not_eq_false] at hnone
      refine ⟨hnone, before, after, rfl, fun e' he' => ?_⟩
      rw [holdsFile_iff.1 (hbefore e' he')]
      rfl
    unfold updateEntries refuseFirst
    rw [hfirst]
  · intro hall
    have hnone : entries.find? (fun e => (w.documentsOf e.path).isEmpty) = none := by
      rw [List.find?_eq_none]
      intro e he
      rw [holdsFile_iff.1 (hall e he)]
      exact Bool.false_ne_true
    obtain ⟨hedited, hlisted⟩ := edited_updateAll entries (dated_of_arises h) hnormal
    have hloop : w.updateEntries entries =
        (.ok (updateAll entries w).1, (updateAll entries w).2) := by
      unfold updateEntries refuseFirst
      rw [hnone]
    rw [hloop, hlisted]
    exact ⟨rfl, fun e _ => lists_documentsOf (ordered_of_arises h).2 e.path, hedited⟩

/-- A file under two parts, and another file. -/
def underTwoParts : Workspace Unit Unit Unit :=
  [Action.upsertParts [("p", []), ("q", [])],
    .create [.new ⟨"/a.c"⟩ "q", .new ⟨"/b.c"⟩ "p", .new ⟨"/a.c"⟩ "p"]].foldl Action.perform
    (.new (.fresh []) false ())

/-- The first file is edited twice, and has no new content the second time. -/
def twice : List FileEntry :=
  [{ FileEntry.new ⟨"/a.c"⟩ "p" with revision := 1, unsaved := some "x" },
    { FileEntry.new ⟨"/b.c"⟩ "p" with revision := 2 },
    { FileEntry.new ⟨"/a.c"⟩ "q" with revision := 3 }]

/-- Two entries for one file: the request lists its documents for both of them,
and a request that names a document nobody holds is refused. -/
theorem edited_twice :
    (underTwoParts.updateEntries twice).1 = .ok [2, 0, 1, 2, 0] ∧
      Edited twice underTwoParts (underTwoParts.updateEntries twice).2 ∧
      underTwoParts.updateEntries (twice ++ [.new ⟨"/c.c"⟩ "p"]) =
        (.error (.documentDoesNotExist ⟨"/c.c"⟩ "p"), underTwoParts) := by
  have harises : Arises (fun _ => True) true underTwoParts := Arises.acts _ (.start _ _ _)
  have hheld : ∀ e ∈ twice, underTwoParts.HoldsFile e.path := by
    have hlisted : ∀ e ∈ twice, (underTwoParts.documentsOf e.path).isEmpty = false := by decide
    exact fun e he => holdsFile_iff.2 (hlisted e he)
  have hnone : ¬ underTwoParts.HoldsFile ⟨"/c.c"⟩ := by
    rw [holdsFile_iff]
    decide
  have hnormal : ∀ e ∈ twice ++ [.new ⟨"/c.c"⟩ "p"], e.path.normalize.same e.path = true := by
    decide +kernel
  have hnumbers : (twice.flatMap fun e => underTwoParts.documentsOf e.path) = [2, 0, 1, 2, 0] := by
    decide
  obtain ⟨hlisted, -, hedited⟩ := (edited_updateEntries harises fun e he =>
    hnormal e (List.mem_append_left _ he)).2 hheld
  rw [hnumbers] at hlisted
  exact ⟨hlisted, hedited, (edited_updateEntries harises hnormal).1 twice _ [] rfl hheld hnone⟩

end Workspace

end ParseCache
