/-
  ParseCache.Proofs.Collection.Stamps — no stamp is from the future.

  Points of time are compared to tell which of two events came first: whether a
  part changed after the parse of a document, whether a dirty event came after
  a snapshot.  Such a comparison is only worth something if no stamp lies ahead
  of the clock.  The clock issues later points than all it issued before, so it
  is enough that whatever is stamped was stamped with a point it had issued.

  Main results:
    * `Dated` — the stamps of the registered parts and of all documents, held or
      not, are points the clock has issued;
    * `dated_perform` — no action stamps anything with another;
    * `dated_upsertParts` — nor does the registration of parts built before.
-/
import ParseCache.Proofs.Update.Orderly

namespace ParseCache

variable {ι υ σ : Type}

/-! ## §1. Stamps. -/

/-- The part of the document changed by `time`, and so came its latest dirty
event. -/
structure Document.Past (d : Document ι υ) (time : TimePoint) : Prop where
  part : d.part.changed ≤ time
  dirtyPoint : d.dirtyPoint ≤ time

namespace Document.Past

variable {d : Document ι υ} {time time' : TimePoint}

/-- What was stamped by a point of time was stamped by any later one. -/
theorem later (h : d.Past time) (htime : time ≤ time') : d.Past time' :=
  ⟨TimePoint.le_trans h.part htime, TimePoint.le_trans h.dirtyPoint htime⟩

/-- A document may be given a part that has changed by then. -/
theorem setPart (h : d.Past time) {part : ProjectPart} (hpart : part.changed ≤ time) :
    (d.setPart part).Past time := by
  unfold Document.setPart
  split
  · exact ⟨hpart, h.dirtyPoint⟩
  · exact h

end Document.Past

/-- The registered parts changed by `time`. -/
def ProjectParts.Past (r : ProjectParts) (time : TimePoint) : Prop :=
  ∀ id part, r.parts.get? id = some part → part.changed ≤ time

namespace ProjectParts

theorem Past.later {r : ProjectParts} {time time' : TimePoint} (h : r.Past time)
    (htime : time ≤ time') : r.Past time' :=
  fun id part hget => TimePoint.le_trans (h id part hget) htime

/-- One part is put into the table, with a stamp that is not later. -/
theorem Past.set {r : ProjectParts} {time : TimePoint} (h : r.Past time) (id : String)
    {part : ProjectPart} (hpart : part.changed ≤ time) : Past ⟨r.parts.set id part⟩ time := by
  intro id' part' hget
  rw [get?_set] at hget
  split at hget
  · cases hget
    exact hpart
  · exact h id' part' hget

/-- Parts that are registered were stamped before, or are stamped now. -/
theorem Past.upsert (parts : List ProjectPart) :
    ∀ {r : ProjectParts} {clock : Clock}, r.Past clock.last →
      (∀ part ∈ parts, part.changed ≤ clock.last) →
      (ProjectParts.upsert parts r clock).2.1.Past (ProjectParts.upsert parts r clock).2.2.last := by
  induction parts with
  | nil =>
    intro r clock h _
    exact h
  | cons part rest ih =>
    intro r clock h hparts
    have hclock : clock.last ≤ (r.upsertOne part clock).2.2.last := last_upsert [part] r clock
    suffices hone : (r.upsertOne part clock).2.1.Past (r.upsertOne part clock).2.2.last from
      ih hone fun part' hmem =>
        TimePoint.le_trans (hparts part' (List.mem_cons_of_mem _ hmem)) hclock
    unfold upsertOne
    split
    · exact h.set _ (hparts part List.mem_cons_self)
    · split
      · exact h
      · have hnow : clock.last ≤ clock.now.2.last := TimePoint.le_of_lt clock.last_lt_now
        exact (h.later hnow).set _ (TimePoint.le_refl _)

/-- A table with fewer parts has fewer stamps. -/
theorem Past.remove (ids : List String) {time : TimePoint} :
    ∀ {r : ProjectParts}, r.Past time → (ProjectParts.remove ids r).2.Past time := by
  induction ids with
  | nil => exact fun h => h
  | cons id rest ih =>
    intro r h
    unfold ProjectParts.remove
    split
    · apply ih
      intro id' part hget
      rw [Table.get?_erase] at hget
      split at hget
      · cases hget
      · exact h id' part hget
    · exact h

end ProjectParts

namespace Workspace

/-- Every stamp is a point the clock has issued. -/
structure Dated (w : Workspace ι υ σ) : Prop where
  registered : w.parts.Past w.clock.last
  documents : ∀ (n : Nat) (d : Document ι υ), w.documents[n]? = some d → d.Past w.clock.last

/-- A new cache has stamped nothing. -/
theorem dated_new (disk : Disk) (requireFiles : Bool) (context : σ) :
    (new disk requireFiles context : Workspace ι υ σ).Dated where
  registered _ _ h := nomatch h
  documents _ _ h := nomatch h

/-! ## §2. Single steps. -/

namespace Dated

variable {w w' : Workspace ι υ σ}

/-- Where parts and documents are left alone, time may go on. -/
theorem of_eq (h : w.Dated) (hclock : w.clock.last ≤ w'.clock.last) (hparts : w'.parts = w.parts)
    (hdocuments : w'.documents = w.documents) : w'.Dated where
  registered := by
    rw [hparts]
    exact h.registered.later hclock
  documents n d hd := by
    rw [hdocuments] at hd
    exact (h.documents n d hd).later hclock

theorem now (h : w.Dated) : w.now.2.Dated :=
  h.of_eq (TimePoint.le_of_lt w.clock.last_lt_now) rfl rfl

/-- The stamps of dirty marks are points that the clock issued on the way, and
the other stamps were no later before. -/
theorem marks {ns : List Nat} (h : w.Dated) (hmarks : Marks ns w w') : w'.Dated where
  registered := by
    rw [hmarks.parts]
    exact h.registered.later hmarks.clock
  documents n d' hd' := by
    obtain ⟨d, hd, hmarked⟩ := hmarks.before hd'
    have hpast := h.documents n d hd
    rcases hmarked with rfl | ⟨time, -, hle, rfl⟩
    · exact hpast.later hmarks.clock
    · exact ⟨(hpast.later hmarks.clock).part, hle⟩

/-- A document is changed, and its stamps stay in the past. -/
theorem modify (h : w.Dated) (n : Nat) {f : Document ι υ → Document ι υ}
    (hf : ∀ d, d.Past w.clock.last → (f d).Past w.clock.last) : (w.modify n f).Dated where
  registered := h.registered
  documents m d' hd' := by
    obtain ⟨d, hd, ⟨-, rfl⟩ | rfl⟩ := exists_of_modify hd'
    · exact hf d (h.documents m d hd)
    · exact h.documents m d' hd

theorem modifyAll {f : Document ι υ → Document ι υ} (ns : List Nat) :
    ∀ {w : Workspace ι υ σ}, w.Dated →
      (∀ d, d.Past w.clock.last → (f d).Past w.clock.last) →
      (ns.foldl (fun w n => w.modify n f) w).Dated := by
  induction ns with
  | nil =>
    intro w h _
    exact h
  | cons n rest ih =>
    intro w h hf
    exact ih (h.modify n hf) hf

end Dated

/-- Where no stamp is from the future, the mark of a document is later than any
it had before. -/
theorem Marks.marked_or_same {ns : List Nat} {w w' : Workspace ι υ σ} (h : Marks ns w w')
    (hdated : w.Dated) {n : Nat} {d : Document ι υ} (hd : w.documents[n]? = some d) :
    ∃ d', w'.documents[n]? = some d' ∧
      ((n ∈ ns ∧ ∃ time, d.dirtyPoint < time ∧ d' = d.markDirty time) ∨ n ∉ ns ∧ d' = d) := by
  by_cases hn : n ∈ ns
  · obtain ⟨time, hlt, -, hmarked⟩ := h.marked n d hn hd
    have hlater := TimePoint.lt_of_le_of_lt (hdated.documents n d hd).dirtyPoint hlt
    exact ⟨_, hmarked, Or.inl ⟨hn, time, hlater, rfl⟩⟩
  · exact ⟨d, (h.unmarked n hn).trans hd, Or.inr ⟨hn, rfl⟩⟩

/-! ## §3. Documents, buffers and parts. -/

/-- A file that changed stamps the documents it makes dirty. -/
theorem dated_touch (w : Workspace ι υ σ) (path : Path) (h : w.Dated) : (w.touch path).2.Dated :=
  h.marks (marks_touch w path)

theorem dated_dropBuffer (w : Workspace ι υ σ) (path : Path) (h : w.Dated) :
    (w.dropBuffer path).2.Dated := by
  rcases dropBuffer_cases w path with ⟨-, heq⟩ | ⟨-, heq⟩
  · rw [heq]
    exact h.of_eq (TimePoint.le_of_lt w.clock.last_lt_now) rfl rfl
  · rw [heq]
    exact h

/-- A document comes with a registered part, and is stamped with the present. -/
theorem dated_createOne (w : Workspace ι υ σ) (e : FileEntry) (h : w.Dated) :
    (w.createOne e).2.Dated := by
  rcases w.createOne_cases e with ⟨-, heq⟩ | ⟨part, -, -, -, heq⟩ | ⟨part, hpart, -, heq⟩
  · rw [heq]
    exact h
  · rw [heq]
    exact h.now
  · rw [heq]
    refine ⟨h.now.registered, fun n d hd => ?_⟩
    have hd : (w.documents ++ [w.madeFor e part])[n]? = some d := hd
    rcases List.mem_append.1 (List.mem_of_getElem? hd) with hold | hnew
    · obtain ⟨m, hm⟩ := List.mem_iff_getElem?.1 hold
      exact h.now.documents m d hm
    · rw [List.mem_singleton.1 hnew]
      exact ⟨h.now.registered e.part part hpart, TimePoint.le_refl _⟩

/-- A document that is let go of keeps its stamps. -/
theorem dated_evict (w : Workspace ι υ σ) (key : DocumentKey) (h : w.Dated) :
    (w.evict key).Dated :=
  h.of_eq (TimePoint.le_refl _) rfl rfl

/-- Parts leave the registry with their stamps. -/
theorem dated_withoutParts (w : Workspace ι υ σ) (ids : List String) (h : w.Dated) :
    (w.withoutParts ids).Dated :=
  ⟨h.registered.remove ids, h.documents⟩

/-- To store content takes time and stamps no document, and a revision is no
stamp. -/
theorem confines_dated : Confines fun w w' : Workspace ι υ σ => w.Dated → w'.Dated where
  refl _ h := h
  trans h h' hw := h' (h hw)
  putBuffer w _ _ h := h.of_eq (TimePoint.le_of_lt w.clock.last_lt_now) rfl rfl
  touch := dated_touch
  revise _ n _ h := h.modify n fun _ hd => ⟨hd.part, hd.dirtyPoint⟩

/-- The documents of a part take over the stamp it is registered with. -/
theorem dated_installPart (w : Workspace ι υ σ) (id : String) (h : w.Dated) :
    (w.installPart id).Dated := by
  unfold installPart ProjectParts.find
  cases hpart : w.parts.parts.get? id with
  | none => exact h
  | some part => exact h.modifyAll _ fun _ hd => hd.setPart (h.registered id part hpart)

section

variable {w : Workspace ι υ σ} (h : w.Dated)

include h

/-- Parts may be registered that were built at any time before. -/
theorem dated_upsertParts {parts : List ProjectPart}
    (hparts : ∀ part ∈ parts, part.changed ≤ w.clock.last) : (w.upsertParts parts).2.Dated := by
  have hregistered : (w.registerParts parts).2.Dated :=
    ⟨h.registered.upsert parts hparts,
      fun n d hd => (h.documents n d hd).later (ProjectParts.last_upsert parts w.parts w.clock)⟩
  have hinstalled := confines_dated.foldl dated_installPart (w.registerParts parts).1 _ hregistered
  exact hinstalled.marks (marks_markOutdated _)

/-! ## §4. Everything that can occur. -/

/-- No action stamps a part or a document with anything but a point the clock
has issued. -/
theorem dated_perform (a : Action) : (a.perform w).Dated := by
  cases a with
  | create entries => exact confines_dated.create dated_createOne w entries h
  | updateEntries entries => exact confines_dated.updateEntries w entries h
  | removeDocuments entries =>
    exact confines_dated.removeDocuments dated_dropBuffer dated_evict w entries h
  | upsertParts given =>
    obtain ⟨hclock, hstamps⟩ := ProjectPart.newList_stamps given w.clock
    have hbuilt : ({ w with clock := (ProjectPart.newList given w.clock).2 } :
        Workspace ι υ σ).Dated := h.of_eq hclock rfl rfl
    exact dated_upsertParts hbuilt fun part hpart => (hstamps part hpart).2
  | removeParts ids => exact confines_dated.removeParts dated_evict dated_withoutParts w ids h
  | touch path => exact dated_touch w path h
  | markOutdated => exact h.marks (marks_markOutdated w)
  | focus path => exact h.modifyAll _ fun _ hd => ⟨hd.part, hd.dirtyPoint⟩
  | reveal paths => exact h.modifyAll _ fun _ hd => ⟨hd.part, hd.dirtyPoint⟩
  | markDirty n => exact h.marks (marks_markDirty w n)
  | markIfOutdated n => exact h.marks (marks_markDirtyIf w _ n)
  | markIfDepends n path => exact h.marks (marks_markDirtyIf w _ n)
  | setPart n id arguments => exact h.now.modify n fun _ hd => hd.setPart (TimePoint.le_refl _)
  | setRevision n revision => exact h.modify n fun _ hd => ⟨hd.part, hd.dirtyPoint⟩
  | setUsed n on => exact h.modify n fun _ hd => ⟨hd.part, hd.dirtyPoint⟩
  | setVisible n on => exact h.modify n fun _ hd => ⟨hd.part, hd.dirtyPoint⟩
  | write path node => exact h.of_eq (TimePoint.le_refl _) rfl rfl
  | erase path => exact h.of_eq (TimePoint.le_refl _) rfl rfl

/-- A result stamps neither the part of its document nor a dirty event. -/
theorem dated_incorporate (n : Nat) (r : UpdateResult) : (w.incorporate n r).Dated := by
  have hchanged : (w.modify n (·.incorporate r)).Dated := h.modify n fun d hd => by
    unfold Document.incorporate
    split
    · exact ⟨hd.part, hd.dirtyPoint⟩
    · exact ⟨hd.part, hd.dirtyPoint⟩
  rw [incorporate_eq]
  exact ⟨hchanged.registered, hchanged.documents⟩

end

end Workspace

end ParseCache
