/-
  ParseCache.Proofs.Collection.Configuration — new versions of project parts
  on their way to the documents.

  An upsert stamps the parts it changes with points of time of its own and
  hands them to the held documents under them.  Documents that got a part this
  way can be told by its stamp, whatever the registry held before.

  Main results:
    * `stamped_upsert` — the ids an upsert returns are registered afterwards
      with stamps later than its beginning;
    * `drift_upsertFresh`, `drift_removeParts` — for documents that is drift;
    * `installed_upsertFresh` — every document concerned carries such a stamp
      afterwards.
-/
import ParseCache.Proofs.Collection.Drift

namespace ParseCache

variable {ι υ σ : Type}

/-! ## §1. The registry. -/

namespace ProjectPart

/-- Parts made one after the other carry the points issued meanwhile. -/
theorem newList_stamps (given : List (String × List String)) :
    ∀ clock : Clock, clock.last ≤ (newList given clock).2.last ∧
      ∀ part ∈ (newList given clock).1,
        clock.last < part.changed ∧ part.changed ≤ (newList given clock).2.last := by
  induction given with
  | nil =>
    intro clock
    exact ⟨TimePoint.le_refl _, fun part hmem => absurd hmem List.not_mem_nil⟩
  | cons e rest ih =>
    intro clock
    obtain ⟨id, arguments⟩ := e
    obtain ⟨hclock, hparts⟩ := ih clock.now.2
    have hnow := clock.last_lt_now
    refine ⟨TimePoint.le_trans (TimePoint.le_of_lt hnow) hclock, fun part hmem => ?_⟩
    rcases List.mem_cons.1 hmem with rfl | hmem
    · exact ⟨hnow, hclock⟩
    · obtain ⟨hlt, hle⟩ := hparts part hmem
      exact ⟨TimePoint.lt_of_le_of_lt (TimePoint.le_of_lt hnow) hlt, hle⟩

end ProjectPart

namespace ProjectParts

/-- The part with an id is registered with a stamp later than `since`. -/
def Stamped (since : TimePoint) (r : ProjectParts) (clock : Clock) (id : String) : Prop :=
  ∃ part, r.parts.get? id = some part ∧ since < part.changed ∧ part.changed ≤ clock.last

theorem get?_set (r : ProjectParts) (id id' : String) (part : ProjectPart) :
    (r.parts.set id part).get? id' = if id' = id then some part else r.parts.get? id' := by
  rw [Table.get?_set]
  show (if (id' == id) = true then _ else _) = _
  simp only [beq_iff_eq]

theorem named_set {r : ProjectParts} (h : r.Named) (part : ProjectPart) :
    Named ⟨r.parts.set part.id part⟩ := by
  intro id part' hget
  rw [get?_set] at hget
  split at hget
  · rename_i hid
    cases hget
    exact hid.symm
  · exact h id part' hget

theorem stamped_set {since : TimePoint} {r : ProjectParts} {clock clock' : Clock}
    {part : ProjectPart} (hclock : clock.last ≤ clock'.last)
    (hpart : since < part.changed ∧ part.changed ≤ clock'.last) (target id : String)
    (h : id = target ∨ r.Stamped since clock id) :
    Stamped since ⟨r.parts.set target part⟩ clock' id := by
  by_cases hid : id = target
  · refine ⟨part, ?_, hpart⟩
    rw [get?_set, if_pos hid]
  · obtain ⟨known, hknown, hlt, hle⟩ := h.resolve_left hid
    refine ⟨known, ?_, hlt, TimePoint.le_trans hle hclock⟩
    rw [get?_set, if_neg hid]
    exact hknown

/-- The registry `r` has become `r'` by an upsert that changed the ids
`changed`. -/
structure Upserted (since : TimePoint) (r r' : ProjectParts) (c c' : Clock)
    (changed : List String) : Prop where
  clock : c.last ≤ c'.last
  named : r.Named → r'.Named
  stamped : ∀ id, id ∈ changed ∨ r.Stamped since c id → r'.Stamped since c' id

theorem upserted_upsertOne {since : TimePoint} (r : ProjectParts) {part : ProjectPart}
    {clock : Clock} (hpart : since < part.changed ∧ part.changed ≤ clock.last) :
    Upserted since r (r.upsertOne part clock).2.1 clock (r.upsertOne part clock).2.2
      (if (r.upsertOne part clock).1 then [part.id] else []) := by
  unfold upsertOne
  cases hknown : r.parts.get? part.id with
  | none =>
    refine ⟨TimePoint.le_refl _, fun h => named_set h part, fun id hid => ?_⟩
    refine stamped_set (TimePoint.le_refl _) hpart part.id id ?_
    simpa using hid
  | some known =>
    simp only
    split
    · refine ⟨TimePoint.le_refl _, fun h => h, fun id hid => ?_⟩
      simpa using hid
    · have hnow := clock.last_lt_now
      have hstamp : since < clock.now.1 ∧ clock.now.1 ≤ clock.now.2.last :=
        ⟨TimePoint.lt_of_le_of_lt
          (TimePoint.le_of_lt (TimePoint.lt_of_lt_of_le hpart.1 hpart.2)) hnow,
          TimePoint.le_refl _⟩
      refine ⟨TimePoint.le_of_lt hnow, fun h => ?_, fun id hid => ?_⟩
      · -- the updated part keeps the id it was registered under
        have hid := h part.id known hknown
        show Named ⟨r.parts.set part.id _⟩
        rw [← hid]
        exact named_set h { known with arguments := part.arguments, changed := clock.now.1 }
      · have hupdated : since < (known.setArguments part.arguments clock).1.changed ∧
            (known.setArguments part.arguments clock).1.changed ≤ clock.now.2.last := hstamp
        refine stamped_set (TimePoint.le_of_lt hnow) hupdated part.id id ?_
        simpa using hid

/-- Parts are registered one after the other. -/
theorem stamped_upsert {since : TimePoint} (parts : List ProjectPart) :
    ∀ (r : ProjectParts) (clock : Clock),
      (∀ part ∈ parts, since < part.changed ∧ part.changed ≤ clock.last) →
      Upserted since r (upsert parts r clock).2.1 clock (upsert parts r clock).2.2
        (upsert parts r clock).1 := by
  induction parts with
  | nil =>
    intro r clock _
    refine ⟨TimePoint.le_refl _, fun h => h, fun id hid => ?_⟩
    exact hid.resolve_left List.not_mem_nil
  | cons part rest ih =>
    intro r clock hparts
    have hone := upserted_upsertOne r (hparts part List.mem_cons_self)
    have hrest := ih (r.upsertOne part clock).2.1 (r.upsertOne part clock).2.2
      fun part' hmem =>
        have hpart' := hparts part' (List.mem_cons_of_mem _ hmem)
        ⟨hpart'.1, TimePoint.le_trans hpart'.2 hone.clock⟩
    refine ⟨TimePoint.le_trans hone.clock hrest.clock,
      fun h => hrest.named (hone.named h), fun id hid => ?_⟩
    -- the ids that changed: this one, if it did, and those of the rest
    have hchanged : (upsert (part :: rest) r clock).1 =
        (if (r.upsertOne part clock).1 then [part.id] else [])
          ++ (upsert rest (r.upsertOne part clock).2.1 (r.upsertOne part clock).2.2).1 := by
      show (if (r.upsertOne part clock).1 then _ else _) = _
      split <;> rfl
    rw [hchanged, List.mem_append] at hid
    refine hrest.stamped id ?_
    rcases hid with (hid | hid) | hid
    · exact Or.inr (hone.stamped id (Or.inl hid))
    · exact Or.inl hid
    · exact Or.inr (hone.stamped id (Or.inr hid))

/-- Registering parts takes time, at most. -/
theorem last_upsert (parts : List ProjectPart) :
    ∀ (r : ProjectParts) (clock : Clock), clock.last ≤ (upsert parts r clock).2.2.last := by
  induction parts with
  | nil =>
    intro r clock
    exact TimePoint.le_refl _
  | cons part rest ih =>
    intro r clock
    have hone : clock.last ≤ (r.upsertOne part clock).2.2.last := by
      unfold upsertOne
      split
      · exact TimePoint.le_refl _
      · split
        · exact TimePoint.le_refl _
        · exact TimePoint.le_of_lt clock.last_lt_now
    exact TimePoint.le_trans hone (ih _ _)

theorem known_upsertOne {id : String} {r : ProjectParts} {known : ProjectPart}
    (part : ProjectPart) (clock : Clock) (hknown : r.parts.get? id = some known) :
    ∃ part', (r.upsertOne part clock).2.1.parts.get? id = some part' ∧
      (((r.upsertOne part clock).1 = true → part.id ≠ id) ∧ part' = known ∨
        clock.last < part'.changed ∧ part'.changed ≤ (r.upsertOne part clock).2.2.last) := by
  unfold upsertOne
  by_cases hid : part.id = id
  · subst hid
    rw [hknown]
    simp only
    split
    · exact ⟨known, hknown, Or.inl ⟨nofun, rfl⟩⟩
    · refine ⟨{ known with arguments := part.arguments, changed := clock.now.1 }, ?_, Or.inr ?_⟩
      · rw [get?_set, if_pos rfl]
        rfl
      · exact ⟨clock.last_lt_now, TimePoint.le_refl _⟩
  · -- another part is registered, if any
    refine ⟨known, ?_, Or.inl ⟨fun _ => hid, rfl⟩⟩
    split
    · rw [get?_set, if_neg (Ne.symm hid)]
      exact hknown
    · split
      · exact hknown
      · rw [get?_set, if_neg (Ne.symm hid)]
        exact hknown

/-- A part that is known already stays as it is, or is stamped anew. -/
theorem known_upsert {id : String} (parts : List ProjectPart) :
    ∀ {r : ProjectParts} {known : ProjectPart} (clock : Clock), r.parts.get? id = some known →
      ∃ part, (upsert parts r clock).2.1.parts.get? id = some part ∧
        (id ∉ (upsert parts r clock).1 ∧ part = known ∨
          clock.last < part.changed ∧ part.changed ≤ (upsert parts r clock).2.2.last) := by
  induction parts with
  | nil =>
    intro r known clock hknown
    exact ⟨known, hknown, Or.inl ⟨List.not_mem_nil, rfl⟩⟩
  | cons part rest ih =>
    intro r known clock hknown
    obtain ⟨part', hpart', hone⟩ := known_upsertOne part clock hknown
    obtain ⟨part'', hpart'', hrest⟩ := ih (r.upsertOne part clock).2.2 hpart'
    refine ⟨part'', hpart'', ?_⟩
    have hclock : clock.last ≤ (r.upsertOne part clock).2.2.last := last_upsert [part] r clock
    rcases hrest with ⟨hid, rfl⟩ | ⟨hlt, hle⟩
    · rcases hone with ⟨hother, rfl⟩ | ⟨hlt, hle⟩
      · refine Or.inl ⟨?_, rfl⟩
        show id ∉ (if (r.upsertOne part clock).1 then _ else _)
        split
        · rename_i hchanged
          rw [List.mem_cons, not_or]
          exact ⟨Ne.symm (hother hchanged), hid⟩
        · exact hid
      · exact Or.inr ⟨hlt, TimePoint.le_trans hle (last_upsert rest _ _)⟩
    · exact Or.inr ⟨TimePoint.lt_of_le_of_lt hclock hlt, hle⟩

theorem named_remove (ids : List String) :
    ∀ r : ProjectParts, r.Named → (remove ids r).2.Named := by
  induction ids with
  | nil =>
    intro r h
    exact h
  | cons id rest ih =>
    intro r h
    unfold remove
    split
    · refine ih _ fun id' part hget => ?_
      rw [Table.get?_erase] at hget
      split at hget
      · cases hget
      · exact h id' part hget
    · exact h

end ProjectParts

/-! ## §2. Handing parts to documents. -/

namespace Workspace

/-- What an upsert of freshly built parts is. -/
def upsertFresh (w : Workspace ι υ σ) (given : List (String × List String)) :
    List Nat × Workspace ι υ σ :=
  ({ w with clock := (ProjectPart.newList given w.clock).2 } : Workspace ι υ σ).upsertParts
    (ProjectPart.newList given w.clock).1

/-- The ids whose configuration such an upsert changes, and the workspace once
they are registered. -/
def registerFresh (w : Workspace ι υ σ) (given : List (String × List String)) :
    List String × Workspace ι υ σ :=
  ({ w with clock := (ProjectPart.newList given w.clock).2 } : Workspace ι υ σ).registerParts
    (ProjectPart.newList given w.clock).1

theorem upsertFresh_eq (w : Workspace ι υ σ) (given : List (String × List String)) :
    w.upsertFresh given
      = ((w.registerFresh given).1.foldl installPart (w.registerFresh given).2).markOutdated := rfl

/-- Registering touches no document, and stamps every part it changes. -/
theorem registerFresh_spec (w : Workspace ι υ σ) (given : List (String × List String)) :
    Drift w (w.registerFresh given).2 ∧
      (w.registerFresh given).2.documents = w.documents ∧
      (w.registerFresh given).2.held = w.held ∧
      ∀ id ∈ (w.registerFresh given).1,
        (w.registerFresh given).2.parts.Stamped w.clock.last (w.registerFresh given).2.clock id := by
  obtain ⟨hclock, hparts⟩ := ProjectPart.newList_stamps given w.clock
  have hupserted := ProjectParts.stamped_upsert _ w.parts _ hparts
  exact ⟨.of_documents_eq rfl (TimePoint.le_trans hclock hupserted.clock) rfl hupserted.named,
    rfl, rfl, fun id hid => hupserted.stamped id (Or.inl hid)⟩

/-- A part stamped since `w` is handed to the documents under it. -/
theorem Drift.installPart {w w' : Workspace ι υ σ} (h : Drift w w') {id : String}
    (hid : w'.parts.Stamped w.clock.last w'.clock id) : Drift w (w'.installPart id) := by
  obtain ⟨part, hget, hstamp⟩ := hid
  have hfind : w'.parts.find id = .ok part := by rw [ProjectParts.find, hget]
  unfold Workspace.installPart
  rw [hfind]
  refine h.modifyAll _ fun d => ?_
  unfold Document.setPart
  split
  · exact ⟨rfl, rfl, rfl, rfl, rfl, rfl, Or.inr hstamp, Or.inl ⟨rfl, rfl⟩⟩
  · exact .refl _ _ d

/-- Changing documents leaves everything else. -/
theorem modifyAll_rest (f : Document ι υ → Document ι υ) (ns : List Nat) :
    ∀ w : Workspace ι υ σ, ns.foldl (fun w n => w.modify n f) w =
      { w with documents := (ns.foldl (fun w n => w.modify n f) w).documents } := by
  induction ns with
  | nil =>
    intro w
    rfl
  | cons n rest ih =>
    intro w
    rw [List.foldl_cons, ih (w.modify n f)]
    rfl

theorem installPart_rest (w : Workspace ι υ σ) (id : String) :
    w.installPart id = { w with documents := (w.installPart id).documents } := by
  unfold Workspace.installPart
  split
  · rfl
  · exact modifyAll_rest _ _ w

theorem installParts_rest (ids : List String) :
    ∀ w : Workspace ι υ σ, ids.foldl Workspace.installPart w =
      { w with documents := (ids.foldl Workspace.installPart w).documents } := by
  induction ids with
  | nil =>
    intro w
    rfl
  | cons id rest ih =>
    intro w
    rw [List.foldl_cons, ih (w.installPart id), installPart_rest w id]

theorem Drift.installParts {w : Workspace ι υ σ} (ids : List String) :
    ∀ {w' : Workspace ι υ σ}, Drift w w' →
      (∀ id ∈ ids, w'.parts.Stamped w.clock.last w'.clock id) →
      Drift w (ids.foldl Workspace.installPart w') := by
  induction ids with
  | nil =>
    intro w' h _
    exact h
  | cons id rest ih =>
    intro w' h hids
    refine ih (h.installPart (hids id List.mem_cons_self)) fun id' hmem => ?_
    rw [w'.installPart_rest id]
    exact hids id' (List.mem_cons_of_mem _ hmem)

theorem drift_upsertFresh (w : Workspace ι υ σ) (given : List (String × List String)) :
    Drift w (w.upsertFresh given).2 := by
  obtain ⟨hdrift, -, -, hstamped⟩ := registerFresh_spec w given
  rw [upsertFresh_eq]
  exact (hdrift.installParts _ hstamped).trans (drift_markOutdated _)

theorem drift_removeParts (w : Workspace ι υ σ) (ids : List String) :
    Drift w (w.removeParts ids).2 := by
  refine confines_drift.removeParts drift_evict (fun w ids => ?_) w ids
  exact .of_documents_eq rfl (TimePoint.le_refl _) rfl (ProjectParts.named_remove ids w.parts)

/-! ## §3. Who gets a new part. -/

/-- A change that leaves a document as it is may be made any number of times. -/
theorem getElem?_modifyAll_of_fixed {f : Document ι υ → Document ι υ} {n : Nat}
    {d : Document ι υ} (hf : f d = d) (ns : List Nat) :
    ∀ w : Workspace ι υ σ, w.documents[n]? = some d →
      (ns.foldl (fun w n => w.modify n f) w).documents[n]? = some d := by
  induction ns with
  | nil =>
    intro w h
    exact h
  | cons m rest ih =>
    intro w h
    refine ih _ ?_
    by_cases hm : m = n
    · subst hm
      rw [getElem?_modify_self h f, hf]
    · rw [getElem?_modify_of_ne w hm f, h]

/-- A change that is the same done twice reaches every listed document. -/
theorem getElem?_modifyAll {f : Document ι υ → Document ι υ} {n : Nat} {d : Document ι υ}
    (hf : f (f d) = f d) (ns : List Nat) :
    ∀ w : Workspace ι υ σ, n ∈ ns → w.documents[n]? = some d →
      (ns.foldl (fun w n => w.modify n f) w).documents[n]? = some (f d) := by
  induction ns with
  | nil =>
    intro w hmem
    exact absurd hmem List.not_mem_nil
  | cons m rest ih =>
    intro w hmem h
    by_cases hm : m = n
    · subst hm
      exact getElem?_modifyAll_of_fixed hf rest _ (getElem?_modify_self h f)
    · refine ih _ ((List.mem_cons.1 hmem).resolve_left (Ne.symm hm)) ?_
      rw [getElem?_modify_of_ne w hm f]
      exact h

/-- A change does not reach the documents that are not listed. -/
theorem getElem?_modifyAll_of_notMem (f : Document ι υ → Document ι υ) {n : Nat} (ns : List Nat) :
    ∀ w : Workspace ι υ σ, n ∉ ns →
      (ns.foldl (fun w n => w.modify n f) w).documents[n]? = w.documents[n]? := by
  induction ns with
  | nil => exact fun _ _ => rfl
  | cons m rest ih =>
    intro w hn
    rw [List.mem_cons, not_or] at hn
    rw [List.foldl_cons, ih _ hn.2, getElem?_modify_of_ne w (Ne.symm hn.1)]

theorem mem_heldWhere {w : Workspace ι υ σ} {p : Document ι υ → Bool} {n : Nat} :
    n ∈ w.heldWhere p ↔ n ∈ w.held ∧ w.documents[n]?.any p = true := by
  rw [heldWhere, List.mem_filter]

/-- A held document under a part that is stamped since `since` gets it. -/
theorem installed_installPart {w : Workspace ι υ σ} {since : TimePoint} {id : String}
    (hnamed : w.parts.Named) (hid : w.parts.Stamped since w.clock id) {n : Nat}
    {d : Document ι υ} (hheld : n ∈ w.held) (hd : w.documents[n]? = some d)
    (hkey : d.key.part = id) :
    ∃ d', (w.installPart id).documents[n]? = some d' ∧ d'.key = d.key ∧
      since < d'.part.changed := by
  obtain ⟨part, hget, hlt, -⟩ := hid
  have hfind : w.parts.find id = .ok part := by rw [ProjectParts.find, hget]
  have hname : part.id = d.key.part := (hnamed id part hget).trans hkey.symm
  have hmem : n ∈ w.heldWhere fun d => d.key.part == id := by
    rw [mem_heldWhere, hd]
    exact ⟨hheld, by simpa using hkey⟩
  have hset : d.setPart part = { d with part := part } := by rw [Document.setPart, if_pos hname]
  refine ⟨d.setPart part, ?_, ?_, ?_⟩
  · unfold Workspace.installPart
    rw [hfind]
    refine getElem?_modifyAll ?_ _ w hmem hd
    rw [hset]
    unfold Document.setPart
    split <;> rfl
  · rw [hset]
  · rw [hset]
    exact hlt

/-- What is stamped later than `since` stays so while further parts are handed
out. -/
theorem installed_installParts {since : TimePoint} {n : Nat} (ids : List String) :
    ∀ {w : Workspace ι υ σ} {d : Document ι υ}, w.parts.Named →
      (∀ id ∈ ids, w.parts.Stamped since w.clock id) → n ∈ w.held →
      w.documents[n]? = some d → d.key.part ∈ ids ∨ since < d.part.changed →
      ∃ d', (ids.foldl Workspace.installPart w).documents[n]? = some d' ∧
        since < d'.part.changed := by
  induction ids with
  | nil =>
    intro w d _ _ _ hd h
    exact ⟨d, hd, h.resolve_left List.not_mem_nil⟩
  | cons id rest ih =>
    intro w d hnamed hids hheld hd h
    have hid := hids id List.mem_cons_self
    -- handing out a part leaves the registry, the clock and the held documents
    have hrest := w.installPart_rest id
    have hnamed' : (w.installPart id).parts.Named := by rwa [hrest]
    have hids' : ∀ id' ∈ rest,
        (w.installPart id).parts.Stamped since (w.installPart id).clock id' := by
      intro id' hmem
      rw [hrest]
      exact hids id' (List.mem_cons_of_mem _ hmem)
    have hheld' : n ∈ (w.installPart id).held := by rwa [hrest]
    rw [List.foldl_cons]
    by_cases hkey : d.key.part = id
    · obtain ⟨d', hd', -, hlt⟩ := installed_installPart hnamed hid hheld hd hkey
      exact ih hnamed' hids' hheld' hd' (Or.inr hlt)
    · -- a document under another part keeps its own
      have hkeep : (w.installPart id).documents[n]? = some d := by
        obtain ⟨part, hget, -⟩ := hid
        have hfind : w.parts.find id = .ok part := by rw [ProjectParts.find, hget]
        have hname : part.id ≠ d.key.part := by
          rw [hnamed id part hget]
          exact Ne.symm hkey
        have hset : d.setPart part = d := by rw [Document.setPart, if_neg hname]
        unfold Workspace.installPart
        rw [hfind]
        exact getElem?_modifyAll_of_fixed (f := fun d => d.setPart part) hset _ w hd
      refine ih hnamed' hids' hheld' hkeep ?_
      rcases h with h | h
      · exact Or.inl ((List.mem_cons.1 h).resolve_left hkey)
      · exact Or.inr h

/-- After an upsert the held documents under a part that changed carry a part
stamped during the upsert. -/
theorem installed_upsertFresh {w : Workspace ι υ σ} (hnamed : w.parts.Named)
    (given : List (String × List String)) {n : Nat} {d : Document ι υ} (hheld : n ∈ w.held)
    (hd : w.documents[n]? = some d) (hkey : d.key.part ∈ (w.registerFresh given).1) :
    ∃ d', (w.upsertFresh given).2.documents[n]? = some d' ∧ w.clock.last < d'.part.changed := by
  obtain ⟨hdrift, hdocs, hheld', hstamped⟩ := registerFresh_spec w given
  obtain ⟨d', hd', hlt⟩ := installed_installParts (w.registerFresh given).1
    (hdrift.named hnamed) hstamped (by rwa [hheld']) (by rw [hdocs]; exact hd) (Or.inl hkey)
  rw [upsertFresh_eq]
  obtain ⟨d'', hd'', rfl | ⟨time, -, -, rfl⟩⟩ := (marks_markOutdated _).document hd'
  · exact ⟨_, hd'', hlt⟩
  · exact ⟨_, hd'', hlt⟩

end Workspace

end ParseCache
