/-
  ParseCache.Proofs.Collection.Configured — parts reach the documents through the
  registry.

  The registry and the documents keep versions of the same parts, and only an
  upsert makes them equal.  That this is enough has two reasons.  A document is
  created with the version that is registered, and nothing else gives it another
  one, unless somebody hands it a part past the registry.  And no document is
  parsed ahead of time, unless somebody applies a result that no update brought;
  so a part that is stamped now is later than every parse.  Without these two an
  upsert reaches exactly the documents it should.

  Main results:
    * `Configured` — the states of a cache where neither happens, with
      `Configured.update` for a whole update;
    * `carried_perform`, `Begun.drift` — what occurs keeps both invariants;
    * `consistent_of_configured` — so they hold in all these states;
    * `reconfigured_of_configured` — what an upsert comes to in each of them, and
      that it does nothing the second time.
-/
import ParseCache.Proofs.Collection.Registering
import ParseCache.Proofs.Collection.Removal

namespace ParseCache

variable {ι υ σ : Type}

namespace ProjectParts

/-- Removing parts registers nothing. -/
theorem get?_of_get?_remove {id : String} {part : ProjectPart} (ids : List String) :
    ∀ {r : ProjectParts}, (remove ids r).2.parts.get? id = some part →
      r.parts.get? id = some part := by
  induction ids with
  | nil => exact fun h => h
  | cons id' rest ih =>
    intro r h
    unfold remove at h
    split at h
    · have hget := ih h
      rw [Table.get?_erase] at hget
      split at hget
      · cases hget
      · exact hget
    · exact h

end ProjectParts

/-! ## §1. When a result was parsed. -/

namespace Engine

variable {e : Engine ι υ σ} (hclock : e.Within fun w w' => w.clock.last ≤ w'.clock.last)

include hclock

/-- A parse is not dated ahead of the time at which the update ends. -/
theorem parsedAt_parseIfNeeded_le (s : Snapshot) (h : Handles ι υ) (w : Workspace ι υ σ)
    {time : TimePoint} (htime : (e.parseIfNeeded s h w).1.result.parsedAt = some time) :
    time ≤ (e.parseIfNeeded s h w).2.clock.last := by
  rcases e.parseIfNeeded_cases s h w with ⟨_, -, -, heq⟩ | heq
  · rw [heq] at htime
    cases htime
  · have hcall := hclock.parseCall s { h with unit := .null } w
    rw [heq] at htime ⊢
    rcases e.parseStep_cases s { h with unit := .null } w with ⟨_, -, heq⟩ | ⟨_, -, heq⟩
    · rw [heq] at htime ⊢
      cases htime
      exact hcall
    · rw [heq] at htime
      cases htime

/-- The parse of an update began before the update ended. -/
theorem parsedAt_run_le (mode : UpdateMode) (s : Snapshot) (h : Handles ι υ)
    (w : Workspace ι υ σ) {time : TimePoint}
    (htime : (e.run mode s h w).1.result.parsedAt = some time) :
    time ≤ (e.run mode s h w).2.clock.last := by
  rcases e.run_cases mode s h w with ⟨-, heq⟩ | ⟨-, -, heq⟩ | ⟨-, heq⟩
  · rw [heq] at htime ⊢
    exact parsedAt_parseIfNeeded_le hclock s h w htime
  · rw [heq, parsedAt_reparseStep] at htime
    rw [heq]
    exact TimePoint.le_trans (parsedAt_parseIfNeeded_le hclock s h w htime)
      (hclock.reparseStep s _ _)
  · rw [heq, parsedAt_reparseStep] at htime
    cases htime

end Engine

namespace Workspace

/-! ## §2. Documents keep their parts. -/

/-- From `w` to `w'` the registry gives up parts at most.  Who is held was so
before, with the part it has now, or carries what is registered. -/
structure KeepsParts (w w' : Workspace ι υ σ) : Prop where
  registry : ∀ id part, w'.parts.parts.get? id = some part → w.parts.parts.get? id = some part
  documents : ∀ n ∈ w'.held, ∀ d', w'.documents[n]? = some d' →
    (n ∈ w.held ∧ ∃ d, w.documents[n]? = some d ∧ d'.key = d.key ∧ d'.part = d.part) ∨
      ∀ part, w'.parts.parts.get? d'.key.part = some part → d'.part = part

namespace KeepsParts

variable {w w' w'' : Workspace ι υ σ}

theorem refl (w : Workspace ι υ σ) : KeepsParts w w where
  registry _ _ h := h
  documents _ hn d hd := Or.inl ⟨hn, d, hd, rfl, rfl⟩

theorem trans (h : KeepsParts w w') (h' : KeepsParts w' w'') : KeepsParts w w'' where
  registry id part hget := h.registry id part (h'.registry id part hget)
  documents n hn d'' hd'' := by
    rcases h'.documents n hn d'' hd'' with ⟨hn', d', hd', hkey', hpart'⟩ | hregistered
    · rw [hkey', hpart']
      rcases h.documents n hn' d' hd' with ⟨hn₀, d, hd, hkey, hpart⟩ | hregistered
      · rw [hpart]
        exact Or.inl ⟨hn₀, d, hd, hkey, rfl⟩
      · -- what is still registered was so when the document came
        exact Or.inr fun part hget => hregistered part (h'.registry _ part hget)
    · exact Or.inr hregistered

/-- Documents that keep their parts go on carrying those that are registered. -/
theorem carried (h : KeepsParts w w') (hw : w.Carried) : w'.Carried := by
  intro n hn d' hd' part hpart
  rcases h.documents n hn d' hd' with ⟨hn₀, d, hd, hkey, hsame⟩ | hregistered
  · rw [hsame]
    refine hw n hn₀ d hd part ?_
    rw [← hkey]
    exact h.registry _ part hpart
  · exact hregistered part hpart

theorem named (h : KeepsParts w w') (hw : w.parts.Named) : w'.parts.Named :=
  fun id part hget => hw id part (h.registry id part hget)

/-- Where nobody comes, and documents stay as they are, parts may go. -/
theorem of_documents_eq (hheld : ∀ n ∈ w'.held, n ∈ w.held)
    (hparts : ∀ id part, w'.parts.parts.get? id = some part → w.parts.parts.get? id = some part)
    (hdocuments : w'.documents = w.documents) : KeepsParts w w' where
  registry := hparts
  documents n hn d' hd' := by
    rw [hdocuments] at hd'
    exact Or.inl ⟨hheld n hn, d', hd', rfl, rfl⟩

/-- Neither documents nor parts are touched. -/
theorem of_eq (hheld : w'.held = w.held) (hparts : w'.parts = w.parts)
    (hdocuments : w'.documents = w.documents) : KeepsParts w w' :=
  of_documents_eq (fun _ hn => hheld ▸ hn) (fun _ _ h => hparts ▸ h) hdocuments

/-- A mark is no change of part. -/
theorem of_marks {ns : List Nat} (h : Marks ns w w') : KeepsParts w w' where
  registry id part hget := by rwa [h.parts] at hget
  documents n hn d' hd' := by
    rw [h.held] at hn
    obtain ⟨d, hd, rfl | ⟨time, -, -, rfl⟩⟩ := h.before hd'
    · exact Or.inl ⟨hn, d', hd, rfl, rfl⟩
    · exact Or.inl ⟨hn, d, hd, rfl, rfl⟩

/-- A change of documents that leaves keys and parts. -/
theorem of_modify (w : Workspace ι υ σ) (n : Nat) {f : Document ι υ → Document ι υ}
    (hf : ∀ d, (f d).key = d.key ∧ (f d).part = d.part) : KeepsParts w (w.modify n f) where
  registry _ _ h := h
  documents m hm d' hd' := by
    obtain ⟨d, hd, ⟨-, rfl⟩ | rfl⟩ := exists_of_modify hd'
    · exact Or.inl ⟨hm, d, hd, (hf d).1, (hf d).2⟩
    · exact Or.inl ⟨hm, d', hd, rfl, rfl⟩

end KeepsParts

/-! ## §3. What occurs. -/

/-- A document is created with the part that is registered. -/
theorem keepsParts_createOne (w : Workspace ι υ σ) (e : FileEntry) (hnamed : w.parts.Named) :
    KeepsParts w (w.createOne e).2 := by
  rcases w.createOne_cases e with ⟨-, heq⟩ | ⟨part, -, -, -, heq⟩ | ⟨part, hget, -, heq⟩
  · rw [heq]
    exact .refl w
  · rw [heq]
    exact .of_eq rfl rfl rfl
  · rw [heq]
    refine ⟨fun _ _ h => h, fun n hn d' hd' => ?_⟩
    have hd' : (w.documents ++ [w.madeFor e part])[n]? = some d' := hd'
    by_cases hlt : n < w.documents.length
    · rw [List.getElem?_append_left hlt] at hd'
      refine Or.inl ⟨?_, d', hd', rfl, rfl⟩
      exact (mem_held_come.1 hn).resolve_left (Nat.ne_of_lt hlt)
    · right
      rw [List.getElem?_append_right (Nat.not_lt.1 hlt)] at hd'
      obtain rfl := List.mem_singleton.1 (List.mem_of_getElem? hd')
      intro part' hget'
      have hname : part.id = e.part := hnamed e.part part hget
      have hget' : w.parts.parts.get? part.id = some part' := hget'
      rw [hname, hget] at hget'
      exact Option.some.inj hget'

/-- Whatever else requests do, documents keep their parts, and the registry its
names. -/
theorem confines_keepsParts :
    Confines fun w w' : Workspace ι υ σ => w.parts.Named → KeepsParts w w' where
  refl w _ := .refl w
  trans h h' hnamed := (h hnamed).trans (h' ((h hnamed).named hnamed))
  putBuffer _ _ _ _ := .of_eq rfl rfl rfl
  touch w path _ := .of_marks (marks_touch w path)
  revise w n _ _ := .of_modify w n fun _ => ⟨rfl, rfl⟩

theorem keepsParts_dropBuffer (w : Workspace ι υ σ) (path : Path) (_ : w.parts.Named) :
    KeepsParts w (w.dropBuffer path).2 := by
  rcases dropBuffer_cases w path with ⟨-, heq⟩ | ⟨-, heq⟩
  · rw [heq]
    exact .of_eq rfl rfl rfl
  · rw [heq]
    exact .refl w

/-- Who is let go of does not count any more. -/
theorem keepsParts_evict (w : Workspace ι υ σ) (key : DocumentKey) (_ : w.parts.Named) :
    KeepsParts w (w.evict key) :=
  .of_documents_eq (fun _ hn => (mem_held_evict.1 hn).1) (fun _ _ h => h) rfl

/-- Parts may go, and documents keep what they have of them. -/
theorem keepsParts_withoutParts (w : Workspace ι υ σ) (ids : List String) (_ : w.parts.Named) :
    KeepsParts w (w.withoutParts ids) :=
  .of_documents_eq (fun _ hn => hn) (fun _ _ hget => ProjectParts.get?_of_get?_remove ids hget) rfl

/-- Editor state may be set for every document that is held. -/
theorem keepsParts_modifyHeld (w : Workspace ι υ σ) {f : Document ι υ → Document ι υ}
    (hf : ∀ d, (f d).key = d.key ∧ (f d).part = d.part) (hnamed : w.parts.Named) :
    KeepsParts w (w.modifyHeld f) :=
  confines_keepsParts.foldl (fun w n _ => .of_modify w n hf) w.held w hnamed

end Workspace

/-- A part is handed to a document past the registry. -/
def Action.setsPart : Action → Bool
  | .setPart _ _ _ => true
  | _ => false

namespace Workspace

/-- A list of parts, freshly built or not, leaves the documents with what is
registered. -/
theorem carried_upsertParts {w : Workspace ι υ σ} (htidy : w.Tidy) (h : w.Carried)
    (parts : List ProjectPart) : (w.upsertParts parts).2.Carried :=
  (carried_handed htidy.named h htidy.known parts).marks (marks_markOutdated _)

/-- Every action but one keeps the documents in step with the registry: the one
that hands a part to a document past it. -/
theorem carried_perform {w : Workspace ι υ σ} (htidy : w.Tidy) (h : w.Carried) {a : Action}
    (ha : a.setsPart = false) : (a.perform w).Carried := by
  cases a with
  | create entries =>
    exact (confines_keepsParts.create keepsParts_createOne w entries htidy.named).carried h
  | updateEntries entries =>
    exact (confines_keepsParts.updateEntries w entries htidy.named).carried h
  | removeDocuments entries =>
    exact (confines_keepsParts.removeDocuments keepsParts_dropBuffer keepsParts_evict w entries
      htidy.named).carried h
  | upsertParts given =>
    have hbuilt : Stays w (w.building given) := .of_eq rfl rfl rfl rfl
    exact carried_upsertParts (tidy_stays htidy hbuilt) (w := w.building given) h _
  | removeParts ids =>
    exact (confines_keepsParts.removeParts keepsParts_evict keepsParts_withoutParts w ids
      htidy.named).carried h
  | touch path => exact h.marks (marks_touch w path)
  | markOutdated => exact h.marks (marks_markOutdated w)
  | focus path =>
    exact (keepsParts_modifyHeld w (f := fun d => { d with used := d.key.path.same path })
      (fun _ => ⟨rfl, rfl⟩) htidy.named).carried h
  | reveal paths =>
    exact (keepsParts_modifyHeld w (f := fun d => { d with visible := paths.any d.key.path.same })
      (fun _ => ⟨rfl, rfl⟩) htidy.named).carried h
  | markDirty n => exact h.marks (marks_markDirty w n)
  | markIfOutdated n => exact h.marks (marks_markDirtyIf w _ n)
  | markIfDepends n path => exact h.marks (marks_markDirtyIf w _ n)
  | setPart n id arguments => cases ha
  | setRevision n revision =>
    exact (KeepsParts.of_modify w n (f := fun d => { d with revision := revision })
      fun _ => ⟨rfl, rfl⟩).carried h
  | setUsed n on =>
    exact (KeepsParts.of_modify w n (f := fun d => { d with used := on })
      fun _ => ⟨rfl, rfl⟩).carried h
  | setVisible n on =>
    exact (KeepsParts.of_modify w n (f := fun d => { d with visible := on })
      fun _ => ⟨rfl, rfl⟩).carried h
  | write path node => exact h
  | erase path => exact h

/-! ## §4. No document was parsed ahead of time. -/

namespace Begun

variable {w w' : Workspace ι υ σ}

/-- Drift moves no baseline, and who comes is stamped with the present. -/
theorem drift (h : w.Begun) (hdrift : Drift w w') : w'.Begun := by
  intro n d' hd'
  cases hd : w.documents[n]? with
  | none => exact (hdrift.fresh n d' hd hd').baseline.2
  | some d =>
    have hsince := hdrift.document hd hd'
    rw [hsince.baseline]
    exact TimePoint.le_trans (h n d hd) hdrift.clock

theorem modify (h : w.Begun) (n : Nat) {f : Document ι υ → Document ι υ}
    (hf : ∀ d, w.documents[n]? = some d → (f d).baseline ≤ w.clock.last) :
    (w.modify n f).Begun := by
  intro m d' hd'
  obtain ⟨d, hd, ⟨rfl, rfl⟩ | rfl⟩ := exists_of_modify hd'
  · exact hf d hd
  · exact h m d' hd

theorem setPart (h : w.Begun) (n : Nat) (part : ProjectPart) :
    (w.modify n (·.setPart part)).Begun := by
  refine h.modify n fun d hd => ?_
  unfold Document.setPart
  split <;> exact h n d hd

theorem installPart (h : w.Begun) (id : String) : (w.installPart id).Begun := by
  unfold Workspace.installPart
  split
  · exact h
  · exact List.foldlRecOn _ _ h fun _ hw n _ => hw.setPart n _

theorem upsertParts (h : w.Begun) (parts : List ProjectPart) : (w.upsertParts parts).2.Begun := by
  have hregistered : (w.registerParts parts).2.Begun := fun n d hd =>
    TimePoint.le_trans (h n d hd) (ProjectParts.last_upsert parts w.parts w.clock)
  have hhanded : (w.handed parts).Begun :=
    List.foldlRecOn _ _ hregistered fun _ hw id _ => hw.installPart id
  exact hhanded.drift (.of_marks (marks_markOutdated _))

/-- A result moves the baseline of its document to the start of its parse. -/
theorem receive (h : w.Begun) (n : Nat) {p : Progress ι υ}
    (hp : ∀ time, p.result.parsedAt = some time → time ≤ w.clock.last) :
    (w.receive n p).Begun := by
  rw [receive_eq]
  exact h.modify n fun d hd => baseline_settle_le (h n d hd) hp

end Begun

/-! ## §5. States. -/

/-- The states that arise where documents get their parts from the registry and
their results from updates.  Parts may have been built at any time before, and a
run may have begun anywhere, but not after its result arrives. -/
inductive Configured (engines : Engine ι υ σ → Prop) : Workspace ι υ σ → Prop
  | start (disk : Disk) (requireFiles : Bool) (context : σ) :
      Configured engines (.new disk requireFiles context)
  | tick {w : Workspace ι υ σ} (h : Configured engines w) : Configured engines w.now.2
  | act {w : Workspace ι υ σ} (h : Configured engines w) {a : Action}
      (ha : a.setsPart = false) : Configured engines (a.perform w)
  | upsertParts {w : Workspace ι υ σ} (h : Configured engines w) {parts : List ProjectPart}
      (hparts : ∀ part ∈ parts, part.changed ≤ w.clock.last) :
      Configured engines (w.upsertParts parts).2
  | remember {w : Workspace ι υ σ} (h : Configured engines w) (context : σ) :
      Configured engines { w with context := context }
  | receive {w : Workspace ι υ σ} (h : Configured engines w) {n : Nat} {d : Document ι υ}
      (hd : w.documents[n]? = some d) {e : Engine ι υ σ} (he : engines e)
      (hdistinct : ∀ unit, (e.dependencies unit).Distinct) (mode : UpdateMode) {s : Snapshot}
      (hfile : s.file = d.key.path) (begun : Workspace ι υ σ)
      (hbegun : ∀ time, (e.run mode s d.handles begun).1.result.parsedAt = some time →
        time ≤ w.clock.last) :
      Configured engines (w.receive n (e.run mode s d.handles begun).1)

section

variable {engines : Engine ι υ σ → Prop} {w w' : Workspace ι υ σ}

/-- These are states of the cache. -/
theorem Configured.arises (h : Configured engines w) : Arises engines false w := by
  induction h with
  | start disk requireFiles context => exact .start disk requireFiles context
  | tick _ ih => exact ih.tick
  | act _ _ ih => exact ih.act _
  | upsertParts _ hparts ih => exact ih.upsertParts hparts
  | remember _ context ih => exact ih.remember context
  | receive _ hd he hdistinct mode hfile begun _ ih =>
    exact ih.receive hd he hdistinct mode hfile begun

theorem Configured.acts {actions : List Action} (ha : ∀ a ∈ actions, a.setsPart = false)
    (h : Configured engines w) : Configured engines (actions.foldl Action.perform w) :=
  List.foldlRecOn actions _ h fun _ hw a hmem => hw.act (ha a hmem)

/-- Both invariants, in all these states. -/
theorem consistent_of_configured (h : Configured engines w) : w.Carried ∧ w.Begun := by
  induction h with
  | start disk requireFiles context => exact ⟨nofun, nofun⟩
  | @tick w _ ih =>
    exact ⟨ih.1, fun n d hd => TimePoint.le_trans (ih.2 n d hd)
      (TimePoint.le_of_lt w.clock.last_lt_now)⟩
  | act h ha ih =>
    have htidy := (ordered_of_arises h.arises).1
    exact ⟨carried_perform htidy ih.1 ha, ih.2.drift (Action.drift_perform _ _)⟩
  | upsertParts h _ ih =>
    have htidy := (ordered_of_arises h.arises).1
    exact ⟨carried_upsertParts htidy ih.1 _, ih.2.upsertParts _⟩
  | remember _ _ ih => exact ih
  | @receive w _ n d _ e _ _ mode s _ begun hbegun ih =>
    refine ⟨?_, ih.2.receive n hbegun⟩
    have hsettled : KeepsParts w (w.modify n (e.run mode s d.handles begun).1.settle) :=
      .of_modify w n fun d' => by
        obtain ⟨hkey, -, hpart, -, -⟩ := settle_rest (e.run mode s d.handles begun).1 d'
        exact ⟨hkey, hpart⟩
    rw [receive_eq]
    exact hsettled.carried ih.1

/-- A whole update, whatever happens during its calls, as long as time does not go
back. -/
theorem Configured.update (h : Configured engines w) {e : Engine ι υ σ} (he : engines e)
    (hdistinct : ∀ unit, (e.dependencies unit).Distinct) {n : Nat}
    (hcalls : e.Within (Guards (Configured engines) n))
    (hclock : e.Within fun w w' => w.clock.last ≤ w'.clock.last) (mode : UpdateMode) :
    Configured engines (w.update e mode n) := by
  cases hd : w.documents[n]? with
  | none =>
    rw [update_of_none hd]
    exact h
  | some d =>
    obtain ⟨harrived, hattended⟩ := hcalls.run mode (d.snapshot w.buffers) d.handles w h
    obtain ⟨d', hd', hkey, hhandles⟩ := hattended d hd
    have hfile : (d.snapshot w.buffers).file = d'.key.path := by rw [hkey]; rfl
    have hbegun : ∀ time, (w.outcome e mode d).1.result.parsedAt = some time →
        time ≤ (w.outcome e mode d).2.clock.last := fun _ htime =>
      Engine.parsedAt_run_le hclock mode (d.snapshot w.buffers) d.handles w htime
    have hreceived := fun hbegun => harrived.receive hd' he hdistinct mode hfile w hbegun
    rw [hhandles] at hreceived
    rw [update_eq_receive hd]
    exact hreceived hbegun

/-- Nothing happens during the calls of an engine that looks on. -/
theorem Configured.update_of_looksOn (h : Configured engines w) {e : Engine ι υ σ}
    (he : engines e) (hdistinct : ∀ unit, (e.dependencies unit).Distinct) (hlooks : e.LooksOn)
    (mode : UpdateMode) (n : Nat) : Configured engines (w.update e mode n) := by
  have hclock : e.Within fun w w' => w.clock.last ≤ w'.clock.last :=
    hlooks.within (fun _ => TimePoint.le_refl _) TimePoint.le_trans fun w =>
      TimePoint.le_of_lt w.clock.last_lt_now
  exact h.update he hdistinct (Guards.within hlooks Configured.tick) hclock mode

/-! ## §6. Upserts in these states. -/

/-- Parts built on the spot and registered in one list, whose ids may repeat,
reach exactly the documents they should; and if no id repeats, the same list a
second time changes no part, neither in the registry nor with a document. -/
theorem reconfigured_of_configured (h : Configured engines w)
    (given : List (String × List String)) :
    Reconfigured given w (w.upsertFresh given).2 (w.upsertFresh given).1 ∧
    ((given.map Prod.fst).Nodup →
      ((w.upsertFresh given).2.upsertFresh given).2.parts = (w.upsertFresh given).2.parts ∧
        ∀ (n : Nat) (d : Document ι υ), (w.upsertFresh given).2.documents[n]? = some d →
          ∃ d', ((w.upsertFresh given).2.upsertFresh given).2.documents[n]? = some d' ∧
            d'.part = d.part) := by
  obtain ⟨htidy, hordered⟩ := ordered_of_arises h.arises
  obtain ⟨hcarried, hbegun⟩ := consistent_of_configured h
  have hreconfigured := reconfigured_upsertFresh htidy hbegun given hordered
    (dated_of_arises h.arises) hcarried
  exact ⟨hreconfigured, hreconfigured.again⟩

end

/-- Two documents under two parts, the first of which was parsed. -/
def underParts : Workspace CountingIndex Include.ScannedUnit Unit :=
  ([Action.write ⟨"/a.c"⟩ (.text ""), .upsertParts [("p", []), ("q", [])],
    .create [.new ⟨"/a.c"⟩ "p", .new ⟨"/b.c"⟩ "q"]].foldl Action.perform
      (.new (.fresh []) false ())).update Include.engine .asNeeded 0

/-- A part is changed and changed back, and meanwhile another one comes. -/
def thereAndBack : List (String × List String) := [("p", ["-O2"]), ("r", []), ("p", [])]

/-- The document of that part is returned, although the part has the arguments it
had at first.  A list that names it once changes nothing when it comes again. -/
theorem reconfigured_thereAndBack :
    (Reconfigured thereAndBack underParts (underParts.upsertFresh thereAndBack).2
        (underParts.upsertFresh thereAndBack).1 ∧
      (underParts.upsertFresh thereAndBack).1 = [0] ∧
      (underParts.upsertFresh thereAndBack).2.parts.arguments? "p" = some []) ∧
    ((underParts.upsertFresh [("p", ["-O2"])]).2.upsertFresh [("p", ["-O2"])]).2.parts =
      (underParts.upsertFresh [("p", ["-O2"])]).2.parts := by
  have hconfigured : Configured (fun _ => True) underParts := by
    refine Configured.update_of_looksOn ?_ trivial distinct_scanner looksOn_scanner .asNeeded 0
    exact .acts (by decide) (.start _ _ _)
  have hagain := (reconfigured_of_configured hconfigured [("p", ["-O2"])]).2
    (by decide)
  exact ⟨⟨(reconfigured_of_configured hconfigured thereAndBack).1, by decide +kernel,
    by decide +kernel⟩, hagain.1⟩

end Workspace

end ParseCache
