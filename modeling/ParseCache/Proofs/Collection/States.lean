/-
  ParseCache.Proofs.Collection.States — the states a cache can get into.

  Whatever happens to a cache happens in steps: time goes on, something occurs,
  parts are registered or handed to a document, the result of an update
  arrives.  While an engine works, other steps come in between, so its call and
  the arrival of its result are not one step.  Only the arrival changes the
  cache; where the run began is left open here, which takes in every way steps
  can be woven together.

  Two things can be restricted: the engines in use, and whether results may be
  applied that no update brought.

  Main results:
    * `Arises` — the states, with `Arises.update` for a whole update;
    * `Lasting.arises` — what lasts, and what results leave alone, holds in all
      of them;
    * `dated_of_arises`, `ordered_of_arises`, `balanced_of_arises` — stamps,
      places and watch counts are right in all of them;
    * `fits_of_arises` — where every result comes from an update, the
      dependencies of a document are those of the unit it holds.
-/
import ParseCache.Proofs.Collection.KeyOrder
import ParseCache.Proofs.Collection.Stamps
import ParseCache.Proofs.Lists
import ParseCache.Proofs.Update.Journal

namespace ParseCache

variable {ι υ σ : Type}

namespace Workspace

/-! ## §1. Results arrive. -/

/-- A result arrives: its document gets the resources that come with it, and
the result is applied. -/
def receive (w : Workspace ι υ σ) (n : Nat) (p : Progress ι υ) : Workspace ι υ σ :=
  (w.modify n fun d => { d with handles := p.handles }).incorporate n p.result

/-- An update is the engine at work and then the arrival of its result. -/
theorem update_eq_receive {e : Engine ι υ σ} {mode : UpdateMode} {w : Workspace ι υ σ} {n : Nat}
    {d : Document ι υ} (hd : w.documents[n]? = some d) :
    w.update e mode n = (w.outcome e mode d).2.receive n (w.outcome e mode d).1 :=
  update_eq_incorporate hd

/-- What arrives changes one document, and watches. -/
theorem receive_eq (w : Workspace ι υ σ) (n : Nat) (p : Progress ι υ) :
    w.receive n p = { w with
      documents := w.documents.modify n p.settle
      watches := (w.receive n p).watches } := by
  have htwice : (w.documents.modify n fun d => { d with handles := p.handles }).modify n
      (·.incorporate p.result) = w.documents.modify n p.settle :=
    List.modify_modify_eq _ _ n w.documents
  refine (incorporate_eq _ n _).trans ?_
  rw [← htwice]
  rfl

/-- The watches of a document follow its dependencies when these are replaced,
and never else. -/
theorem watches_receive {w : Workspace ι υ σ} {n : Nat} {d : Document ι υ}
    (hd : w.documents[n]? = some d) (p : Progress ι υ) :
    (w.receive n p).watches =
      if Document.installs p.result then
        (w.watches.setWatched d.key (p.result.dependencies.insert d.key.path)).2
      else w.watches :=
  watches_incorporate (getElem?_modify_self hd _) p.result

/-- The result of an update is applied to the document as it is by then. -/
theorem getElem?_receive_self {w : Workspace ι υ σ} {n : Nat} {d : Document ι υ}
    (hd : w.documents[n]? = some d) (p : Progress ι υ) :
    (w.receive n p).documents[n]? = some (p.settle d) := by
  rw [receive_eq]
  exact getElem?_modify_self hd p.settle

theorem getElem?_receive_of_ne (w : Workspace ι υ σ) {n m : Nat} (hm : n ≠ m)
    (p : Progress ι υ) : (w.receive n p).documents[m]? = w.documents[m]? := by
  rw [receive_eq]
  exact getElem?_modify_of_ne w hm p.settle

/-- A failed result leaves a trace of the failure, and resources. -/
theorem settle_of_failed {p : Progress ι υ} (hfailed : p.result.failed = true)
    (d : Document ι υ) :
    p.settle d = { d with handles := p.handles, failed := true, dirty := false } := by
  unfold Progress.settle Document.incorporate
  rw [hfailed, if_pos rfl]

/-- A result that failed leaves the registry alone. -/
theorem watches_receive_of_failed {w : Workspace ι υ σ} {n : Nat} {d : Document ι υ}
    (hd : w.documents[n]? = some d) {p : Progress ι υ} (hfailed : p.result.failed = true) :
    (w.receive n p).watches = w.watches := by
  rw [watches_receive hd, Document.installs, hfailed]
  rfl

/-! ## §2. States. -/

/-- The states that arise where engines of a kind are in use, and results are
applied directly if `direct`.  Parts may have been built at any time before.  A
result may come from a run that began anywhere, as long as that was an update
of its document, which still has the resources the run was given. -/
inductive Arises (engines : Engine ι υ σ → Prop) (direct : Bool) : Workspace ι υ σ → Prop
  | start (disk : Disk) (requireFiles : Bool) (context : σ) :
      Arises engines direct (.new disk requireFiles context)
  | tick {w : Workspace ι υ σ} (h : Arises engines direct w) : Arises engines direct w.now.2
  | act {w : Workspace ι υ σ} (h : Arises engines direct w) (a : Action) :
      Arises engines direct (a.perform w)
  | upsertParts {w : Workspace ι υ σ} (h : Arises engines direct w) {parts : List ProjectPart}
      (hparts : ∀ part ∈ parts, part.changed ≤ w.clock.last) :
      Arises engines direct (w.upsertParts parts).2
  | setPart {w : Workspace ι υ σ} (h : Arises engines direct w) (n : Nat) {part : ProjectPart}
      (hpart : part.changed ≤ w.clock.last) : Arises engines direct (w.modify n (·.setPart part))
  | remember {w : Workspace ι υ σ} (h : Arises engines direct w) (context : σ) :
      Arises engines direct { w with context := context }
  | receive {w : Workspace ι υ σ} (h : Arises engines direct w) {n : Nat} {d : Document ι υ}
      (hd : w.documents[n]? = some d) {e : Engine ι υ σ} (he : engines e)
      (hdistinct : ∀ unit, (e.dependencies unit).Distinct) (mode : UpdateMode) {s : Snapshot}
      (hfile : s.file = d.key.path) (begun : Workspace ι υ σ) :
      Arises engines direct (w.receive n (e.run mode s d.handles begun).1)
  | incorporate {w : Workspace ι υ σ} (h : Arises engines direct w) (hdirect : direct = true)
      (n : Nat) {r : UpdateResult} (hr : r.dependencies.Distinct) :
      Arises engines direct (w.incorporate n r)

/-- From `w` to `w'` a property of states is kept, and nobody takes the resources
of document `n`. -/
def Guards (P : Workspace ι υ σ → Prop) (n : Nat) (w w' : Workspace ι υ σ) : Prop :=
  P w → P w' ∧ ∀ d, w.documents[n]? = some d →
    ∃ d', w'.documents[n]? = some d' ∧ d'.key = d.key ∧ d'.handles = d.handles

namespace Guards

variable {P : Workspace ι υ σ → Prop} {n : Nat} {w w' w'' : Workspace ι υ σ}

theorem refl (w : Workspace ι υ σ) : Guards P n w w :=
  fun h => ⟨h, fun d hd => ⟨d, hd, rfl, rfl⟩⟩

theorem trans (h : Guards P n w w') (h' : Guards P n w' w'') : Guards P n w w'' := by
  intro hw
  obtain ⟨hw', hkept⟩ := h hw
  obtain ⟨hw'', hkept'⟩ := h' hw'
  refine ⟨hw'', fun d hd => ?_⟩
  obtain ⟨d', hd', hkey, hhandles⟩ := hkept d hd
  obtain ⟨d'', hd'', hkey', hhandles'⟩ := hkept' d' hd'
  exact ⟨d'', hd'', hkey'.trans hkey, hhandles'.trans hhandles⟩

/-- An engine that looks on guards what outlasts time. -/
theorem within {e : Engine ι υ σ} (he : e.LooksOn) (hnow : ∀ {w}, P w → P w.now.2) :
    e.Within (Guards P n) :=
  he.within refl trans fun _ h => ⟨hnow h, fun d hd => ⟨d, hd, rfl, rfl⟩⟩

end Guards

section

variable {engines : Engine ι υ σ → Prop} {direct : Bool}

/-- Actions lead from states that arise to such states. -/
theorem Arises.acts (actions : List Action) :
    ∀ {w : Workspace ι υ σ}, Arises engines direct w →
      Arises engines direct (actions.foldl Action.perform w) := by
  induction actions with
  | nil => exact fun h => h
  | cons a rest ih => exact fun h => ih (h.act a)

/-- What can happen while document `n` is updated: the cache goes through its
states, and nobody else takes the resources of the document. -/
def Attends (engines : Engine ι υ σ → Prop) (direct : Bool) (n : Nat)
    (w w' : Workspace ι υ σ) : Prop :=
  Guards (Arises engines direct) n w w'

/-- A whole update, whatever happens during its calls. -/
theorem Arises.update {w : Workspace ι υ σ} (h : Arises engines direct w) {e : Engine ι υ σ}
    (he : engines e) (hdistinct : ∀ unit, (e.dependencies unit).Distinct) {n : Nat}
    (hcalls : e.Within (Attends engines direct n)) (mode : UpdateMode) :
    Arises engines direct (w.update e mode n) := by
  cases hd : w.documents[n]? with
  | none =>
    rw [update_of_none hd]
    exact h
  | some d =>
    obtain ⟨harrived, hattended⟩ := hcalls.run mode (d.snapshot w.buffers) d.handles w h
    obtain ⟨d', hd', hkey, hhandles⟩ := hattended d hd
    have hfile : (d.snapshot w.buffers).file = d'.key.path := by rw [hkey]; rfl
    have hreceived := harrived.receive hd' he hdistinct mode hfile w
    rw [hhandles] at hreceived
    rw [update_eq_receive hd]
    exact hreceived

/-- Nothing happens during the calls of an engine that looks on. -/
theorem Arises.update_of_looksOn {w : Workspace ι υ σ} (h : Arises engines direct w)
    {e : Engine ι υ σ} (he : engines e) (hdistinct : ∀ unit, (e.dependencies unit).Distinct)
    (hlooks : e.LooksOn) (mode : UpdateMode) (n : Nat) :
    Arises engines direct (w.update e mode n) :=
  h.update he hdistinct (Guards.within hlooks Arises.tick) mode

/-- So do updates one after the other, by engines that only look on. -/
theorem Arises.updates_of_looksOn {e : Engine ι υ σ} (he : engines e)
    (hdistinct : ∀ unit, (e.dependencies unit).Distinct) (hlooks : e.LooksOn) (mode : UpdateMode)
    (ns : List Nat) {w : Workspace ι υ σ} (h : Arises engines direct w) :
    Arises engines direct (ns.foldl (fun w n => w.update e mode n) w) :=
  List.foldlRecOn ns _ h fun _ hw n _ => hw.update_of_looksOn he hdistinct hlooks mode n

/-! ## §3. What holds in all of them. -/

/-- What is lasting, and outlasts results, holds in every state.  The
dependencies a result brings are a set. -/
theorem Lasting.arises {P : Workspace ι υ σ → Prop} (hlasting : Lasting P)
    (hstart : ∀ disk requireFiles context, P (.new disk requireFiles context))
    (hresult : ∀ {w : Workspace ι υ σ} (n : Nat) (r : UpdateResult), P w →
      (Document.installs r = true → r.dependencies.Distinct) → P (w.incorporate n r))
    {w : Workspace ι υ σ} (h : Arises engines direct w) : P w := by
  induction h with
  | start disk requireFiles context => exact hstart disk requireFiles context
  | tick _ ih => exact hlasting.stays ih (stays_now _)
  | act _ a ih => exact hlasting.perform ih (.action a)
  | upsertParts _ _ ih => exact hlasting.stays ih (stays_upsertParts _ _)
  | setPart _ n _ ih =>
    exact hlasting.stays ih ((Stays.refl _).modify n fun d => setPart_key d _)
  | remember _ context ih => exact hlasting.stays ih (.of_eq rfl rfl rfl rfl)
  | @receive _ _ n d _ e _ hdistinct mode s _ begun ih =>
    refine hresult n _ (hlasting.stays ih ((Stays.refl _).modify n fun _ => ⟨rfl, rfl⟩)) ?_
    intro hinstalls
    have hends := e.ends_run s d.handles begun mode
    -- a result that replaces dependencies has left a unit, and brings its own
    cases hunit : (e.run mode s d.handles begun).1.handles.unit.resource with
    | none =>
      rw [Document.installs, hends.failed, hunit] at hinstalls
      cases hinstalls
    | some unit =>
      rcases hends.unit unit hunit with ⟨-, hdependencies⟩ | ⟨hnot, -⟩
      · rw [hdependencies]
        exact PathSet.distinct_insert (hdistinct unit) s.file
      · rw [hnot] at hinstalls
        cases hinstalls
  | incorporate _ _ n hr ih => exact hresult n _ ih fun _ => hr

/-- The held documents are those that are registered, in key order. -/
theorem ordered_of_arises {w : Workspace ι υ σ} (h : Arises engines direct w) :
    w.Tidy ∧ w.Ordered :=
  lasting_ordered.arises (fun _ _ _ => ⟨tidy_new _ _ _, ordered_new _ _ _⟩)
    (fun n r hw _ => ⟨tidy_incorporate hw.1 n r, ordered_incorporate hw.2 n r⟩) h

/-- Occurrences keep the balance of the registry. -/
theorem lasting_balanced : Lasting fun w : Workspace ι υ σ => w.Tidy ∧ w.watches.Balanced where
  named h := h.1.named
  known h := h.1.known
  stays h hstays := by
    refine ⟨tidy_stays h.1 hstays, ?_⟩
    rw [hstays.watches]
    exact h.2
  come d h _ := ⟨tidy_come h.1 d, WatchRegistry.balanced_register h.2 d.key⟩
  evict key h := ⟨tidy_evict h.1 key, WatchRegistry.balanced_remove h.2 key⟩
  withoutParts ids h := ⟨lasting_tidy.withoutParts ids h.1, h.2⟩

/-- A result keeps the balance, if the dependencies it installs are a set. -/
theorem balanced_incorporate {w : Workspace ι υ σ} (h : w.watches.Balanced) (n : Nat)
    {r : UpdateResult} (hr : Document.installs r = true → r.dependencies.Distinct) :
    (w.incorporate n r).watches.Balanced := by
  cases hd : w.documents[n]? with
  | none =>
    rw [watches_incorporate_of_none hd]
    exact h
  | some d =>
    rw [watches_incorporate hd]
    by_cases hinstalls : Document.installs r = true
    · rw [if_pos hinstalls]
      exact WatchRegistry.balanced_setWatched h d.key
        (PathSet.distinct_insert (hr hinstalls) d.key.path)
    · rw [if_neg hinstalls]
      exact h

theorem balanced_of_arises {w : Workspace ι υ σ} (h : Arises engines direct w) :
    w.watches.Balanced :=
  (lasting_balanced.arises (fun _ _ _ => ⟨tidy_new _ _ _, WatchRegistry.balanced_empty⟩)
    (fun n _ hw hr => ⟨tidy_incorporate hw.1 n _, balanced_incorporate hw.2 n hr⟩) h).2

/-- No stamp is ever from the future. -/
theorem dated_of_arises {w : Workspace ι υ σ} (h : Arises engines direct w) : w.Dated := by
  induction h with
  | start disk requireFiles context => exact dated_new disk requireFiles context
  | tick _ ih => exact ih.now
  | act _ a ih => exact dated_perform ih a
  | upsertParts _ hparts ih => exact dated_upsertParts ih hparts
  | setPart _ n hpart ih => exact ih.modify n fun _ hd => hd.setPart hpart
  | remember _ context ih => exact ih.of_eq (TimePoint.le_refl _) rfl rfl
  | @receive _ _ n _ _ _ _ _ _ _ _ _ ih =>
    have hsupplied := fun handles => ih.modify n (f := fun d => { d with handles := handles })
      fun _ hd => ⟨hd.part, hd.dirtyPoint⟩
    exact dated_incorporate (hsupplied _) n _
  | incorporate _ _ n _ ih => exact dated_incorporate ih n _

end

end Workspace

/-! ## §4. Units and dependencies. -/

/-- A document that has a unit depends on what the unit does, and on its own
file. -/
def Document.Fits (dependencies : υ → PathSet) (d : Document ι υ) : Prop :=
  ∀ unit, d.handles.unit.resource = some unit →
    d.dependencies = (dependencies unit).insert d.key.path

theorem Document.Fits.rests {dependencies : υ → PathSet} {d d' : Document ι υ}
    (h : d.Fits dependencies) (hrests : d.Rests d') : d'.Fits dependencies := by
  intro unit hunit
  rw [hrests.handles] at hunit
  rw [hrests.dependencies, hrests.key]
  exact h unit hunit

/-- So does one that was just updated. -/
theorem Document.Fits.settle {d : Document ι υ} {e : Engine ι υ σ} (h : d.Fits e.dependencies)
    {s : Snapshot} (hfile : s.file = d.key.path) {p : Progress ι υ} (hp : e.Ends s d.handles p) :
    (p.settle d).Fits e.dependencies := by
  intro unit hunit
  obtain ⟨hkey, -, -, -, hhandles⟩ := settle_rest p d
  rw [hhandles] at hunit
  rw [hkey, Told.dependencies_settle]
  rcases hp.unit unit hunit with ⟨hinstalls, hdependencies⟩ | ⟨hnot, hold⟩
  · rw [if_pos hinstalls, hdependencies, Engine.dependenciesOf, hfile, Told.insert_insert]
  · rw [hnot, if_neg Bool.false_ne_true]
    exact h unit hold

namespace Workspace

/-- All documents fit their units. -/
def Fitting (dependencies : υ → PathSet) (w : Workspace ι υ σ) : Prop :=
  ∀ (n : Nat) (d : Document ι υ), w.documents[n]? = some d → d.Fits dependencies

namespace Fitting

variable {dependencies : υ → PathSet} {w w' : Workspace ι υ σ}

/-- A document that comes has no unit. -/
theorem drift (h : w.Fitting dependencies) (hdrift : Drift w w') : w'.Fitting dependencies := by
  intro n d' hd'
  cases hd : w.documents[n]? with
  | none =>
    intro unit hunit
    rw [(hdrift.fresh n d' hd hd').handles] at hunit
    cases hunit
  | some d =>
    have hsince := hdrift.document hd hd'
    exact (h n d hd).rests ⟨hsince.key, hsince.dependencies, hsince.failed, hsince.handles⟩

theorem modify (h : w.Fitting dependencies) (n : Nat) {f : Document ι υ → Document ι υ}
    (hf : ∀ d, w.documents[n]? = some d → d.Fits dependencies → (f d).Fits dependencies) :
    (w.modify n f).Fitting dependencies := by
  intro m d' hd'
  obtain ⟨d, hd, ⟨rfl, rfl⟩ | rfl⟩ := exists_of_modify hd'
  · exact hf d hd (h n d hd)
  · exact h m d' hd

theorem setPart (h : w.Fitting dependencies) (n : Nat) (part : ProjectPart) :
    (w.modify n (·.setPart part)).Fitting dependencies :=
  h.modify n fun d _ hd => hd.rests (d.rests_setPart part)

theorem installPart (h : w.Fitting dependencies) (id : String) :
    (w.installPart id).Fitting dependencies := by
  unfold Workspace.installPart
  split
  · exact h
  · exact List.foldlRecOn _ _ h fun _ hw n _ => hw.setPart n _

theorem upsertParts (h : w.Fitting dependencies) (parts : List ProjectPart) :
    (w.upsertParts parts).2.Fitting dependencies := by
  have hinstalled : ((w.registerParts parts).1.foldl Workspace.installPart
      (w.registerParts parts).2).Fitting dependencies :=
    List.foldlRecOn _ _ h fun _ hw id _ => hw.installPart id
  exact hinstalled.drift (.of_marks (marks_markOutdated _))

end Fitting

/-- Where the engines agree on what a unit depends on, and only updates bring
results, every document fits its unit. -/
theorem fits_of_arises {dependencies : υ → PathSet} {w : Workspace ι υ σ}
    (h : Arises (·.dependencies = dependencies) false w) : w.Fitting dependencies := by
  induction h with
  | start disk requireFiles context => exact fun _ _ hd => nomatch hd
  | tick _ ih => exact ih
  | act _ a ih => exact ih.drift (a.drift_perform _)
  | upsertParts _ _ ih => exact ih.upsertParts _
  | setPart _ n _ ih => exact ih.setPart n _
  | remember _ _ ih => exact ih
  | @receive w _ n d hd e he _ mode s hfile begun ih =>
    subst he
    have hsettled : (w.modify n (e.run mode s d.handles begun).1.settle).Fitting e.dependencies := by
      refine ih.modify n fun d' hd' hfits => ?_
      rw [hd] at hd'
      cases hd'
      exact hfits.settle hfile (e.ends_run s d.handles begun mode)
    rw [receive_eq]
    exact hsettled
  | incorporate _ hdirect => cases hdirect

end Workspace

end ParseCache
