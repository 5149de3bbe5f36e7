/-
  ParseCache.Proofs.Update.Independence — updates of different documents do not
  interfere.

  A command updates a list of documents, in which some may stand more than once,
  and does not care for the order.  The documents share the disk, the buffers and
  the watch registry, and every update takes the time.  What an update comes to is
  nevertheless decided by its own document, if the engine looks at nothing but the
  disk: the others leave no trace in what it reads.  So of a whole list a document
  sees its own entries only, and these are the same in any order.

  Points of time do differ.  They matter only for whether a part changed since the
  latest parse, and a parse begins after every change that is known.

  Main results:
    * `sameButTime_run` — snapshot, resources and disk decide a run, but for
      points of time;
    * `AlikeAt.update` — an update of a document depends on what is seen of that
      document;
    * `alikeAt_update_of_ne` — an update of another document changes none of this;
    * `purged_updateEach` — of a list of updates, a document sees its own;
    * `independent_updateEach` — in any order, a list of documents is updated with
      the same outcome.
-/
import Mathlib.Data.List.Pairwise
import ParseCache.Command.Run
import ParseCache.Proofs.Collection.OwnFile
import ParseCache.Proofs.Update.Combined

namespace ParseCache

variable {ι υ σ : Type}

/-! ## §1. Runs and points of time. -/

/-- Two runs, begun at `time` and `time'`, have come to the same, but for points of
time.  If they parsed, the parses began after the runs did. -/
structure Progress.SameButTime (time time' : TimePoint) (p p' : Progress ι υ) : Prop where
  handles : p'.handles = p.handles
  failed : p'.result.failed = p.result.failed
  reparsed : p'.result.reparsed = p.result.reparsed
  dependencies : p'.result.dependencies = p.result.dependencies
  dirtyPoint : p'.result.dirtyPoint = p.result.dirtyPoint
  parsedAt : (p.result.parsedAt = none ∧ p'.result.parsedAt = none) ∨
    ∃ began began', p.result.parsedAt = some began ∧ p'.result.parsedAt = some began' ∧
      time < began ∧ time' < began'

/-- Where nothing was parsed, the same is the same. -/
theorem Progress.SameButTime.refl {p : Progress ι υ} (hnone : p.result.parsedAt = none)
    (time time' : TimePoint) : p.SameButTime time time' p :=
  ⟨rfl, rfl, rfl, rfl, rfl, Or.inl ⟨hnone, hnone⟩⟩

theorem Progress.SameButTime.installs {time time' : TimePoint} {p p' : Progress ι υ}
    (h : p.SameButTime time time' p') :
    Document.installs p'.result = Document.installs p.result := by
  unfold Document.installs
  rw [h.failed, h.reparsed]
  rcases h.parsedAt with ⟨hnone, hnone'⟩ | ⟨_, _, hsome, hsome', -, -⟩
  · rw [hnone, hnone']
  · rw [hsome, hsome']
    rfl

namespace Engine

/-- The calls of an engine leave everything as it is, and look at nothing but the
disk. -/
structure ReadsDisk (e : Engine ι υ σ) : Prop extends e.LooksOn where
  madeIndex : ∀ w w', (e.newIndex w').1 = (e.newIndex w).1
  parsed : ∀ {w w'}, w'.disk = w.disk → ∀ request index,
    (e.parse request index w').1 = (e.parse request index w).1
  reparsed : ∀ {w w'}, w'.disk = w.disk → ∀ request unit,
    (e.reparse request unit w').1 = (e.reparse request unit w).1

/-- All that goes on during a run is time. -/
theorem LooksOn.rest_run {e : Engine ι υ σ} (he : e.LooksOn) (mode : UpdateMode) (s : Snapshot)
    (h : Handles ι υ) (w : Workspace ι υ σ) :
    (e.run mode s h w).2 = { w with clock := (e.run mode s h w).2.clock } := by
  have hticks : e.Within fun w w' => w' = { w with clock := w'.clock } :=
    he.within (fun _ => rfl) (fun h h' => by rw [h', h]) fun _ => rfl
  exact hticks.run mode s h w

section

variable {e : Engine ι υ σ} (he : e.ReadsDisk) {w w' : Workspace ι υ σ}
  (hdisk : w'.disk = w.disk) (s : Snapshot)

include he

theorem ReadsDisk.indexOf_fst (h : Handle ι) (w w' : Workspace ι υ σ) :
    (e.indexOf h w').1 = (e.indexOf h w).1 := by
  unfold indexOf
  split
  · rfl
  · exact he.madeIndex w w'

theorem ReadsDisk.indexOf_snd (h : Handle ι) (w : Workspace ι υ σ) : (e.indexOf h w).2 = w := by
  unfold indexOf
  split
  · rfl
  · exact he.newIndex w

include hdisk

/-- The disk decides how a parse ends. -/
theorem sameButTime_parseStep (h : Handles ι υ) :
    (e.parseStep s h w).1.SameButTime w.clock.last w'.clock.last (e.parseStep s h w').1 := by
  have hcall : (e.parseCall s h w').1 = (e.parseCall s h w).1 := by
    have hnow : w'.now.2.disk = w.now.2.disk := hdisk
    unfold parseCall
    rw [he.indexOf_fst h.index w.now.2 w'.now.2, he.indexOf_snd, he.indexOf_snd]
    exact he.parsed hnow s.request _
  rw [e.parseStep_eq s h w, e.parseStep_eq s h w', hcall]
  cases (e.parseCall s h w).1.1 with
  | ok unit =>
    exact ⟨rfl, rfl, rfl, rfl, rfl, Or.inr ⟨_, _, rfl, rfl, w.clock.last_lt_now,
      w'.clock.last_lt_now⟩⟩
  | error cause => exact .refl rfl _ _

theorem sameButTime_parseIfNeeded (h : Handles ι υ) :
    (e.parseIfNeeded s h w).1.SameButTime w.clock.last w'.clock.last
      (e.parseIfNeeded s h w').1 := by
  unfold parseIfNeeded
  -- whether to parse is decided by the snapshot and the resources
  generalize (if s.parseNeeded then { h with unit := h.unit.dispose.1 } else h) = kept
  by_cases hnull : kept.unit.isNull = true
  · simp only [if_pos hnull]
    exact sameButTime_parseStep he hdisk s kept
  · simp only [if_neg hnull]
    exact .refl rfl _ _

/-- So it does with a reparse, after first halves that came to the same. -/
theorem sameButTime_reparseStep {time time' : TimePoint} {p p' : Progress ι υ}
    (hp : p.SameButTime time time' p') :
    (e.reparseStep s p w).1.SameButTime time time' (e.reparseStep s p' w').1 := by
  obtain ⟨result, handles⟩ := p
  obtain ⟨result', handles'⟩ := p'
  obtain rfl : handles' = handles := hp.handles
  obtain ⟨index, resource⟩ := handles'
  obtain ⟨resource⟩ := resource
  cases resource with
  | none => exact ⟨rfl, rfl, hp.reparsed, hp.dependencies, rfl, hp.parsedAt⟩
  | some unit =>
    have hnow : w'.now.2.disk = w.now.2.disk := hdisk
    have hcall := he.reparsed hnow s.request unit
    have hstep := e.reparseStep_of_unit s result index unit w
    have hstep' := e.reparseStep_of_unit s result' index unit w'
    rcases hreply : e.reparse s.request unit w.now.2 with ⟨reply, after⟩
    rcases hreply' : e.reparse s.request unit w'.now.2 with ⟨reply', after'⟩
    rw [hreply] at hstep hcall
    rw [hreply'] at hstep' hcall
    obtain rfl : reply' = reply := hcall
    show (e.reparseStep s ⟨result, index, .of unit⟩ w).1.SameButTime time time'
      (e.reparseStep s ⟨result', index, .of unit⟩ w').1
    rw [hstep, hstep']
    cases reply' with
    | ok unit' => exact ⟨rfl, hp.failed, rfl, rfl, rfl, hp.parsedAt⟩
    | error cause => exact ⟨rfl, rfl, hp.reparsed, hp.dependencies, rfl, hp.parsedAt⟩

/-- A whole run is decided by the snapshot, the resources and the disk. -/
theorem sameButTime_run (mode : UpdateMode) (h : Handles ι υ) :
    (e.run mode s h w).1.SameButTime w.clock.last w'.clock.last (e.run mode s h w').1 := by
  have hfirst := sameButTime_parseIfNeeded he hdisk s h
  cases mode with
  | parseIfNeeded => exact hfirst
  | forceReparse => exact sameButTime_reparseStep he hdisk s (.refl rfl _ _)
  | asNeeded =>
    have hafter : (e.parseIfNeeded s h w').2.disk = (e.parseIfNeeded s h w).2.disk := by
      have hleft : ∀ w, (e.parseIfNeeded s h w).2.disk = w.disk := fun w => by
        rw [show (e.parseIfNeeded s h w).2 = _ from he.rest_run .parseIfNeeded s h w]
      rw [hleft, hleft, hdisk]
    rw [e.run_asNeeded_eq, e.run_asNeeded_eq, hfirst.failed]
    split
    · exact sameButTime_reparseStep he hafter s hfirst
    · exact hfirst

end

end Engine

/-! ## §2. Documents and points of time. -/

namespace Document

/-- Two records of a document that differ at most by when it was last parsed.  Its
part has changed since then according to both, or to neither. -/
structure Alike (d d' : Document ι υ) : Prop where
  rest : d' = { d with baseline := d'.baseline }
  isOutdated : d'.isOutdated = d.isOutdated

namespace Alike

variable {d d' d'' : Document ι υ}

theorem refl (d : Document ι υ) : d.Alike d := ⟨rfl, rfl⟩

theorem symm (h : d.Alike d') : d'.Alike d where
  rest := by rw [h.rest]
  isOutdated := h.isOutdated.symm

theorem trans (h : d.Alike d') (h' : d'.Alike d'') : d.Alike d'' where
  rest := by rw [h'.rest, h.rest]
  isOutdated := h'.isOutdated.trans h.isOutdated

/-- An update of the one begins as an update of the other. -/
theorem snapshot (h : d.Alike d') (buffers : Buffers) :
    d'.snapshot buffers = d.snapshot buffers := by
  unfold Document.snapshot
  rw [h.isOutdated, h.rest]

/-- Runs that came to the same are applied to the same effect, if the part has not
changed after they began. -/
theorem settle (h : d.Alike d') {time time' : TimePoint} {p p' : Progress ι υ}
    (hp : p.SameButTime time time' p') (hpast : d.part.changed ≤ time)
    (hpast' : d'.part.changed ≤ time') : (p.settle d).Alike (p'.settle d') := by
  have hlate : ∀ {began : TimePoint}, d.part.changed < began →
      decide (began ≤ d.part.changed) = false := fun hlt =>
    decide_eq_false fun hle => TimePoint.ne_of_lt (TimePoint.lt_of_lt_of_le hlt hle) rfl
  have hpart : d'.part = d.part := by rw [h.rest]
  have hbefore : decide (d'.baseline ≤ d.part.changed) = decide (d.baseline ≤ d.part.changed) := by
    have hsame := h.isOutdated
    unfold Document.isOutdated at hsame
    rw [hpart] at hsame
    exact hsame
  constructor
  · obtain ⟨baseline, rfl⟩ : ∃ baseline, d' = { d with baseline := baseline } := ⟨_, h.rest⟩
    unfold Progress.settle Document.incorporate
    rw [hp.installs, hp.failed, hp.handles, hp.reparsed, hp.dependencies, hp.dirtyPoint]
    split
    · rfl
    · rfl
  · unfold Document.isOutdated
    rw [settle_baseline, settle_baseline, (settle_rest p d).2.2.1, (settle_rest p' d').2.2.1,
      hp.failed, hpart]
    split
    · -- a failure leaves the baseline
      exact hbefore
    · rcases hp.parsedAt with ⟨hnone, hnone'⟩ | ⟨began, began', hsome, hsome', hlt, hlt'⟩
      · rw [hnone, hnone']
        exact hbefore
      · -- a parse moves it behind every change of the part
        rw [hpart] at hpast'
        rw [hsome, hsome']
        exact (hlate (TimePoint.lt_of_le_of_lt hpast' hlt')).trans
          (hlate (TimePoint.lt_of_le_of_lt hpast hlt)).symm

end Alike

end Document

namespace Workspace

/-! ## §3. What one update changes. -/

section

variable {e : Engine ι υ σ} (he : e.LooksOn) (mode : UpdateMode)

include he

theorem rest_outcome (w : Workspace ι υ σ) (d : Document ι υ) :
    (w.outcome e mode d).2 = { w with clock := (w.outcome e mode d).2.clock } :=
  he.rest_run mode (d.snapshot w.buffers) d.handles w

/-- An update concerns the clock, one document, and the watches. -/
theorem rest_update (w : Workspace ι υ σ) (n : Nat) :
    w.update e mode n = { w with
      clock := (w.update e mode n).clock
      documents := (w.update e mode n).documents
      watches := (w.update e mode n).watches } := by
  cases hd : w.documents[n]? with
  | none => rw [update_of_none hd]
  | some d => rw [update_eq_receive hd, receive_eq, rest_outcome he mode w d]

theorem getElem?_update_of_ne (w : Workspace ι υ σ) {n m : Nat} (hm : n ≠ m) :
    (w.update e mode n).documents[m]? = w.documents[m]? := by
  cases hd : w.documents[n]? with
  | none => rw [update_of_none hd]
  | some d => rw [update_eq_receive hd, getElem?_receive_of_ne _ hm, rest_outcome he mode w d]

variable {w : Workspace ι υ σ} {n : Nat} {d : Document ι υ} (hd : w.documents[n]? = some d)

include hd

theorem getElem?_outcome : (w.outcome e mode d).2.documents[n]? = some d := by
  rw [rest_outcome he mode w d]
  exact hd

theorem getElem?_update_self :
    (w.update e mode n).documents[n]? = some ((w.outcome e mode d).1.settle d) := by
  rw [update_eq_receive hd]
  exact getElem?_receive_self (getElem?_outcome he mode hd) _

theorem watches_update :
    (w.update e mode n).watches =
      if Document.installs (w.outcome e mode d).1.result then
        (w.watches.setWatched d.key
          ((w.outcome e mode d).1.result.dependencies.insert d.key.path)).2
      else w.watches := by
  have hwatches : (w.outcome e mode d).2.watches = w.watches := by
    rw [rest_outcome he mode w d]
  rw [update_eq_receive hd, watches_receive (getElem?_outcome he mode hd), hwatches]

/-- Only the set of the document is replaced, if it may have one. -/
theorem get?_update (key : DocumentKey) :
    (w.update e mode n).watches.sets.get? key =
      if Document.installs (w.outcome e mode d).1.result && (w.watches.registered.has d.key &&
          key.same d.key) then
        some ((w.outcome e mode d).1.result.dependencies.insert d.key.path)
      else w.watches.sets.get? key := by
  rw [watches_update he mode hd]
  cases Document.installs (w.outcome e mode d).1.result with
  | false => rfl
  | true => exact WatchRegistry.get?_setWatched _ _ _ _

omit hd in
theorem registered_update (w : Workspace ι υ σ) (n : Nat) :
    (w.update e mode n).watches.registered = w.watches.registered := by
  cases hd : w.documents[n]? with
  | none => rw [update_of_none hd]
  | some d =>
    rw [watches_update he mode hd]
    split
    · exact WatchRegistry.registered_setWatched _ _ _
    · rfl

end

/-! ## §4. What is seen of one document. -/

/-- What an update of document `n` reads and writes is alike in both workspaces. -/
structure AlikeAt (n : Nat) (w w' : Workspace ι υ σ) : Prop where
  disk : w'.disk = w.disk
  buffers : w'.buffers = w.buffers
  registered : w'.watches.registered = w.watches.registered
  document : ∃ d d', w.documents[n]? = some d ∧ w'.documents[n]? = some d' ∧ d.Alike d' ∧
    w'.watches.sets.get? d.key = w.watches.sets.get? d.key

namespace AlikeAt

variable {n : Nat} {w w' w'' : Workspace ι υ σ}

theorem refl {d : Document ι υ} (hd : w.documents[n]? = some d) : AlikeAt n w w :=
  ⟨rfl, rfl, rfl, d, d, hd, hd, .refl d, rfl⟩

theorem symm (h : AlikeAt n w w') : AlikeAt n w' w := by
  obtain ⟨d, d', hd, hd', halike, hset⟩ := h.document
  have hkey : d'.key = d.key := by rw [halike.rest]
  refine ⟨h.disk.symm, h.buffers.symm, h.registered.symm, d', d, hd', hd, halike.symm, ?_⟩
  rw [hkey]
  exact hset.symm

theorem trans (h : AlikeAt n w w') (h' : AlikeAt n w' w'') : AlikeAt n w w'' := by
  obtain ⟨d, d₁, hd, hd₁, halike, hset⟩ := h.document
  obtain ⟨d₁', d', hd₁', hd', halike', hset'⟩ := h'.document
  obtain rfl : d₁' = d₁ := Option.some.inj (hd₁'.symm.trans hd₁)
  have hkey : d₁'.key = d.key := by rw [halike.rest]
  rw [hkey] at hset'
  exact ⟨h'.disk.trans h.disk, h'.buffers.trans h.buffers, h'.registered.trans h.registered,
    d, d', hd, hd', halike.trans halike', hset'.trans hset⟩

/-- Alike documents have failed, or have not. -/
theorem any_failed (h : AlikeAt n w w') :
    w'.documents[n]?.any (·.failed) = w.documents[n]?.any (·.failed) := by
  obtain ⟨d, d', hd, hd', halike, -⟩ := h.document
  have hfailed : d'.failed = d.failed := by rw [halike.rest]
  rw [hd, hd']
  exact hfailed

/-- What is alike is updated alike. -/
theorem update {e : Engine ι υ σ} (he : e.ReadsDisk) (h : AlikeAt n w w') (hw : w.Dated)
    (hw' : w'.Dated) (mode : UpdateMode) :
    AlikeAt n (w.update e mode n) (w'.update e mode n) := by
  obtain ⟨d, d', hd, hd', halike, hset⟩ := h.document
  have hkey : d'.key = d.key := by rw [halike.rest]
  have hsame : (w.outcome e mode d).1.SameButTime w.clock.last w'.clock.last
      (w'.outcome e mode d').1 := by
    have hhandles : d'.handles = d.handles := by rw [halike.rest]
    unfold outcome
    rw [h.buffers, halike.snapshot, hhandles]
    exact Engine.sameButTime_run he h.disk _ mode _
  have hrest := rest_update he.toLooksOn mode w n
  have hrest' := rest_update he.toLooksOn mode w' n
  have hsettled := halike.settle hsame (hw.documents n d hd).part (hw'.documents n d' hd').part
  refine ⟨?_, ?_, ?_, _, _, getElem?_update_self he.toLooksOn mode hd,
    getElem?_update_self he.toLooksOn mode hd', hsettled, ?_⟩
  · rw [hrest, hrest']
    exact h.disk
  · rw [hrest, hrest']
    exact h.buffers
  · rw [registered_update he.toLooksOn, registered_update he.toLooksOn]
    exact h.registered
  · rw [(settle_rest _ d).1, get?_update he.toLooksOn mode hd, get?_update he.toLooksOn mode hd',
      hsame.installs, hsame.dependencies, h.registered, hkey, hset]

end AlikeAt

/-- Different documents that are held have different keys. -/
theorem same_eq_false_of_held {w : Workspace ι υ σ} (h : w.Ordered) {m n : Nat} (hm : m ∈ w.held)
    (hn : n ∈ w.held) (hne : m ≠ n) {d d' : Document ι υ} (hd : w.documents[m]? = some d)
    (hd' : w.documents[n]? = some d') : d.key.same d'.key = false := by
  have hsymm : Std.Symm fun a b => w.Before a b ∨ w.Before b a := ⟨fun _ _ => Or.symm⟩
  have hpairs : w.held.Pairwise fun a b => w.Before a b ∨ w.Before b a := h.imp Or.inl
  rw [Bool.eq_false_iff]
  intro hsame
  rcases hpairs.forall hm hn hne with hbefore | hbefore
  · have hlt := hbefore d d' hd hd'
    rw [DocumentKey.compare_eq_iff.2 hsame] at hlt
    cases hlt
  · have hlt := hbefore d' d hd' hd
    rw [DocumentKey.same_comm] at hsame
    rw [DocumentKey.compare_eq_iff.2 hsame] at hlt
    cases hlt

/-- An update of one held document is not seen of another. -/
theorem alikeAt_update_of_ne {e : Engine ι υ σ} (he : e.LooksOn) (mode : UpdateMode)
    {w : Workspace ι υ σ} (hknown : w.Known) (hordered : w.Ordered) {m n : Nat} (hm : m ∈ w.held)
    (hn : n ∈ w.held) (hne : m ≠ n) : AlikeAt n (w.update e mode m) w := by
  have hdm := List.getElem?_eq_getElem (hknown m hm)
  have hdn := List.getElem?_eq_getElem (hknown n hn)
  have hrest := rest_update he mode w m
  refine ⟨?_, ?_, ?_, _, _, ?_, hdn, .refl _, ?_⟩
  · rw [hrest]
  · rw [hrest]
  · rw [registered_update he mode]
  · rw [getElem?_update_of_ne he mode w hne]
    exact hdn
  · -- the set that is replaced belongs to another key
    rw [get?_update he mode hdm, same_eq_false_of_held hordered hn hm hne.symm hdn hdm,
      Bool.and_false, Bool.and_false]
    rfl

/-! ## §5. Lists of updates. -/

/-- Updates a list of documents one after the other.  Of each entry it is told
whether its document had failed when its turn was over. -/
def updateEach (e : Engine ι υ σ) (mode : UpdateMode) :
    List Nat → Workspace ι υ σ → List (Nat × Bool) × Workspace ι υ σ
  | [], w => ([], w)
  | n :: rest, w =>
    let w := w.update e mode n
    let (flags, last) := updateEach e mode rest w
    ((n, w.documents[n]?.any (·.failed)) :: flags, last)

theorem updateEach_cons (e : Engine ι υ σ) (mode : UpdateMode) (n : Nat) (rest : List Nat)
    (w : Workspace ι υ σ) :
    updateEach e mode (n :: rest) w =
      ((n, (w.update e mode n).documents[n]?.any (·.failed)) ::
          (updateEach e mode rest (w.update e mode n)).1,
        (updateEach e mode rest (w.update e mode n)).2) := rfl

/-- Every entry is told of. -/
theorem map_fst_updateEach (e : Engine ι υ σ) (mode : UpdateMode) (ns : List Nat) :
    ∀ w : Workspace ι υ σ, (updateEach e mode ns w).1.map Prod.fst = ns := by
  induction ns with
  | nil => exact fun _ => rfl
  | cons n rest ih =>
    intro w
    rw [updateEach_cons, List.map_cons, ih]

theorem updateEach_snd (e : Engine ι υ σ) (mode : UpdateMode) (ns : List Nat) :
    ∀ w : Workspace ι υ σ,
      (updateEach e mode ns w).2 = ns.foldl (fun w n => w.update e mode n) w := by
  induction ns with
  | nil => exact fun _ => rfl
  | cons n rest ih =>
    intro w
    rw [updateEach_cons, ih, List.foldl_cons]

section

variable {engines : Engine ι υ σ → Prop} {direct : Bool} {e : Engine ι υ σ} (he : e.ReadsDisk)
  (hengine : engines e) (hdistinct : ∀ unit, (e.dependencies unit).Distinct) (mode : UpdateMode)

include he

/-- Updates in a row concern the clock, their documents, and the watches. -/
theorem rest_updateEach (ns : List Nat) :
    ∀ w : Workspace ι υ σ, (updateEach e mode ns w).2 = { w with
      clock := (updateEach e mode ns w).2.clock
      documents := (updateEach e mode ns w).2.documents
      watches := (updateEach e mode ns w).2.watches } := by
  induction ns with
  | nil => exact fun _ => rfl
  | cons n rest ih =>
    intro w
    have hone := rest_update he.toLooksOn mode w n
    have hlater := ih (w.update e mode n)
    rw [updateEach_cons]
    generalize w.update e mode n = w₁ at hone hlater
    generalize updateEach e mode rest w₁ = last at hlater
    rw [hlater, hone]

theorem registered_updateEach (ns : List Nat) :
    ∀ w : Workspace ι υ σ,
      (updateEach e mode ns w).2.watches.registered = w.watches.registered := by
  induction ns with
  | nil => exact fun _ => rfl
  | cons n rest ih =>
    intro w
    rw [updateEach_cons, ih, registered_update he.toLooksOn mode]

/-- A document that is not in the list is not touched. -/
theorem getElem?_updateEach_of_notMem {n : Nat} (ns : List Nat) :
    ∀ w : Workspace ι υ σ, n ∉ ns →
      (updateEach e mode ns w).2.documents[n]? = w.documents[n]? := by
  induction ns with
  | nil => exact fun _ _ => rfl
  | cons m rest ih =>
    intro w hn
    rw [List.mem_cons, not_or] at hn
    rw [updateEach_cons, ih _ hn.2, getElem?_update_of_ne he.toLooksOn mode w (Ne.symm hn.1)]

include hengine hdistinct

/-- Of a list of updates, a held document sees its own: it ends as if they had been
the only ones, and at its entries it had failed as it would have then. -/
theorem purged_updateEach {n : Nat} (ns : List Nat) :
    ∀ {w w' : Workspace ι υ σ}, Arises engines direct w → Arises engines direct w' →
      n ∈ w.held → (∀ m ∈ ns, m ∈ w.held) → AlikeAt n w w' →
        AlikeAt n (updateEach e mode ns w).2 (updateEach e mode (ns.filter (· == n)) w').2 ∧
          (updateEach e mode ns w).1.filter (·.1 == n) =
            (updateEach e mode (ns.filter (· == n)) w').1 := by
  induction ns with
  | nil => exact fun _ _ _ _ halike => ⟨halike, rfl⟩
  | cons m rest ih =>
    intro w w' hw hw' hn hns halike
    have hheld : (w.update e mode m).held = w.held := by rw [rest_update he.toLooksOn mode w m]
    have hstep := hw.update_of_looksOn hengine hdistinct he.toLooksOn mode m
    have hrest : ∀ k ∈ rest, k ∈ (w.update e mode m).held := fun k hk => by
      rw [hheld]
      exact hns k (List.mem_cons_of_mem m hk)
    rw [← hheld] at hn
    by_cases hm : m = n
    · -- the document's own turn is taken on both sides
      subst hm
      have hstep' := hw'.update_of_looksOn hengine hdistinct he.toLooksOn mode m
      have hupdated := halike.update he (dated_of_arises hw) (dated_of_arises hw') mode
      obtain ⟨hend, hflags⟩ := ih hstep hstep' hn hrest hupdated
      have hown : (m :: rest).filter (· == m) = m :: rest.filter (· == m) :=
        List.filter_cons_of_pos (beq_self_eq_true m)
      refine ⟨by rw [hown]; exact hend, ?_⟩
      rw [hown, updateEach_cons, updateEach_cons, hupdated.any_failed, ← hflags]
      exact List.filter_cons_of_pos (beq_self_eq_true m)
    · -- nothing is seen of another's
      have hother : ¬(m == n) = true := fun h => hm (beq_iff_eq.1 h)
      obtain ⟨htidy, hordered⟩ := ordered_of_arises hw
      have hunseen := alikeAt_update_of_ne he.toLooksOn mode htidy.known hordered
        (hns m List.mem_cons_self) (hheld ▸ hn) hm
      obtain ⟨hend, hflags⟩ := ih hstep hw' hn hrest (hunseen.trans halike)
      have hown : (m :: rest).filter (· == n) = rest.filter (· == n) :=
        List.filter_cons_of_neg hother
      refine ⟨by rw [hown]; exact hend, ?_⟩
      rw [hown, updateEach_cons, ← hflags]
      exact List.filter_cons_of_neg hother

variable {w : Workspace ι υ σ} (h : Arises engines direct w) {ns ns' : List Nat}
  (hheld : ∀ n ∈ ns, n ∈ w.held) (hperm : ns.Perm ns')

include h hheld hperm

/-- In another order, a document has the same entries. -/
theorem alikeAt_updateEach {n : Nat} (hn : n ∈ w.held) :
    AlikeAt n (updateEach e mode ns w).2 (updateEach e mode ns' w).2 ∧
      (updateEach e mode ns w).1.filter (·.1 == n) =
        (updateEach e mode ns' w).1.filter (·.1 == n) := by
  have hown : ns'.filter (· == n) = ns.filter (· == n) := by
    rw [List.filter_beq, List.filter_beq, hperm.count_eq]
  have hheld' : ∀ m ∈ ns', m ∈ w.held := fun m hm => hheld m (hperm.mem_iff.2 hm)
  have hself : AlikeAt n w w :=
    .refl (List.getElem?_eq_getElem ((ordered_of_arises h).1.known n hn))
  obtain ⟨hend, hflags⟩ := purged_updateEach he hengine hdistinct mode ns h h hn hheld hself
  obtain ⟨hend', hflags'⟩ := purged_updateEach he hengine hdistinct mode ns' h h hn hheld' hself
  rw [hown] at hend' hflags'
  exact ⟨hend.trans hend'.symm, hflags.trans hflags'.symm⟩

/-- Entry for entry, the same is told, in another order. -/
theorem flags_updateEach_perm :
    (updateEach e mode ns w).1.Perm (updateEach e mode ns' w).1 := by
  have hfilter : ∀ n, (updateEach e mode ns w).1.filter (·.1 == n) =
      (updateEach e mode ns' w).1.filter (·.1 == n) := by
    intro n
    by_cases hn : n ∈ ns
    · exact (alikeAt_updateEach he hengine hdistinct mode h hheld hperm (hheld n hn)).2
    · -- nothing is told of a document that is not in the list
      have hnone : ∀ {ms : List Nat}, n ∉ ms →
          (updateEach e mode ms w).1.filter (·.1 == n) = [] := by
        intro ms hms
        rw [List.filter_eq_nil_iff]
        intro flag hflag heq
        apply hms
        rw [← map_fst_updateEach e mode ms w, ← beq_iff_eq.1 heq]
        exact List.mem_map_of_mem hflag
      rw [hnone hn, hnone fun hn' => hn (hperm.mem_iff.2 hn')]
  rw [List.perm_iff_count]
  intro flag
  have hcount : ∀ flags : List (Nat × Bool),
      (flags.filter (·.1 == flag.1)).count flag = flags.count flag := fun flags =>
    List.count_filter (beq_self_eq_true flag.1)
  rw [← hcount, hfilter, hcount]

end

/-! ## §6. Any order. -/

/-- Two caches that differ by points of time, and by how the sets of the watch
registry came about. -/
structure SameButTime (w w' : Workspace ι υ σ) : Prop where
  rest : w' = { w with clock := w'.clock, documents := w'.documents, watches := w'.watches }
  documents : ∀ n : Nat, Option.Rel Document.Alike w.documents[n]? w'.documents[n]?
  registered : w'.watches.registered = w.watches.registered
  sets : ∀ key, w'.watches.sets.get? key = w.watches.sets.get? key
  isWatched : ∀ path, w'.watches.isWatched path = w.watches.isWatched path

/-- Caches that know of the same documents have recorded the same sets, if they have
for every held document. -/
theorem get?_eq_of_alikeAt {w w' : Workspace ι υ σ} (h : w.Tidy) (h' : w'.Tidy)
    (hregistered : w'.watches.registered = w.watches.registered)
    (halike : ∀ n ∈ w.held, AlikeAt n w w') (key : DocumentKey) :
    w'.watches.sets.get? key = w.watches.sets.get? key := by
  cases hkey : w.hasDocument key with
  | false =>
    have hnone' : w'.hasDocument key = false := by
      rw [← h'.registered, hregistered, h.registered, hkey]
    rw [h.get?_eq_none hkey, h'.get?_eq_none hnone']
  | true =>
    obtain ⟨n, hn, d, hd, hsame⟩ := hasDocument_iff.1 hkey
    obtain ⟨d₁, -, hd₁, -, -, hset⟩ := (halike n hn).document
    obtain rfl : d₁ = d := Option.some.inj (hd₁.symm.trans hd)
    rw [← w.watches.sets.get?_congr hsame, ← w'.watches.sets.get?_congr hsame]
    exact hset

/-- Whatever engine it is that looks at nothing but the disk, the order does not
matter. -/
theorem sameButTime_updateEach {engines : Engine ι υ σ → Prop} {direct : Bool}
    {e : Engine ι υ σ} (he : e.ReadsDisk) (hengine : engines e)
    (hdistinct : ∀ unit, (e.dependencies unit).Distinct) (mode : UpdateMode)
    {w : Workspace ι υ σ} (h : Arises engines direct w) {ns ns' : List Nat}
    (hheld : ∀ n ∈ ns, n ∈ w.held) (hperm : ns.Perm ns') :
    SameButTime (updateEach e mode ns w).2 (updateEach e mode ns' w).2 := by
  have harises : ∀ ms, Arises engines direct (updateEach e mode ms w).2 := fun ms => by
    rw [updateEach_snd]
    exact h.updates_of_looksOn hengine hdistinct he.toLooksOn mode ms
  have hrest := fun ms => rest_updateEach he mode ms w
  have halike := fun n hn =>
    (alikeAt_updateEach (n := n) he hengine hdistinct mode h hheld hperm hn).1
  have hregistered : (updateEach e mode ns' w).2.watches.registered =
      (updateEach e mode ns w).2.watches.registered := by
    rw [registered_updateEach he mode, registered_updateEach he mode]
  have hkept : (updateEach e mode ns w).2.held = w.held := by rw [hrest ns]
  have hsets := get?_eq_of_alikeAt (ordered_of_arises (harises ns)).1
    (ordered_of_arises (harises ns')).1 hregistered fun n hn => halike n (hkept ▸ hn)
  refine ⟨?_, fun n => ?_, hregistered, hsets, WatchRegistry.isWatched_congr
    (balanced_of_arises (harises ns)) (balanced_of_arises (harises ns')) hsets⟩
  · rw [hrest ns, hrest ns']
  · by_cases hn : n ∈ ns
    · obtain ⟨d, d', hd, hd', hdocument, -⟩ := (halike n (hheld n hn)).document
      rw [hd, hd']
      exact .some hdocument
    · rw [getElem?_updateEach_of_notMem he mode ns w hn,
        getElem?_updateEach_of_notMem he mode ns' w fun hn' => hn (hperm.mem_iff.2 hn')]
      cases w.documents[n]? with
      | none => exact .none
      | some d => exact .some (.refl d)

/-- Scanning for includes reads the disk. -/
theorem readsDisk_scanner :
    (Include.engine : Engine CountingIndex Include.ScannedUnit σ).ReadsDisk where
  toLooksOn := looksOn_scanner
  madeIndex _ _ := rfl
  parsed hdisk request index := by
    unfold Include.engine
    simp only [hdisk]
    split <;> rfl
  reparsed hdisk request unit := by
    unfold Include.engine
    simp only [hdisk]

/-- How many entries of a list had failed when their turn was over. -/
def failedEntries (mode : UpdateMode) (ns : List Nat) (w : ScanCache) : Nat :=
  (updateEach Include.engine mode ns w).1.countP (·.2)

theorem updateEach_eq (mode : UpdateMode) (ns : List Nat) (w : ScanCache) :
    Command.updateEach mode ns w = (updateEach Include.engine mode ns w).2 :=
  (updateEach_snd Include.engine mode ns w).symm

/-- In every state of a collection, held documents are updated in any order with
the same outcome, also where a list names them more than once: but for points of
time the cache is the same, as many entries have failed, and a document that is not
in the list is as it was. -/
theorem independent_updateEach {direct : Bool} {w : ScanCache}
    (h : Arises (· = Include.engine) direct w) (mode : UpdateMode) {ns ns' : List Nat}
    (hheld : ∀ n ∈ ns, n ∈ w.held) (hperm : ns.Perm ns') :
    SameButTime (Command.updateEach mode ns w) (Command.updateEach mode ns' w) ∧
      failedEntries mode ns w = failedEntries mode ns' w ∧
      ∀ n, n ∉ ns → (Command.updateEach mode ns w).documents[n]? = w.documents[n]? := by
  have hflags := flags_updateEach_perm readsDisk_scanner (by rfl) distinct_scanner mode h hheld
    hperm
  rw [updateEach_eq, updateEach_eq]
  exact ⟨sameButTime_updateEach readsDisk_scanner (by rfl) distinct_scanner mode h hheld hperm,
    hflags.countP_eq _, fun n hn => getElem?_updateEach_of_notMem readsDisk_scanner mode ns w hn⟩

/-- Two files that share a header, and one that is not there.  The documents of the
first and of the missing one have been parsed, and the header has changed since. -/
def sharedHeader : ScanCache :=
  (Action.touch ⟨"/a.h"⟩).perform (Command.updateEach .asNeeded [0, 2]
    ([Action.write ⟨"/a.h"⟩ (.text ""), .write ⟨"/b.c"⟩ (.text "#include \"a.h\"\n"),
      .write ⟨"/c.c"⟩ (.text "#include \"a.h\"\n"), .upsertParts [("p", [])],
      .create [.new ⟨"/b.c"⟩ "p", .new ⟨"/c.c"⟩ "p", .new ⟨"/gone.c"⟩ "p"]].foldl
        Action.perform (.new (.fresh []) false ())))

/-- The missing file fails at each of its entries, wherever they stand. -/
theorem independent_sharedHeader :
    (SameButTime (Command.updateEach .asNeeded [0, 2, 1, 2] sharedHeader)
        (Command.updateEach .asNeeded [2, 1, 2, 0] sharedHeader) ∧
      failedEntries .asNeeded [0, 2, 1, 2] sharedHeader =
        failedEntries .asNeeded [2, 1, 2, 0] sharedHeader ∧
      ∀ n, n ∉ [0, 2, 1, 2] →
        (Command.updateEach .asNeeded [0, 2, 1, 2] sharedHeader).documents[n]? =
          sharedHeader.documents[n]?) ∧
    failedEntries .asNeeded [0, 2, 1, 2] sharedHeader = 2 ∧
    (Command.updateEach .asNeeded [2, 1, 2, 0] sharedHeader).watches.isWatched ⟨"/a.h"⟩ = true := by
  have harises : Arises (· = Include.engine) false sharedHeader :=
    (Arises.updates_of_looksOn (by rfl) distinct_scanner looksOn_scanner .asNeeded _
      (.acts _ (.start _ _ _))).act _
  have hheld : ∀ n ∈ [0, 2, 1, 2], n ∈ sharedHeader.held := by decide +kernel
  exact ⟨independent_updateEach harises .asNeeded hheld (by decide), by decide +kernel,
    by decide +kernel⟩

end Workspace

end ParseCache
