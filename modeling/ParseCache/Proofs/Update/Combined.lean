/-
  ParseCache.Proofs.Update.Combined — one update, or a parse and a reparse.

  The two halves of an update can be asked for one after the other.  Then each
  takes its own snapshot and its result is applied before the next one begins;
  the combined update takes one snapshot and applies one result.  The document
  cannot tell the difference, unless the parse succeeds and the reparse fails:
  then the parse has been applied in the one case and is lost in the other.

  Only what an engine reads may matter for this: the request, the unit, the disk
  and what it remembers.

  Main results:
    * `reparseStep_ok`, `reparseStep_error` — what a reparse half comes to is
      decided by these;
    * `sets_setWatched_twice` — a set that is replaced twice is the last one;
    * `agree_of_failed`, `agree_of_kept`, `agree_of_reparsed` — the three ways
      two halves can go;
    * `combined_agrees` — the combined update of a dirty document agrees with the
      separate ones, and that of a clean document is a parse.
-/
import ParseCache.Proofs.Update.Settling

namespace ParseCache

variable {ι υ σ : Type}

/-! ## §1. What a reparse reads. -/

/-- Without a unit, a reparse takes the time and fails. -/
theorem Engine.reparseStep_null (e : Engine ι υ σ) (s : Snapshot) {p : Progress ι υ}
    (w : Workspace ι υ σ) (hunit : p.handles.unit = .null) :
    e.reparseStep s p w =
      (⟨{ reparseBegun s p w with failed := true }, p.handles⟩, w.now.2) := by
  obtain ⟨result, index, resource⟩ := p
  have hunit : resource = .null := hunit
  subst hunit
  rfl

namespace Solo

variable (b : Solo ι υ σ) (s : Snapshot) (p : Progress ι υ) (w : Workspace ι υ (Ledger ι υ σ))
  {unit : υ} {memory : σ}

theorem engine_reparse {request : Request} {reply : Except EngineError υ}
    (hreply : b.reparse request unit w.disk w.context.memory = (reply, memory)) :
    b.engine.reparse request unit w =
      (reply, w.enter memory (.reparse request unit reply.isOk)) := by
  unfold engine
  simp only [hreply]

theorem reparseStep_ok {unit' : υ} (hunit : p.handles.unit = .of unit)
    (hreply : b.reparse s.request unit w.disk w.context.memory = (.ok unit', memory)) :
    b.engine.reparseStep s p w =
      (⟨{ Engine.reparseBegun s p w with
            reparsed := true, dependencies := (b.dependencies unit').insert s.file },
          { p.handles with unit := .of unit' }⟩,
        w.now.2.enter memory (.reparse s.request unit true)) := by
  obtain ⟨result, index, resource⟩ := p
  have hunit : resource = .of unit := hunit
  subst hunit
  rw [Engine.reparseStep_of_unit, b.engine_reparse w.now.2 hreply]
  rfl

theorem reparseStep_error {cause : EngineError} (hunit : p.handles.unit = .of unit)
    (hreply : b.reparse s.request unit w.disk w.context.memory = (.error cause, memory)) :
    b.engine.reparseStep s p w =
      (⟨{ Engine.reparseBegun s p w with failed := true }, { p.handles with unit := .null }⟩,
        w.now.2.enter memory (.reparse s.request unit false)) := by
  obtain ⟨result, index, resource⟩ := p
  have hunit : resource = .of unit := hunit
  subst hunit
  rw [Engine.reparseStep_of_unit, b.engine_reparse w.now.2 hreply]
  rfl

end Solo

/-! ## §2. Sets that are replaced. -/

namespace WatchRegistry

/-- A set that is replaced and replaced again is the last one. -/
theorem sets_setWatched_twice (r : WatchRegistry) (key k : DocumentKey) (first last : PathSet) :
    ((r.setWatched key first).2.setWatched key last).2.sets.get? k =
      (r.setWatched key last).2.sets.get? k := by
  rw [get?_setWatched, get?_setWatched, get?_setWatched, registered_setWatched]
  split
  · rfl
  · rfl

/-- Where the same sets are recorded, the same paths are watched. -/
theorem isWatched_congr {r r' : WatchRegistry} (h : r.Balanced) (h' : r'.Balanced)
    (hsets : ∀ key, r'.sets.get? key = r.sets.get? key) (q : Path) :
    r'.isWatched q = r.isWatched q := by
  rw [Bool.eq_iff_iff, isWatched_iff h', isWatched_iff h]
  simp only [hsets]

end WatchRegistry

namespace Workspace

/-! ## §3. Agreement. -/

/-- The two workspaces differ by the time, and by how the sets of the watch
registry came about.  Documents agree down to their points of time, and where
calls are written down, the same ones were made, in the same order and with the
same requests. -/
structure Agree (w w' : Workspace ι υ σ) : Prop where
  rest : w' = { w with clock := w'.clock, watches := w'.watches }
  sets : ∀ key, w'.watches.sets.get? key = w.watches.sets.get? key

/-! ## §4. Two halves. -/

section

variable {p q q' : Progress ι υ} {d : Document ι υ}

/-- A reparse that succeeds makes of a document that was just parsed what the
two make of it together. -/
theorem settle_reparsed (hparsed : p.result.failed = false ∧ p.result.reparsed = false)
    (hq : q.result = { p.result with
      reparsedAt := q.result.reparsedAt, reparsed := true,
      dependencies := q.result.dependencies, dirtyPoint := some d.dirtyPoint })
    (hq' : q'.result = { UpdateResult.nothing with
      reparsedAt := q'.result.reparsedAt, reparsed := true,
      dependencies := q.result.dependencies, dirtyPoint := some d.dirtyPoint })
    (hhandles : q'.handles = q.handles) : q'.settle (p.settle d) = q.settle d := by
  unfold Progress.settle Document.incorporate
  rw [hq', hq, hhandles]
  simp [hparsed.1, hparsed.2, UpdateResult.nothing, Document.installs]

/-- A failure makes the same of a document, whatever a parse that did nothing or
failed has made of it. -/
theorem settle_failed (hp : p.result.failed = true ∨ p.result = .nothing)
    (hq : q.result.failed = true) (hq' : q'.result.failed = true)
    (hhandles : q'.handles = q.handles) : q'.settle (p.settle d) = q.settle d := by
  rw [settle_of_failed hq', settle_of_failed hq, hhandles]
  rcases hp with hfailed | hnothing
  · rw [settle_of_failed hfailed]
  · unfold Progress.settle Document.incorporate
    rw [hnothing]
    rfl

end

section

variable {w₁ v v' : Workspace ι υ (Ledger ι υ σ)} {n : Nat} {p q q' : Progress ι υ}
  {d : Document ι υ} (hd : w₁.documents[n]? = some d) (hv : Aside w₁ v)
  (hv' : Aside (w₁.receive n p) v')

include hd hv hv'

/-- One result arrives after the calls that brought it, or another one after a
first has been applied.  If they make the same of the document, and the same was
remembered, they leave the same, but for the watches. -/
theorem rest_receive (hcontext : v'.context = v.context)
    (hsame : q'.settle (p.settle d) = q.settle d) :
    v'.receive n q' = { v.receive n q with
      clock := (v'.receive n q').clock, watches := (v'.receive n q').watches } := by
  have hdocuments : v'.documents.modify n q'.settle = v.documents.modify n q.settle := by
    rw [hv'.documents, hv.documents, receive_eq]
    show (w₁.documents.modify n p.settle).modify n q'.settle = _
    rw [List.modify_modify_eq]
    exact modify_congr hd hsame
  rw [receive_eq v', receive_eq v, hdocuments]
  generalize (v'.receive n q').watches = watches
  rw [hv'.rest, hcontext, hv.rest, receive_eq]

/-- Two failures, after a first half that failed or did nothing. -/
theorem agree_receive_failed (hcontext : v'.context = v.context)
    (hp : p.result.failed = true ∨ p.result = .nothing) (hq : q.result.failed = true)
    (hq' : q'.result.failed = true) (hhandles : q'.handles = q.handles) :
    Agree (v.receive n q) (v'.receive n q') where
  rest := rest_receive hd hv hv' hcontext (settle_failed hp hq hq' hhandles)
  sets key := by
    have hd' : v'.documents[n]? = some (p.settle d) := by
      rw [hv'.documents]
      exact getElem?_receive_self hd p
    have hkept : (w₁.receive n p).watches = w₁.watches := by
      rw [watches_receive hd]
      rcases hp with hfailed | hnothing
      · rw [Document.installs, hfailed]
        rfl
      · rw [hnothing]
        rfl
    rw [watches_receive_of_failed hd' hq', watches_receive_of_failed (hv.documents ▸ hd) hq,
      hv'.watches, hv.watches, hkept]

/-- Two reparses that succeed, after a first half that did not fail. -/
theorem agree_receive_reparsed (hcontext : v'.context = v.context)
    (hparsed : p.result.failed = false ∧ p.result.reparsed = false)
    (hq : q.result = { p.result with
      reparsedAt := q.result.reparsedAt, reparsed := true,
      dependencies := q.result.dependencies, dirtyPoint := some d.dirtyPoint })
    (hq' : q'.result = { UpdateResult.nothing with
      reparsedAt := q'.result.reparsedAt, reparsed := true,
      dependencies := q.result.dependencies, dirtyPoint := some d.dirtyPoint })
    (hhandles : q'.handles = q.handles) : Agree (v.receive n q) (v'.receive n q') where
  rest := rest_receive hd hv hv' hcontext (settle_reparsed hparsed hq hq' hhandles)
  sets key := by
    have hd' : v'.documents[n]? = some (p.settle d) := by
      rw [hv'.documents]
      exact getElem?_receive_self hd p
    have hinstalls : Document.installs q.result = true := by
      rw [hq]
      simp [Document.installs, hparsed.1]
    have hinstalls' : Document.installs q'.result = true := by
      rw [hq']
      rfl
    have hdependencies : q'.result.dependencies = q.result.dependencies := by rw [hq']
    rw [watches_receive hd', watches_receive (hv.documents ▸ hd), hinstalls, hinstalls', if_pos rfl,
      if_pos rfl, hv'.watches, hv.watches, (settle_rest p d).1, hdependencies, watches_receive hd]
    -- what the first half recorded is replaced
    split
    · exact WatchRegistry.sets_setWatched_twice _ _ _ _ _
    · rfl

end

/-- Among these calls is a parse that succeeded, and a reparse that failed. -/
def ParsedInVain (calls : List (EngineCall ι υ)) : Prop :=
  (∃ request index, EngineCall.parse request index true ∈ calls) ∧
    ∃ request unit, EngineCall.reparse request unit false ∈ calls

/-- The snapshot of the second half, but for what is owed. -/
theorem request_settle (p : Progress ι υ) (d : Document ι υ) (buffers : Buffers) :
    ((p.settle d).snapshot buffers).request = (d.snapshot buffers).request ∧
      ((p.settle d).snapshot buffers).dirtyPoint = d.dirtyPoint ∧
      ((p.settle d).snapshot buffers).file = d.key.path := by
  obtain ⟨hkey, harguments, hpart, hpoint, -⟩ := settle_rest p d
  unfold Document.snapshot Snapshot.request Snapshot.arguments
  rw [hkey, harguments, hpart, hpoint]
  exact ⟨rfl, rfl, rfl⟩

section

variable {b : Solo ι υ σ} {w w₁ : Workspace ι υ (Ledger ι υ σ)} {n : Nat} {d : Document ι υ}
  {p : Progress ι υ} (hd : w.documents[n]? = some d)
  (hfirst : w.outcome b.engine .parseIfNeeded d = (p, w₁))

include hd hfirst

omit hd in
/-- An update of this kind is its first half. -/
theorem parseIfNeeded_eq :
    b.engine.parseIfNeeded (d.snapshot w.buffers) d.handles w = (p, w₁) := hfirst

omit hd in
theorem aside_first : Aside w w₁ := by
  have haside := b.aside_outcome w .parseIfNeeded d
  rw [hfirst] at haside
  exact haside

omit hd in
/-- The first half failed and left no unit, or left one. -/
theorem ends_first : b.engine.Ends (d.snapshot w.buffers) d.handles p := by
  have hends := b.engine.ends_run (d.snapshot w.buffers) d.handles w .parseIfNeeded
  unfold outcome at hfirst
  rw [hfirst] at hends
  exact hends

theorem getElem?_first : w₁.documents[n]? = some d := by
  rw [(aside_first hfirst).documents]
  exact hd

/-- The second half on its own. -/
theorem separate_eq {q : Progress ι υ} {w₂ : Workspace ι υ (Ledger ι υ σ)}
    (hsecond : b.engine.reparseStep ((p.settle d).snapshot w.buffers) ⟨.nothing, p.handles⟩
      (w₁.receive n p) = (q, w₂)) :
    (w.update b.engine .parseIfNeeded n).update b.engine .forceReparse n = w₂.receive n q := by
  have hd₂ : (w₁.receive n p).documents[n]? = some (p.settle d) :=
    getElem?_receive_self (getElem?_first hd hfirst) p
  have hbuffers : (w₁.receive n p).buffers = w.buffers := by
    rw [receive_eq, (aside_first hfirst).rest]
  have hhandles : (p.settle d).handles = p.handles := (settle_rest p d).2.2.2.2
  have houtcome : (w₁.receive n p).outcome b.engine .forceReparse (p.settle d) = (q, w₂) := by
    unfold outcome
    rw [hbuffers, hhandles]
    exact hsecond
  rw [update_eq_receive hd, hfirst, update_eq_receive hd₂, houtcome]

/-- A combined update of a dirty document whose parse failed ends there. -/
theorem combined_eq_of_failed (hfailed : p.result.failed = true) :
    w.update b.engine .asNeeded n = w₁.receive n p := by
  have houtcome : w.outcome b.engine .asNeeded d = (p, w₁) := by
    unfold outcome
    rw [b.engine.run_asNeeded_eq, parseIfNeeded_eq hfirst, hfailed]
    rfl
  rw [update_eq_receive hd, houtcome]

/-- Otherwise it goes on. -/
theorem combined_eq (hdirty : d.dirty = true) (hok : p.result.failed = false) {q : Progress ι υ}
    {w₂ : Workspace ι υ (Ledger ι υ σ)}
    (hsecond : b.engine.reparseStep (d.snapshot w.buffers) p w₁ = (q, w₂)) :
    w.update b.engine .asNeeded n = w₂.receive n q := by
  have hneeded : (d.snapshot w.buffers).reparseNeeded = true := hdirty
  have houtcome : w.outcome b.engine .asNeeded d = (q, w₂) := by
    unfold outcome
    rw [b.engine.run_asNeeded_eq, parseIfNeeded_eq hfirst, hok, hneeded]
    exact hsecond
  rw [update_eq_receive hd, houtcome]

/-! ## §5. The three ways. -/

/-- The parse failed: there is nothing to reparse. -/
theorem agree_of_failed (hfailed : p.result.failed = true) :
    Agree (w.update b.engine .asNeeded n)
      ((w.update b.engine .parseIfNeeded n).update b.engine .forceReparse n) := by
  have hd₁ := getElem?_first hd hfirst
  have hnone : p.handles.unit.resource = none := by
    rw [← Option.isNone_iff_eq_none, ← (ends_first hfirst).failed]
    exact hfailed
  have hnull : p.handles.unit = .null := congrArg Handle.mk hnone
  rw [combined_eq_of_failed hd hfirst hfailed,
    separate_eq hd hfirst (b.engine.reparseStep_null _ _ hnull)]
  have hcontext : (w₁.receive n p).now.2.context = w₁.context := by
    rw [receive_eq]
    rfl
  exact agree_receive_failed hd₁ (.refl w₁) (aside_now _) hcontext (Or.inl hfailed) hfailed rfl rfl

omit hd hfirst in
/-- What the second half asks for is answered as in the combined update. -/
theorem reply_again {unit : υ} {reply : Except EngineError υ × σ}
    (hreply : b.reparse (d.snapshot w.buffers).request unit w₁.disk w₁.context.memory = reply) :
    b.reparse ((p.settle d).snapshot w.buffers).request unit (w₁.receive n p).disk
      (w₁.receive n p).context.memory = reply := by
  rw [(request_settle p d w.buffers).1, receive_eq]
  exact hreply

omit hd hfirst in
/-- It is written down in the same way. -/
theorem entered_again (memory : σ) (unit : υ) (ok : Bool) :
    ((w₁.receive n p).now.2.enter memory
        (.reparse ((p.settle d).snapshot w.buffers).request unit ok)).context =
      (w₁.now.2.enter memory (.reparse (d.snapshot w.buffers).request unit ok)).context := by
  rw [(request_settle p d w.buffers).1, receive_eq]
  rfl

/-- There was a unit to keep, and it could not be reparsed. -/
theorem agree_of_kept (hdirty : d.dirty = true) (hkept : p.result = .nothing)
    {unit : υ} (hunit : p.handles.unit = .of unit) {cause : EngineError} {memory : σ}
    (hreply : b.reparse (d.snapshot w.buffers).request unit w₁.disk w₁.context.memory =
      (.error cause, memory)) :
    Agree (w.update b.engine .asNeeded n)
      ((w.update b.engine .parseIfNeeded n).update b.engine .forceReparse n) := by
  have hok : p.result.failed = false := by rw [hkept]; rfl
  rw [combined_eq hd hfirst hdirty hok (b.reparseStep_error _ _ _ hunit hreply),
    separate_eq hd hfirst (b.reparseStep_error _ ⟨.nothing, p.handles⟩ _ hunit
      (reply_again hreply))]
  exact agree_receive_failed (getElem?_first hd hfirst) ((aside_now _).trans (aside_enter _ _ _))
    ((aside_now _).trans (aside_enter _ _ _)) (entered_again memory unit false) (Or.inr hkept)
    rfl rfl rfl

/-- Both halves succeeded. -/
theorem agree_of_reparsed (hdirty : d.dirty = true) (hparsed : p.result.failed = false)
    {unit unit' : υ} (hunit : p.handles.unit = .of unit) {memory : σ}
    (hreply : b.reparse (d.snapshot w.buffers).request unit w₁.disk w₁.context.memory =
      (.ok unit', memory)) :
    Agree (w.update b.engine .asNeeded n)
      ((w.update b.engine .parseIfNeeded n).update b.engine .forceReparse n) := by
  have hfresh : p.result.reparsed = false := by
    have hfresh := b.engine.reparsed_parseIfNeeded (d.snapshot w.buffers) d.handles w
    rw [parseIfNeeded_eq hfirst] at hfresh
    exact hfresh
  obtain ⟨-, hpoint, hfile⟩ := request_settle p d w.buffers
  rw [combined_eq hd hfirst hdirty hparsed (b.reparseStep_ok _ _ _ hunit hreply),
    separate_eq hd hfirst (b.reparseStep_ok _ ⟨.nothing, p.handles⟩ _ hunit
      (reply_again hreply))]
  exact agree_receive_reparsed (getElem?_first hd hfirst) ((aside_now _).trans (aside_enter _ _ _))
    ((aside_now _).trans (aside_enter _ _ _)) (entered_again memory unit true)
    ⟨hparsed, hfresh⟩ rfl (by rw [hfile, Engine.reparseBegun, hpoint]; rfl) rfl

/-- If the reparse fails and no parse was in vain, there was no parse. -/
theorem kept_of_not_vain (hdirty : d.dirty = true) (hok : p.result.failed = false) {unit : υ}
    (hunit : p.handles.unit = .of unit) {cause : EngineError} {memory : σ}
    (hreply : b.reparse (d.snapshot w.buffers).request unit w₁.disk w₁.context.memory =
      (.error cause, memory))
    (hvain : ¬ ParsedInVain (w.callsSince (w.update b.engine .asNeeded n))) :
    p.result = .nothing := by
  have hcalls := b.calls_parseIfNeeded (d.snapshot w.buffers) d.handles w
  rw [parseIfNeeded_eq hfirst] at hcalls
  rcases hcalls with ⟨-, -, heq⟩ | ⟨index, hcalls⟩
  · cases heq
    rfl
  · refine absurd ?_ hvain
    rw [combined_eq hd hfirst hdirty hok (b.reparseStep_error _ _ _ hunit hreply), receive_eq]
    have hboth : w.callsSince (w₁.now.2.enter memory
        (.reparse (d.snapshot w.buffers).request unit false)) =
          w.callsSince w₁ ++ [.reparse (d.snapshot w.buffers).request unit false] := by
      rw [(aside_first hfirst).callsSince_trans ((aside_now _).trans (aside_enter _ _ _)),
        (aside_now _).callsSince_trans (aside_enter _ _ _), callsSince_now, callsSince_enter,
        List.nil_append]
    have hlogged : ParsedInVain (w.callsSince w₁ ++
        [.reparse (d.snapshot w.buffers).request unit false]) := by
      have hcalls : w.callsSince w₁ = (if d.handles.index.isNull then [.newIndex] else []) ++
          [.parse (d.snapshot w.buffers).request index (!p.result.failed)] := hcalls
      rw [hcalls, hok]
      exact ⟨⟨(d.snapshot w.buffers).request, index, by simp⟩, (d.snapshot w.buffers).request,
        unit, by simp⟩
    rw [← hboth] at hlogged
    exact hlogged

end

/-! ## §6. Every behaviour. -/

/-- Unless a parse succeeds and the reparse that follows fails, a combined
update of a dirty document agrees with a parse and a reparse of their own, and
the same paths are watched.  A clean document is parsed if needed, and that is
all, whatever engine is used and whatever happens meanwhile. -/
theorem combined_agrees {b : Solo ι υ σ} {w : Workspace ι υ (Ledger ι υ σ)}
    (h : Arises (·.dependencies = b.dependencies) false w) {n : Nat} {d : Document ι υ}
    (hd : w.documents[n]? = some d) :
    (d.dirty = true → ¬ ParsedInVain (w.callsSince (w.update b.engine .asNeeded n)) →
      Agree (w.update b.engine .asNeeded n)
          ((w.update b.engine .parseIfNeeded n).update b.engine .forceReparse n) ∧
        ∀ path, ((w.update b.engine .parseIfNeeded n).update b.engine .forceReparse
            n).watches.isWatched path =
          (w.update b.engine .asNeeded n).watches.isWatched path) ∧
    (d.dirty = false → ∀ e : Engine ι υ (Ledger ι υ σ),
      w.update e .asNeeded n = w.update e .parseIfNeeded n) := by
  constructor
  · intro hdirty hvain
    suffices hagree : Agree (w.update b.engine .asNeeded n)
        ((w.update b.engine .parseIfNeeded n).update b.engine .forceReparse n) by
      have hcombined := b.arises_update h rfl .asNeeded n
      have hseparate := b.arises_update (b.arises_update h rfl .parseIfNeeded n) rfl .forceReparse n
      exact ⟨hagree, WatchRegistry.isWatched_congr (balanced_of_arises hcombined)
        (balanced_of_arises hseparate) hagree.sets⟩
    rcases hfirst : w.outcome b.engine .parseIfNeeded d with ⟨p, w₁⟩
    cases hfailed : p.result.failed with
    | true => exact agree_of_failed hd hfirst hfailed
    | false =>
      have hunit := (ends_first hfirst).failed
      rw [hfailed, eq_comm, Option.isNone_eq_false_iff] at hunit
      obtain ⟨unit, hunit⟩ := Option.isSome_iff_exists.1 hunit
      have hunit : p.handles.unit = .of unit := congrArg Handle.mk hunit
      rcases hreply : b.reparse (d.snapshot w.buffers).request unit w₁.disk w₁.context.memory with
        ⟨cause | unit', memory⟩
      · have hkept := kept_of_not_vain hd hfirst hdirty hfailed hunit hreply hvain
        exact agree_of_kept hd hfirst hdirty hkept hunit hreply
      · exact agree_of_reparsed hd hfirst hdirty hfailed hunit hreply
  · intro hclean e
    have hneeded : (d.snapshot w.buffers).reparseNeeded = false := hclean
    have houtcome : w.outcome e .asNeeded d = w.outcome e .parseIfNeeded d := by
      unfold outcome
      rw [e.run_asNeeded_eq, hneeded, Bool.and_false]
      rfl
    rw [update_eq_receive hd, update_eq_receive hd, houtcome]

theorem combined_agrees_reconfigured :
    reconfigured.documents[0]?.any (fun d => d.dirty && d.isOutdated) = true ∧
      Agree (reconfigured.update calm.engine .asNeeded 0)
        ((reconfigured.update calm.engine .parseIfNeeded 0).update calm.engine .forceReparse 0) := by
  have hall : ∀ call ∈ reconfigured.callsSince (reconfigured.update calm.engine .asNeeded 0),
      call.succeeded = true := by decide
  have hvain : ¬ ParsedInVain
      (reconfigured.callsSince (reconfigured.update calm.engine .asNeeded 0)) := by
    rintro ⟨-, _, _, hmem⟩
    have hnot := hall _ hmem
    cases hnot
  have howed : reconfigured.documents[0]?.any (fun d => d.dirty && d.isOutdated) = true := by
    decide
  obtain ⟨d, hd, hdirty⟩ := (Option.any_eq_true _ _).1 howed
  have hdirty : d.dirty = true := (Bool.and_eq_true_iff.1 hdirty).1
  exact ⟨howed, ((combined_agrees arises_reconfigured hd).1 hdirty hvain).1⟩

/-- An engine that parses and cannot reparse. -/
def once : Solo Unit Unit Unit :=
  { calm with reparse := fun _ _ _ memory => (.error (.parse "gone"), memory) }

/-- A document that is dirty before its first parse. -/
def dirtyOnce : Workspace Unit Unit (Ledger Unit Unit Unit) :=
  (Action.markDirty 0).perform createdOnce

/-- The exception is needed: what a parse found stays if it is applied before a
reparse fails, and is lost if the two are one update. -/
theorem disagree_once :
    ¬ ∀ (w : Workspace Unit Unit (Ledger Unit Unit Unit)) (n : Nat) (d : Document Unit Unit),
      Arises (·.dependencies = once.dependencies) false w → w.documents[n]? = some d →
      d.dirty = true →
      Agree (w.update once.engine .asNeeded n)
        ((w.update once.engine .parseIfNeeded n).update once.engine .forceReparse n) := by
  intro hagree
  have harises : Arises (·.dependencies = once.dependencies) false dirtyOnce :=
    (Arises.acts _ (.start _ _ _)).act _
  have hdirty : dirtyOnce.documents[0]?.any (·.dirty) = true := by decide
  obtain ⟨d, hd, hdirty⟩ := (Option.any_eq_true _ _).1 hdirty
  have hdependencies := congrArg (fun w => w.documents.map (·.dependencies))
    (hagree dirtyOnce 0 d harises hd hdirty).rest
  revert hdependencies
  decide

end Workspace

end ParseCache
