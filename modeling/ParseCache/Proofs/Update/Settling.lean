/-
  ParseCache.Proofs.Update.Settling — one update settles a document.

  A document may owe a parse because its part changed, a reparse because a file
  did, or both; it may have failed before, and it may have a unit or none.  One
  call pays all it owes.  Whether nothing is owed afterwards is a matter of
  points of time: the parse begins after every change of the part that the
  document knows of, and the reparse carries the dirty event it began with.

  Main results:
    * `parsedAt_of_ok`, `reparsed_of_ok` — what an update that succeeds has
      done about a part that changed and about a dirty event;
    * `settled_of_ok` — a document left alone meanwhile owes nothing then;
    * `update_of_settled` — a document that owes nothing is left as it is;
    * `settles_update` — one update settles, and a second one does nothing.
-/
import ParseCache.Proofs.Update.Ledger

namespace ParseCache

variable {ι υ σ : Type}

/-! ## §1. What an update that succeeds has done. -/

namespace Engine

variable (e : Engine ι υ σ) (s : Snapshot) (h : Handles ι υ) (w : Workspace ι υ σ)

theorem run_asNeeded_eq :
    e.run .asNeeded s h w =
      if !(e.parseIfNeeded s h w).1.result.failed && s.reparseNeeded then
        e.reparseStep s (e.parseIfNeeded s h w).1 (e.parseIfNeeded s h w).2
      else e.parseIfNeeded s h w := rfl

/-- A unit that may be kept is kept. -/
theorem parseIfNeeded_of_unit (hneeded : s.parseNeeded = false) {unit : υ}
    (hunit : h.unit.resource = some unit) : e.parseIfNeeded s h w = (⟨.nothing, h⟩, w) := by
  have hheld : h.unit.isNull = false := by
    rw [Handle.isNull, hunit]
    rfl
  unfold parseIfNeeded
  simp only [hneeded, if_neg Bool.false_ne_true, hheld]

/-- A parse that succeeds is dated where it began. -/
theorem parsedAt_parseIfNeeded
    (hok : (e.parseIfNeeded s h w).1.result.failed = false) :
    s.parseNeeded = false ∧ (e.parseIfNeeded s h w).1.result.parsedAt = none ∨
      (e.parseIfNeeded s h w).1.result.parsedAt = some w.clock.now.1 := by
  rcases e.parseIfNeeded_cases s h w with ⟨unit, -, hneeded, heq⟩ | heq
  · rw [heq]
    exact Or.inl ⟨hneeded, rfl⟩
  · rw [heq] at hok ⊢
    rcases e.parseStep_cases s { h with unit := .null } w with ⟨unit, -, heq⟩ | ⟨cause, -, heq⟩
    · rw [heq]
      exact Or.inr rfl
    · rw [heq] at hok
      cases hok

theorem parsedAt_of_ok (hok : (e.run .asNeeded s h w).1.result.failed = false) :
    s.parseNeeded = false ∧ (e.run .asNeeded s h w).1.result.parsedAt = none ∨
      (e.run .asNeeded s h w).1.result.parsedAt = some w.clock.now.1 := by
  rcases e.run_cases .asNeeded s h w with ⟨-, heq⟩ | ⟨-, hfirst, heq⟩ | ⟨hmode, -⟩
  · rw [heq] at hok ⊢
    exact e.parsedAt_parseIfNeeded s h w hok
  · rw [heq, e.parsedAt_reparseStep]
    exact e.parsedAt_parseIfNeeded s h w hfirst
  · cases hmode

/-- If there was a dirty event, the update has reparsed what it was about. -/
theorem reparsed_of_ok (hneeded : s.reparseNeeded = true)
    (hok : (e.run .asNeeded s h w).1.result.failed = false) :
    (e.run .asNeeded s h w).1.result.reparsed = true ∧
      (e.run .asNeeded s h w).1.result.dirtyPoint = some s.dirtyPoint := by
  rw [run_asNeeded_eq, hneeded, Bool.and_true] at hok ⊢
  by_cases hfirst : (e.parseIfNeeded s h w).1.result.failed = true
  · -- an update whose parse failed has failed
    rw [hfirst, Bool.not_true, if_neg Bool.false_ne_true, hfirst] at hok
    cases hok
  · rw [Bool.not_eq_true] at hfirst
    rw [hfirst, Bool.not_false, if_pos rfl] at hok ⊢
    refine ⟨?_, e.dirtyPoint_reparseStep s _ _⟩
    rcases e.reparseStep_cases s (e.parseIfNeeded s h w).1 (e.parseIfNeeded s h w).2 with
      ⟨_, _, -, -, heq⟩ | ⟨_, _, -, -, heq⟩ | ⟨-, heq⟩
    · rw [heq]
    · rw [heq] at hok
      cases hok
    · rw [heq] at hok
      cases hok

end Engine

/-! ## §2. Documents that owe nothing. -/

/-- The latest update of the document succeeded, and nothing has happened to it
since: it has a unit, which depends on what the document says it does. -/
structure Document.Settled (dependencies : υ → PathSet) (d : Document ι υ) : Prop where
  failed : d.failed = false
  dirty : d.dirty = false
  current : d.isOutdated = false
  unit : ∃ unit, d.handles.unit.resource = some unit ∧
    d.dependencies = (dependencies unit).insert d.key.path

/-- A success that was about the latest dirty event leaves the document clean. -/
theorem Progress.clean_settle {p : Progress ι υ} {d : Document ι υ}
    (hok : p.result.failed = false)
    (hreparsed : d.dirty = true →
      p.result.reparsed = true ∧ p.result.dirtyPoint = some d.dirtyPoint) :
    (p.settle d).dirty = false := by
  unfold settle Document.incorporate
  rw [hok, if_neg Bool.false_ne_true]
  show (d.dirty && !(p.result.reparsed && p.result.dirtyPoint == some d.dirtyPoint)) = false
  cases hdirty : d.dirty with
  | false => rfl
  | true =>
    obtain ⟨hre, hpoint⟩ := hreparsed hdirty
    rw [hre, hpoint]
    simp

/-- A success leaves the document up to date with its part, if no parse was owed,
or one began after the part had changed. -/
theorem Progress.current_settle {p : Progress ι υ} {d : Document ι υ} {time : TimePoint}
    (hok : p.result.failed = false) (hpart : d.part.changed < time)
    (hparsed : d.isOutdated = false ∧ p.result.parsedAt = none ∨
      p.result.parsedAt = some time) : (p.settle d).isOutdated = false := by
  unfold Document.isOutdated
  rw [decide_eq_false_iff_not, settle_baseline, hok, if_neg Bool.false_ne_true,
    (settle_rest p d).2.2.1]
  rcases hparsed with ⟨hcurrent, hnone⟩ | hsome
  · rw [hnone]
    exact decide_eq_false_iff_not.1 hcurrent
  · rw [hsome]
    intro hle
    exact TimePoint.ne_of_lt (TimePoint.lt_of_lt_of_le hpart hle) rfl

namespace Workspace

variable {w : Workspace ι υ σ} {n : Nat} {d : Document ι υ}

/-- A document settles by an update that succeeds and finds it as it was.  Its
part must not be from the future. -/
theorem settled_of_ok {e : Engine ι υ σ} (hfits : d.Fits e.dependencies)
    (hpast : d.Past w.clock.last) (hok : (w.outcome e .asNeeded d).1.result.failed = false) :
    ((w.outcome e .asNeeded d).1.settle d).Settled e.dependencies := by
  have hends := e.ends_run (d.snapshot w.buffers) d.handles w .asNeeded
  have hbegun : d.part.changed < w.clock.now.1 :=
    TimePoint.lt_of_le_of_lt hpast.part w.clock.last_lt_now
  constructor
  · unfold Progress.settle Document.incorporate
    rw [hok, if_neg Bool.false_ne_true]
  · exact Progress.clean_settle hok fun hdirty =>
      e.reparsed_of_ok (d.snapshot w.buffers) d.handles w hdirty hok
  · exact Progress.current_settle hok hbegun
      (e.parsedAt_of_ok (d.snapshot w.buffers) d.handles w hok)
  · obtain ⟨unit, hunit⟩ :
        ∃ unit, (w.outcome e .asNeeded d).1.handles.unit.resource = some unit := by
      have hsome := hends.failed.symm.trans hok
      exact Option.isSome_iff_exists.1 (Option.isNone_eq_false_iff.1 hsome)
    have hsettled := hfits.settle (s := d.snapshot w.buffers) rfl hends
    have hunit : ((w.outcome e .asNeeded d).1.settle d).handles.unit.resource = some unit := by
      rw [(settle_rest _ d).2.2.2.2]
      exact hunit
    exact ⟨unit, hunit, hsettled unit hunit⟩

/-- A document that has what a result says is left as it is. -/
theorem receive_nothing (hd : w.documents[n]? = some d) (hfailed : d.failed = false) :
    w.receive n ⟨.nothing, d.handles⟩ = w := by
  have hsame : (⟨.nothing, d.handles⟩ : Progress ι υ).settle d = d := by
    unfold Progress.settle Document.incorporate
    rw [← hfailed]
    simp [UpdateResult.nothing, Document.installs]
  have hdocuments : w.documents.modify n (⟨.nothing, d.handles⟩ : Progress ι υ).settle =
      w.documents := (modify_congr hd hsame).trans (List.modify_id n _)
  rw [receive_eq, watches_receive hd, hdocuments]
  rfl

/-- An update of a document that owes nothing calls nobody and changes
nothing. -/
theorem update_of_settled {e : Engine ι υ σ} {dependencies : υ → PathSet}
    (hd : w.documents[n]? = some d) (h : d.Settled dependencies) :
    w.update e .asNeeded n = w := by
  obtain ⟨unit, hunit, -⟩ := h.unit
  have hfirst := e.parseIfNeeded_of_unit (d.snapshot w.buffers) d.handles w h.current hunit
  have hrun : w.outcome e .asNeeded d = (⟨.nothing, d.handles⟩, w) := by
    have hdirty : (d.snapshot w.buffers).reparseNeeded = false := h.dirty
    unfold outcome
    rw [e.run_asNeeded_eq, hdirty, Bool.and_false, if_neg Bool.false_ne_true]
    exact hfirst
  rw [update_eq_receive hd, hrun]
  exact receive_nothing hd h.failed

/-! ## §3. One update. -/

/-- In every state that only updates have brought results to, a document is
updated by at most one parse, and then at most one reparse.  If all calls
succeed, and nothing else happens meanwhile, it owes nothing afterwards; a
second update then leaves the whole workspace as it is: no call is made, not
even on the watcher. -/
theorem settles_update {b : Solo ι υ σ} {w : Workspace ι υ (Ledger ι υ σ)}
    (h : Arises (·.dependencies = b.dependencies) false w) {n : Nat} {d : Document ι υ}
    (hd : w.documents[n]? = some d) :
    ((w.callsSince (w.update b.engine .asNeeded n)).filterMap EngineCall.kind?).Sublist
        [.parse, .reparse] ∧
      ((∀ call ∈ w.callsSince (w.update b.engine .asNeeded n), call.succeeded = true) →
        ∃ d', (w.update b.engine .asNeeded n).documents[n]? = some d' ∧
          d'.Settled b.dependencies ∧
          (w.update b.engine .asNeeded n).update b.engine .asNeeded n =
            w.update b.engine .asNeeded n) := by
  rw [b.callsSince_update hd]
  refine ⟨b.kinds_asNeeded (d.snapshot w.buffers) d.handles w, fun hall => ?_⟩
  have hok : (w.outcome b.engine .asNeeded d).1.result.failed = false := by
    rw [Bool.eq_false_iff]
    intro hfailed
    rcases (b.failed_run (d.snapshot w.buffers) d.handles w .asNeeded).1 hfailed with
      ⟨call, hcall, hnot⟩ | ⟨hmode, -⟩
    · rw [hall call hcall] at hnot
      cases hnot
    · cases hmode
  have hsettled := settled_of_ok (e := b.engine) (fits_of_arises h n d hd)
    ((dated_of_arises h).documents n d hd) hok
  have hd' : (w.update b.engine .asNeeded n).documents[n]? =
      some ((w.outcome b.engine .asNeeded d).1.settle d) := by
    rw [update_eq_receive hd]
    apply getElem?_receive_self
    rw [(b.aside_outcome w .asNeeded d).documents]
    exact hd
  exact ⟨_, hd', hsettled, update_of_settled hd' hsettled⟩

/-- An engine whose calls all succeed, and that finds one header. -/
def calm : Solo Unit Unit Unit where
  newIndex _ memory := ((), memory)
  parse _ _ _ memory := ((.ok (), ()), memory)
  reparse _ _ _ memory := (.ok (), memory)
  dependencies _ := ⟨[⟨"/a.h"⟩]⟩
  distinct _ := List.pairwise_singleton _ _

/-- A document that was just created. -/
def createdOnce : Workspace Unit Unit (Ledger Unit Unit Unit) :=
  [Action.upsertParts [("p", [])], .create [.new ⟨"/a.c"⟩ "p"]].foldl Action.perform
    (.new (.fresh []) false ⟨(), []⟩)

/-- Its part was changed after it was parsed, and it is dirty and outdated. -/
def reconfigured : Workspace Unit Unit (Ledger Unit Unit Unit) :=
  (Action.upsertParts [("p", ["-x"])]).perform (createdOnce.update calm.engine .asNeeded 0)

theorem arises_reconfigured : Arises (·.dependencies = calm.dependencies) false reconfigured := by
  have hcreated : Arises (·.dependencies = calm.dependencies) false createdOnce :=
    Arises.acts _ (.start _ _ _)
  exact (calm.arises_update hcreated rfl .asNeeded 0).act _

theorem settles_update_reconfigured :
    reconfigured.documents[0]?.any (fun d => d.dirty && d.isOutdated) = true ∧
      ∃ d', (reconfigured.update calm.engine .asNeeded 0).documents[0]? = some d' ∧
        d'.Settled calm.dependencies ∧
        (reconfigured.update calm.engine .asNeeded 0).update calm.engine .asNeeded 0 =
          reconfigured.update calm.engine .asNeeded 0 := by
  obtain ⟨d, hd⟩ : ∃ d, reconfigured.documents[0]? = some d := ⟨_, rfl⟩
  exact ⟨by decide, (settles_update arises_reconfigured hd).2 (by decide)⟩

end Workspace

end ParseCache
