/-
  ParseCache.Proofs.Update.Failure — what an update that fails leaves behind.

  A failure can come late.  By then the unit may have been dropped, a parse may
  have succeeded and found dependencies, and the result carries what was found so
  far: the time of the parse, the files, the dirty point.  None of it reaches the
  document.  It notes that it failed, it is taken for clean, and it has no unit;
  an index that was made stays.

  Main results:
    * `unit_of_failed` — a result that failed comes without a unit;
    * `only_failure` — in every state, and whatever was asked for, an update
      that fails leaves this trace and nothing else;
    * `only_failure_after_parse` — also when a parse had succeeded before.
-/
import ParseCache.Proofs.Update.Combined

namespace ParseCache

variable {ι υ σ : Type}

namespace Workspace

/-- From `w` to `w'` an update of the document `d`, whose number is `n`, has left
the trace of a failure: the document failed, counts as clean, and has no unit.
Time went on and the surroundings changed; everything else is as it was, the
watch registry with the calls it made included. -/
structure OnlyFailure (n : Nat) (d : Document ι υ) (w w' : Workspace ι υ σ) : Prop where
  rest : w' = { w with clock := w'.clock, documents := w'.documents, context := w'.context }
  others : ∀ m, n ≠ m → w'.documents[m]? = w.documents[m]?
  trace : ∃ index, w'.documents[n]? =
    some { d with failed := true, dirty := false, handles := ⟨index, .null⟩ }

/-- A result that failed comes without a unit. -/
theorem unit_of_failed {e : Engine ι υ σ} {w : Workspace ι υ σ} {mode : UpdateMode}
    {d : Document ι υ} (hfailed : (w.outcome e mode d).1.result.failed = true) :
    (w.outcome e mode d).1.handles.unit = .null := by
  have hends := e.ends_run (d.snapshot w.buffers) d.handles w mode
  have hnone : (w.outcome e mode d).1.handles.unit.resource = none := by
    rw [← Option.isNone_iff_eq_none]
    exact hends.failed.symm.trans hfailed
  exact congrArg Handle.mk hnone

/-- An update fails if one of its calls did, or if it was to reparse a unit and
there was none, and in no other case.  Then it leaves the trace of that, and
nothing else. -/
theorem only_failure (b : Solo ι υ σ) {w : Workspace ι υ (Ledger ι υ σ)} {n : Nat}
    {d : Document ι υ} (hd : w.documents[n]? = some d) (mode : UpdateMode) :
    ((w.outcome b.engine mode d).1.result.failed = true ↔
      (∃ call ∈ w.callsSince (w.update b.engine mode n), call.succeeded = false) ∨
        mode = .forceReparse ∧ d.handles.unit.resource = none) ∧
    ((w.outcome b.engine mode d).1.result.failed = true →
      OnlyFailure n d w (w.update b.engine mode n)) := by
  constructor
  · rw [b.callsSince_update hd]
    exact b.failed_run (d.snapshot w.buffers) d.handles w mode
  · intro hfailed
    have haside := b.aside_outcome w mode d
    have hunit := unit_of_failed hfailed
    have hd' : (w.outcome b.engine mode d).2.documents[n]? = some d := by
      rw [haside.documents]
      exact hd
    rw [update_eq_receive hd]
    generalize w.outcome b.engine mode d = o at *
    refine ⟨?_, fun m hm => ?_, o.1.handles.index, ?_⟩
    · rw [receive_eq, watches_receive_of_failed hd' hfailed, haside.rest]
    · rw [getElem?_receive_of_ne _ hm, haside.documents]
    · rw [getElem?_receive_self hd', settle_of_failed hfailed, ← hunit]

/-- A parse succeeds, and the reparse after it fails. -/
theorem only_failure_after_parse :
    ∃ d, dirtyOnce.documents[0]? = some d ∧
      (dirtyOnce.callsSince (dirtyOnce.update once.engine .asNeeded 0)).map EngineCall.succeeded =
        [true, true, false] ∧
      OnlyFailure 0 d dirtyOnce (dirtyOnce.update once.engine .asNeeded 0) := by
  obtain ⟨d, hd⟩ : ∃ d, dirtyOnce.documents[0]? = some d := ⟨_, rfl⟩
  have hfailed : (dirtyOnce.outcome once.engine .asNeeded d).1.result.failed = true :=
    (only_failure once hd .asNeeded).1.2 (Or.inl (by decide))
  exact ⟨d, hd, by decide, (only_failure once hd .asNeeded).2 hfailed⟩

end Workspace

end ParseCache
