/-
  ParseCache.Proofs.Update.Notification — changed files during an update.

  A file may change while the engine reads it.  The notification that it did
  reaches a document through the dependency set the document has at that
  moment, which an update under way has not replaced yet.  What the document
  depended on before is therefore safe, in every kind of update; a file that
  the update is about to discover is not.

  Main results:
    * `dirty_of_notified` — a document that was told of a change during its
      update is dirty after it, unless the update failed;
    * `notification_before_discovery` — a change of a file that becomes a
      dependency with the result is missed.
-/
import ParseCache.Proofs.Update.Outdated

namespace ParseCache.Session

variable {ι υ σ : Type}

/-! ## §1. Documents that were told. -/

/-- A result that did not fail clears the dirty flag only if it reparsed, and
only if it carries the dirty point of the document. -/
theorem dirty_settle {p : Progress ι υ} {d : Document ι υ} (hfailed : (p.settle d).failed = false)
    (hdirty : d.dirty = true)
    (hpoint : p.result.reparsed = true → p.result.dirtyPoint ≠ some d.dirtyPoint) :
    (p.settle d).dirty = true := by
  unfold Progress.settle Document.incorporate at hfailed ⊢
  split
  · rename_i hresult
    rw [if_pos hresult] at hfailed
    cases hfailed
  · show (d.dirty && !(p.result.reparsed && p.result.dirtyPoint == some d.dirtyPoint)) = true
    rw [hdirty, Bool.true_and, Bool.not_eq_true', Bool.and_eq_false_iff]
    cases hre : p.result.reparsed with
    | false => exact Or.inl rfl
    | true =>
      right
      rw [beq_eq_false_iff_ne]
      exact hpoint hre

/-- A changed file reaches a held document that depends on its normal form, unless
the file is the document's own and gone. -/
theorem mem_notifies {m : Moment ι υ} {path : Path} (hpath : m.action = .touch path) {n : Nat}
    (hheld : n ∈ m.scene.held) {d : Document ι υ} (hd : m.scene.documents[n]? = some d)
    (hdepends : d.dependencies.contains path.normalize = true)
    (hexists : path.normalize.same d.key.path = true → d.fileExists m.scene.disk = true) :
    n ∈ m.notifies := by
  have haffected : d.isAffectedBy m.scene.disk path.normalize = true := by
    unfold Document.isAffectedBy
    rw [hdepends, Bool.true_and, Bool.or_eq_true, Bool.not_eq_true']
    by_cases hown : path.normalize.same d.key.path = true
    · exact Or.inr (hexists hown)
    · exact Or.inl (Bool.eq_false_iff.2 hown)
  unfold Moment.notifies
  rw [hpath]
  refine Workspace.mem_heldWhere.2 ⟨hheld, ?_⟩
  rw [hd]
  exact haffected

/-- After any session, let document `n` be updated, and let the file at `path`
be reported as changed while the engine is called.  If the document is held
then and depends on the normal form of `path`, which exists if it is its own,
then it is dirty after the update, unless the update failed. -/
theorem dirty_of_notified (b : Behaviour ι υ σ) (disk : Disk) (requireFiles : Bool) (memory : σ)
    (turns : List Turn) (mode : UpdateMode) (n : Nat) (w : Session ι υ σ)
    (hw : w = (start disk requireFiles memory).run b turns) (d : Document ι (Parsed υ))
    (hd : (w.turn b (.update mode n)).documents[n]? = some d) (hsuccess : d.failed = false)
    (m : Moment ι (Parsed υ))
    (hm : m ∈ (w.turn b (.update mode n)).context.log.drop w.context.log.length) (path : Path)
    (hpath : m.action = .touch path) (hheld : n ∈ m.scene.held) (then_ : Document ι (Parsed υ))
    (hthen : m.scene.documents[n]? = some then_)
    (hdepends : then_.dependencies.contains path.normalize = true)
    (hexists : path.normalize.same then_.key.path = true → then_.fileExists m.scene.disk = true) :
    d.dirty = true := by
  have hkept : Kept w.mark := by
    rw [hw]
    exact kept_mark (kept_run b turns (kept_start disk requireFiles memory))
  have hturn : w.turn b (.update mode n) = w.mark.update b.engine mode n := rfl
  rw [hturn] at hd hm
  have hnotified := mem_notifies hpath hheld hthen hdepends hexists
  cases hd₀ : w.mark.documents[n]? with
  | none =>
    rw [Workspace.update_of_none hd₀, hd₀] at hd
    cases hd
  | some d₀ =>
    have hrun := (leaves_run b mode (d₀.snapshot w.mark.buffers) d₀.handles w.mark).passage
    have hpoint := b.engine.dirtyPoint_of_reparsed mode (d₀.snapshot w.mark.buffers) d₀.handles
      w.mark
    rw [Workspace.update_eq hd₀] at hd hm
    generalize b.engine.run mode (d₀.snapshot w.mark.buffers) d₀.handles w.mark = outcome
      at hrun hpoint hd hm
    -- it was dirty when the engine had done its work, for an event of its own
    obtain ⟨later, hlog, htraced⟩ := hrun.log hkept.named
    have hlater : m ∈ later := by
      have hlog' : outcome.2.context.log = w.context.log ++ later := hlog
      have hm' : m ∈ outcome.2.context.log.drop w.context.log.length := hm
      rw [hlog', List.drop_left] at hm'
      exact hm'
    obtain ⟨d₁, hd₁, hdirty, hlt⟩ := (htraced m hlater).notified n hnotified
    have hsettled : d = outcome.1.settle d₁ :=
      Option.some.inj (hd.symm.trans (Workspace.getElem?_modify_self hd₁ outcome.1.settle))
    subst hsettled
    refine dirty_settle hsuccess hdirty fun hre => ?_
    rw [hpoint hre]
    intro hsame
    -- the snapshot carries a point from before the update
    have hbefore : d₀.dirtyPoint ≤ w.mark.clock.last := (hkept.documents n d₀ hd₀).dirtyPoint
    have hafter : d₀.dirtyPoint < d₁.dirtyPoint := TimePoint.lt_of_le_of_lt hbefore hlt
    exact TimePoint.ne_of_lt hafter (Option.some.inj hsame)

/-! ## §2. Two updates, with a notification during each parse. -/

/-- An engine that finds one header, and during whose parses that header is
reported as changed. -/
def editedHeader : Behaviour Unit Unit Unit := .steady [.touch ⟨"/a.h"⟩] ⟨[⟨"/a.h"⟩]⟩

/-- A document that has not been parsed yet. -/
def beforeFirstParse : Session Unit Unit Unit :=
  (start (.fresh []) false ()).run editedHeader
    [.act (.upsertParts [("p", [])]), .act (.create [.new ⟨"/a.c"⟩ "p"])]

/-- The same document after its first parse, under a part that has changed. -/
def beforeSecondParse : Session Unit Unit Unit :=
  (start (.fresh []) false ()).run editedHeader
    [.act (.upsertParts [("p", [])]), .act (.create [.new ⟨"/a.c"⟩ "p"]),
      .update .parseIfNeeded 0, .act (.upsertParts [("p", ["-O2"])])]

theorem dirty_of_notified_header :
    ∃ d, (beforeSecondParse.turn editedHeader (.update .asNeeded 0)).documents[0]? = some d ∧
      d.dirty = true := by
  refine ⟨_, rfl, ?_⟩
  exact dirty_of_notified editedHeader (.fresh []) false ()
    [.act (.upsertParts [("p", [])]), .act (.create [.new ⟨"/a.c"⟩ "p"]),
      .update .parseIfNeeded 0, .act (.upsertParts [("p", ["-O2"])])]
    .asNeeded 0 beforeSecondParse rfl _ rfl rfl _ (List.mem_singleton_self _) ⟨"/a.h"⟩ rfl
    (List.mem_singleton_self _) _ rfl (by decide) (fun hown => absurd hown (by decide))

/-- The first parse discovers `/a.h` and installs it as a dependency.  The
change reported during that parse is missed. -/
theorem notification_before_discovery :
    ∃ d m, (beforeFirstParse.turn editedHeader (.update .asNeeded 0)).documents[0]? = some d ∧
      d.failed = false ∧
      m ∈ (beforeFirstParse.turn editedHeader (.update .asNeeded 0)).context.log.drop
        beforeFirstParse.context.log.length ∧
      m.action = .touch ⟨"/a.h"⟩ ∧ 0 ∈ m.scene.held ∧
      d.dependencies.contains (Path.mk "/a.h").normalize = true ∧
      (Path.mk "/a.h").normalize.same d.key.path = false ∧ d.dirty = false := by
  refine ⟨_, _, rfl, rfl, List.mem_singleton_self _, rfl, List.mem_singleton_self _, ?_, ?_, ?_⟩
  · decide
  · decide
  · decide

end ParseCache.Session
