/-
  ParseCache.Proofs.Update.Outdated — no change of configuration is silently
  absorbed.

  A document does not keep the arguments its unit was parsed with.  That it
  can tell whether they are still the right ones rests on two stamps alone:
  when its part changed, and when its last parse began.  This file shows that
  the two suffice, whatever the engine does and whatever happens during its
  calls.

  Main results:
    * `Kept` — the invariant: a unit belongs to the part as it is now, or the
      document is outdated;
    * `kept_passage`, `kept_update` — actions and updates keep it;
    * `current_or_outdated` — it holds after every session.
-/
import ParseCache.Proofs.Update.Session

namespace ParseCache.Session

variable {ι υ σ : Type}

/-! ## §1. The invariant. -/

/-- The document `d`, number `n`, is in step with its unit and with the log. -/
structure KeptDocument (w : Session ι υ σ) (n : Nat) (d : Document ι (Parsed υ)) : Prop where
  baseline : d.baseline ≤ w.clock.last
  dirtyPoint : d.dirtyPoint ≤ w.clock.last
  logged : ∀ t, d.handles.unit = .of t → t.taken ≤ w.context.log.length
  /-- A unit that may be trusted was parsed with the arguments of now. -/
  current : ∀ t, d.handles.unit = .of t → d.isOutdated = false →
    t.arguments = d.part.arguments ++ d.arguments
  /-- A part that came after the snapshot of the parse does not go unnoticed. -/
  noticed : ∀ t, d.handles.unit = .of t → ∀ m ∈ w.context.log.drop t.taken, n ∈ m.installs →
    d.isOutdated = true

/-- Every document ever made is in step. -/
structure Kept (w : Session ι υ σ) : Prop where
  named : w.parts.Named
  documents : ∀ (n : Nat) (d : Document ι (Parsed υ)), w.documents[n]? = some d → KeptDocument w n d

theorem isOutdated_iff {d : Document ι υ} : d.isOutdated = true ↔ d.baseline ≤ d.part.changed := by
  unfold Document.isOutdated
  rw [decide_eq_true_eq]

/-! ## §2. Actions. -/

/-- What happens outside updates keeps a document in step. -/
theorem KeptDocument.passage {w w' : Session ι υ σ} {n : Nat} {d d' : Document ι (Parsed υ)}
    (h : KeptDocument w n d) (hnamed : w.parts.Named) (hw : Passage w w')
    (hd' : w'.documents[n]? = some d') (hdrift : d.Drift w.clock.last w'.clock.last d') :
    KeptDocument w' n d' where
  baseline := by
    rw [hdrift.baseline]
    exact TimePoint.le_trans h.baseline hw.drift.clock
  dirtyPoint := by
    rcases hdrift.dirt with ⟨-, hpoint⟩ | ⟨-, -, hle⟩
    · rw [hpoint]
      exact TimePoint.le_trans h.dirtyPoint hw.drift.clock
    · exact hle
  logged t ht := by
    obtain ⟨later, hlog, -⟩ := hw.log hnamed
    rw [hdrift.handles] at ht
    rw [hlog, List.length_append]
    exact Nat.le_trans (h.logged t ht) (Nat.le_add_right _ _)
  current t ht hout := by
    rw [hdrift.handles] at ht
    obtain ⟨hpart, hbefore⟩ := hdrift.current_of_current h.baseline hout
    rw [hpart, hdrift.arguments]
    exact h.current t ht hbefore
  noticed t ht m hm hn := by
    obtain ⟨later, hlog, htraced⟩ := hw.log hnamed
    rw [hdrift.handles] at ht
    rw [hlog, List.drop_append_of_le_length (h.logged t ht)] at hm
    -- an entry from before was noticed then, a later one came after the baseline
    rcases List.mem_append.1 hm with hm | hm
    · exact hdrift.outdated_of_outdated h.baseline (h.noticed t ht m hm hn)
    · have hlt := (htraced m hm).part hn hd'
      rw [isOutdated_iff, hdrift.baseline]
      exact TimePoint.le_trans h.baseline (TimePoint.le_of_lt hlt)

/-- A document without a unit has little to be in step with. -/
theorem keptDocument_of_unparsed {w : Session ι υ σ} {n : Nat} {d : Document ι (Parsed υ)}
    {since : TimePoint} (h : d.Unparsed since w.clock.last) : KeptDocument w n d := by
  have hunit : ∀ t, d.handles.unit ≠ .of t := by
    intro t ht
    rw [h.handles] at ht
    cases congrArg Handle.resource ht
  exact ⟨h.baseline.2, h.dirtyPoint.2, fun t ht => absurd ht (hunit t),
    fun t ht => absurd ht (hunit t), fun t ht => absurd ht (hunit t)⟩

theorem kept_passage {w w' : Session ι υ σ} (h : Kept w) (hw : Passage w w') : Kept w' where
  named := hw.drift.named h.named
  documents n d' hd' := by
    cases hd : w.documents[n]? with
    | none => exact keptDocument_of_unparsed (hw.drift.fresh n d' hd hd')
    | some d => exact (h.documents n d hd).passage h.named hw hd' (hw.drift.document hd hd')

/-! ## §3. Updates.

A unit that an update leaves was there before, or comes from its parse.  In the
first case the verdict on the part stays what it was, in the second it is read
off the start of the parse.  The two cases are looked at one unit at a time. -/

/-- The unit `t` is in step with the document `d`, number `n`, that holds it. -/
structure KeptUnit (w : Session ι υ σ) (n : Nat) (d : Document ι (Parsed υ)) (t : Parsed υ) :
    Prop where
  logged : t.taken ≤ w.context.log.length
  current : d.isOutdated = false → t.arguments = d.part.arguments ++ d.arguments
  noticed : ∀ m ∈ w.context.log.drop t.taken, n ∈ m.installs → d.isOutdated = true

theorem KeptDocument.unit {w : Session ι υ σ} {n : Nat} {d : Document ι (Parsed υ)}
    (h : KeptDocument w n d) {t : Parsed υ} (ht : d.handles.unit = .of t) : KeptUnit w n d t :=
  ⟨h.logged t ht, h.current t ht, h.noticed t ht⟩

/-- Without a parse the baseline stays, and with it the verdict on the part. -/
theorem isOutdated_settle_of_kept {p : Progress ι υ} (hok : p.result.failed = false)
    (hparsedAt : p.result.parsedAt = none) (d : Document ι υ) :
    (p.settle d).isOutdated = d.isOutdated := by
  have hbaseline := settle_baseline p d
  rw [hok, if_neg Bool.false_ne_true, hparsedAt] at hbaseline
  unfold Document.isOutdated
  rw [hbaseline, (settle_rest p d).2.2.1]
  rfl

/-- A parse is out of date if the part came when it had begun, or later. -/
theorem isOutdated_settle_of_parsed {p : Progress ι υ} (hok : p.result.failed = false)
    {start : TimePoint} (hparsedAt : p.result.parsedAt = some start) (d : Document ι υ) :
    (p.settle d).isOutdated = true ↔ start ≤ d.part.changed := by
  have hbaseline := settle_baseline p d
  rw [hok, if_neg Bool.false_ne_true, hparsedAt] at hbaseline
  rw [isOutdated_iff, hbaseline, (settle_rest p d).2.2.1]
  rfl

/-- A unit that was kept, reparsed or not, is in step as it was. -/
theorem KeptUnit.settle {w : Session ι υ σ} {n : Nat} {d : Document ι (Parsed υ)}
    {p : Progress ι (Parsed υ)} {t before : Parsed υ} (h : KeptUnit w n d before)
    (hok : p.result.failed = false) (hparsedAt : p.result.parsedAt = none)
    (harguments : t.arguments = before.arguments) (htaken : t.taken = before.taken) :
    KeptUnit w n (p.settle d) t := by
  have hsame := isOutdated_settle_of_kept hok hparsedAt d
  obtain ⟨-, harguments', hpart, -, -⟩ := settle_rest p d
  refine ⟨?_, fun hout => ?_, fun m hm hn => ?_⟩
  · rw [htaken]
    exact h.logged
  · rw [hsame] at hout
    rw [harguments, hpart, harguments']
    exact h.current hout
  · rw [hsame]
    rw [htaken] at hm
    exact h.noticed m hm hn

/-- A unit that comes from a parse is in step.  Its snapshot had the arguments of
then; a part that came during the call is later than the start of the parse, and
the document is outdated. -/
theorem keptUnit_settle_parsed {w w' : Session ι υ σ} {n : Nat} {d d' : Document ι (Parsed υ)}
    {p : Progress ι (Parsed υ)} {t : Parsed υ} (hnamed : w.parts.Named)
    (htaken : t.taken = w.context.log.length) (hsince : Passage w.now.2 w')
    (hd : w.documents[n]? = some d) (hd' : w'.documents[n]? = some d')
    (hok : p.result.failed = false) (hparsedAt : p.result.parsedAt = some w.clock.now.1)
    (harguments : t.arguments = d.part.arguments ++ d.arguments) :
    KeptUnit w' n (p.settle d') t := by
  have hdrift : d.Drift w.clock.now.1 w'.clock.last d' := hsince.drift.document hd hd'
  have hverdict := isOutdated_settle_of_parsed hok hparsedAt d'
  obtain ⟨later, hlog, htraced⟩ := hsince.log hnamed
  have hlog : w'.context.log = w.context.log ++ later := hlog
  obtain ⟨-, harguments', hpart', -, -⟩ := settle_rest p d'
  refine ⟨?_, fun hout => ?_, fun m hm hn => ?_⟩
  · rw [htaken, hlog, List.length_append]
    exact Nat.le_add_right _ _
  · rcases hdrift.part with hsame | ⟨hlt, -⟩
    · rw [harguments, hpart', harguments', hsame, hdrift.arguments]
    · rw [hverdict.2 (TimePoint.le_of_lt hlt)] at hout
      cases hout
  · rw [hlog, htaken, List.drop_left] at hm
    exact hverdict.2 (TimePoint.le_of_lt ((htraced m hm).part hn hd'))

/-- A document is in step after its own update. -/
theorem KeptDocument.settle {w w' : Session ι υ σ} {n : Nat} {d d' : Document ι (Parsed υ)}
    {p : Progress ι (Parsed υ)} {buffers : Buffers} (h : KeptDocument w n d)
    (hnamed : w.parts.Named) (htaken : w.context.taken = w.context.log.length)
    (hp : Leaves (d.snapshot buffers) d.handles w p w') (hd : w.documents[n]? = some d)
    (hd' : w'.documents[n]? = some d') : KeptDocument w' n (p.settle d') := by
  have hdrift := hp.passage.drift.document hd hd'
  have hkept := h.passage hnamed hp.passage hd' hdrift
  obtain ⟨-, -, -, hpoint, hhandles⟩ := settle_rest p d'
  have hunit : ∀ t, (p.settle d').handles.unit = .of t → KeptUnit w' n (p.settle d') t := by
    intro t ht
    rw [hhandles] at ht
    obtain ⟨hok, horigin⟩ := hp.unit t ht
    cases horigin with
    | kept before hbefore harguments htaken' hparsedAt =>
      have hheld : d'.handles.unit = .of before := by rw [hdrift.handles, hbefore]
      exact (hkept.unit hheld).settle hok hparsedAt harguments htaken'
    | parsed harguments htaken' hparsedAt hsince =>
      exact keptUnit_settle_parsed hnamed (htaken'.trans htaken) hsince hd hd' hok hparsedAt
        harguments
  have hdirtyPoint : (p.settle d').dirtyPoint ≤ w'.clock.last := by
    rw [hpoint]
    exact hkept.dirtyPoint
  exact ⟨baseline_settle_le hkept.baseline hp.parsedAt, hdirtyPoint,
    fun t ht => (hunit t ht).logged, fun t ht => (hunit t ht).current,
    fun t ht => (hunit t ht).noticed⟩

/-- An update keeps every document in step. -/
theorem kept_update (b : Behaviour ι υ σ) {w : Session ι υ σ} (h : Kept w)
    (htaken : w.context.taken = w.context.log.length) (mode : UpdateMode) (n : Nat) :
    Kept (w.update b.engine mode n) := by
  cases hd : w.documents[n]? with
  | none =>
    rw [Workspace.update_of_none hd]
    exact h
  | some d =>
    have hleaves := leaves_run b mode (d.snapshot w.buffers) d.handles w
    have hkept := kept_passage h hleaves.passage
    rw [Workspace.update_eq hd]
    generalize b.engine.run mode (d.snapshot w.buffers) d.handles w = outcome at hleaves hkept ⊢
    refine ⟨hkept.named, fun m d' hd' => ?_⟩
    by_cases hm : n = m
    · subst hm
      obtain ⟨d₁, hd₁, -⟩ := hleaves.passage.drift.old n d hd
      obtain rfl : d' = outcome.1.settle d₁ := Option.some.inj
        (hd'.symm.trans (Workspace.getElem?_modify_self hd₁ outcome.1.settle))
      have hkept' := (h.documents n d hd).settle h.named htaken hleaves hd hd₁
      exact ⟨hkept'.baseline, hkept'.dirtyPoint, hkept'.logged, hkept'.current, hkept'.noticed⟩
    · -- the other documents saw what happened during the calls, and nothing else
      have hother := Workspace.getElem?_modify_of_ne outcome.2 hm outcome.1.settle
      have hkept' := hkept.documents m d' (hother.symm.trans hd')
      exact ⟨hkept'.baseline, hkept'.dirtyPoint, hkept'.logged, hkept'.current, hkept'.noticed⟩

/-! ## §4. Sessions. -/

theorem kept_start (disk : Disk) (requireFiles : Bool) (memory : σ) :
    Kept (start disk requireFiles memory : Session ι υ σ) where
  named id part hget := by cases hget
  documents n d hd := by cases hd

theorem kept_mark {w : Session ι υ σ} (h : Kept w) : Kept w.mark where
  named := h.named
  documents n d hd :=
    have hkept := h.documents n d hd
    ⟨hkept.baseline, hkept.dirtyPoint, hkept.logged, hkept.current, hkept.noticed⟩

theorem kept_turn (b : Behaviour ι υ σ) {w : Session ι υ σ} (h : Kept w) (t : Turn) :
    Kept (w.turn b t) := by
  cases t with
  | act a => exact kept_passage h (passage_act w a)
  | update mode n => exact kept_update b (kept_mark h) rfl mode n

theorem kept_run (b : Behaviour ι υ σ) (turns : List Turn) :
    ∀ {w : Session ι υ σ}, Kept w → Kept (w.run b turns) := by
  induction turns with
  | nil =>
    intro w h
    exact h
  | cons t rest ih =>
    intro w h
    exact ih (kept_turn b h t)

/-- After any session, a unit that is not outdated was parsed with exactly the
arguments of the document's part and then its own; and a document whose part
came after the snapshot of that parse is outdated. -/
theorem current_or_outdated (b : Behaviour ι υ σ) (disk : Disk) (requireFiles : Bool) (memory : σ)
    (turns : List Turn) (n : Nat) (d : Document ι (Parsed υ)) (t : Parsed υ)
    (hd : ((start disk requireFiles memory).run b turns).documents[n]? = some d)
    (ht : d.handles.unit.resource = some t) :
    (d.isOutdated = false → t.arguments = d.part.arguments ++ d.arguments) ∧
      ((∃ m ∈ ((start disk requireFiles memory).run b turns).context.log.drop t.taken,
        n ∈ m.installs) → d.isOutdated = true) := by
  have hkept := (kept_run b turns (kept_start disk requireFiles memory)).documents n d hd
  have hunit : d.handles.unit = .of t := by
    show d.handles.unit = ⟨some t⟩
    rw [← ht]
  refine ⟨hkept.current t hunit, ?_⟩
  rintro ⟨m, hm, hn⟩
  exact hkept.noticed t hunit m hm hn

/-- A document whose part changes while it is parsed for the first time. -/
def lateConfiguration : Session Unit Unit Unit :=
  (start (.fresh []) false ()).run (.steady [.upsertParts [("p", ["-O2"])]] .empty)
    [.act (.upsertParts [("p", ["-O1"])]), .act (.create [.new ⟨"/a.c"⟩ "p"]), .update .asNeeded 0]

theorem lateConfiguration_outdated :
    ∃ d t, lateConfiguration.documents[0]? = some d ∧ d.handles.unit.resource = some t ∧
      t.arguments = ["-O1"] ∧ d.part.arguments = ["-O2"] ∧ d.isOutdated = true := by
  refine ⟨_, _, rfl, rfl, rfl, rfl, ?_⟩
  refine (current_or_outdated (.steady [.upsertParts [("p", ["-O2"])]] .empty) (.fresh []) false ()
    [.act (.upsertParts [("p", ["-O1"])]), .act (.create [.new ⟨"/a.c"⟩ "p"]), .update .asNeeded 0]
    0 _ _ rfl rfl).2 ?_
  exact ⟨_, List.mem_singleton_self _, by decide⟩

end ParseCache.Session
