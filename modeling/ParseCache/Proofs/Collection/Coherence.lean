/-
  ParseCache.Proofs.Collection.Coherence — what the cache hands out is what a
  scan would find.

  A collection over the include scanner keeps what a scan found until it has a
  reason not to trust it.  The invariant of this file says that it has a reason
  whenever there is one: a document that is intact, clean and not outdated
  holds what scanning its file from scratch would find.  What carries it is
  that a document depends on everything its scan has met.

  Main results:
    * `Coherent` — the invariant;
    * `coherent_quiet` — operations that change no source keep the cache
      coherent, because all they do to documents is drift;
    * `coherent_edit` — a change of one source keeps it coherent if its path is
      announced, because a scan that did not meet the path is not concerned;
    * `coherent_update` — so does an update.
-/
import ParseCache.Proofs.Collection.Configuration
import ParseCache.Proofs.Include.SourceChange
import ParseCache.Proofs.Include.Updates

namespace ParseCache.Include

variable {σ : Type}

/-! ## §1. Coherence. -/

/-- What is scanned: the disk, with the buffers over it. -/
def sourcesOf (w : Cache σ) : Sources := ⟨w.disk, w.buffers⟩

/-- The document's path is rooted, and so are the directories it searches. -/
structure RootedDocument (d : Document CountingIndex ScannedUnit) : Prop where
  path : d.key.path.Rooted
  directories : ∀ directory ∈ searchPaths (d.part.arguments ++ d.arguments),
    directory.isAbsolute = true

/-- It is a matter of the configuration alone. -/
theorem RootedDocument.congr {d d' : Document CountingIndex ScannedUnit} (h : RootedDocument d')
    (hkey : d'.key = d.key) (hpart : d'.part = d.part) (harguments : d'.arguments = d.arguments) :
    RootedDocument d where
  path := hkey ▸ h.path
  directories := by
    rw [← hpart, ← harguments]
    exact h.directories

/-- The document holds a unit that it trusts. -/
structure Trusts (w : Cache σ) (d : Document CountingIndex ScannedUnit) (t : ScannedUnit) :
    Prop where
  unit : d.handles.unit = .of t
  current : d.isOutdated = false
  clean : d.dirty = false
  fileExists : d.fileExists w.disk = true

/-- A document is coherent: it depends on what its unit was read from, and
what it trusts is right. -/
structure CoherentDocument (w : Cache σ) (d : Document CountingIndex ScannedUnit) : Prop where
  baseline : d.baseline ≤ w.clock.last
  file : ∀ t, d.handles.unit = .of t → t.file = d.key.path
  arguments : ∀ t, d.handles.unit = .of t → d.isOutdated = false →
    t.arguments = d.part.arguments ++ d.arguments
  dependencies : ∀ t, d.handles.unit = .of t → ∀ q, d.dependencies.contains q = true ↔
    q.same d.key.path = true ∨ ∃ p ∈ t.found.includes, q.same p = true
  right : ∀ t, Trusts w d t → RootedDocument d →
    scan (sourcesOf w) d.key.path (d.part.arguments ++ d.arguments) = .ok t.found

/-- All held documents are. -/
def Coherent (w : Cache σ) : Prop :=
  ∀ n ∈ w.held, ∀ d : Document CountingIndex ScannedUnit, w.documents[n]? = some d →
    CoherentDocument w d

/-- A document without a unit is coherent. -/
theorem coherentDocument_of_no_unit {w : Cache σ} {d : Document CountingIndex ScannedUnit}
    (hbaseline : d.baseline ≤ w.clock.last) (hunit : d.handles.unit.resource = none) :
    CoherentDocument w d := by
  have hnone : ∀ t, d.handles.unit ≠ .of t := by
    intro t ht
    rw [ht] at hunit
    cases hunit
  exact ⟨hbaseline, fun t ht => absurd ht (hnone t), fun t ht => absurd ht (hnone t),
    fun t ht => absurd ht (hnone t), fun t ht => absurd ht.unit (hnone t)⟩

/-- So is a document that no update has seen. -/
theorem coherentDocument_of_unparsed {w : Cache σ} {since : TimePoint}
    {d : Document CountingIndex ScannedUnit} (h : d.Unparsed since w.clock.last) :
    CoherentDocument w d := by
  refine coherentDocument_of_no_unit h.baseline.2 ?_
  rw [h.handles]
  rfl

/-- Time does no harm. -/
theorem CoherentDocument.later {w w' : Cache σ} {d : Document CountingIndex ScannedUnit}
    (h : CoherentDocument w d) (hsources : sourcesOf w' = sourcesOf w)
    (hclock : w.clock.last ≤ w'.clock.last) : CoherentDocument w' d where
  baseline := TimePoint.le_trans h.baseline hclock
  file := h.file
  arguments := h.arguments
  dependencies := h.dependencies
  right t ht hrooted := by
    have hdisk : w'.disk = w.disk := congrArg Sources.disk hsources
    rw [hsources]
    exact h.right t ⟨ht.unit, ht.current, ht.clean, hdisk ▸ ht.fileExists⟩ hrooted

/-- Drift keeps everything but what a document trusts. -/
theorem CoherentDocument.drift {w w' : Cache σ} {d d' : Document CountingIndex ScannedUnit}
    (h : CoherentDocument w d) (hdrift : d.Drift w.clock.last w'.clock.last d')
    (hclock : w.clock.last ≤ w'.clock.last)
    (hright : ∀ t, Trusts w' d' t → RootedDocument d' →
      scan (sourcesOf w') d'.key.path (d'.part.arguments ++ d'.arguments) = .ok t.found) :
    CoherentDocument w' d' where
  baseline := by
    rw [hdrift.baseline]
    exact TimePoint.le_trans h.baseline hclock
  file t ht := by
    rw [hdrift.handles] at ht
    rw [hdrift.key]
    exact h.file t ht
  arguments t ht hcurrent := by
    rw [hdrift.handles] at ht
    obtain ⟨hpart, hbefore⟩ := hdrift.current_of_current h.baseline hcurrent
    rw [hpart, hdrift.arguments]
    exact h.arguments t ht hbefore
  dependencies t ht := by
    rw [hdrift.handles] at ht
    rw [hdrift.dependencies, hdrift.key]
    exact h.dependencies t ht
  right := hright

/-- What a document trusts after drift it trusted before, under the same
configuration. -/
theorem Trusts.before {w w' : Cache σ} {d d' : Document CountingIndex ScannedUnit}
    {t : ScannedUnit} (ht : Trusts w' d' t) (hdrift : d.Drift w.clock.last w'.clock.last d')
    (hbaseline : d.baseline ≤ w.clock.last)
    (hexists : d'.fileExists w'.disk = true → d'.fileExists w.disk = true) :
    Trusts w d t ∧ d'.key = d.key ∧ d'.part = d.part ∧ d'.arguments = d.arguments := by
  obtain ⟨hpart, hcurrent⟩ := hdrift.current_of_current hbaseline ht.current
  have hclean : d.dirty = false := by
    rw [Bool.eq_false_iff]
    intro hdirty
    have hdirty' := hdrift.dirty_of_dirty hdirty
    rw [ht.clean] at hdirty'
    cases hdirty'
  have hfile := hexists ht.fileExists
  unfold Document.fileExists at hfile
  rw [hdrift.key] at hfile
  exact ⟨⟨hdrift.handles ▸ ht.unit, hcurrent, hclean, hfile⟩, hdrift.key, hpart, hdrift.arguments⟩

/-! ## §2. Operations that change no source. -/

/-- Nothing but drift happened, documents went and new ones came. -/
structure Quiet (w w' : Cache σ) : Prop where
  drift : Workspace.Drift w w'
  disk : w'.disk = w.disk
  buffers : w'.buffers = w.buffers
  held : ∀ n ∈ w'.held, n ∈ w.held ∨ w.documents[n]? = none

theorem coherent_quiet {w w' : Cache σ} (h : Coherent w) (hquiet : Quiet w w') : Coherent w' := by
  intro n hn d' hd'
  have hsources : sourcesOf w' = sourcesOf w := by
    unfold sourcesOf
    rw [hquiet.disk, hquiet.buffers]
  cases hd : w.documents[n]? with
  | none => exact coherentDocument_of_unparsed (hquiet.drift.fresh n d' hd hd')
  | some d =>
    have hdrift := hquiet.drift.document hd hd'
    have hheld : n ∈ w.held := by
      rcases hquiet.held n hn with hheld | hnone
      · exact hheld
      · rw [hd] at hnone
        cases hnone
    have hcoherent := h n hheld d hd
    refine hcoherent.drift hdrift hquiet.drift.clock fun t ht hrooted => ?_
    obtain ⟨hbefore, hkey, hpart, harguments⟩ := ht.before hdrift hcoherent.baseline
      (by rw [hquiet.disk]; exact id)
    rw [hsources, hkey, hpart, harguments]
    exact hcoherent.right t hbefore (hrooted.congr hkey hpart harguments)

/-! ## §3. Changes of one source, and their announcement. -/

theorem sourcesOf_touch (w : Cache σ) (path : Path) : sourcesOf (w.touch path).2 = sourcesOf w := by
  have hmarks := Workspace.marks_touch w path
  unfold sourcesOf
  rw [hmarks.disk, hmarks.buffers]

/-- A document that a changed path passes by was not read from that path. -/
theorem scan_of_unaffected {w w' : Cache σ} {path : Path}
    (hedit : Edit path (sourcesOf w) (sourcesOf w'))
    {d : Document CountingIndex ScannedUnit} {t : ScannedUnit} (h : CoherentDocument w d)
    (ht : Trusts w d t) (hrooted : RootedDocument d)
    (hpath : d.dependencies.contains path.normalize = false) :
    scan (sourcesOf w') d.key.path (d.part.arguments ++ d.arguments) = .ok t.found := by
  have hdependencies := h.dependencies t ht.unit path.normalize
  rw [hpath] at hdependencies
  refine scan_of_edit hedit (h.right t ht hrooted) hrooted.path hrooted.directories ?_ ?_
  · rw [Bool.eq_false_iff]
    intro hsame
    exact Bool.false_ne_true (hdependencies.2 (Or.inl hsame))
  · intro p hp
    rw [Bool.eq_false_iff]
    intro hsame
    exact Bool.false_ne_true (hdependencies.2 (Or.inr ⟨p, hp, hsame⟩))

/-- One source changes, its path is announced, and the cache is coherent
again. -/
theorem coherent_edit {w w₁ : Cache σ} {path : Path} (h : Coherent w)
    (hdrift : Workspace.Drift w w₁) (hheld : ∀ n ∈ w₁.held, n ∈ w.held ∨ w.documents[n]? = none)
    (hedit : Edit path (sourcesOf w) (sourcesOf w₁)) : Coherent (w₁.touch path).2 := by
  have hmarks := Workspace.marks_touch w₁ path
  have hall := hdrift.trans (Workspace.drift_touch w₁ path)
  intro n hn d' hd'
  rw [hmarks.held] at hn
  cases hd : w.documents[n]? with
  | none => exact coherentDocument_of_unparsed (hall.fresh n d' hd hd')
  | some d =>
    have hdrifted := hall.document hd hd'
    have hwas : n ∈ w.held := by
      rcases hheld n hn with hwas | hnone
      · exact hwas
      · rw [hd] at hnone
        cases hnone
    -- what it trusts now it trusted before the change, when that was right
    have hcoherent := h n hwas d hd
    refine hcoherent.drift hdrifted hall.clock fun t ht hrooted => ?_
    obtain ⟨hbefore, hkey, hpart, harguments⟩ := ht.before hdrifted hcoherent.baseline (by
      rw [hmarks.disk]
      exact hedit.onDisk d'.key.path hrooted.path)
    -- a document that was told is dirty, and trusts nothing
    have hunmarked : n ∉ (w₁.touch path).1 := by
      intro hmarked
      obtain ⟨d₁, hd₁, -⟩ := hdrift.old n d hd
      obtain ⟨time, -, -, hdirty⟩ := hmarks.marked n d₁ hmarked hd₁
      obtain rfl : d₁.markDirty time = d' := Option.some.inj (hdirty.symm.trans hd')
      cases ht.clean
    have hd₁ : w₁.documents[n]? = some d' := (hmarks.unmarked n hunmarked).symm.trans hd'
    have hpath : d.dependencies.contains path.normalize = false := by
      rw [Bool.eq_false_iff]
      intro hcontains
      refine hunmarked ((w₁.mem_touch path n).2 ⟨hn, ?_⟩)
      have hexists : d'.fileExists w₁.disk = true := by
        rw [← hmarks.disk]
        exact ht.fileExists
      rw [hd₁, Option.any_some]
      unfold Document.isAffectedBy
      rw [hdrifted.dependencies, hcontains, hexists, Bool.or_true]
      rfl
    rw [sourcesOf_touch, hkey, hpart, harguments]
    exact scan_of_unaffected hedit hcoherent hbefore (hrooted.congr hkey hpart harguments) hpath

/-! ## §4. Updates. -/

/-- A document whose unit an update left alone is as coherent as before. -/
theorem CoherentDocument.settle_nothing {w : Cache σ} {d : Document CountingIndex ScannedUnit}
    {p : Progress CountingIndex ScannedUnit} (h : CoherentDocument w d)
    (hresult : p.result = .nothing) {t : ScannedUnit} (hbefore : d.handles.unit = .of t)
    (hunit : p.handles.unit = .of t) : CoherentDocument w (p.settle d) := by
  have hsettle : p.settle d = { d with handles := p.handles, failed := false } := by
    unfold Progress.settle Document.incorporate
    rw [hresult]
    simp [UpdateResult.nothing, Document.installs]
  have hsame : ∀ t', p.handles.unit = .of t' → d.handles.unit = .of t' := by
    intro t' ht'
    rw [hbefore, ← hunit, ht']
  rw [hsettle]
  refine ⟨h.baseline, fun t' ht' => h.file t' (hsame t' ht'),
    fun t' ht' => h.arguments t' (hsame t' ht'), fun t' ht' => h.dependencies t' (hsame t' ht'),
    fun t' ht' hrooted => ?_⟩
  exact h.right t' ⟨hsame t' ht'.unit, ht'.current, ht'.clean, ht'.fileExists⟩
    (hrooted.congr rfl rfl rfl)

/-- A document whose unit an update scanned trusts what was just found. -/
theorem CoherentDocument.settle_scanned {w : Cache σ} {d : Document CountingIndex ScannedUnit}
    {p : Progress CountingIndex ScannedUnit} (h : CoherentDocument w d)
    (hparsedAt : ∀ time, p.result.parsedAt = some time → time ≤ w.clock.last)
    {t : ScannedUnit} (hunit : p.handles.unit = .of t)
    (hnow : ScannedNow (d.snapshot w.buffers) w.disk d.handles p.result t) :
    CoherentDocument w (p.settle d) := by
  obtain ⟨hkey, harguments, hpart, -, hhandles⟩ := settle_rest p d
  have hbaseline := settle_baseline p d
  rw [hnow.succeeded, if_neg Bool.false_ne_true] at hbaseline
  -- it has no other unit than the one just scanned
  have honly : ∀ t', (p.settle d).handles.unit = .of t' → t' = t := by
    intro t' ht'
    rw [hhandles, hunit] at ht'
    exact (Option.some.inj (congrArg Handle.resource ht')).symm
  have hfile : t.file = d.key.path := by
    rcases hnow.origin with ⟨-, hfile, -⟩ | ⟨-, before, hbefore, hfile, -⟩
    · exact hfile
    · exact hfile.trans (h.file before hbefore)
  -- a reparse keeps the arguments, and the baseline that vouches for them
  have hcurrent : (p.settle d).isOutdated = false →
      t.arguments = d.part.arguments ++ d.arguments := by
    intro hcurrent
    rcases hnow.origin with ⟨-, -, hfrom⟩ | ⟨hnone, before, hbefore, -, hfrom⟩
    · exact hfrom
    · rw [hnone] at hbaseline
      unfold Document.isOutdated at hcurrent
      rw [hbaseline, hpart] at hcurrent
      exact hfrom.trans (h.arguments before hbefore hcurrent)
  refine ⟨baseline_settle_le h.baseline hparsedAt, fun t' ht' => ?_, fun t' ht' hcurrent' => ?_,
    fun t' ht' q => ?_, fun t' ht' _ => ?_⟩
  · rw [honly t' ht', hkey]
    exact hfile
  · rw [honly t' ht', hpart, harguments]
    exact hcurrent hcurrent'
  · -- the set holds what the scan met, and the document's own path
    rw [honly t' ht', hkey]
    have hinstalled : (p.settle d).dependencies = p.result.dependencies.insert d.key.path := by
      unfold Progress.settle Document.incorporate
      rw [hnow.succeeded, hnow.installs]
      rfl
    rw [hinstalled, hnow.dependencies, PathSet.contains_insert, PathSet.contains_insert,
      PathSet.contains_ofList, Bool.or_eq_true, Bool.or_eq_true, List.any_eq_true]
    show q.same d.key.path = true ∨ q.same d.key.path = true ∨ _ ↔ _
    rw [← or_assoc, or_self]
  · obtain rfl := honly t' ht'.unit
    rw [hkey, hpart, harguments, ← hcurrent ht'.current, ← hfile]
    exact hnow.found

/-- A document after its own update. -/
theorem CoherentDocument.settle {w w' : Cache σ} {d : Document CountingIndex ScannedUnit}
    {p : Progress CountingIndex ScannedUnit} (h : CoherentDocument w d)
    (hyields : Yields (d.snapshot w.buffers) d.handles w p w') :
    CoherentDocument w' (p.settle d) := by
  have hsources : sourcesOf w' = sourcesOf w := by
    unfold sourcesOf
    rw [hyields.rest]
  have hlater := h.later hsources hyields.clock
  cases hunit : p.handles.unit.resource with
  | none =>
    refine coherentDocument_of_no_unit (baseline_settle_le hlater.baseline hyields.parsedAt) ?_
    rw [(settle_rest p d).2.2.2.2, hunit]
  | some t =>
    have hunit : p.handles.unit = .of t := by
      show p.handles.unit = ⟨some t⟩
      rw [← hunit]
    rcases hyields.unit t hunit with ⟨hbefore, hnothing⟩ | hnow
    · exact hlater.settle_nothing hnothing hbefore hunit
    · refine hlater.settle_scanned hyields.parsedAt hunit ?_
      have hdisk : w'.disk = w.disk := congrArg Sources.disk hsources
      have hbuffers : w'.buffers = w.buffers := congrArg Sources.buffers hsources
      rw [hdisk, hbuffers]
      exact hnow

/-- An update, in any mode and with any outcome. -/
theorem coherent_update {w : Cache σ} (h : Coherent w) (mode : UpdateMode) (n : Nat) :
    Coherent (w.update engine mode n) := by
  cases hd : w.documents[n]? with
  | none =>
    rw [Workspace.update_of_none hd]
    exact h
  | some d =>
    have hyields := yields_run mode (d.snapshot w.buffers) d.handles w
    rw [Workspace.update_eq hd]
    generalize engine.run mode (d.snapshot w.buffers) d.handles w = outcome at hyields ⊢
    obtain ⟨p, w'⟩ := outcome
    have hrest : w' = { w with clock := w'.clock } := hyields.rest
    have hheld : w'.held = w.held := by rw [hrest]
    have hdocuments : w'.documents = w.documents := by rw [hrest]
    have hsources : sourcesOf w' = sourcesOf w := by
      unfold sourcesOf
      rw [hrest]
    intro m hm d' hd'
    have hm : m ∈ w.held := hheld ▸ hm
    have hd' : (w.modify n p.settle).documents[m]? = some d' := by
      rw [← hd']
      show (w.documents.modify n p.settle)[m]? = (w'.documents.modify n p.settle)[m]?
      rw [hdocuments]
    by_cases hmn : n = m
    · subst hmn
      rw [Workspace.getElem?_modify_self hd] at hd'
      obtain rfl := Option.some.inj hd'
      have hsettled := (h n hm d hd).settle hyields
      exact hsettled.later rfl (TimePoint.le_refl _)
    · rw [Workspace.getElem?_modify_of_ne w hmn] at hd'
      exact (h m hm d' hd').later hsources hyields.clock

end ParseCache.Include
