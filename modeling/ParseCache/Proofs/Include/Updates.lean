/-
  ParseCache.Proofs.Include.Updates — updates by the include scanner.

  The scanner leaves the workspace as it is, but for the time its updates
  take.  The unit an update leaves is the one from before, or it holds what a
  scan finds now, with the arguments of the snapshot if the update parsed and
  with its old arguments if it only reparsed.

  Main result:
    * `yields_run` — this, for a whole update in any mode.
-/
import ParseCache.Include.Engine
import ParseCache.Proofs.Collection.Marking
import ParseCache.Proofs.Update.Steps

namespace ParseCache.Include

variable {σ : Type}

/-- A workspace whose documents are scanned. -/
abbrev Cache (σ : Type) := Workspace CountingIndex ScannedUnit σ

/-- The unit `t` was scanned by an update with the result `r`. -/
structure ScannedNow (s : Snapshot) (disk : Disk) (h : Handles CountingIndex ScannedUnit)
    (r : UpdateResult) (t : ScannedUnit) : Prop where
  found : scan ⟨disk, s.buffers⟩ t.file t.arguments = .ok t.found
  succeeded : r.failed = false
  installs : Document.installs r = true
  dependencies : r.dependencies = (PathSet.ofList t.found.includes).insert s.file
  /-- A parse takes the snapshot's arguments, a reparse those of the unit. -/
  origin : (r.parsedAt ≠ none ∧ t.file = s.file ∧ t.arguments = s.arguments) ∨
    (r.parsedAt = none ∧ ∃ before, h.unit = .of before ∧ t.file = before.file ∧
      t.arguments = before.arguments)

/-- What an update by the scanner, or its first half, leaves. -/
structure Yields (s : Snapshot) (h : Handles CountingIndex ScannedUnit) (w : Cache σ)
    (p : Progress CountingIndex ScannedUnit) (w' : Cache σ) : Prop where
  rest : w' = { w with clock := w'.clock }
  clock : w.clock.last ≤ w'.clock.last
  parsedAt : ∀ time, p.result.parsedAt = some time → time ≤ w'.clock.last
  unit : ∀ t, p.handles.unit = .of t →
    (h.unit = .of t ∧ p.result = .nothing) ∨ ScannedNow s w.disk h p.result t

theorem parse_eq_ok {request : Request} {disk : Disk} {t : ScannedUnit}
    (h : parse request disk = .ok t) :
    t.file = request.file ∧ t.arguments = request.arguments ∧
      scan ⟨disk, request.buffers⟩ request.file request.arguments = .ok t.found := by
  unfold parse at h
  split at h
  · rename_i found hscan
    cases h
    exact ⟨rfl, rfl, hscan⟩
  · cases h

theorem reparse_eq_ok {request : Request} {disk : Disk} {t t' : ScannedUnit}
    (h : reparse request t disk = .ok t') :
    t'.file = t.file ∧ t'.arguments = t.arguments ∧
      scan ⟨disk, request.buffers⟩ t.file t.arguments = .ok t'.found := by
  unfold reparse at h
  split at h
  · rename_i found hscan
    cases h
    exact ⟨rfl, rfl, hscan⟩
  · cases h

/-! ## §1. The calls. -/

theorem engine_parse (request : Request) (index : CountingIndex) (w : Cache σ) :
    (engine.parse request index w).1.1 = parse request w.disk ∧
      (engine.parse request index w).2 = w := by
  unfold engine
  simp only
  cases parse request w.disk with
  | ok unit => exact ⟨rfl, rfl⟩
  | error e => exact ⟨rfl, rfl⟩

theorem indexOf_snd (h : Handle CountingIndex) (w : Cache σ) : (engine.indexOf h w).2 = w := by
  unfold Engine.indexOf
  split <;> rfl

/-- A parse by the scanner reads the disk, and that is all. -/
theorem parseCall_spec (s : Snapshot) (h : Handles CountingIndex ScannedUnit) (w : Cache σ) :
    (engine.parseCall s h w).1.1 = parse s.request w.disk ∧
      (engine.parseCall s h w).2 = w.now.2 := by
  obtain ⟨houtcome, hleft⟩ :=
    engine_parse s.request (engine.indexOf h.index w.now.2).1 (engine.indexOf h.index w.now.2).2
  rw [indexOf_snd h.index w.now.2] at houtcome hleft
  unfold Engine.parseCall
  rw [indexOf_snd h.index w.now.2]
  exact ⟨houtcome, hleft⟩

/-! ## §2. The halves. -/

/-- The parse half. -/
theorem yields_parseIfNeeded (s : Snapshot) (h : Handles CountingIndex ScannedUnit) (w : Cache σ) :
    Yields s h w (engine.parseIfNeeded s h w).1 (engine.parseIfNeeded s h w).2 := by
  have hnow := TimePoint.le_of_lt w.clock.last_lt_now
  obtain ⟨houtcome, hleft⟩ := parseCall_spec s { h with unit := .null } w
  rcases engine.parseIfNeeded_cases s h w with ⟨unit, hunit, -, heq⟩ | heq
  · rw [heq]
    exact ⟨rfl, TimePoint.le_refl _, nofun, fun t ht => Or.inl ⟨ht, rfl⟩⟩
  · rw [heq]
    rcases engine.parseStep_cases s { h with unit := .null } w with
      ⟨unit, hunit, heq⟩ | ⟨cause, -, heq⟩
    · rw [heq, hleft]
      rw [houtcome] at hunit
      refine ⟨rfl, hnow, fun time htime => ?_, fun t ht => Or.inr ?_⟩
      · cases htime
        exact TimePoint.le_refl _
      · obtain rfl : unit = t := Option.some.inj (congrArg Handle.resource ht)
        obtain ⟨hfile, harguments, hscan⟩ := parse_eq_ok hunit
        refine ⟨?_, rfl, rfl, rfl, Or.inl ⟨nofun, hfile, harguments⟩⟩
        rw [hfile, harguments]
        exact hscan
    · rw [heq, hleft]
      refine ⟨rfl, hnow, nofun, fun t ht => ?_⟩
      cases congrArg Handle.resource ht

/-- The reparse half, after a first half or on its own. -/
theorem yields_reparseStep {s : Snapshot} {h : Handles CountingIndex ScannedUnit} {w w₁ : Cache σ}
    {p : Progress CountingIndex ScannedUnit} (hp : Yields s h w p w₁) :
    Yields s h w (engine.reparseStep s p w₁).1 (engine.reparseStep s p w₁).2 := by
  have hnow : w.clock.last ≤ w₁.now.2.clock.last :=
    TimePoint.le_trans hp.clock (TimePoint.le_of_lt w₁.clock.last_lt_now)
  have hrest : w₁.now.2 = { w with clock := w₁.now.2.clock } := by
    rw [Workspace.now_snd, hp.rest]
  have hparsedAt : ∀ time, p.result.parsedAt = some time → time ≤ w₁.now.2.clock.last :=
    fun time htime => TimePoint.le_trans (hp.parsedAt time htime)
      (TimePoint.le_of_lt w₁.clock.last_lt_now)
  rcases engine.reparseStep_cases s p w₁ with
    ⟨unit, unit', hunit, hcall, heq⟩ | ⟨unit, cause, -, -, heq⟩ | ⟨-, heq⟩
  · rw [heq]
    refine ⟨hrest, hnow, hparsedAt, fun t ht => Or.inr ?_⟩
    obtain rfl : unit' = t := Option.some.inj (congrArg Handle.resource ht)
    have hcall : reparse s.request unit w₁.disk = .ok unit' := hcall
    obtain ⟨hfile, harguments, hscan⟩ := reparse_eq_ok hcall
    have hdisk : w₁.disk = w.disk := by rw [hp.rest]
    rw [hdisk] at hscan
    have hfound : scan ⟨w.disk, s.buffers⟩ unit'.file unit'.arguments = .ok unit'.found := by
      rw [hfile, harguments]
      exact hscan
    -- the unit was there before the update, or its first half has scanned it
    rcases hp.unit unit hunit with ⟨hbefore, hnothing⟩ | hscanned
    · -- nothing was done before: the unit keeps its arguments
      have hfailed : p.result.failed = false := by rw [hnothing]; rfl
      have hnone : p.result.parsedAt = none := by rw [hnothing]; rfl
      refine ⟨hfound, hfailed, ?_, rfl, Or.inr ⟨hnone, unit, hbefore, hfile, harguments⟩⟩
      show (!p.result.failed && (p.result.parsedAt.isSome || true)) = true
      rw [hfailed, Bool.or_true]
      rfl
    · refine ⟨hfound, hscanned.succeeded, ?_, rfl, ?_⟩
      · show (!p.result.failed && (p.result.parsedAt.isSome || true)) = true
        rw [hscanned.succeeded, Bool.or_true]
        rfl
      · rcases hscanned.origin with ⟨hparsed, hfile', harguments'⟩ |
          ⟨hnone, before, hbefore, hfile', harguments'⟩
        · exact Or.inl ⟨hparsed, hfile.trans hfile', harguments.trans harguments'⟩
        · exact Or.inr ⟨hnone, before, hbefore, hfile.trans hfile',
            harguments.trans harguments'⟩
  · rw [heq]
    refine ⟨hrest, hnow, hparsedAt, fun t ht => ?_⟩
    cases congrArg Handle.resource ht
  · rw [heq]
    refine ⟨hrest, hnow, hparsedAt, fun t ht => ?_⟩
    cases congrArg Handle.resource ht

/-- A whole update. -/
theorem yields_run (mode : UpdateMode) (s : Snapshot) (h : Handles CountingIndex ScannedUnit)
    (w : Cache σ) : Yields s h w (engine.run mode s h w).1 (engine.run mode s h w).2 := by
  rcases engine.run_cases mode s h w with ⟨-, heq⟩ | ⟨-, -, heq⟩ | ⟨-, heq⟩
  · rw [heq]
    exact yields_parseIfNeeded s h w
  · rw [heq]
    exact yields_reparseStep (yields_parseIfNeeded s h w)
  · rw [heq]
    exact yields_reparseStep
      ⟨rfl, TimePoint.le_refl _, nofun, fun t ht => Or.inl ⟨ht, rfl⟩⟩

end ParseCache.Include
