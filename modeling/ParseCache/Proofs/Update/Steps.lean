/-
  ParseCache.Proofs.Update.Steps — what each half of an update can do.

  `Engine.run` calls the engine at most twice, and the engine may do anything
  to the workspace.  The case lemmas here say, once for each half, which call
  was made where, what came of it, and what the half leaves; everything that
  is proved about updates is read off them.

  Main results:
    * `parseIfNeeded_cases`, `reparseStep_cases` — the two halves;
    * `run_cases` — the halves a mode runs;
    * `Within.run` — what time and the calls of the engine stay within, the run
      stays within;
    * `dirtyPoint_of_reparsed` — a result that reparsed carries the dirty
      point of its snapshot;
    * `update_eq` — an update is its run, applied to its document.
-/
import ParseCache.Update.Run

namespace ParseCache

variable {ι υ σ : Type}

/-! ## §1. The parse half. -/

namespace Engine

/-- Where a parse is called: the time has been taken, and the index is there. -/
def parseCall (e : Engine ι υ σ) (s : Snapshot) (h : Handles ι υ) (w : Workspace ι υ σ) :
    (Except EngineError υ × ι) × Workspace ι υ σ :=
  e.parse s.request (e.indexOf h.index w.now.2).1 (e.indexOf h.index w.now.2).2

theorem parseStep_eq (e : Engine ι υ σ) (s : Snapshot) (h : Handles ι υ) (w : Workspace ι υ σ) :
    e.parseStep s h w =
      match (e.parseCall s h w).1.1 with
      | .ok unit =>
        (⟨{ UpdateResult.nothing with
              parsedAt := some w.clock.now.1, dependencies := e.dependenciesOf s unit },
            ⟨.of (e.parseCall s h w).1.2, .of unit⟩⟩, (e.parseCall s h w).2)
      | .error _ =>
        (⟨{ UpdateResult.nothing with failed := true },
            { h with index := .of (e.parseCall s h w).1.2 }⟩, (e.parseCall s h w).2) := rfl

/-- A parse leaves a new unit, or fails and leaves the handle of the unit. -/
theorem parseStep_cases (e : Engine ι υ σ) (s : Snapshot) (h : Handles ι υ) (w : Workspace ι υ σ) :
    (∃ unit, (e.parseCall s h w).1.1 = .ok unit ∧
      e.parseStep s h w =
        (⟨{ UpdateResult.nothing with
              parsedAt := some w.clock.now.1, dependencies := e.dependenciesOf s unit },
            ⟨.of (e.parseCall s h w).1.2, .of unit⟩⟩, (e.parseCall s h w).2)) ∨
    (∃ cause, (e.parseCall s h w).1.1 = .error cause ∧
      e.parseStep s h w =
        (⟨{ UpdateResult.nothing with failed := true },
            { h with index := .of (e.parseCall s h w).1.2 }⟩, (e.parseCall s h w).2)) := by
  have hstep := e.parseStep_eq s h w
  cases hcall : (e.parseCall s h w).1.1 with
  | ok unit =>
    rw [hcall] at hstep
    exact Or.inl ⟨unit, rfl, hstep⟩
  | error cause =>
    rw [hcall] at hstep
    exact Or.inr ⟨cause, rfl, hstep⟩

/-- The first half keeps a unit that may be kept, and parses otherwise. -/
theorem parseIfNeeded_cases (e : Engine ι υ σ) (s : Snapshot) (h : Handles ι υ)
    (w : Workspace ι υ σ) :
    (∃ unit, h.unit = .of unit ∧ s.parseNeeded = false ∧
      e.parseIfNeeded s h w = (⟨.nothing, h⟩, w)) ∨
    e.parseIfNeeded s h w = e.parseStep s { h with unit := .null } w := by
  obtain ⟨index, unit⟩ := h
  obtain ⟨resource⟩ := unit
  unfold parseIfNeeded
  cases hneeded : s.parseNeeded with
  | true => exact Or.inr rfl
  | false =>
    cases resource with
    | none => exact Or.inr rfl
    | some unit => exact Or.inl ⟨unit, rfl, rfl, rfl⟩

/-! ## §2. The reparse half. -/

/-- What a reparse half reports before it is known how it ends. -/
def reparseBegun (s : Snapshot) (p : Progress ι υ) (w : Workspace ι υ σ) : UpdateResult :=
  { p.result with reparsedAt := some w.clock.now.1, dirtyPoint := some s.dirtyPoint }

theorem reparseStep_of_unit (e : Engine ι υ σ) (s : Snapshot) (result : UpdateResult)
    (index : Handle ι) (unit : υ) (w : Workspace ι υ σ) :
    e.reparseStep s ⟨result, index, .of unit⟩ w =
      match e.reparse s.request unit w.now.2 with
      | (.ok unit', w') =>
        (⟨{ reparseBegun s (⟨result, index, .of unit⟩ : Progress ι υ) w with
              reparsed := true, dependencies := e.dependenciesOf s unit' },
            ⟨index, .of unit'⟩⟩, w')
      | (.error _, w') =>
        (⟨{ reparseBegun s (⟨result, index, .of unit⟩ : Progress ι υ) w with failed := true },
            ⟨index, .null⟩⟩, w') := rfl

/-- A reparse needs a unit; it brings the unit up to date, or fails and leaves
none. -/
theorem reparseStep_cases (e : Engine ι υ σ) (s : Snapshot) (p : Progress ι υ)
    (w : Workspace ι υ σ) :
    (∃ unit unit', p.handles.unit = .of unit ∧
      (e.reparse s.request unit w.now.2).1 = .ok unit' ∧
      e.reparseStep s p w =
        (⟨{ reparseBegun s p w with reparsed := true, dependencies := e.dependenciesOf s unit' },
            { p.handles with unit := .of unit' }⟩, (e.reparse s.request unit w.now.2).2)) ∨
    (∃ unit cause, p.handles.unit = .of unit ∧
      (e.reparse s.request unit w.now.2).1 = .error cause ∧
      e.reparseStep s p w =
        (⟨{ reparseBegun s p w with failed := true }, { p.handles with unit := .null }⟩,
          (e.reparse s.request unit w.now.2).2)) ∨
    (p.handles.unit = .null ∧
      e.reparseStep s p w =
        (⟨{ reparseBegun s p w with failed := true }, { p.handles with unit := .null }⟩,
          w.now.2)) := by
  obtain ⟨result, index, resource⟩ := p
  obtain ⟨resource⟩ := resource
  cases resource with
  | none => exact Or.inr (Or.inr ⟨rfl, rfl⟩)
  | some unit =>
    have hstep := e.reparseStep_of_unit s result index unit w
    rcases hreply : e.reparse s.request unit w.now.2 with ⟨cause | unit', w'⟩
    · rw [hreply] at hstep
      refine Or.inr (Or.inl ⟨unit, cause, rfl, ?_, ?_⟩)
      · rw [hreply]
      · rw [hreply]
        exact hstep
    · rw [hreply] at hstep
      refine Or.inl ⟨unit, unit', rfl, ?_, ?_⟩
      · rw [hreply]
      · rw [hreply]
        exact hstep

/-! ## §3. Whole updates. -/

/-- The halves an update consists of. -/
theorem run_cases (e : Engine ι υ σ) (mode : UpdateMode) (s : Snapshot) (h : Handles ι υ)
    (w : Workspace ι υ σ) :
    (mode ≠ .forceReparse ∧ e.run mode s h w = e.parseIfNeeded s h w) ∨
    (mode = .asNeeded ∧ (e.parseIfNeeded s h w).1.result.failed = false ∧
      e.run mode s h w =
        e.reparseStep s (e.parseIfNeeded s h w).1 (e.parseIfNeeded s h w).2) ∨
    (mode = .forceReparse ∧ e.run mode s h w = e.reparseStep s ⟨.nothing, h⟩ w) := by
  cases mode with
  | parseIfNeeded => exact Or.inl ⟨nofun, rfl⟩
  | forceReparse => exact Or.inr (Or.inr ⟨rfl, rfl⟩)
  | asNeeded =>
    have hrun : e.run .asNeeded s h w =
        if !(e.parseIfNeeded s h w).1.result.failed && s.reparseNeeded then
          e.reparseStep s (e.parseIfNeeded s h w).1 (e.parseIfNeeded s h w).2
        else e.parseIfNeeded s h w := rfl
    -- only the mode `asNeeded` decides at run time whether it goes on
    by_cases hagain : (!(e.parseIfNeeded s h w).1.result.failed && s.reparseNeeded) = true
    · rw [if_pos hagain] at hrun
      rw [Bool.and_eq_true, Bool.not_eq_true'] at hagain
      exact Or.inr (Or.inl ⟨rfl, hagain.1, hrun⟩)
    · rw [if_neg hagain] at hrun
      exact Or.inl ⟨nofun, hrun⟩

/-- Time and the calls of an engine stay within a relation of workspaces. -/
structure Within (e : Engine ι υ σ) (R : Workspace ι υ σ → Workspace ι υ σ → Prop) : Prop where
  refl : ∀ w, R w w
  trans : ∀ {w w' w''}, R w w' → R w' w'' → R w w''
  now : ∀ w, R w w.now.2
  newIndex : ∀ w, R w (e.newIndex w).2
  parse : ∀ request index w, R w (e.parse request index w).2
  reparse : ∀ request unit w, R w (e.reparse request unit w).2

namespace Within

variable {e : Engine ι υ σ} {R : Workspace ι υ σ → Workspace ι υ σ → Prop}

theorem parseCall (he : e.Within R) (s : Snapshot) (h : Handles ι υ) (w : Workspace ι υ σ) :
    R w.now.2 (e.parseCall s h w).2 := by
  -- an index is made before the call, unless there is one already
  have hindex : R w.now.2 (e.indexOf h.index w.now.2).2 := by
    unfold indexOf
    split
    · exact he.refl _
    · exact he.newIndex _
  exact he.trans hindex (he.parse _ _ _)

theorem parseStep (he : e.Within R) (s : Snapshot) (h : Handles ι υ) (w : Workspace ι υ σ) :
    R w (e.parseStep s h w).2 := by
  have hcall : R w (e.parseCall s h w).2 := he.trans (he.now w) (he.parseCall s h w)
  rcases e.parseStep_cases s h w with ⟨unit, -, heq⟩ | ⟨cause, -, heq⟩
  · rw [heq]
    exact hcall
  · rw [heq]
    exact hcall

theorem parseIfNeeded (he : e.Within R) (s : Snapshot) (h : Handles ι υ) (w : Workspace ι υ σ) :
    R w (e.parseIfNeeded s h w).2 := by
  rcases e.parseIfNeeded_cases s h w with ⟨unit, -, -, heq⟩ | heq
  · rw [heq]
    exact he.refl w
  · rw [heq]
    exact he.parseStep s _ w

theorem reparseStep (he : e.Within R) (s : Snapshot) (p : Progress ι υ) (w : Workspace ι υ σ) :
    R w (e.reparseStep s p w).2 := by
  have hcall : ∀ unit, R w (e.reparse s.request unit w.now.2).2 := fun unit =>
    he.trans (he.now w) (he.reparse _ unit _)
  rcases e.reparseStep_cases s p w with
    ⟨unit, unit', -, -, heq⟩ | ⟨unit, cause, -, -, heq⟩ | ⟨-, heq⟩
  · rw [heq]
    exact hcall unit
  · rw [heq]
    exact hcall unit
  · rw [heq]
    exact he.now w

/-- So does a whole update. -/
theorem run (he : e.Within R) (mode : UpdateMode) (s : Snapshot) (h : Handles ι υ)
    (w : Workspace ι υ σ) : R w (e.run mode s h w).2 := by
  have hfirst := he.parseIfNeeded s h w
  rcases e.run_cases mode s h w with ⟨-, heq⟩ | ⟨-, -, heq⟩ | ⟨-, heq⟩
  · rw [heq]
    exact hfirst
  · rw [heq]
    exact he.trans hfirst (he.reparseStep s _ _)
  · rw [heq]
    exact he.reparseStep s _ w

end Within

/-- The calls of an engine leave everything around it as it is. -/
structure LooksOn (e : Engine ι υ σ) : Prop where
  newIndex : ∀ w, (e.newIndex w).2 = w
  parse : ∀ request index w, (e.parse request index w).2 = w
  reparse : ∀ request unit w, (e.reparse request unit w).2 = w

/-- Then nothing but time goes on while it works. -/
theorem LooksOn.within {e : Engine ι υ σ} (he : e.LooksOn)
    {R : Workspace ι υ σ → Workspace ι υ σ → Prop} (hrefl : ∀ w, R w w)
    (htrans : ∀ {w w' w''}, R w w' → R w' w'' → R w w'') (hnow : ∀ w, R w w.now.2) :
    e.Within R where
  refl := hrefl
  trans := htrans
  now := hnow
  newIndex w := by
    rw [he.newIndex]
    exact hrefl w
  parse request index w := by
    rw [he.parse]
    exact hrefl w
  reparse request unit w := by
    rw [he.reparse]
    exact hrefl w

/-- A result of the first half never reparsed. -/
theorem reparsed_parseIfNeeded (e : Engine ι υ σ) (s : Snapshot) (h : Handles ι υ)
    (w : Workspace ι υ σ) : (e.parseIfNeeded s h w).1.result.reparsed = false := by
  rcases e.parseIfNeeded_cases s h w with ⟨_, -, -, heq⟩ | heq
  · rw [heq]
    rfl
  · rw [heq]
    rcases e.parseStep_cases s { h with unit := .null } w with ⟨_, -, heq⟩ | ⟨_, -, heq⟩
    · rw [heq]
      rfl
    · rw [heq]
      rfl

/-- What a reparse half reports carries the dirty point of the snapshot. -/
theorem dirtyPoint_reparseStep (e : Engine ι υ σ) (s : Snapshot) (p : Progress ι υ)
    (w : Workspace ι υ σ) : (e.reparseStep s p w).1.result.dirtyPoint = some s.dirtyPoint := by
  rcases e.reparseStep_cases s p w with ⟨_, _, -, -, heq⟩ | ⟨_, _, -, -, heq⟩ | ⟨-, heq⟩
  · rw [heq]
    rfl
  · rw [heq]
    rfl
  · rw [heq]
    rfl

/-- The second half does not touch what the first half says of its parse. -/
theorem parsedAt_reparseStep (e : Engine ι υ σ) (s : Snapshot) (w : Workspace ι υ σ)
    (p : Progress ι υ) : (e.reparseStep s p w).1.result.parsedAt = p.result.parsedAt := by
  rcases e.reparseStep_cases s p w with ⟨_, _, -, -, heq⟩ | ⟨_, _, -, -, heq⟩ | ⟨-, heq⟩
  · rw [heq]
    rfl
  · rw [heq]
    rfl
  · rw [heq]
    rfl

/-- A result that reparsed is tied to the snapshot it worked on. -/
theorem dirtyPoint_of_reparsed (e : Engine ι υ σ) (mode : UpdateMode) (s : Snapshot)
    (h : Handles ι υ) (w : Workspace ι υ σ) (hre : (e.run mode s h w).1.result.reparsed = true) :
    (e.run mode s h w).1.result.dirtyPoint = some s.dirtyPoint := by
  rcases e.run_cases mode s h w with ⟨-, heq⟩ | ⟨-, -, heq⟩ | ⟨-, heq⟩
  · rw [heq, e.reparsed_parseIfNeeded s h w] at hre
    cases hre
  · rw [heq]
    exact e.dirtyPoint_reparseStep s _ _
  · rw [heq]
    exact e.dirtyPoint_reparseStep s _ _

end Engine

/-! ## §4. Applying a result. -/

/-- What an update makes of the document it is about. -/
def Progress.settle (p : Progress ι υ) (d : Document ι υ) : Document ι υ :=
  ({ d with handles := p.handles } : Document ι υ).incorporate p.result

/-- A failed result leaves the baseline; any other moves it to the start of its
parse, if there was one. -/
theorem settle_baseline (p : Progress ι υ) (d : Document ι υ) :
    (p.settle d).baseline =
      if p.result.failed then d.baseline else p.result.parsedAt.getD d.baseline := by
  unfold Progress.settle Document.incorporate
  split <;> rfl

/-- Applying a result leaves the configuration of a document alone. -/
theorem settle_rest (p : Progress ι υ) (d : Document ι υ) :
    (p.settle d).key = d.key ∧ (p.settle d).arguments = d.arguments ∧
      (p.settle d).part = d.part ∧ (p.settle d).dirtyPoint = d.dirtyPoint ∧
      (p.settle d).handles = p.handles := by
  unfold Progress.settle Document.incorporate
  split <;> exact ⟨rfl, rfl, rfl, rfl, rfl⟩

/-- The baseline does not get ahead of time. -/
theorem baseline_settle_le {p : Progress ι υ} {d : Document ι υ} {time : TimePoint}
    (hd : d.baseline ≤ time) (hp : ∀ parsed, p.result.parsedAt = some parsed → parsed ≤ time) :
    (p.settle d).baseline ≤ time := by
  rw [settle_baseline]
  split
  · exact hd
  · cases hparsed : p.result.parsedAt with
    | none => exact hd
    | some parsed => exact hp parsed hparsed

namespace Workspace

theorem incorporate_cases (w : Workspace ι υ σ) (n : Nat) (r : UpdateResult) :
    w.incorporate n r =
      match (w.modify n (·.incorporate r)).documents[n]? with
      | some d =>
        if Document.installs r then
          { w.modify n (·.incorporate r) with
            watches := (w.watches.setWatched d.key d.dependencies).2 }
        else w.modify n (·.incorporate r)
      | none => w.modify n (·.incorporate r) := rfl

/-- Applying a result changes one document, and watches. -/
theorem incorporate_eq (w : Workspace ι υ σ) (n : Nat) (r : UpdateResult) :
    w.incorporate n r = { w with
      documents := w.documents.modify n (·.incorporate r)
      watches := (w.incorporate n r).watches } := by
  rw [incorporate_cases]
  split
  · split <;> rfl
  · rfl

/-- Where there is no document, there is nothing to update. -/
theorem update_of_none {e : Engine ι υ σ} {mode : UpdateMode} {w : Workspace ι υ σ} {n : Nat}
    (hd : w.documents[n]? = none) : w.update e mode n = w := by
  unfold update
  rw [hd]

/-- An update leaves what the run of its engine leaves, but for the document
itself and its watches. -/
theorem update_eq {e : Engine ι υ σ} {mode : UpdateMode} {w : Workspace ι υ σ} {n : Nat}
    {d : Document ι υ} (hd : w.documents[n]? = some d) :
    w.update e mode n =
      { (e.run mode (d.snapshot w.buffers) d.handles w).2 with
        documents := (e.run mode (d.snapshot w.buffers) d.handles w).2.documents.modify n
          (e.run mode (d.snapshot w.buffers) d.handles w).1.settle
        watches := (w.update e mode n).watches } := by
  have hupdate : w.update e mode n =
      ((e.run mode (d.snapshot w.buffers) d.handles w).2.modify n fun d' =>
        { d' with handles := (e.run mode (d.snapshot w.buffers) d.handles w).1.handles }).incorporate
          n (e.run mode (d.snapshot w.buffers) d.handles w).1.result := by
    unfold update
    rw [hd]
  generalize e.run mode (d.snapshot w.buffers) d.handles w = outcome at hupdate ⊢
  -- the resources and the result reach the same document, one after the other
  have htwice : ∀ documents : List (Document ι υ),
      (documents.modify n fun d => { d with handles := outcome.1.handles }).modify n
        (·.incorporate outcome.1.result) = documents.modify n outcome.1.settle := fun documents =>
    List.modify_modify_eq _ _ n documents
  rw [hupdate]
  refine (incorporate_eq _ n _).trans ?_
  rw [← htwice outcome.2.documents]
  rfl

end Workspace

end ParseCache
