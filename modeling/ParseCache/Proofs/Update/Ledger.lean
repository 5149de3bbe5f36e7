/-
  ParseCache.Proofs.Update.Ledger — updates with nobody else about.

  An engine that is on its own sees what it is called with, the disk, and what
  it remembers, and nothing happens to the cache while it works.  Every call it
  gets is written down, with what it was called with and how it ended, so that
  two ways of updating a document can be compared by the calls they make.

  Main results:
    * `Solo.engine` — such an engine, given by its answers;
    * `within_aside` — whatever it is asked, only time goes on and the ledger
      grows;
    * `calls_parseIfNeeded`, `calls_reparseStep` — the calls of the two halves
      of an update;
    * `kinds_asNeeded` — at most one parse, and then at most one reparse;
    * `failed_run` — an update fails exactly if a call did, or if there was no
      unit to reparse.
-/
import ParseCache.Proofs.Collection.States

namespace ParseCache

/-! ## §1. Calls. -/

/-- The calls that can fail. -/
inductive CallKind
  | parse
  | reparse
deriving Repr, DecidableEq

/-- A call an engine got: what it was called with, and whether it succeeded.
Buffers and arguments are part of the request.  What a unit depends on is asked
after every success; that cannot fail and leaves nothing behind, so it is not
written down. -/
inductive EngineCall (ι υ : Type)
  | newIndex
  | parse (request : Request) (index : ι) (ok : Bool)
  | reparse (request : Request) (unit : υ) (ok : Bool)
deriving Repr, DecidableEq

namespace EngineCall

variable {ι υ : Type}

def kind? : EngineCall ι υ → Option CallKind
  | newIndex => none
  | parse .. => some .parse
  | reparse .. => some .reparse

/-- Making an index cannot fail. -/
def succeeded : EngineCall ι υ → Bool
  | newIndex => true
  | parse _ _ ok => ok
  | reparse _ _ ok => ok

end EngineCall

/-- What an engine remembers, and the calls it got, the latest last. -/
structure Ledger (ι υ σ : Type) where
  memory : σ
  calls : List (EngineCall ι υ)
deriving Repr

/-- An engine that nobody disturbs, as a function of what it is called with,
the disk, and what it remembers.  What it is told of a unit's dependencies is
a set. -/
structure Solo (ι υ σ : Type) where
  newIndex : Disk → σ → ι × σ
  parse : Request → ι → Disk → σ → (Except EngineError υ × ι) × σ
  reparse : Request → υ → Disk → σ → Except EngineError υ × σ
  dependencies : υ → PathSet
  distinct : ∀ unit, (dependencies unit).Distinct

variable {ι υ σ : Type}

namespace Workspace

/-- Writes a call down, and what the engine remembers of it. -/
def enter (w : Workspace ι υ (Ledger ι υ σ)) (memory : σ) (call : EngineCall ι υ) :
    Workspace ι υ (Ledger ι υ σ) :=
  { w with context := ⟨memory, w.context.calls ++ [call]⟩ }

/-- The calls made from `w` to `w'`. -/
def callsSince (w w' : Workspace ι υ (Ledger ι υ σ)) : List (EngineCall ι υ) :=
  w'.context.calls.drop w.context.calls.length

/-- From `w` to `w'` time went on, and calls were made. -/
structure Aside (w w' : Workspace ι υ (Ledger ι υ σ)) : Prop where
  rest : w' = { w with clock := w'.clock, context := w'.context }
  calls : w'.context.calls = w.context.calls ++ w.callsSince w'

/-- What was added to the ledger are the calls since. -/
theorem callsSince_of_eq {w w' : Workspace ι υ (Ledger ι υ σ)} {made : List (EngineCall ι υ)}
    (h : w'.context.calls = w.context.calls ++ made) : w.callsSince w' = made := by
  unfold callsSince
  rw [h, List.drop_left]

theorem callsSince_self (w : Workspace ι υ (Ledger ι υ σ)) : w.callsSince w = [] :=
  callsSince_of_eq (List.append_nil _).symm

namespace Aside

variable {w w' w'' : Workspace ι υ (Ledger ι υ σ)}

theorem of_calls {made : List (EngineCall ι υ)}
    (hrest : w' = { w with clock := w'.clock, context := w'.context })
    (hcalls : w'.context.calls = w.context.calls ++ made) : Aside w w' where
  rest := hrest
  calls := by rw [callsSince_of_eq hcalls, hcalls]

/-- No call was made. -/
theorem of_context_eq (hrest : w' = { w with clock := w'.clock, context := w'.context })
    (hcontext : w'.context = w.context) : Aside w w' :=
  of_calls hrest (by rw [hcontext, List.append_nil])

theorem refl (w : Workspace ι υ (Ledger ι υ σ)) : Aside w w := of_context_eq rfl rfl

/-- The calls of two steps are those of the first and then those of the second.
-/
theorem callsSince_trans (h : Aside w w') (h' : Aside w' w'') :
    w.callsSince w'' = w.callsSince w' ++ w'.callsSince w'' := by
  apply callsSince_of_eq
  rw [h'.calls, ← List.append_assoc, ← h.calls]

theorem trans (h : Aside w w') (h' : Aside w' w'') : Aside w w'' where
  rest := by rw [h'.rest, h.rest]
  calls := by
    rw [h.callsSince_trans h', ← List.append_assoc, ← h.calls]
    exact h'.calls

/-- No document is touched aside, nor is a watch. -/
theorem documents (h : Aside w w') : w'.documents = w.documents := by rw [h.rest]

theorem watches (h : Aside w w') : w'.watches = w.watches := by rw [h.rest]

end Aside

theorem aside_now (w : Workspace ι υ (Ledger ι υ σ)) : Aside w w.now.2 := .of_context_eq rfl rfl

/-- Entering a call writes to the ledger and gives the engine its memory back.
-/
theorem aside_enter (w : Workspace ι υ (Ledger ι υ σ)) (memory : σ) (call : EngineCall ι υ) :
    Aside w (w.enter memory call) := .of_calls rfl rfl

theorem callsSince_enter (w : Workspace ι υ (Ledger ι υ σ)) (memory : σ)
    (call : EngineCall ι υ) : w.callsSince (w.enter memory call) = [call] :=
  callsSince_of_eq rfl

theorem callsSince_now (w : Workspace ι υ (Ledger ι υ σ)) : w.callsSince w.now.2 = [] :=
  callsSince_self w

end Workspace

open Workspace

/-! ## §2. The engine. -/

namespace Solo

variable (b : Solo ι υ σ)

/-- The engine that answers this way and writes every call down. -/
def engine : Engine ι υ (Ledger ι υ σ) where
  newIndex w :=
    ((b.newIndex w.disk w.context.memory).1,
      w.enter (b.newIndex w.disk w.context.memory).2 .newIndex)
  parse request index w :=
    ((b.parse request index w.disk w.context.memory).1,
      w.enter (b.parse request index w.disk w.context.memory).2
        (.parse request index (b.parse request index w.disk w.context.memory).1.1.isOk))
  reparse request unit w :=
    ((b.reparse request unit w.disk w.context.memory).1,
      w.enter (b.reparse request unit w.disk w.context.memory).2
        (.reparse request unit (b.reparse request unit w.disk w.context.memory).1.isOk))
  dependencies := b.dependencies

/-- An engine with a ledger works aside: none of its calls reaches past the
clock and its own surroundings. -/
theorem within_aside : b.engine.Within Aside where
  refl := Aside.refl
  trans := Aside.trans
  now := aside_now
  newIndex w := aside_enter w _ _
  parse _ _ w := aside_enter w _ _
  reparse _ _ w := aside_enter w _ _

/-- A parse enters one call, with its outcome. -/
theorem callsSince_parse (request : Request) (index : ι) (w : Workspace ι υ (Ledger ι υ σ)) :
    w.callsSince (b.engine.parse request index w).2 =
      [.parse request index (b.engine.parse request index w).1.1.isOk] :=
  callsSince_enter w _ _

/-- So does a reparse. -/
theorem callsSince_reparse (request : Request) (unit : υ) (w : Workspace ι υ (Ledger ι υ σ)) :
    w.callsSince (b.engine.reparse request unit w).2 =
      [.reparse request unit (b.engine.reparse request unit w).1.isOk] :=
  callsSince_enter w _ _

/-- Until its result is applied, an update works aside. -/
theorem aside_outcome (w : Workspace ι υ (Ledger ι υ σ)) (mode : UpdateMode)
    (d : Document ι υ) : Aside w (w.outcome b.engine mode d).2 :=
  b.within_aside.run mode (d.snapshot w.buffers) d.handles w

/-- Where such an engine works, every document is attended. -/
theorem within_attends (engines : Engine ι υ (Ledger ι υ σ) → Prop) (direct : Bool) (n : Nat) :
    b.engine.Within (Attends engines direct n) where
  refl := Guards.refl
  trans := Guards.trans
  now _ h := ⟨h.tick, fun d hd => ⟨d, hd, rfl, rfl⟩⟩
  newIndex _ h := ⟨h.remember _, fun d hd => ⟨d, hd, rfl, rfl⟩⟩
  parse _ _ _ h := ⟨h.remember _, fun d hd => ⟨d, hd, rfl, rfl⟩⟩
  reparse _ _ _ h := ⟨h.remember _, fun d hd => ⟨d, hd, rfl, rfl⟩⟩

theorem arises_update {engines : Engine ι υ (Ledger ι υ σ) → Prop} {direct : Bool}
    {w : Workspace ι υ (Ledger ι υ σ)} (h : Arises engines direct w) (he : engines b.engine)
    (mode : UpdateMode) (n : Nat) : Arises engines direct (w.update b.engine mode n) :=
  h.update he b.distinct (b.within_attends engines direct n) mode

/-- The arrival of a result is no call. -/
theorem callsSince_update {w : Workspace ι υ (Ledger ι υ σ)} {n : Nat} {d : Document ι υ}
    (hd : w.documents[n]? = some d) (mode : UpdateMode) :
    w.callsSince (w.update b.engine mode n) = w.callsSince (w.outcome b.engine mode d).2 := by
  rw [update_eq_receive hd, receive_eq]
  rfl

/-! ## §3. The calls of an update. -/

variable (s : Snapshot) (h : Handles ι υ) (w : Workspace ι υ (Ledger ι υ σ))

/-- An index is made once. -/
theorem callsSince_indexOf (index : Handle ι) :
    Aside w (b.engine.indexOf index w).2 ∧
      w.callsSince (b.engine.indexOf index w).2 = if index.isNull then [.newIndex] else [] := by
  obtain ⟨resource⟩ := index
  cases resource with
  | none => exact ⟨aside_enter w _ _, callsSince_enter w _ _⟩
  | some index => exact ⟨.refl w, callsSince_self w⟩

/-- The parse step calls for an index if there is none, and then parses, once.
-/
theorem calls_parseStep :
    ∃ index, w.callsSince (b.engine.parseStep s h w).2 =
      (if h.index.isNull then [.newIndex] else []) ++
        [.parse s.request index (!(b.engine.parseStep s h w).1.result.failed)] := by
  obtain ⟨haside, hindexed⟩ := b.callsSince_indexOf w.now.2 h.index
  have hindex : w.callsSince (b.engine.indexOf h.index w.now.2).2 =
      if h.index.isNull then [.newIndex] else [] := by
    rw [(aside_now w).callsSince_trans haside, callsSince_now, hindexed, List.nil_append]
  have hcalls : w.callsSince (b.engine.parseCall s h w).2 =
      (if h.index.isNull then [.newIndex] else []) ++
        [.parse s.request (b.engine.indexOf h.index w.now.2).1
          (b.engine.parseCall s h w).1.1.isOk] := by
    have hcall := b.within_aside.parse s.request (b.engine.indexOf h.index w.now.2).1
      (b.engine.indexOf h.index w.now.2).2
    have htrans := ((aside_now w).trans haside).callsSince_trans hcall
    rw [hindex, callsSince_parse] at htrans
    exact htrans
  refine ⟨(b.engine.indexOf h.index w.now.2).1, ?_⟩
  rcases b.engine.parseStep_cases s h w with ⟨unit, hok, heq⟩ | ⟨cause, herror, heq⟩
  · rw [heq, hcalls, hok]
    rfl
  · rw [heq, hcalls, herror]
    rfl

/-- The first half makes no call, or parses. -/
theorem calls_parseIfNeeded :
    (s.parseNeeded = false ∧ h.unit.isNull = false ∧
      b.engine.parseIfNeeded s h w = (⟨.nothing, h⟩, w)) ∨
    ∃ index, w.callsSince (b.engine.parseIfNeeded s h w).2 =
      (if h.index.isNull then [.newIndex] else []) ++
        [.parse s.request index (!(b.engine.parseIfNeeded s h w).1.result.failed)] := by
  rcases b.engine.parseIfNeeded_cases s h w with ⟨unit, hunit, hneeded, heq⟩ | heq
  · rw [hunit]
    exact Or.inl ⟨hneeded, rfl, heq⟩
  · rw [heq]
    exact Or.inr (b.calls_parseStep s { h with unit := .null } w)

/-- The second half reparses the unit there is. -/
theorem calls_reparseStep {p : Progress ι υ} (hp : p.result.failed = false) :
    w.callsSince (b.engine.reparseStep s p w).2 =
      match p.handles.unit.resource with
      | some unit => [.reparse s.request unit (!(b.engine.reparseStep s p w).1.result.failed)]
      | none => [] := by
  have hcalls : ∀ unit, w.callsSince (b.engine.reparse s.request unit w.now.2).2 =
      [.reparse s.request unit (b.engine.reparse s.request unit w.now.2).1.isOk] := fun unit => by
    rw [(aside_now w).callsSince_trans (b.within_aside.reparse _ _ _), callsSince_now,
      callsSince_reparse, List.nil_append]
  rcases b.engine.reparseStep_cases s p w with
    ⟨unit, unit', hunit, hok, heq⟩ | ⟨unit, cause, hunit, herror, heq⟩ | ⟨hunit, heq⟩
  · rw [heq, hcalls, hok, hunit]
    show _ = [EngineCall.reparse s.request unit (!p.result.failed)]
    rw [hp]
    rfl
  · rw [heq, hcalls, herror, hunit]
    rfl
  · rw [heq, hunit]
    exact callsSince_now w

/-! ## §4. How an update ended. -/

/-- The calls were at most one of the kind, and `failed` tells whether one of
them failed. -/
structure Logged (kind : CallKind) (calls : List (EngineCall ι υ)) (failed : Bool) : Prop where
  kinds : (calls.filterMap EngineCall.kind?).Sublist [kind]
  failed : failed = calls.any (!·.succeeded)

theorem logged_parseIfNeeded :
    Logged .parse (w.callsSince (b.engine.parseIfNeeded s h w).2)
      (b.engine.parseIfNeeded s h w).1.result.failed := by
  rcases b.calls_parseIfNeeded s h w with ⟨-, -, heq⟩ | ⟨index, hcalls⟩
  · rw [heq, callsSince_self]
    exact ⟨List.nil_sublist _, rfl⟩
  · rw [hcalls]
    -- an index may have been made first, which counts for nothing here
    constructor
    · split <;> exact List.Sublist.refl _
    · split <;> simp [EngineCall.succeeded]

theorem logged_reparseStep {p : Progress ι υ} (hp : p.result.failed = false) {unit : υ}
    (hunit : p.handles.unit.resource = some unit) :
    Logged .reparse (w.callsSince (b.engine.reparseStep s p w).2)
      (b.engine.reparseStep s p w).1.result.failed := by
  rw [b.calls_reparseStep s w hp, hunit]
  constructor
  · exact List.Sublist.refl _
  · simp [EngineCall.succeeded]

/-- The first half of an update that goes on has left a unit. -/
theorem unit_of_parseIfNeeded (hfirst : (b.engine.parseIfNeeded s h w).1.result.failed = false) :
    ∃ unit, (b.engine.parseIfNeeded s h w).1.handles.unit.resource = some unit := by
  rw [(b.engine.ends_parseIfNeeded s h w).failed] at hfirst
  exact Option.isSome_iff_exists.1 (Option.isNone_eq_false_iff.1 hfirst)

/-- At most one parse, and then at most one reparse. -/
theorem kinds_asNeeded :
    ((w.callsSince (b.engine.run .asNeeded s h w).2).filterMap EngineCall.kind?).Sublist
      [.parse, .reparse] := by
  have hparse := (b.logged_parseIfNeeded s h w).kinds
  rcases b.engine.run_cases .asNeeded s h w with ⟨-, heq⟩ | ⟨-, hfirst, heq⟩ | ⟨hmode, -⟩
  · rw [heq]
    exact hparse.trans (List.sublist_append_left _ _)
  · obtain ⟨unit, hunit⟩ := b.unit_of_parseIfNeeded s h w hfirst
    rw [heq, (b.within_aside.parseIfNeeded s h w).callsSince_trans
      (b.within_aside.reparseStep s _ _), List.filterMap_append]
    exact hparse.append (b.logged_reparseStep s _ hfirst hunit).kinds
  · cases hmode

/-- An update fails if a call did, or if it was to reparse and there was no
unit, and in no other case. -/
theorem failed_run (mode : UpdateMode) :
    (b.engine.run mode s h w).1.result.failed = true ↔
      (∃ call ∈ w.callsSince (b.engine.run mode s h w).2, call.succeeded = false) ∨
        mode = .forceReparse ∧ h.unit.resource = none := by
  have hany : ∀ {failed : Bool} {calls : List (EngineCall ι υ)},
      failed = calls.any (!·.succeeded) →
        (failed = true ↔ ∃ call ∈ calls, call.succeeded = false) := by
    rintro failed calls rfl
    simp only [List.any_eq_true, Bool.not_eq_true']
  have hparse := b.logged_parseIfNeeded s h w
  rcases b.engine.run_cases mode s h w with ⟨hmode, heq⟩ | ⟨hmode, hfirst, heq⟩ | ⟨hmode, heq⟩
  · rw [heq, hany hparse.failed]
    exact (or_iff_left fun hforced => hmode hforced.1).symm
  · obtain ⟨unit, hunit⟩ := b.unit_of_parseIfNeeded s h w hfirst
    have hreparse := b.logged_reparseStep s (b.engine.parseIfNeeded s h w).2 hfirst hunit
    -- the calls of the first half all succeeded
    have hboth := hreparse.failed
    rw [← Bool.false_or (List.any _ _), ← hfirst, hparse.failed, ← List.any_append,
      ← (b.within_aside.parseIfNeeded s h w).callsSince_trans
        (b.within_aside.reparseStep s _ _)] at hboth
    rw [heq, hany hboth, hmode]
    exact (or_iff_left fun hforced => nomatch hforced.1).symm
  · subst hmode
    rw [heq]
    cases hunit : h.unit.resource with
    | some unit =>
      rw [hany (b.logged_reparseStep s (p := ⟨.nothing, h⟩) w rfl hunit).failed]
      exact (or_iff_left fun hnone => nomatch hnone.2).symm
    | none =>
      obtain ⟨index, ⟨resource⟩⟩ := h
      subst hunit
      exact iff_of_true rfl (Or.inr ⟨rfl, rfl⟩)

end Solo

end ParseCache
