/-
  ParseCache.Proofs.Update.Session — updates with any engine, while the rest
  of the program goes on.

  A `Behaviour` is an engine as its caller sees it: every call ends some way,
  and actions happen before it returns.  A session runs updates with such an
  engine between actions, and keeps a log.  The log notes every action with
  the workspace it happened in; a unit remembers the arguments it was parsed
  with, and how long the log was when the snapshot of its parse was taken.

  Main results:
    * `passage_after` — an engine call is a passage: the documents drift, and the
      log grows by actions that left their trace;
    * `leaves_run` — a whole update is a passage too, and the unit it leaves was
      parsed from its snapshot or was there before.
-/
import ParseCache.Proofs.Collection.Action
import ParseCache.Proofs.Update.Steps

namespace ParseCache

/-! ## §1. Behaviours. -/

/-- An action and the workspace it happened in, apart from its surroundings. -/
structure Moment (ι υ : Type) where
  action : Action
  scene : Workspace ι υ Unit

/-- What a session remembers: what the engine remembers, the actions so far,
and how many there had been when the latest update took its snapshot. -/
structure Memory (ι υ σ : Type) where
  inner : σ
  log : List (Moment ι υ)
  taken : Nat

/-- A unit with what is remembered of the parse that made it. -/
structure Parsed (υ : Type) where
  unit : υ
  arguments : List String
  /-- How many actions had happened when the snapshot was taken. -/
  taken : Nat
deriving Repr

/-- The workspace of a session. -/
abbrev Session (ι υ σ : Type) := Workspace ι (Parsed υ) (Memory ι (Parsed υ) σ)

/-- One engine call: how it ends, what happens meanwhile, and what the engine
remembers. -/
structure Reply (α σ : Type) where
  outcome : α
  meanwhile : List Action
  memory : σ

/-- An engine, as a function of what it is called with. -/
structure Behaviour (ι υ σ : Type) where
  newIndex : Session ι υ σ → Reply ι σ
  parse : Request → ι → Session ι υ σ → Reply (Except EngineError υ × ι) σ
  reparse : Request → υ → Session ι υ σ → Reply (Except EngineError υ) σ
  dependencies : υ → PathSet

variable {ι υ σ : Type}

namespace Session

/-- The workspace without what the session remembers. -/
def scene (w : Session ι υ σ) : Workspace ι (Parsed υ) Unit := { w with context := () }

/-- Notes an action. -/
def note (w : Session ι υ σ) (a : Action) : Session ι υ σ :=
  { w with context := { w.context with log := w.context.log ++ [⟨a, w.scene⟩] } }

/-- Notes an action and makes it happen. -/
def act (w : Session ι υ σ) (a : Action) : Session ι υ σ := a.perform (w.note a)

/-- Gives the engine its memory back. -/
def remember (w : Session ι υ σ) (memory : σ) : Session ι υ σ :=
  { w with context := { w.context with inner := memory } }

/-- A reply comes true. -/
def after {α : Type} (w : Session ι υ σ) (r : Reply α σ) : Session ι υ σ :=
  r.meanwhile.foldl act (w.remember r.memory)

end Session

/-- The engine that behaves this way and marks its units. -/
def Behaviour.engine (b : Behaviour ι υ σ) : Engine ι (Parsed υ) (Memory ι (Parsed υ) σ) where
  newIndex w := ((b.newIndex w).outcome, Session.after w (b.newIndex w))
  parse request index w :=
    ((match (b.parse request index w).outcome.1 with
        | .ok unit => .ok ⟨unit, request.arguments, w.context.taken⟩
        | .error e => .error e,
      (b.parse request index w).outcome.2),
      Session.after w (b.parse request index w))
  reparse request unit w :=
    (match (b.reparse request unit.unit w).outcome with
      | .ok fresh => .ok { unit with unit := fresh }
      | .error e => .error e,
      Session.after w (b.reparse request unit.unit w))
  dependencies unit := b.dependencies unit.unit

/-- An engine whose calls all succeed.  The same actions happen during each
parse, and its units depend on the same files. -/
def Behaviour.steady (meanwhile : List Action) (dependencies : PathSet) :
    Behaviour Unit Unit Unit where
  newIndex _ := ⟨(), [], ()⟩
  parse _ _ _ := ⟨(.ok (), ()), meanwhile, ()⟩
  reparse _ _ _ := ⟨.ok (), [], ()⟩
  dependencies _ := dependencies

/-- What is done at the top level of a session. -/
inductive Turn
  | act (a : Action)
  | update (mode : UpdateMode) (n : Nat)
deriving Repr

namespace Session

/-- Where an update begins: the length of the log is remembered. -/
def mark (w : Session ι υ σ) : Session ι υ σ :=
  { w with context := { w.context with taken := w.context.log.length } }

/-- One turn. -/
def turn (b : Behaviour ι υ σ) (w : Session ι υ σ) : Turn → Session ι υ σ
  | .act a => w.act a
  | .update mode n => w.mark.update b.engine mode n

/-- A whole session. -/
def run (b : Behaviour ι υ σ) (w : Session ι υ σ) (turns : List Turn) : Session ι υ σ :=
  turns.foldl (turn b) w

/-- A session that begins. -/
def start (disk : Disk) (requireFiles : Bool) (memory : σ) : Session ι υ σ :=
  Workspace.new disk requireFiles ⟨memory, [], 0⟩

end Session

/-! ## §2. Passages. -/

namespace Moment

/-- The documents that got a new version of their part then. -/
def installs (m : Moment ι υ) : List Nat := m.action.installs m.scene

/-- The documents that were told of a changed file then. -/
def notifies (m : Moment ι υ) : List Nat := m.action.notifies m.scene

/-- What an action did since `since` can still be seen. -/
structure Traced (m : Moment ι υ) (since : TimePoint) (w : Workspace ι υ σ) : Prop where
  installed : ∀ n ∈ m.installs, ∃ d, w.documents[n]? = some d ∧ since < d.part.changed
  notified : ∀ n ∈ m.notifies, ∃ d, w.documents[n]? = some d ∧ d.dirty = true ∧
    since < d.dirtyPoint

variable {m : Moment ι υ} {a b : TimePoint} {w w' : Workspace ι υ σ}

/-- A document that got its part then has a part that came since. -/
theorem Traced.part (h : m.Traced a w) {n : Nat} (hn : n ∈ m.installs) {d : Document ι υ}
    (hd : w.documents[n]? = some d) : a < d.part.changed := by
  obtain ⟨_, hd', hlt⟩ := h.installed n hn
  rw [hd] at hd'
  cases hd'
  exact hlt

theorem Traced.earlier (h : m.Traced b w) (hab : a ≤ b) : m.Traced a w where
  installed n hn := by
    obtain ⟨d, hd, hlt⟩ := h.installed n hn
    exact ⟨d, hd, TimePoint.lt_of_le_of_lt hab hlt⟩
  notified n hn := by
    obtain ⟨d, hd, hdirty, hlt⟩ := h.notified n hn
    exact ⟨d, hd, hdirty, TimePoint.lt_of_le_of_lt hab hlt⟩

/-- Drift does not wipe traces out: what replaces a stamp is later. -/
theorem Traced.drift (h : m.Traced a w) (hdrift : Workspace.Drift w w') (ha : a ≤ w.clock.last) :
    m.Traced a w' where
  installed n hn := by
    obtain ⟨d, hd, hlt⟩ := h.installed n hn
    obtain ⟨d', hd', hdd'⟩ := hdrift.old n d hd
    refine ⟨d', hd', ?_⟩
    rcases hdd'.part with hsame | ⟨hlt', -⟩
    · rw [hsame]
      exact hlt
    · exact TimePoint.lt_of_le_of_lt ha hlt'
  notified n hn := by
    obtain ⟨d, hd, hdirty, hlt⟩ := h.notified n hn
    obtain ⟨d', hd', hdd'⟩ := hdrift.old n d hd
    refine ⟨d', hd', hdd'.dirty_of_dirty hdirty, ?_⟩
    rcases hdd'.dirt with ⟨-, hpoint⟩ | ⟨-, hlt', -⟩
    · rw [hpoint]
      exact hlt
    · exact TimePoint.lt_of_le_of_lt ha hlt'

end Moment

/-- Drift does not depend on the surroundings. -/
theorem Workspace.Drift.recontext {w w' : Workspace ι υ σ} (h : Drift w w') (context : σ) :
    Drift { w with context := context } { w' with context := context } :=
  ⟨h.clock, rfl, h.named, h.old, h.fresh⟩

namespace Session

/-- From `w` to `w'` actions happened, and the log tells which. -/
structure Passage (w w' : Session ι υ σ) : Prop where
  drift : Workspace.Drift w { w' with context := w.context }
  taken : w'.context.taken = w.context.taken
  log : w.parts.Named → ∃ later, w'.context.log = w.context.log ++ later ∧
    ∀ m ∈ later, m.Traced w.clock.last w'

namespace Passage

variable {w w' w'' : Session ι υ σ}

/-- Only the memory of the engine changed, and time went on. -/
theorem of_quiet (hdrift : Workspace.Drift w { w' with context := w.context })
    (htaken : w'.context.taken = w.context.taken) (hlog : w'.context.log = w.context.log) :
    Passage w w' where
  drift := hdrift
  taken := htaken
  log _ := ⟨[], by rw [hlog, List.append_nil], fun _ hmem => absurd hmem List.not_mem_nil⟩

theorem refl (w : Session ι υ σ) : Passage w w := of_quiet (.refl w) rfl rfl

theorem of_now (w : Session ι υ σ) : Passage w w.now.2 := of_quiet (.of_now w) rfl rfl

theorem trans (h : Passage w w') (h' : Passage w' w'') : Passage w w'' where
  drift := h.drift.trans (h'.drift.recontext w.context)
  taken := h'.taken.trans h.taken
  log hnamed := by
    obtain ⟨later, hlog, htraced⟩ := h.log hnamed
    obtain ⟨later', hlog', htraced'⟩ := h'.log (h.drift.named hnamed)
    refine ⟨later ++ later', by rw [hlog', hlog, List.append_assoc], fun m hmem => ?_⟩
    rcases List.mem_append.1 hmem with hmem | hmem
    · have htraced := (htraced m hmem).drift h'.drift h.drift.clock
      exact ⟨htraced.installed, htraced.notified⟩
    · exact (htraced' m hmem).earlier h.drift.clock

end Passage

/-- An action leaves its trace. -/
theorem passage_act (w : Session ι υ σ) (a : Action) : Passage w (w.act a) := by
  have hdrift : Workspace.Drift (w.note a) (w.act a) := a.drift_perform (w.note a)
  have hcontext : (w.act a).context = (w.note a).context := hdrift.context
  refine ⟨hdrift.recontext w.context, ?_, fun hnamed => ⟨[⟨a, w.scene⟩], ?_, fun m hmem => ?_⟩⟩
  · rw [hcontext]
    rfl
  · rw [hcontext]
    rfl
  · rw [List.mem_singleton.1 hmem]
    -- the scene differs from the workspace in its surroundings only
    have hinstalls : a.installs w.scene = a.installs (w.note a) := by cases a <;> rfl
    have hnotifies : a.notifies w.scene = a.notifies (w.note a) := by cases a <;> rfl
    refine ⟨fun n hn => ?_, fun n hn => ?_⟩
    · exact Action.installed_perform (w := w.note a) hnamed a (hinstalls ▸ hn)
    · exact Action.notified_perform (w.note a) a (hnotifies ▸ hn)

theorem passage_acts (actions : List Action) :
    ∀ w : Session ι υ σ, Passage w (actions.foldl act w) := by
  induction actions with
  | nil => exact Passage.refl
  | cons a rest ih =>
    intro w
    exact (passage_act w a).trans (ih (w.act a))

/-- An engine call is a passage. -/
theorem passage_after {α : Type} (w : Session ι υ σ) (r : Reply α σ) : Passage w (w.after r) := by
  have hremember : Passage w (w.remember r.memory) := .of_quiet (.refl w) rfl rfl
  exact hremember.trans (passage_acts r.meanwhile (w.remember r.memory))

/-! ## §3. Updates. -/

/-- Where a unit comes from that an update leaves. -/
inductive Origin (s : Snapshot) (h : Handles ι (Parsed υ)) (w w' : Session ι υ σ)
    (r : UpdateResult) (t : Parsed υ) : Prop
  /-- It was there before, and may have been reparsed. -/
  | kept (before : Parsed υ) (hbefore : h.unit = .of before)
      (harguments : t.arguments = before.arguments) (htaken : t.taken = before.taken)
      (hparsedAt : r.parsedAt = none)
  /-- It was parsed from the snapshot. -/
  | parsed (harguments : t.arguments = s.arguments) (htaken : t.taken = w.context.taken)
      (hparsedAt : r.parsedAt = some w.clock.now.1) (hsince : Passage w.now.2 w')

/-- What an update, or its first half, leaves. -/
structure Leaves (s : Snapshot) (h : Handles ι (Parsed υ)) (w : Session ι υ σ)
    (p : Progress ι (Parsed υ)) (w' : Session ι υ σ) : Prop where
  passage : Passage w w'
  parsedAt : ∀ time, p.result.parsedAt = some time → time ≤ w'.clock.last
  unit : ∀ t, p.handles.unit = .of t → p.result.failed = false ∧ Origin s h w w' p.result t

theorem passage_indexOf (b : Behaviour ι υ σ) (h : Handle ι) (w : Session ι υ σ) :
    Passage w (b.engine.indexOf h w).2 := by
  unfold Engine.indexOf
  split
  · exact .refl w
  · exact passage_after w (b.newIndex w)

theorem passage_parseCall (b : Behaviour ι υ σ) (s : Snapshot) (h : Handles ι (Parsed υ))
    (w : Session ι υ σ) : Passage w.now.2 (b.engine.parseCall s h w).2 :=
  (passage_indexOf b h.index w.now.2).trans (passage_after _ _)

/-- A unit fresh from a parse remembers the request and the snapshot. -/
theorem parsed_parseCall {b : Behaviour ι υ σ} {s : Snapshot} {h : Handles ι (Parsed υ)}
    {w : Session ι υ σ} {t : Parsed υ} (ht : (b.engine.parseCall s h w).1.1 = .ok t) :
    t.arguments = s.arguments ∧ t.taken = w.context.taken := by
  have htaken := (passage_indexOf b h.index w.now.2).taken
  have hcall : (b.engine.parseCall s h w).1.1 =
      match (b.parse s.request (b.engine.indexOf h.index w.now.2).1
        (b.engine.indexOf h.index w.now.2).2).outcome.1 with
      | .ok unit => .ok ⟨unit, s.arguments, (b.engine.indexOf h.index w.now.2).2.context.taken⟩
      | .error e => .error e := rfl
  rw [hcall] at ht
  split at ht
  · cases ht
    exact ⟨rfl, htaken⟩
  · cases ht

/-- A reparsed unit remembers what it remembered. -/
theorem parsed_reparse {b : Behaviour ι υ σ} {request : Request} {w : Session ι υ σ}
    {t t' : Parsed υ} (ht : (b.engine.reparse request t w).1 = .ok t') :
    t'.arguments = t.arguments ∧ t'.taken = t.taken := by
  have hcall : (b.engine.reparse request t w).1 =
      match (b.reparse request t.unit w).outcome with
      | .ok fresh => .ok { t with unit := fresh }
      | .error e => .error e := rfl
  rw [hcall] at ht
  split at ht
  · cases ht
    exact ⟨rfl, rfl⟩
  · cases ht

/-- The parse half. -/
theorem leaves_parseIfNeeded (b : Behaviour ι υ σ) (s : Snapshot) (h : Handles ι (Parsed υ))
    (w : Session ι υ σ) :
    Leaves s h w (b.engine.parseIfNeeded s h w).1 (b.engine.parseIfNeeded s h w).2 := by
  have hcall := passage_parseCall b s { h with unit := .null } w
  rcases b.engine.parseIfNeeded_cases s h w with ⟨unit, hunit, -, heq⟩ | heq
  · rw [heq]
    refine ⟨.refl w, nofun, fun t ht => ⟨rfl, ?_⟩⟩
    exact .kept t ht rfl rfl rfl
  · rw [heq]
    rcases b.engine.parseStep_cases s { h with unit := .null } w with
      ⟨unit, hunit, heq⟩ | ⟨cause, -, heq⟩
    · rw [heq]
      refine ⟨(Passage.of_now w).trans hcall, fun time htime => ?_, fun t ht => ⟨rfl, ?_⟩⟩
      · cases htime
        exact hcall.drift.clock
      · obtain rfl : unit = t := Option.some.inj (congrArg Handle.resource ht)
        obtain ⟨harguments, htaken⟩ := parsed_parseCall hunit
        exact .parsed harguments htaken rfl hcall
    · rw [heq]
      refine ⟨(Passage.of_now w).trans hcall, nofun, fun t ht => ?_⟩
      cases congrArg Handle.resource ht

/-- The reparse half, after a first half or on its own. -/
theorem leaves_reparseStep (b : Behaviour ι υ σ) {s : Snapshot} {h : Handles ι (Parsed υ)}
    {w w₁ : Session ι υ σ} {p : Progress ι (Parsed υ)} (hp : Leaves s h w p w₁) :
    Leaves s h w (b.engine.reparseStep s p w₁).1 (b.engine.reparseStep s p w₁).2 := by
  rcases b.engine.reparseStep_cases s p w₁ with
    ⟨unit, unit', hunit, hcall, heq⟩ | ⟨unit, cause, -, -, heq⟩ | ⟨-, heq⟩
  · rw [heq]
    have hre : Passage w₁ (b.engine.reparse s.request unit w₁.now.2).2 :=
      (Passage.of_now w₁).trans (passage_after _ _)
    refine ⟨hp.passage.trans hre,
      fun time htime => TimePoint.le_trans (hp.parsedAt time htime) hre.drift.clock, fun t ht => ?_⟩
    -- a reparse hands on what the unit remembered of its parse
    obtain rfl : unit' = t := Option.some.inj (congrArg Handle.resource ht)
    obtain ⟨hfailed, horigin⟩ := hp.unit unit hunit
    obtain ⟨harguments, htaken⟩ := parsed_reparse hcall
    refine ⟨hfailed, ?_⟩
    cases horigin with
    | kept before hbefore harguments' htaken' hparsedAt =>
      exact .kept before hbefore (harguments.trans harguments') (htaken.trans htaken') hparsedAt
    | parsed harguments' htaken' hparsedAt hsince =>
      exact .parsed (harguments.trans harguments') (htaken.trans htaken') hparsedAt
        (hsince.trans hre)
  · rw [heq]
    have hre : Passage w₁ (b.engine.reparse s.request unit w₁.now.2).2 :=
      (Passage.of_now w₁).trans (passage_after _ _)
    refine ⟨hp.passage.trans hre,
      fun time htime => TimePoint.le_trans (hp.parsedAt time htime) hre.drift.clock, fun t ht => ?_⟩
    cases congrArg Handle.resource ht
  · rw [heq]
    have hnow := Passage.of_now w₁
    refine ⟨hp.passage.trans hnow,
      fun time htime => TimePoint.le_trans (hp.parsedAt time htime) hnow.drift.clock,
      fun t ht => ?_⟩
    cases congrArg Handle.resource ht

/-- A whole update. -/
theorem leaves_run (b : Behaviour ι υ σ) (mode : UpdateMode) (s : Snapshot)
    (h : Handles ι (Parsed υ)) (w : Session ι υ σ) :
    Leaves s h w (b.engine.run mode s h w).1 (b.engine.run mode s h w).2 := by
  rcases b.engine.run_cases mode s h w with ⟨-, heq⟩ | ⟨-, -, heq⟩ | ⟨-, heq⟩
  · rw [heq]
    exact leaves_parseIfNeeded b s h w
  · rw [heq]
    exact leaves_reparseStep b (leaves_parseIfNeeded b s h w)
  · rw [heq]
    refine leaves_reparseStep b ⟨.refl w, nofun, fun t ht => ⟨rfl, ?_⟩⟩
    exact .kept t ht rfl rfl rfl

end Session

end ParseCache
