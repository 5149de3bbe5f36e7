/-
  ParseCache.Proofs.Update.Contract — what one update promises.

  Three modes, two flags, an index and a unit that are there or not, and an
  engine whose calls may fail: many routes lead through an update, and a
  document relies on all of them reporting in the same way.  The promise is
  stated against what the engine really was asked and what it answered.  To
  that end an engine is given a second component of its surroundings in which
  it writes every call down; nothing else about it changes, so the calls are
  those of the engine itself.

  Main results:
    * `transcribed_parseStep`, `transcribed_reparseStep` — writing calls down
      changes nothing else;
    * `firstHalf_parseIfNeeded`, `accounts_reparseStep` — what the halves of an
      update add to the calls, and what their results say of them;
    * `update_keeps_contract` — which calls an update makes, with which
      resources, and how its result and the resources it leaves follow from
      the answers.
-/
import ParseCache.Proofs.Update.Settling

namespace ParseCache

variable {ι υ σ : Type}

/-! ## §1. Calls and their answers. -/

/-- A parse: the index it was given, the answer, and the index it left. -/
structure ParseCall (ι υ : Type) where
  given : ι
  reply : Except EngineError υ
  left : ι

/-- A reparse: the unit it was given, and the answer. -/
structure ReparseCall (υ : Type) where
  given : υ
  reply : Except EngineError υ

/-- A call an engine got, with its answer. -/
inductive EngineExchange (ι υ : Type)
  | newIndex (made : ι)
  | parse (request : Request) (call : ParseCall ι υ)
  | reparse (request : Request) (call : ReparseCall υ)

/-- The surroundings of an engine, and the calls it got, the latest last. -/
structure Transcript (ι υ σ : Type) where
  around : σ
  exchanges : List (EngineExchange ι υ)

namespace Workspace

/-- The workspace as the engine sees it. -/
def plain (w : Workspace ι υ (Transcript ι υ σ)) : Workspace ι υ σ :=
  { w with context := w.context.around }

/-- The workspace with the calls made so far. -/
def noting (w : Workspace ι υ σ) (exchanges : List (EngineExchange ι υ)) :
    Workspace ι υ (Transcript ι υ σ) :=
  { w with context := ⟨w.context, exchanges⟩ }

/-- One more call. -/
def writeDown (w : Workspace ι υ (Transcript ι υ σ)) (left : Workspace ι υ σ)
    (exchange : EngineExchange ι υ) : Workspace ι υ (Transcript ι υ σ) :=
  left.noting (w.context.exchanges ++ [exchange])

end Workspace

namespace Engine

/-- The engine, writing its calls down. -/
def transcribed (e : Engine ι υ σ) : Engine ι υ (Transcript ι υ σ) where
  newIndex w :=
    ((e.newIndex w.plain).1, w.writeDown (e.newIndex w.plain).2 (.newIndex (e.newIndex w.plain).1))
  parse request index w :=
    ((e.parse request index w.plain).1,
      w.writeDown (e.parse request index w.plain).2
        (.parse request
          ⟨index, (e.parse request index w.plain).1.1, (e.parse request index w.plain).1.2⟩))
  reparse request unit w :=
    ((e.reparse request unit w.plain).1,
      w.writeDown (e.reparse request unit w.plain).2
        (.reparse request ⟨unit, (e.reparse request unit w.plain).1⟩))
  dependencies := e.dependencies

end Engine

/-- The calls of one update: at most one of each kind, an index being made
before anything is parsed, and a reparse being last. -/
structure UpdateCalls (ι υ : Type) where
  /-- The index that was made. -/
  newIndex : Option ι
  parse : Option (ParseCall ι υ)
  reparse : Option (ReparseCall υ)

namespace UpdateCalls

/-- No call. -/
def none : UpdateCalls ι υ := ⟨.none, .none, .none⟩

/-- The calls as an engine writes them down, all with one request. -/
def exchanges (c : UpdateCalls ι υ) (request : Request) : List (EngineExchange ι υ) :=
  (c.newIndex.map .newIndex).toList ++ (c.parse.map (.parse request)).toList
    ++ (c.reparse.map (.reparse request)).toList

/-- The unit that is there once the parse half is over: the one that was
parsed, or where nothing was parsed the one the document held. -/
def unitBetween (c : UpdateCalls ι υ) (h : Handles ι υ) : Option υ :=
  match c.parse with
  | some call => call.reply.toOption
  | .none => h.unit.resource

/-- The unit of the last call that succeeded. -/
def lastUnit (c : UpdateCalls ι υ) : Option υ :=
  (c.reparse.bind (·.reply.toOption)).or (c.parse.bind (·.reply.toOption))

/-- Whether an update gets as far as a reparse.  A forced one is attempted even
if there is no unit. -/
def Attempted (c : UpdateCalls ι υ) (mode : UpdateMode) (s : Snapshot) (h : Handles ι υ) : Prop :=
  mode = .forceReparse
    ∨ mode = .asNeeded ∧ s.reparseNeeded = true ∧ (c.unitBetween h).isSome = true

end UpdateCalls

/-! ## §2. What an update promises. -/

/-- How a result, and the resources left, follow from the calls. -/
structure Accounts (e : Engine ι υ σ) (s : Snapshot) (h : Handles ι υ) (c : UpdateCalls ι υ)
    (p : Progress ι υ) : Prop where
  /-- An index is made for a parse, if there is none. -/
  made : c.newIndex.isSome = true ↔ c.parse.isSome = true ∧ h.index.resource = none
  /-- A parse is given the index there is. -/
  given : ∀ call, c.parse = some call → c.newIndex.or h.index.resource = some call.given
  /-- The index is kept, as the parse left it. -/
  index : p.handles.index.resource
    = match c.parse with
      | some call => some call.left
      | none => h.index.resource
  /-- The unit left is the answer to the last call. -/
  unit : p.handles.unit.resource
    = match c.reparse with
      | some call => call.reply.toOption
      | none => c.unitBetween h
  parsedAt : p.result.parsedAt.isSome = true
    ↔ ∃ call unit, c.parse = some call ∧ call.reply = .ok unit
  reparsed : p.result.reparsed = true
    ↔ ∃ call unit, c.reparse = some call ∧ call.reply = .ok unit
  dependencies : p.result.dependencies
    = match c.lastUnit with
      | some unit => (e.dependencies unit).insert s.file
      | none => .empty

/-- The unit there is after calls without a reparse. -/
theorem Accounts.unit_eq {e : Engine ι υ σ} {s : Snapshot} {h : Handles ι υ} {c : UpdateCalls ι υ}
    {p : Progress ι υ} (hc : Accounts e s h c p) (hopen : c.reparse = none) :
    p.handles.unit.resource = c.unitBetween h := by
  have hunit := hc.unit
  rw [hopen] at hunit
  exact hunit

/-- The time points of a snapshot have all been issued by `time`. -/
structure Snapshot.Past (s : Snapshot) (time : TimePoint) : Prop where
  dirty : s.dirtyPoint ≤ time
  buffers : s.buffers.changed ≤ time

/-- What one update, started at `w`, promises of its calls and its result. -/
structure UpdateContract (e : Engine ι υ σ) (mode : UpdateMode) (s : Snapshot) (h : Handles ι υ)
    (w : Workspace ι υ σ) (c : UpdateCalls ι υ) (p : Progress ι υ) : Prop
    extends Accounts e s h c p where
  /-- An update has failed exactly if no unit is held afterwards. -/
  failed : p.result.failed = true ↔ p.handles.unit.resource = none
  /-- When there is a parse. -/
  parses : c.parse.isSome = true
    ↔ mode ≠ .forceReparse ∧ (h.unit.resource = none ∨ s.parseNeeded = true)
  /-- When there is a reparse, and of which unit. -/
  reparses : ∀ unit, (∃ reply, c.reparse = some ⟨unit, reply⟩)
    ↔ c.unitBetween h = some unit
      ∧ (mode = .forceReparse ∨ mode = .asNeeded ∧ s.reparseNeeded = true)
  /-- The dirty point of the snapshot comes back with every attempted reparse,
  and with nothing else. -/
  dirtyPoint : (c.Attempted mode s h → p.result.dirtyPoint = some s.dirtyPoint)
    ∧ (¬ c.Attempted mode s h → p.result.dirtyPoint = none)
  reparsedAt : p.result.reparsedAt.isSome = true ↔ c.Attempted mode s h
  /-- A parse starts later than everything its snapshot knows of. -/
  parsedLater : s.Past w.clock.last → ∀ time, p.result.parsedAt = some time →
    s.dirtyPoint < time ∧ s.buffers.changed < time
  /-- Where no call sets the clock back, a reparse starts later than the parse. -/
  reparsedLater : e.Within (fun w w' => w.clock.last ≤ w'.clock.last) →
    ∀ time time', p.result.parsedAt = some time → p.result.reparsedAt = some time' → time < time'

/-! ## §3. Writing calls down changes nothing else. -/

namespace Engine

variable (e : Engine ι υ σ) (s : Snapshot) (h : Handles ι υ) (w : Workspace ι υ σ)
  (before : List (EngineExchange ι υ))

/-- The calls of a parse from scratch. -/
def parseCalls : UpdateCalls ι υ where
  newIndex := if h.index.isNull then some (e.indexOf h.index w.now.2).1 else none
  parse := some
    ⟨(e.indexOf h.index w.now.2).1, (e.parseCall s h w).1.1, (e.parseCall s h w).1.2⟩
  reparse := none

theorem transcribed_parseCall :
    e.transcribed.parseCall s h (w.noting before)
      = ((e.parseCall s h w).1,
          (e.parseCall s h w).2.noting (before ++ (e.parseCalls s h w).exchanges s.request)) := by
  obtain ⟨⟨_ | index⟩, unit⟩ := h
  · show (_, Workspace.noting _ ((before ++ [_]) ++ [_])) = _
    rw [List.append_assoc]
    rfl
  · rfl

theorem transcribed_parseStep :
    e.transcribed.parseStep s h (w.noting before)
      = ((e.parseStep s h w).1,
          (e.parseStep s h w).2.noting (before ++ (e.parseCalls s h w).exchanges s.request)) := by
  rw [parseStep_eq, parseStep_eq, transcribed_parseCall]
  cases (e.parseCall s h w).1.1 <;> rfl

/-- The reparse of the unit there is. -/
def reparseCall? (unit : Handle υ) : Option (ReparseCall υ) :=
  unit.resource.map fun unit => ⟨unit, (e.reparse s.request unit w.now.2).1⟩

theorem transcribed_reparseStep (p : Progress ι υ) :
    e.transcribed.reparseStep s p (w.noting before)
      = ((e.reparseStep s p w).1,
          (e.reparseStep s p w).2.noting
            (before ++ ((e.reparseCall? s w p.handles.unit).map (.reparse s.request)).toList)) := by
  obtain ⟨result, index, ⟨_ | unit⟩⟩ := p
  · show _ = (_, Workspace.noting _ (before ++ []))
    rw [List.append_nil]
    rfl
  · have hplain := e.reparseStep_of_unit s result index unit w
    have hnoted := e.transcribed.reparseStep_of_unit s result index unit (w.noting before)
    have hreply : e.transcribed.reparse s.request unit (w.noting before).now.2
        = ((e.reparse s.request unit w.now.2).1,
            (e.reparse s.request unit w.now.2).2.noting
              (before ++ [.reparse s.request ⟨unit, (e.reparse s.request unit w.now.2).1⟩])) := rfl
    show e.transcribed.reparseStep s ⟨result, index, .of unit⟩ _
      = ((e.reparseStep s ⟨result, index, .of unit⟩ w).1,
          (e.reparseStep s ⟨result, index, .of unit⟩ w).2.noting
            (before ++ [.reparse s.request ⟨unit, (e.reparse s.request unit w.now.2).1⟩]))
    rw [hplain, hnoted, hreply]
    rcases e.reparse s.request unit w.now.2 with ⟨cause | unit', w'⟩ <;> rfl

/-! ## §4. The halves of an update. -/

/-- What the parse half leaves behind the calls `c`. -/
structure FirstHalf (c : UpdateCalls ι υ) (p : Progress ι υ) (w' : Workspace ι υ σ) : Prop
    extends Accounts e s h c p where
  open_ : c.reparse = none
  parses : c.parse.isSome = true ↔ h.unit.resource = none ∨ s.parseNeeded = true
  failed : p.result.failed = true ↔ p.handles.unit.resource = none
  dirtyPoint : p.result.dirtyPoint = none
  reparsedAt : p.result.reparsedAt = none
  /-- The time was taken first. -/
  time : ∀ time, p.result.parsedAt = some time → time = w.clock.now.1
  clock : e.Within (fun w w' => w.clock.last ≤ w'.clock.last) →
    ∀ time, p.result.parsedAt = some time → time ≤ w'.clock.last

/-- An index is made for a parse exactly if there is none. -/
theorem made_parseCalls :
    (e.parseCalls s h w).newIndex.isSome = true
      ↔ (e.parseCalls s h w).parse.isSome = true ∧ h.index.resource = none := by
  obtain ⟨⟨_ | index⟩, unit⟩ := h <;> simp [parseCalls, Handle.isNull]

/-- It is the index that a parse is given. -/
theorem given_parseCalls (call : ParseCall ι υ) (hcall : (e.parseCalls s h w).parse = some call) :
    (e.parseCalls s h w).newIndex.or h.index.resource = some call.given := by
  obtain rfl := Option.some.inj hcall
  obtain ⟨⟨_ | index⟩, unit⟩ := h <;> rfl

/-- A parse from scratch, where no unit is held or the part has changed. -/
theorem firstHalf_parseStep (hneeded : h.unit.resource = none ∨ s.parseNeeded = true) :
    e.FirstHalf s h w (e.parseCalls s h w) (e.parseStep s { h with unit := .null } w).1
      (e.parseStep s { h with unit := .null } w).2 := by
  -- the parse does not look at the unit that is dropped
  have hcall : e.parseCall s { h with unit := .null } w = e.parseCall s h w := rfl
  rcases e.parseStep_cases s { h with unit := .null } w with
    ⟨unit, hok, heq⟩ | ⟨cause, herror, heq⟩
  · rw [hcall] at hok heq
    rw [heq]
    constructor
    case toAccounts =>
      constructor
      case made => exact e.made_parseCalls s h w
      case given => exact e.given_parseCalls s h w
      case index => rfl
      case unit => simp [UpdateCalls.unitBetween, parseCalls, hok, Handle.of, Except.toOption]
      case parsedAt => simp [parseCalls, hok]
      case reparsed => simp [parseCalls, UpdateResult.nothing]
      case dependencies =>
        simp [UpdateCalls.lastUnit, parseCalls, hok, Except.toOption, dependenciesOf]
    case open_ => rfl
    case parses => exact iff_of_true rfl hneeded
    case failed => simp [UpdateResult.nothing, Handle.of]
    case dirtyPoint => rfl
    case reparsedAt => rfl
    case time =>
      rintro time ⟨⟩
      rfl
    case clock =>
      rintro hclock time ⟨⟩
      exact hclock.parseCall s h w
  · rw [hcall] at herror heq
    rw [heq]
    constructor
    case toAccounts =>
      constructor
      case made => exact e.made_parseCalls s h w
      case given => exact e.given_parseCalls s h w
      case index => rfl
      case unit => simp [UpdateCalls.unitBetween, parseCalls, herror, Handle.null, Except.toOption]
      case parsedAt => simp [parseCalls, herror, UpdateResult.nothing]
      case reparsed => simp [parseCalls, UpdateResult.nothing]
      case dependencies =>
        simp [UpdateCalls.lastUnit, parseCalls, herror, Except.toOption, UpdateResult.nothing]
    case open_ => rfl
    case parses => exact iff_of_true rfl hneeded
    case failed => exact iff_of_true rfl rfl
    case dirtyPoint => rfl
    case reparsedAt => rfl
    case time =>
      intro time htime
      cases htime
    case clock =>
      intro _ time htime
      cases htime

/-- Where no call was made, a result says nothing, and everything is kept. -/
theorem accounts_none : Accounts e s h .none ⟨.nothing, h⟩ where
  made := by simp [UpdateCalls.none]
  given := nofun
  index := rfl
  unit := rfl
  parsedAt := by simp [UpdateCalls.none, UpdateResult.nothing]
  reparsed := by simp [UpdateCalls.none, UpdateResult.nothing]
  dependencies := rfl

theorem parseIfNeeded_of_needed (hneeded : h.unit.resource = none ∨ s.parseNeeded = true) :
    e.parseIfNeeded s h w = e.parseStep s { h with unit := .null } w := by
  rcases e.parseIfNeeded_cases s h w with ⟨unit, hunit, hcurrent, -⟩ | heq
  · rcases hneeded with hnone | hneeded
    · rw [hunit] at hnone
      cases hnone
    · rw [hcurrent] at hneeded
      cases hneeded
  · exact heq

/-- The parse half, with the calls it made. -/
theorem firstHalf_parseIfNeeded :
    ∃ c : UpdateCalls ι υ,
      e.transcribed.parseIfNeeded s h (w.noting before)
        = ((e.parseIfNeeded s h w).1,
            (e.parseIfNeeded s h w).2.noting (before ++ c.exchanges s.request))
      ∧ e.FirstHalf s h w c (e.parseIfNeeded s h w).1 (e.parseIfNeeded s h w).2 := by
  by_cases hneeded : h.unit.resource = none ∨ s.parseNeeded = true
  · refine ⟨e.parseCalls s h w, ?_, ?_⟩
    · rw [parseIfNeeded_of_needed e s h w hneeded,
        parseIfNeeded_of_needed e.transcribed s h _ hneeded]
      exact e.transcribed_parseStep s { h with unit := .null } w before
    · rw [parseIfNeeded_of_needed e s h w hneeded]
      exact e.firstHalf_parseStep s h w hneeded
  · -- a unit that may be kept is kept, and no call is made
    obtain ⟨hunit, hcurrent⟩ := not_or.1 hneeded
    obtain ⟨unit, hunit⟩ := Option.ne_none_iff_exists'.1 hunit
    have hcurrent := Bool.eq_false_iff.2 hcurrent
    refine ⟨.none, ?_, ?_⟩
    · rw [e.parseIfNeeded_of_unit s h w hcurrent hunit,
        e.transcribed.parseIfNeeded_of_unit s h _ hcurrent hunit]
      show _ = (_, Workspace.noting w (before ++ []))
      rw [List.append_nil]
    · rw [e.parseIfNeeded_of_unit s h w hcurrent hunit]
      constructor
      case toAccounts => exact accounts_none e s h
      case open_ => rfl
      case parses => simp [UpdateCalls.none, hunit, hcurrent]
      case failed => simp [UpdateResult.nothing, hunit]
      case dirtyPoint => rfl
      case reparsedAt => rfl
      case time =>
        intro time htime
        cases htime
      case clock =>
        intro _ time htime
        cases htime

/-! ## §5. The reparse half. -/

/-- A reparse half says when it began, however it ends. -/
theorem reparsedAt_reparseStep (p : Progress ι υ) :
    (e.reparseStep s p w).1.result.reparsedAt = some w.clock.now.1 := by
  rcases e.reparseStep_cases s p w with ⟨_, _, -, -, heq⟩ | ⟨_, _, -, -, heq⟩ | ⟨-, heq⟩
  · rw [heq]
    rfl
  · rw [heq]
    rfl
  · rw [heq]
    rfl

/-- A reparse half after the calls `c` adds the reparse of the unit there is,
and what was said of `c` holds with that call. -/
theorem accounts_reparseStep {c : UpdateCalls ι υ} {p : Progress ι υ} (hc : Accounts e s h c p)
    (hopen : c.reparse = none) :
    Accounts e s h { c with reparse := e.reparseCall? s w p.handles.unit }
      (e.reparseStep s p w).1 := by
  have hparsed : c.lastUnit = c.parse.bind (·.reply.toOption) := by
    rw [UpdateCalls.lastUnit, hopen]
    rfl
  have hnever : p.result.reparsed = false := by
    rw [← Bool.not_eq_true, hc.reparsed, hopen]
    rintro ⟨call, unit, hcall, -⟩
    cases hcall
  have hcall : ∀ unit, p.handles.unit = .of unit → e.reparseCall? s w p.handles.unit
      = some ⟨unit, (e.reparse s.request unit w.now.2).1⟩ := by
    intro unit hunit
    rw [hunit]
    rfl
  rcases e.reparseStep_cases s p w with
    ⟨unit, unit', hunit, hok, heq⟩ | ⟨unit, cause, hunit, herror, heq⟩ | ⟨hunit, heq⟩
  · rw [heq, hcall unit hunit, hok]
    refine ⟨hc.made, hc.given, hc.index, rfl, hc.parsedAt, ?_, ?_⟩
    · simp
    · simp [UpdateCalls.lastUnit, Except.toOption, dependenciesOf]
  · rw [heq, hcall unit hunit, herror]
    refine ⟨hc.made, hc.given, hc.index, rfl, hc.parsedAt, ?_, ?_⟩
    · simp [reparseBegun, hnever]
    · -- the unit of the parse, if there was one, is the last that was got
      show p.result.dependencies = _
      rw [hc.dependencies, hparsed]
      rfl
  · have hnone : e.reparseCall? s w p.handles.unit = none := by
      rw [hunit]
      rfl
    rw [heq, hnone]
    refine ⟨hc.made, hc.given, hc.index, ?_, hc.parsedAt, ?_, ?_⟩
    · show none = c.unitBetween h
      rw [← hc.unit_eq hopen, hunit]
      rfl
    · simp [reparseBegun, hnever]
    · show p.result.dependencies = _
      rw [hc.dependencies, hparsed]
      rfl

/-! ## §6. Whole updates. -/

variable {e s h w}
variable {mode : UpdateMode} {c : UpdateCalls ι υ} {p : Progress ι υ} {w' : Workspace ι υ σ}

/-- An update that is over after its parse half. -/
theorem FirstHalf.contract (hp : e.FirstHalf s h w c p w') (hmode : mode ≠ .forceReparse)
    (hstop : mode = .asNeeded → s.reparseNeeded = true → p.handles.unit.resource = none) :
    UpdateContract e mode s h w c p := by
  have hbetween := hp.toAccounts.unit_eq hp.open_
  have hattempted : ¬ c.Attempted mode s h := by
    rintro (hforced | ⟨hasNeeded, hneeded, hunit⟩)
    · exact hmode hforced
    · rw [← hbetween, hstop hasNeeded hneeded] at hunit
      cases hunit
  refine ⟨hp.toAccounts, hp.failed, ?parses, ?reparses, ?dirtyPoint, ?reparsedAt, ?parsedLater,
    ?reparsedLater⟩
  case parses => exact hp.parses.trans (and_iff_right hmode).symm
  case reparses =>
    intro unit
    refine iff_of_false ?_ ?_
    · rintro ⟨reply, hcall⟩
      rw [hp.open_] at hcall
      cases hcall
    · rintro ⟨hunit, hforced | ⟨hasNeeded, hneeded⟩⟩
      · exact hmode hforced
      · rw [← hbetween, hstop hasNeeded hneeded] at hunit
        cases hunit
  case dirtyPoint => exact ⟨fun h => absurd h hattempted, fun _ => hp.dirtyPoint⟩
  case reparsedAt =>
    rw [hp.reparsedAt]
    exact iff_of_false nofun hattempted
  case parsedLater =>
    intro hpast time htime
    rw [hp.time time htime]
    exact ⟨TimePoint.lt_of_le_of_lt hpast.dirty w.clock.last_lt_now,
      TimePoint.lt_of_le_of_lt hpast.buffers w.clock.last_lt_now⟩
  case reparsedLater =>
    intro _ time time' _ htime'
    rw [hp.reparsedAt] at htime'
    cases htime'

/-- An update that gets as far as its reparse half, which begins at `w'`. -/
theorem contract_reparseStep (hc : Accounts e s h c p) (hopen : c.reparse = none)
    (hok : p.result.failed = false)
    (hparses : c.parse.isSome = true
      ↔ mode ≠ .forceReparse ∧ (h.unit.resource = none ∨ s.parseNeeded = true))
    (hmode : mode = .forceReparse ∨ mode = .asNeeded ∧ s.reparseNeeded = true)
    (hattempted : c.Attempted mode s h)
    (htime : ∀ time, p.result.parsedAt = some time → time = w.clock.now.1)
    (hclock : e.Within (fun w w' => w.clock.last ≤ w'.clock.last) →
      ∀ time, p.result.parsedAt = some time → time ≤ w'.clock.last) :
    UpdateContract e mode s h w { c with reparse := e.reparseCall? s w' p.handles.unit }
      (e.reparseStep s p w').1 := by
  have hparsedAt := e.parsedAt_reparseStep s w' p
  have hreparsedAt := e.reparsedAt_reparseStep s w' p
  refine ⟨e.accounts_reparseStep s h w' hc hopen, ?failed, hparses, ?reparses, ?dirtyPoint,
    ?reparsedAt, ?parsedLater, ?reparsedLater⟩
  case failed =>
    rw [(e.ends_reparseStep s h w' hok).failed]
    exact Option.isNone_iff_eq_none
  case reparses =>
    intro unit
    show _ ↔ c.unitBetween h = some unit ∧ _
    rw [← hc.unit_eq hopen, and_iff_left hmode]
    cases hunit : p.handles.unit.resource with
    | none => simp [reparseCall?, hunit]
    | some held => simp [reparseCall?, hunit]
  case dirtyPoint =>
    exact ⟨fun _ => e.dirtyPoint_reparseStep s p w', fun h => absurd hattempted h⟩
  case reparsedAt =>
    rw [hreparsedAt]
    exact iff_of_true rfl hattempted
  case parsedLater =>
    intro hpast time hparsed
    rw [hparsedAt] at hparsed
    rw [htime time hparsed]
    exact ⟨TimePoint.lt_of_le_of_lt hpast.dirty w.clock.last_lt_now,
      TimePoint.lt_of_le_of_lt hpast.buffers w.clock.last_lt_now⟩
  case reparsedLater =>
    intro hforward time time' hparsed hreparsed
    rw [hparsedAt] at hparsed
    obtain rfl := Option.some.inj (hreparsedAt.symm.trans hreparsed)
    exact TimePoint.lt_of_le_of_lt (hclock hforward time hparsed) w'.clock.last_lt_now

/-- One update of a document's handles, for every engine, in every mode, from
every snapshot, and whatever the handles hold: its calls are at most one of
each kind, all with the request of the snapshot, and the contract holds of them,
of the result, and of the handles it leaves. -/
theorem update_keeps_contract (e : Engine ι υ σ) (mode : UpdateMode) (s : Snapshot)
    (h : Handles ι υ) (w : Workspace ι υ σ) :
    ∃ c : UpdateCalls ι υ,
      e.transcribed.run mode s h (w.noting [])
        = ((e.run mode s h w).1, (e.run mode s h w).2.noting (c.exchanges s.request))
      ∧ UpdateContract e mode s h w c (e.run mode s h w).1 := by
  obtain ⟨c, hcalls, hfirst⟩ := e.firstHalf_parseIfNeeded s h w []
  rw [List.nil_append] at hcalls
  -- what a reparse half adds to calls without a reparse
  have hadded : ∀ (c : UpdateCalls ι υ) (p : Progress ι υ) (w' : Workspace ι υ σ),
      c.reparse = none →
        e.transcribed.reparseStep s p (w'.noting (c.exchanges s.request))
          = ((e.reparseStep s p w').1, (e.reparseStep s p w').2.noting
              (({ c with reparse := e.reparseCall? s w' p.handles.unit } :
                UpdateCalls ι υ).exchanges s.request)) := by
    intro c p w' hopen
    rw [transcribed_reparseStep]
    simp [UpdateCalls.exchanges, hopen]
  cases mode with
  | parseIfNeeded => exact ⟨c, hcalls, hfirst.contract nofun nofun⟩
  | forceReparse =>
    refine ⟨_, hadded .none ⟨.nothing, h⟩ w rfl, ?_⟩
    exact contract_reparseStep (accounts_none e s h) rfl rfl (by simp [UpdateCalls.none])
      (Or.inl rfl) (Or.inl rfl) nofun (fun _ => nofun)
  | asNeeded =>
    have hrun := e.run_asNeeded_eq s h w
    have hnoted := e.transcribed.run_asNeeded_eq s h (w.noting [])
    rw [hcalls] at hnoted
    -- both engines decide alike whether to go on
    cases hagain : !(e.parseIfNeeded s h w).1.result.failed && s.reparseNeeded with
    | true =>
      rw [if_pos hagain] at hrun hnoted
      rw [hrun, hnoted]
      rw [Bool.and_eq_true, Bool.not_eq_true'] at hagain
      obtain ⟨hok, hneeded⟩ := hagain
      have hattempted : c.Attempted .asNeeded s h := by
        refine Or.inr ⟨rfl, hneeded, ?_⟩
        rw [← hfirst.toAccounts.unit_eq hfirst.open_, Option.isSome_iff_ne_none]
        intro hnone
        rw [← hfirst.failed, hok] at hnone
        cases hnone
      exact ⟨_, hadded c _ _ hfirst.open_,
        contract_reparseStep hfirst.toAccounts hfirst.open_ hok
          (hfirst.parses.trans (and_iff_right nofun).symm) (Or.inr ⟨rfl, hneeded⟩) hattempted
          hfirst.time hfirst.clock⟩
    | false =>
      rw [if_neg (Bool.eq_false_iff.1 hagain)] at hrun hnoted
      rw [hrun, hnoted]
      refine ⟨c, rfl, hfirst.contract nofun fun _ hneeded => ?_⟩
      rw [hneeded, Bool.and_true, Bool.not_eq_false'] at hagain
      exact hfirst.failed.1 hagain

/-- An engine that parses, but never brings a unit up to date. -/
def lapsing : Engine Nat Nat Unit where
  newIndex w := (0, w.now.2)
  parse _ index w := ((.ok index, index + 1), w.now.2)
  reparse _ _ w := (.error (.parse "lapsed"), w.now.2)
  dependencies _ := .empty

/-- A snapshot of a document that is dirty and whose part has changed. -/
def stale : Snapshot := ⟨true, true, ⟨1⟩, ⟨"a.c"⟩, [], .new ⟨1⟩, "p", []⟩

/-- A workspace where nothing has happened yet. -/
def quiet : Workspace Nat Nat Unit := .new (.fresh []) false ()

/-- The parse starts later than all that the snapshot knows of, the reparse
later than the parse; and although the parse succeeded no unit is left. -/
theorem update_keeps_contract_lapsing :
    (∃ c : UpdateCalls Nat Nat,
      lapsing.transcribed.run .asNeeded stale ⟨.null, .of 7⟩ (quiet.noting [])
        = ((lapsing.run .asNeeded stale ⟨.null, .of 7⟩ quiet).1,
            (lapsing.run .asNeeded stale ⟨.null, .of 7⟩ quiet).2.noting
              (c.exchanges stale.request))
      ∧ UpdateContract lapsing .asNeeded stale ⟨.null, .of 7⟩ quiet c
          (lapsing.run .asNeeded stale ⟨.null, .of 7⟩ quiet).1)
    ∧ stale.Past quiet.clock.last
    ∧ lapsing.Within (fun w w' => w.clock.last ≤ w'.clock.last)
    ∧ (lapsing.run .asNeeded stale ⟨.null, .of 7⟩ quiet).1.result
        = ⟨true, some ⟨2⟩, some ⟨5⟩, false, PathSet.empty.insert ⟨"a.c"⟩, some ⟨1⟩⟩ := by
  have htick : ∀ w : Workspace Nat Nat Unit, w.clock.last ≤ w.now.2.clock.last :=
    fun w => TimePoint.le_of_lt w.clock.last_lt_now
  refine ⟨update_keeps_contract lapsing .asNeeded stale ⟨.null, .of 7⟩ quiet, ?_, ?_, ?_⟩
  · exact ⟨by decide, by decide⟩
  · exact ⟨fun w => Nat.le_refl _, Nat.le_trans, htick, htick, fun _ _ w => htick w,
      fun _ _ w => htick w⟩
  · rfl

end Engine

end ParseCache
