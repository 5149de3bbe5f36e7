/-
  ParseCache.Proofs.Update.ConfigurationRace — an update against a change of its
  configuration.

  An update works on a snapshot, and the time its parse begins stands for that
  snapshot from then on.  A change of a project part is stamped in the registry
  and reaches the documents later.  Each is done in several steps, and between
  the steps of one there may be steps of the other: a `Contest` is a document
  that is updated while the parts are being changed, under any interleaving.

  Main results:
    * `update_alone`, `upsert_alone` — without the other party the steps make up
      the update and the upsert;
    * `contested_step`, `contested_run` — what every interleaving preserves;
    * `unnoticed_iff` — a unit with arguments of the past goes unnoticed exactly
      if its snapshot was taken before the document got its part, and the time
      of its parse after the part was registered;
    * `unnoticed_parse` — the hole: such an interleaving.
-/
import ParseCache.Proofs.Collection.Turnover
import ParseCache.Proofs.Update.Steps

namespace ParseCache

variable {ι υ σ : Type}

open Workspace

/-! ## §1. An update in steps. -/

/-- How far an update has come. -/
inductive UpdateStage (ι υ : Type)
  | waiting
  /-- The snapshot has been taken, and the unit has been dropped if its part
  changed. -/
  | taken (s : Snapshot) (h : Handles ι υ)
  /-- There is no unit; the time of the parse has been taken. -/
  | timed (s : Snapshot) (h : Handles ι υ) (time : TimePoint)
  /-- The engine has returned. -/
  | parsed (s : Snapshot) (p : Progress ι υ)
  /-- The result has been applied. -/
  | finished (s : Snapshot) (p : Progress ι υ)

/-- The resources an update starts with. -/
def Snapshot.kept (s : Snapshot) (h : Handles ι υ) : Handles ι υ :=
  if s.parseNeeded then { h with unit := h.unit.dispose.1 } else h

/-- The rest of a parse whose time has been taken. -/
def Engine.parseSince (e : Engine ι υ σ) (s : Snapshot) (h : Handles ι υ) (time : TimePoint)
    (w : Workspace ι υ σ) : Progress ι υ × Workspace ι υ σ :=
  let (index, w) := e.indexOf h.index w
  let ((outcome, index), w) := e.parse s.request index w
  match outcome with
  | .ok unit =>
    ({ result := { UpdateResult.nothing with
        parsedAt := some time, dependencies := e.dependenciesOf s unit }
       handles := ⟨.of index, .of unit⟩ }, w)
  | .error _ =>
    ({ result := { UpdateResult.nothing with failed := true }
       handles := { h with index := .of index } }, w)

theorem Engine.parseStep_eq_parseSince (e : Engine ι υ σ) (s : Snapshot) (h : Handles ι υ)
    (w : Workspace ι υ σ) : e.parseStep s h w = e.parseSince s h w.now.1 w.now.2 := rfl

/-- Calls of the engine leave the cache as it is. -/
structure Engine.Quiet (e : Engine ι υ σ) : Prop where
  newIndex : ∀ w, ∃ context, (e.newIndex w).2 = { w with context := context }
  parse : ∀ request index w, ∃ context, (e.parse request index w).2 = { w with context := context }

/-- The unit is what the engine once made of the snapshot. -/
def Engine.Makes (e : Engine ι υ σ) (s : Snapshot) (unit : υ) : Prop :=
  ∃ index w, (e.parse s.request index w).1.1 = .ok unit

theorem Engine.parseSince_rest {e : Engine ι υ σ} (he : e.Quiet) (s : Snapshot)
    (h : Handles ι υ) (time : TimePoint) (w : Workspace ι υ σ) :
    ∃ context, (e.parseSince s h time w).2 = { w with context := context } := by
  have hindex : ∃ context, (e.indexOf h.index w).2 = { w with context := context } := by
    unfold indexOf
    split
    · exact ⟨_, rfl⟩
    · exact he.newIndex w
  obtain ⟨context, hindex⟩ := hindex
  obtain ⟨context', hparse⟩ :=
    he.parse s.request (e.indexOf h.index w).1 (e.indexOf h.index w).2
  have hrest : (e.parseSince s h time w).2 =
      (e.parse s.request (e.indexOf h.index w).1 (e.indexOf h.index w).2).2 := by
    unfold parseSince
    simp only
    split <;> rfl
  refine ⟨context', ?_⟩
  rw [hrest, hparse, hindex]

/-- A parse that succeeds leaves what the engine made of the snapshot. -/
theorem Engine.makes_parseSince {e : Engine ι υ σ} {s : Snapshot} {h : Handles ι υ}
    {time since : TimePoint} {w : Workspace ι υ σ}
    (hparsed : (e.parseSince s h time w).1.result.parsedAt = some since) :
    (e.parseSince s h time w).1.result.failed = false ∧ since = time ∧
      ∃ unit, (e.parseSince s h time w).1.handles.unit = .of unit ∧ e.Makes s unit := by
  unfold parseSince at hparsed ⊢
  simp only at hparsed ⊢
  split
  · rename_i unit hunit
    rw [hunit] at hparsed
    cases hparsed
    exact ⟨rfl, rfl, unit, rfl, _, _, hunit⟩
  · rename_i cause hcause
    rw [hcause] at hparsed
    cases hparsed

/-! ## §2. An upsert in steps. -/

/-- What an upsert of parts has to do. -/
inductive Chore
  /-- Register parts, and stamp those whose arguments changed. -/
  | register (parts : List ProjectPart)
  /-- Find the documents under a part. -/
  | handOut (part : ProjectPart)
  /-- Give a document its part. -/
  | give (n : Nat) (part : ProjectPart)
  /-- Find the documents that are held. -/
  | sweep
  /-- See whether a document is outdated. -/
  | check (n : Nat)
  /-- Mark a document dirty. -/
  | mark (n : Nat)

/-- Does a chore, and says what is to be done for it next. -/
def Chore.perform (w : Workspace ι υ σ) : Chore → List Chore × Workspace ι υ σ
  | register parts =>
    let (changed, w) := w.registerParts parts
    ((changed.filterMap fun id => (w.parts.parts.get? id).map handOut) ++ [sweep], w)
  | handOut part => ((w.heldWhere fun d => d.key.part == part.id).map (give · part), w)
  | give n part => ([], w.modify n (·.setPart part))
  | sweep => (w.held.map check, w)
  | check n => (if w.documents[n]?.any (·.isOutdated) then [mark n] else [], w)
  | mark n => ([], w.markDirty n)

/-! ## §3. Contests. -/

/-- What matters of the steps of a contest. -/
inductive Milestone
  /-- The snapshot was taken. -/
  | taken
  /-- The time of the parse was taken. -/
  | timed
  /-- The parts were registered. -/
  | registered
  /-- The document was given its part. -/
  | given
deriving Repr, DecidableEq

/-- Some `a` came before a `b`. -/
def Earlier (a b : Milestone) (history : List Milestone) : Prop :=
  ∃ before after, history = before ++ b :: after ∧ a ∈ before

theorem mem_noted {a m : Milestone} {history : List Milestone} (hne : a ≠ m) :
    a ∈ history ++ [m] ↔ a ∈ history := by
  rw [List.mem_append, List.mem_singleton]
  exact or_iff_left hne

theorem earlier_append {a b m : Milestone} {history : List Milestone} :
    Earlier a b (history ++ [m]) ↔ Earlier a b history ∨ m = b ∧ a ∈ history := by
  constructor
  · rintro ⟨before, after, heq, ha⟩
    rcases List.eq_nil_or_concat after with rfl | ⟨front, last, rfl⟩
    · obtain ⟨rfl, hm⟩ := List.append_inj' heq rfl
      exact Or.inr ⟨(List.cons.inj hm).1, ha⟩
    · rw [List.concat_eq_append, ← List.cons_append, ← List.append_assoc] at heq
      obtain ⟨rfl, -⟩ := List.append_inj' heq rfl
      exact Or.inl ⟨before, front, rfl, ha⟩
  · rintro (⟨before, after, rfl, ha⟩ | ⟨rfl, ha⟩)
    · exact ⟨before, after ++ [m], by rw [List.append_assoc]; rfl, ha⟩
    · exact ⟨history, [], rfl, ha⟩

theorem earlier_noted {a b m : Milestone} {history : List Milestone} (hne : m ≠ b) :
    Earlier a b (history ++ [m]) ↔ Earlier a b history := by
  rw [earlier_append]
  exact or_iff_left fun hlast => hne hlast.1

theorem mem_of_earlier {a b : Milestone} {history : List Milestone} (h : Earlier a b history) :
    a ∈ history := by
  obtain ⟨before, after, rfl, ha⟩ := h
  exact List.mem_append_left _ ha

theorem target_of_earlier {a b : Milestone} {history : List Milestone}
    (h : Earlier a b history) : b ∈ history := by
  obtain ⟨before, after, rfl, -⟩ := h
  exact List.mem_append_right _ List.mem_cons_self

/-- A document that is updated while parts are changed, and what happened to it
so far. -/
structure Contest (ι υ σ : Type) where
  workspace : Workspace ι υ σ
  update : UpdateStage ι υ
  chores : List Chore
  history : List Milestone

/-- Who makes the next step. -/
inductive Party
  | update
  | upsert
  /-- Someone else takes the time. -/
  | bystander
deriving Repr, DecidableEq

namespace Contest

/-- An update and an upsert are about to begin. -/
def start (w : Workspace ι υ σ) (parts : List ProjectPart) : Contest ι υ σ :=
  { workspace := w, update := .waiting, chores := [.register parts], history := [] }

/-- The next step of the update of document `n`. -/
def stepUpdate (e : Engine ι υ σ) (n : Nat) (c : Contest ι υ σ) : Contest ι υ σ :=
  match c.update with
  | .waiting =>
    match c.workspace.documents[n]? with
    | none => c
    | some d =>
      let s := d.snapshot c.workspace.buffers
      { c with update := .taken s (s.kept d.handles), history := c.history ++ [.taken] }
  | .taken s h =>
    if h.unit.isNull then
      let (time, w) := c.workspace.now
      { c with workspace := w, update := .timed s h time, history := c.history ++ [.timed] }
    else { c with update := .parsed s ⟨.nothing, h⟩ }
  | .timed s h time =>
    let (p, w) := e.parseSince s h time c.workspace
    { c with workspace := w, update := .parsed s p }
  | .parsed s p =>
    let w := c.workspace.modify n fun d => { d with handles := p.handles }
    { c with workspace := w.incorporate n p.result, update := .finished s p }
  | .finished _ _ => c

/-- What a chore means to document `n`. -/
def milestones (n : Nat) : Chore → List Milestone
  | .register _ => [.registered]
  | .give m _ => if m = n then [.given] else []
  | _ => []

/-- The next step of the upsert. -/
def stepUpsert (n : Nat) (c : Contest ι υ σ) : Contest ι υ σ :=
  match c.chores with
  | [] => c
  | chore :: rest =>
    let (next, w) := chore.perform c.workspace
    { c with workspace := w, chores := next ++ rest, history := c.history ++ milestones n chore }

/-- One step. -/
def step (e : Engine ι υ σ) (n : Nat) (c : Contest ι υ σ) : Party → Contest ι υ σ
  | .update => c.stepUpdate e n
  | .upsert => c.stepUpsert n
  | .bystander => { c with workspace := c.workspace.now.2 }

/-- A whole interleaving. -/
def run (e : Engine ι υ σ) (n : Nat) (c : Contest ι υ σ) (schedule : List Party) : Contest ι υ σ :=
  schedule.foldl (step e n) c

end Contest

/-! ## §4. One party alone. -/

namespace Contest

/-- What an update comes to is applied to its document. -/
def settled (n : Nat) (outcome : Progress ι υ × Workspace ι υ σ) : Workspace ι υ σ :=
  (outcome.2.modify n fun d => { d with handles := outcome.1.handles }).incorporate n
    outcome.1.result

/-- From the snapshot on, a parse is run if there is no unit. -/
theorem settled_of_taken (e : Engine ι υ σ) (n : Nat) (w : Workspace ι υ σ) (s : Snapshot)
    (h : Handles ι υ) (chores : List Chore) (history : List Milestone) :
    ((⟨w, .taken s h, chores, history⟩ : Contest ι υ σ).run e n
      [.update, .update, .update]).workspace =
      settled n (if h.unit.isNull then e.parseStep s h w else (⟨.nothing, h⟩, w)) := by
  show ((((⟨w, .taken s h, chores, history⟩ : Contest ι υ σ).stepUpdate e n).stepUpdate e
    n).stepUpdate e n).workspace = _
  cases hnull : h.unit.isNull with
  | true =>
    have htimed : (⟨w, .taken s h, chores, history⟩ : Contest ι υ σ).stepUpdate e n =
        ⟨w.now.2, .timed s h w.now.1, chores, history ++ [.timed]⟩ := by
      unfold stepUpdate
      simp only [hnull]
      rfl
    rw [htimed, if_pos rfl, Engine.parseStep_eq_parseSince]
    rfl
  | false =>
    have hparsed : (⟨w, .taken s h, chores, history⟩ : Contest ι υ σ).stepUpdate e n =
        ⟨w, .parsed s ⟨.nothing, h⟩, chores, history⟩ := by
      unfold stepUpdate
      simp only [hnull]
      rfl
    rw [hparsed, if_neg Bool.false_ne_true]
    rfl

/-- Without the other party the steps of the update are the update. -/
theorem update_alone (e : Engine ι υ σ) (n : Nat) {w : Workspace ι υ σ} {d : Document ι υ}
    (hd : w.documents[n]? = some d) (parts : List ProjectPart) :
    ((start w parts).run e n [.update, .update, .update, .update]).workspace =
      w.update e .parseIfNeeded n := by
  have htaken : (start w parts).stepUpdate e n =
      ⟨w, .taken (d.snapshot w.buffers) ((d.snapshot w.buffers).kept d.handles),
        [.register parts], [.taken]⟩ := by
    unfold stepUpdate start
    simp only [hd]
    rfl
  have hrun : (start w parts).run e n [.update, .update, .update, .update] =
      ((start w parts).stepUpdate e n).run e n [.update, .update, .update] := rfl
  have hupdate : w.update e .parseIfNeeded n =
      settled n (e.parseIfNeeded (d.snapshot w.buffers) d.handles w) := by
    unfold Workspace.update
    rw [hd]
    rfl
  rw [hrun, htaken, settled_of_taken, hupdate]
  rfl

/-- Done alone, the chores with all they lead to make `w` into `w'`. -/
def Does (e : Engine ι υ σ) (n : Nat) (chores : List Chore) (w w' : Workspace ι υ σ) : Prop :=
  ∀ stage rest history, ∃ k history',
    (⟨w, stage, chores ++ rest, history⟩ : Contest ι υ σ).run e n (List.replicate k .upsert) =
      ⟨w', stage, rest, history'⟩

section Alone

variable {e : Engine ι υ σ} {n : Nat} {w w' w'' : Workspace ι υ σ}

theorem does_nil : Does e n [] w w := fun _ _ history => ⟨0, history, rfl⟩

theorem Does.append {chores chores' : List Chore} (h : Does e n chores w w')
    (h' : Does e n chores' w' w'') : Does e n (chores ++ chores') w w'' := by
  intro stage rest history
  obtain ⟨k, history', hfirst⟩ := h stage (chores' ++ rest) history
  obtain ⟨k', history'', hsecond⟩ := h' stage rest history'
  refine ⟨k + k', history'', ?_⟩
  have hfirst : (List.replicate k Party.upsert).foldl (step e n) _ = _ := hfirst
  rw [List.append_assoc, ← List.replicate_append_replicate, run, List.foldl_append, hfirst]
  exact hsecond

/-- A chore and what it leads to. -/
theorem does_chore {chore : Chore} (h : Does e n (chore.perform w).1 (chore.perform w).2 w') :
    Does e n [chore] w w' := by
  intro stage rest history
  obtain ⟨k, history', hnext⟩ := h stage rest (history ++ milestones n chore)
  exact ⟨k + 1, history', hnext⟩

theorem does_gives (part : ProjectPart) (ns : List Nat) : ∀ w : Workspace ι υ σ,
    Does e n (ns.map (.give · part)) w (ns.foldl (fun w m => w.modify m (·.setPart part)) w) := by
  induction ns with
  | nil => exact fun _ => does_nil
  | cons m rest ih =>
    intro w
    exact (does_chore does_nil).append (ih _)

/-- Parts are handed out as they were registered. -/
theorem does_handOuts {r : ProjectParts} (hnamed : r.Named) (ids : List String) :
    ∀ w : Workspace ι υ σ, w.parts = r →
      Does e n (ids.filterMap fun id => (r.parts.get? id).map .handOut) w
        (ids.foldl installPart w) := by
  induction ids with
  | nil => exact fun _ _ => does_nil
  | cons id rest ih =>
    intro w hparts
    have hrest := ih (w.installPart id) (by rw [installPart_rest, ← hparts])
    cases hget : r.parts.get? id with
    | none =>
      have hinstall : w.installPart id = w := by
        unfold installPart ProjectParts.find
        rw [hparts, hget]
      rw [hinstall] at hrest
      rw [List.filterMap_cons, hget, List.foldl_cons, hinstall]
      exact hrest
    | some part =>
      have hinstall : w.installPart id =
          (w.heldWhere fun d => d.key.part == part.id).foldl
            (fun w m => w.modify m (·.setPart part)) w := by
        unfold installPart ProjectParts.find
        rw [hparts, hget, hnamed id part hget]
      have hone : Does e n [.handOut part] w (w.installPart id) := by
        rw [hinstall]
        exact does_chore (does_gives part _ w)
      rw [List.filterMap_cons, hget, List.foldl_cons]
      exact hone.append hrest

theorem does_checks (ns : List Nat) : ∀ w : Workspace ι υ σ,
    Does e n (ns.map .check) w (markDirtyAll (fun _ d => d.isOutdated) ns w).2 := by
  induction ns with
  | nil => exact fun _ => does_nil
  | cons m rest ih =>
    intro w
    have hone : Does e n [.check m] w (w.markDirtyIf (·.isOutdated) m).2 := by
      refine does_chore ?_
      show Does e n (if w.documents[m]?.any (·.isOutdated) then [.mark m] else []) w _
      unfold markDirtyIf
      split
      · exact does_chore does_nil
      · exact does_nil
    exact hone.append (ih _)

/-- Without the other party the steps of the upsert are the upsert. -/
theorem upsert_alone (hnamed : w.parts.Named) (parts : List ProjectPart) :
    Does e n [.register parts] w (w.upsertParts parts).2 := by
  have hregistered := (ProjectParts.named_upsert parts w.parts w.clock).1 hnamed
  refine does_chore (Does.append ?_ (does_chore (does_checks _ _)))
  exact does_handOuts hregistered (w.registerParts parts).1 (w.registerParts parts).2 rfl

end Alone

end Contest

/-! ## §5. What every interleaving preserves. -/

namespace UpdateStage

/-- The snapshot an update works on. -/
def snapshot? : UpdateStage ι υ → Option Snapshot
  | waiting => none
  | taken s _ | timed s _ _ | parsed s _ | finished s _ => some s

/-- The time that stands for its parse, if it comes to one. -/
def time? : UpdateStage ι υ → Option TimePoint
  | waiting | taken _ _ => none
  | timed _ _ time => some time
  | parsed _ p | finished _ p => p.result.parsedAt

/-- What is still ahead has not happened yet. -/
def Ahead (history : List Milestone) : UpdateStage ι υ → Prop
  | waiting => .taken ∉ history ∧ .timed ∉ history
  | taken _ _ => .timed ∉ history
  | _ => True

/-- A parse that succeeded has made a unit of the snapshot, and in the end the
document has the unit and the time of the parse. -/
def Reflects (e : Engine ι υ σ) (d : Document ι υ) : UpdateStage ι υ → Prop
  | parsed s p => ∀ since, p.result.parsedAt = some since →
      p.result.failed = false ∧ ∃ unit, p.handles.unit = .of unit ∧ e.Makes s unit
  | finished s p => ∀ since, p.result.parsedAt = some since →
      d.baseline = since ∧ ∃ unit, d.handles.unit = .of unit ∧ e.Makes s unit
  | _ => True

theorem Ahead.noted {stage : UpdateStage ι υ} {history : List Milestone} {m : Milestone}
    (h : stage.Ahead history) (htaken : .taken ≠ m) (htimed : .timed ≠ m) :
    stage.Ahead (history ++ [m]) := by
  cases stage with
  | waiting => exact ⟨mt (mem_noted htaken).1 h.1, mt (mem_noted htimed).1 h.2⟩
  | taken s handles => exact mt (mem_noted htimed).1 h
  | _ => trivial

/-- Only the baseline and the resources of the document matter. -/
theorem Reflects.congr {e : Engine ι υ σ} {stage : UpdateStage ι υ} {d d' : Document ι υ}
    (h : stage.Reflects e d) (hbaseline : d'.baseline = d.baseline)
    (hhandles : d'.handles = d.handles) : stage.Reflects e d' := by
  cases stage with
  | parsed s p => exact h
  | finished s p =>
    intro since hsince
    rw [hbaseline, hhandles]
    exact h since hsince
  | _ => trivial

end UpdateStage

/-- The part is the new one, if there is one and it has come, and the old one
otherwise. -/
def IsVersion (come : Prop) (news : Option ProjectPart) (old part : ProjectPart) : Prop :=
  (come → part = news.getD old) ∧ (¬ come → part = old)

theorem IsVersion.congr {come come' : Prop} {news : Option ProjectPart} {old part : ProjectPart}
    (h : IsVersion come news old part) (hcome : come' ↔ come) : IsVersion come' news old part :=
  ⟨fun hc => h.1 (hcome.1 hc), fun hc => h.2 fun hc' => hc (hcome.2 hc')⟩

/-- The chore brings document `n`, under the part with the id, nothing but the
news. -/
def Chore.Brings (n : Nat) (id : String) (news : Option ProjectPart) : Chore → Prop
  | register _ => False
  | handOut part => part.id = id → news = some part
  | give m part => m = n → news = some part
  | _ => True

/-- The upsert has not begun. -/
structure Contest.Pending (c : Contest ι υ σ) (id : String) (news : Option ProjectPart) : Prop where
  chores : ∃ parts, c.chores = [.register parts]
  known : ∃ part, c.workspace.parts.parts.get? id = some part
  unregistered : .registered ∉ c.history
  ungiven : .given ∉ c.history
  news : news = none

theorem Contest.Pending.elsewhere {c : Contest ι υ σ} {id : String} {news : Option ProjectPart}
    (h : c.Pending id news) {w : Workspace ι υ σ} (hparts : w.parts = c.workspace.parts)
    (stage : UpdateStage ι υ) {history : List Milestone}
    (hregistered : .registered ∈ history ↔ .registered ∈ c.history)
    (hgiven : .given ∈ history ↔ .given ∈ c.history) :
    Contest.Pending ⟨w, stage, c.chores, history⟩ id news where
  chores := h.chores
  known := by
    show ∃ part, w.parts.parts.get? id = some part
    rw [hparts]
    exact h.known
  unregistered := mt hregistered.1 h.unregistered
  ungiven := mt hgiven.1 h.ungiven
  news := h.news

/-- What a contest can come to.  The document was `d₀` and is `d`; the news are
the part that was registered and stamped for it, if any. -/
structure Contested (e : Engine ι υ σ) (n : Nat) (d₀ : Document ι υ) (c : Contest ι υ σ)
    (news : Option ProjectPart) (d : Document ι υ) : Prop where
  here : c.workspace.documents[n]? = some d
  key : d.key = d₀.key
  arguments : d.arguments = d₀.arguments
  named : c.workspace.parts.Named
  chores : c.Pending d₀.key.part news ∨ ∀ chore ∈ c.chores, chore.Brings n d₀.key.part news
  part : IsVersion (.given ∈ c.history) news d₀.part d.part
  /-- The snapshot has the arguments of the part the document had then. -/
  seen : ∀ s, c.update.snapshot? = some s → ∃ part,
    IsVersion (Earlier .given .taken c.history) news d₀.part part ∧
      s.arguments = part.arguments ++ d₀.arguments
  /-- The time of the parse is later than the stamp exactly if it was taken
  later. -/
  stamped : ∀ part, news = some part → part.id = d₀.key.part ∧ .registered ∈ c.history ∧
    part.changed ≤ c.workspace.clock.last ∧
    ∀ time, c.update.time? = some time →
      (Earlier .registered .timed c.history ↔ part.changed < time)
  issued : ∀ time, c.update.time? = some time → time ≤ c.workspace.clock.last
  ahead : c.update.Ahead c.history
  reflects : c.update.Reflects e d

namespace Contested

variable {e : Engine ι υ σ} {n : Nat} {d₀ d d' : Document ι υ} {c : Contest ι υ σ}
  {news : Option ProjectPart}

/-- Time goes on, other documents change, and this one gets dirty. -/
theorem elsewhere (h : Contested e n d₀ c news d) {w : Workspace ι υ σ}
    (hhere : w.documents[n]? = some d') (hdrift : d.Drift c.workspace.clock.last w.clock.last d')
    (hpart : d'.part = d.part) (hclock : c.workspace.clock.last ≤ w.clock.last)
    (hparts : w.parts = c.workspace.parts) :
    Contested e n d₀ { c with workspace := w } news d' where
  here := hhere
  key := hdrift.key.trans h.key
  arguments := hdrift.arguments.trans h.arguments
  named := by
    show w.parts.Named
    rw [hparts]
    exact h.named
  chores := h.chores.imp_left fun hpending => hpending.elsewhere hparts c.update .rfl .rfl
  part := by
    rw [hpart]
    exact h.part
  seen := h.seen
  stamped part hnews := by
    obtain ⟨hid, hregistered, hle, htime⟩ := h.stamped part hnews
    exact ⟨hid, hregistered, TimePoint.le_trans hle hclock, htime⟩
  issued time htime := TimePoint.le_trans (h.issued time htime) hclock
  ahead := h.ahead
  reflects := h.reflects.congr hdrift.baseline hdrift.handles

/-- The snapshot is taken: it has the arguments of the part as it is. -/
theorem taken (h : Contested e n d₀ c news d) (hstage : c.update = .waiting)
    (handles : Handles ι υ) :
    Contested e n d₀
      ⟨c.workspace, .taken (d.snapshot c.workspace.buffers) handles, c.chores,
        c.history ++ [.taken]⟩ news d := by
  have hahead := h.ahead
  rw [hstage] at hahead
  obtain ⟨huntaken, huntimed⟩ := hahead
  have hchores := h.chores.imp_left fun hpending => hpending.elsewhere rfl
    (.taken (d.snapshot c.workspace.buffers) handles) (mem_noted (m := .taken) (by decide))
    (mem_noted (by decide))
  refine ⟨h.here, h.key, h.arguments, h.named, hchores, h.part.congr (mem_noted (by decide)),
    ?_, ?_, nofun, ?_, trivial⟩
  · intro s hs
    obtain rfl : d.snapshot c.workspace.buffers = s := Option.some.inj hs
    have hearlier : Earlier .given .taken (c.history ++ [.taken]) ↔ .given ∈ c.history := by
      rw [earlier_append]
      exact ⟨fun hor => hor.elim (fun hbefore => absurd (target_of_earlier hbefore) huntaken)
        fun hnow => hnow.2, fun hgiven => Or.inr ⟨rfl, hgiven⟩⟩
    refine ⟨d.part, h.part.congr hearlier, ?_⟩
    show d.part.arguments ++ d.arguments = d.part.arguments ++ d₀.arguments
    rw [h.arguments]
  · intro part hnews
    obtain ⟨hid, hregistered, hle, -⟩ := h.stamped part hnews
    exact ⟨hid, (mem_noted (by decide)).2 hregistered, hle, nofun⟩
  · exact mt (mem_noted (by decide)).1 huntimed

/-- The time of the parse is taken: it is later than any stamp so far. -/
theorem timed (h : Contested e n d₀ c news d) {s : Snapshot} {handles : Handles ι υ}
    (hstage : c.update = .taken s handles) :
    Contested e n d₀
      ⟨c.workspace.now.2, .timed s handles c.workspace.now.1, c.chores, c.history ++ [.timed]⟩
      news d := by
  have hnow : c.workspace.clock.last < c.workspace.now.1 := c.workspace.clock.last_lt_now
  have huntimed := h.ahead
  have hseen := h.seen s
  rw [hstage] at huntimed hseen
  have hchores := h.chores.imp_left fun hpending => hpending.elsewhere
    (w := c.workspace.now.2) rfl (.timed s handles c.workspace.now.1)
    (mem_noted (m := .timed) (by decide)) (mem_noted (by decide))
  refine ⟨h.here, h.key, h.arguments, h.named, hchores, h.part.congr (mem_noted (by decide)),
    ?_, ?_, ?_, trivial, trivial⟩
  · intro s' hs
    obtain rfl : s = s' := Option.some.inj hs
    obtain ⟨part, hversion, harguments⟩ := hseen rfl
    exact ⟨part, hversion.congr (earlier_noted (by decide)), harguments⟩
  · intro part hnews
    obtain ⟨hid, hregistered, hle, -⟩ := h.stamped part hnews
    have hlt : part.changed < c.workspace.now.1 := TimePoint.lt_of_le_of_lt hle hnow
    refine ⟨hid, (mem_noted (by decide)).2 hregistered, TimePoint.le_of_lt hlt, ?_⟩
    intro time htime
    obtain rfl : c.workspace.now.1 = time := Option.some.inj htime
    rw [earlier_append]
    exact ⟨fun _ => hlt, fun _ => Or.inr ⟨rfl, hregistered⟩⟩
  · intro time htime
    obtain rfl : c.workspace.now.1 = time := Option.some.inj htime
    exact TimePoint.le_refl _

/-- The update goes on without a milestone. -/
theorem onward (h : Contested e n d₀ c news d) {stage : UpdateStage ι υ}
    (hsnapshot : stage.snapshot? = c.update.snapshot?)
    (htime : ∀ time, stage.time? = some time → c.update.time? = some time)
    (hahead : stage.Ahead c.history) (hreflects : stage.Reflects e d) :
    Contested e n d₀ { c with update := stage } news d where
  here := h.here
  key := h.key
  arguments := h.arguments
  named := h.named
  chores := h.chores.imp_left fun hpending => hpending.elsewhere rfl stage .rfl .rfl
  part := h.part
  seen s hs := h.seen s (hsnapshot ▸ hs)
  stamped part hnews := by
    obtain ⟨hid, hregistered, hle, hstamp⟩ := h.stamped part hnews
    exact ⟨hid, hregistered, hle, fun time ht => hstamp time (htime time ht)⟩
  issued time ht := h.issued time (htime time ht)
  ahead := hahead
  reflects := hreflects

/-- The engine has returned. -/
theorem parsed (he : e.Quiet) (h : Contested e n d₀ c news d) {s : Snapshot}
    {handles : Handles ι υ} {time : TimePoint} (hstage : c.update = .timed s handles time) :
    Contested e n d₀
      ⟨(e.parseSince s handles time c.workspace).2,
        .parsed s (e.parseSince s handles time c.workspace).1, c.chores, c.history⟩ news d := by
  obtain ⟨context, hrest⟩ := Engine.parseSince_rest he s handles time c.workspace
  have hquiet : Contested e n d₀
      { c with workspace := (e.parseSince s handles time c.workspace).2 } news d := by
    rw [hrest]
    exact h.elsewhere h.here (.refl _ _ d) rfl (TimePoint.le_refl _) rfl
  refine hquiet.onward ?_ (fun since hsince => ?_) trivial fun since hsince => ?_
  · show some s = c.update.snapshot?
    rw [hstage]
    rfl
  · obtain ⟨-, rfl, -⟩ := Engine.makes_parseSince hsince
    show c.update.time? = some since
    rw [hstage]
    rfl
  · obtain ⟨hfailed, -, hunit⟩ := Engine.makes_parseSince hsince
    exact ⟨hfailed, hunit⟩

theorem getElem?_settled {w : Workspace ι υ σ} (hd : w.documents[n]? = some d)
    (p : Progress ι υ) : (Contest.settled n (p, w)).documents[n]? = some (p.settle d) := by
  unfold Contest.settled
  rw [incorporate_eq]
  exact getElem?_modify_self (w := w.modify n fun d => { d with handles := p.handles })
    (getElem?_modify_self hd _) (·.incorporate p.result)

theorem settled_rest (n : Nat) (p : Progress ι υ) (w : Workspace ι υ σ) :
    (Contest.settled n (p, w)).clock = w.clock ∧ (Contest.settled n (p, w)).parts = w.parts := by
  unfold Contest.settled
  rw [incorporate_eq]
  exact ⟨rfl, rfl⟩

/-- The result is applied. -/
theorem finished (h : Contested e n d₀ c news d) {s : Snapshot} {p : Progress ι υ}
    (hstage : c.update = .parsed s p) :
    Contested e n d₀
      ⟨Contest.settled n (p, c.workspace), .finished s p, c.chores, c.history⟩ news
      (p.settle d) := by
  obtain ⟨hkey, harguments, hpart, -, hhandles⟩ := settle_rest p d
  obtain ⟨hclock, hparts⟩ := settled_rest n p c.workspace
  have hseen := h.seen
  have hstamped := h.stamped
  have hissued := h.issued
  have hreflects := h.reflects
  rw [hstage] at hseen hstamped hissued hreflects
  refine ⟨getElem?_settled h.here p, hkey.trans h.key, harguments.trans h.arguments, ?_, ?_, ?_,
    hseen, ?_, ?_, trivial, fun since hsince => ?_⟩
  · rw [hparts]
    exact h.named
  · exact h.chores.imp_left fun hpending => hpending.elsewhere hparts _ .rfl .rfl
  · rw [hpart]
    exact h.part
  · rw [hclock]
    exact hstamped
  · rw [hclock]
    exact hissued
  · obtain ⟨hfailed, hunit⟩ := hreflects since hsince
    rw [hhandles, settle_baseline, hfailed, hsince]
    exact ⟨rfl, hunit⟩

/-- A step of the update. -/
theorem stepUpdate (he : e.Quiet) (h : Contested e n d₀ c news d) :
    ∃ d', Contested e n d₀ (c.stepUpdate e n) news d' := by
  unfold Contest.stepUpdate
  cases hstage : c.update with
  | waiting =>
    simp only [h.here]
    exact ⟨d, h.taken hstage _⟩
  | taken s handles =>
    simp only
    split
    · exact ⟨d, h.timed hstage⟩
    · refine ⟨d, h.onward ?_ nofun trivial nofun⟩
      rw [hstage]
      rfl
  | timed s handles time => exact ⟨d, h.parsed he hstage⟩
  | parsed s p => exact ⟨p.settle d, h.finished hstage⟩
  | finished s p => exact ⟨d, h⟩

/-- What has not come leaves the old part. -/
theorem isVersion_of_not {come : Prop} {old part : ProjectPart} (hcome : ¬ come)
    (hpart : part = old) (news : Option ProjectPart) : IsVersion come news old part :=
  ⟨fun hc => absurd hc hcome, fun _ => hpart⟩

/-- The news of a registration: the part of the document, if it was stamped. -/
theorem news_registerParts {w : Workspace ι υ σ} {id : String} {known : ProjectPart}
    (hknown : w.parts.parts.get? id = some known) (parts : List ProjectPart) :
    ∃ news : Option ProjectPart,
      (∀ part, news = some part → (w.registerParts parts).2.parts.parts.get? id = some part ∧
        w.clock.last < part.changed ∧ part.changed ≤ (w.registerParts parts).2.clock.last) ∧
      (id ∈ (w.registerParts parts).1 → ∀ part,
        (w.registerParts parts).2.parts.parts.get? id = some part → news = some part) := by
  obtain ⟨part, hpart, hstamp⟩ := ProjectParts.known_upsert parts w.clock hknown
  have hpart : (w.registerParts parts).2.parts.parts.get? id = some part := hpart
  rcases hstamp with ⟨hid, -⟩ | hstamp
  · exact ⟨none, nofun, fun hchanged => absurd hchanged hid⟩
  · refine ⟨some part, fun part' hnews => ?_, fun _ part' hpart' => ?_⟩
    · cases hnews
      exact ⟨hpart, hstamp⟩
    · rw [← hpart, hpart']

/-- The parts are registered: a stamp for the document is later than everything
so far. -/
theorem registered (h : Contested e n d₀ c news d) (hpending : c.Pending d₀.key.part news)
    (parts : List ProjectPart) :
    ∃ news', Contested e n d₀
      ⟨(c.workspace.registerParts parts).2, c.update,
        ((Chore.register parts).perform c.workspace).1, c.history ++ [.registered]⟩ news' d := by
  obtain ⟨known, hknown⟩ := hpending.known
  obtain ⟨news', hstamp, hchanged⟩ := news_registerParts hknown parts
  have hnamed : (c.workspace.registerParts parts).2.parts.Named :=
    (ProjectParts.named_upsert parts _ _).1 h.named
  have hclock : c.workspace.clock.last ≤ (c.workspace.registerParts parts).2.clock.last :=
    ProjectParts.last_upsert parts _ _
  have hungiven : .given ∉ c.history ++ [.registered] :=
    mt (mem_noted (by decide)).1 hpending.ungiven
  have huntimed : ¬ Earlier .registered .timed (c.history ++ [.registered]) := by
    rw [earlier_append]
    rintro (hbefore | ⟨hnow, -⟩)
    · exact hpending.unregistered (mem_of_earlier hbefore)
    · cases hnow
  -- whatever time the update has taken, it took before there was a stamp
  refine ⟨news', h.here, h.key, h.arguments, hnamed, Or.inr fun chore hchore => ?_,
    isVersion_of_not hungiven (h.part.2 hpending.ungiven) news', fun s hs => ?_,
    fun part hnews => ?_, fun time htime => TimePoint.le_trans (h.issued time htime) hclock,
    h.ahead.noted (by decide) (by decide), h.reflects⟩
  · -- parts are handed out under the ids that changed
    rcases List.mem_append.1 hchore with hchore | hchore
    · obtain ⟨id, hid, hmap⟩ := List.mem_filterMap.1 hchore
      obtain ⟨part, hpart, rfl⟩ := Option.map_eq_some_iff.1 hmap
      intro hname
      rw [hnamed id part hpart] at hname
      subst hname
      exact hchanged hid part hpart
    · rw [List.mem_singleton.1 hchore]
      trivial
  · obtain ⟨part, hversion, harguments⟩ := h.seen s hs
    refine ⟨part, isVersion_of_not ?_ ?_ news', harguments⟩
    · exact fun hearlier => hungiven (mem_of_earlier hearlier)
    · exact hversion.2 fun hearlier => hpending.ungiven (mem_of_earlier hearlier)
  · obtain ⟨hpart, hlt, hle⟩ := hstamp part hnews
    refine ⟨hnamed _ part hpart, List.mem_append_right _ (List.mem_singleton_self _), hle,
      fun time htime => iff_of_false huntimed fun hbefore => ?_⟩
    have hissued := h.issued time htime
    exact TimePoint.ne_of_lt (TimePoint.lt_of_lt_of_le (TimePoint.lt_of_le_of_lt
      (TimePoint.le_of_lt hlt) hbefore) hissued) rfl

/-- The next chore is the first of all, or brings nothing but the news. -/
theorem chores_cases (h : Contested e n d₀ c news d) {chore : Chore} {rest : List Chore}
    (hchores : c.chores = chore :: rest) :
    (∃ parts, chore = .register parts ∧ rest = [] ∧ c.Pending d₀.key.part news) ∨
    (chore.Brings n d₀.key.part news ∧ ∀ chore' ∈ rest, chore'.Brings n d₀.key.part news) := by
  rcases h.chores with hpending | hbrings
  · obtain ⟨parts, hregister⟩ := hpending.chores
    rw [hchores] at hregister
    obtain ⟨rfl, rfl⟩ := List.cons.inj hregister
    exact Or.inl ⟨parts, rfl, rfl, hpending⟩
  · rw [hchores] at hbrings
    exact Or.inr (List.forall_mem_cons.1 hbrings)

/-- The chores go on without a milestone. -/
theorem workOn (h : Contested e n d₀ c news d) {chores : List Chore}
    (hchores : ∀ chore ∈ chores, chore.Brings n d₀.key.part news) :
    Contested e n d₀ ⟨c.workspace, c.update, chores, c.history ++ []⟩ news d := by
  rw [List.append_nil]
  exact ⟨h.here, h.key, h.arguments, h.named, Or.inr hchores, h.part, h.seen, h.stamped, h.issued,
    h.ahead, h.reflects⟩

/-- The document is given its part. -/
theorem given (h : Contested e n d₀ c news d) {part : ProjectPart} (hnews : news = some part)
    {rest : List Chore} (hrest : ∀ chore ∈ rest, chore.Brings n d₀.key.part news) :
    Contested e n d₀
      ⟨c.workspace.modify n (·.setPart part), c.update, rest, c.history ++ [.given]⟩ news
      { d with part := part } := by
  obtain ⟨hid, hregistered, hle, htime⟩ := h.stamped part hnews
  have hset : d.setPart part = { d with part := part } := by
    rw [Document.setPart, if_pos (by rw [hid, h.key])]
  refine ⟨?_, h.key, h.arguments, h.named, Or.inr hrest, ?_, fun s hs => ?_, fun part' hnews' => ?_,
    h.issued, h.ahead.noted (by decide) (by decide), h.reflects.congr rfl rfl⟩
  · show (c.workspace.modify n (·.setPart part)).documents[n]? = _
    rw [getElem?_modify_self h.here, hset]
  · refine ⟨fun _ => ?_, fun hnot => absurd ?_ hnot⟩
    · rw [hnews]
      rfl
    · exact List.mem_append_right _ (List.mem_singleton_self _)
  · obtain ⟨old, hversion, harguments⟩ := h.seen s hs
    exact ⟨old, hversion.congr (earlier_noted (by decide)), harguments⟩
  · obtain ⟨hid', hregistered', hle', htime'⟩ := h.stamped part' hnews'
    refine ⟨hid', List.mem_append_left _ hregistered', hle', fun time ht => ?_⟩
    rw [← htime' time ht]
    exact earlier_noted (by decide)

/-- Documents are marked dirty. -/
theorem marked (h : Contested e n d₀ c news d) {ns : List Nat} {w : Workspace ι υ σ}
    (hmarks : Marks ns c.workspace w) :
    ∃ d', Contested e n d₀ { c with workspace := w } news d' := by
  obtain ⟨d', hd', hdrift⟩ := (Drift.of_marks hmarks).old n d h.here
  obtain ⟨d'', hd'', hsame⟩ := hmarks.document h.here
  rw [hd'] at hd''
  cases hd''
  have hpart : d'.part = d.part := by
    rcases hsame with rfl | ⟨time, -, -, rfl⟩
    · rfl
    · rfl
  exact ⟨d', h.elsewhere hd' hdrift hpart hmarks.clock hmarks.parts⟩

/-- What brings nothing but the news leads to nothing else. -/
theorem brings_next {w : Workspace ι υ σ} {id : String} (hd : w.documents[n]? = some d)
    (hid : d.key.part = id) {chore : Chore} (h : chore.Brings n id news) :
    ∀ next ∈ (chore.perform w).1, next.Brings n id news := by
  intro next hnext
  cases chore with
  | register parts => exact absurd h not_false
  | handOut part =>
    obtain ⟨m, hm, rfl⟩ := List.mem_map.1 hnext
    rintro rfl
    -- the documents found are those under the part
    have hany := (mem_heldWhere.1 hm).2
    rw [hd, Option.any_some, beq_iff_eq, hid] at hany
    exact h hany.symm
  | give m part => exact absurd hnext List.not_mem_nil
  | sweep =>
    obtain ⟨m, -, rfl⟩ := List.mem_map.1 hnext
    trivial
  | check m =>
    have hnext : next ∈ (if w.documents[m]?.any (·.isOutdated) then [Chore.mark m] else []) :=
      hnext
    split at hnext
    · rw [List.mem_singleton.1 hnext]
      trivial
    · exact absurd hnext List.not_mem_nil
  | mark m => exact absurd hnext List.not_mem_nil

/-- A step of the upsert. -/
theorem stepUpsert (h : Contested e n d₀ c news d) :
    ∃ news' d', Contested e n d₀ (c.stepUpsert n) news' d' := by
  unfold Contest.stepUpsert
  cases hchores : c.chores with
  | nil => exact ⟨news, d, h⟩
  | cons chore rest =>
    rcases h.chores_cases hchores with ⟨parts, rfl, rfl, hpending⟩ | ⟨hbrings, hrest⟩
    · obtain ⟨news', hregistered⟩ := h.registered hpending parts
      refine ⟨news', d, ?_⟩
      show Contested e n d₀ ⟨_, _, _ ++ [], _⟩ news' d
      rw [List.append_nil]
      exact hregistered
    · have hnext : ∀ next ∈ (chore.perform c.workspace).1 ++ rest,
          next.Brings n d₀.key.part news := by
        intro next hnext
        rcases List.mem_append.1 hnext with hnext | hnext
        · exact brings_next h.here (congrArg DocumentKey.part h.key) hbrings next hnext
        · exact hrest next hnext
      cases chore with
      | register parts => exact absurd hbrings not_false
      | handOut part => exact ⟨news, d, h.workOn hnext⟩
      | give m part =>
        by_cases hm : m = n
        · subst hm
          refine ⟨news, { d with part := part }, ?_⟩
          show Contested e m d₀ ⟨_, _, _, c.history ++ (if m = m then [.given] else [])⟩ news _
          rw [if_pos rfl]
          exact h.given (hbrings rfl) hrest
        · have hother : Contested e n d₀
              { c with workspace := c.workspace.modify m (·.setPart part) } news d :=
            h.elsewhere ((getElem?_modify_of_ne _ hm _).trans h.here) (.refl _ _ d) rfl
              (TimePoint.le_refl _) rfl
          refine ⟨news, d, ?_⟩
          show Contested e n d₀ ⟨_, _, _, c.history ++ (if m = n then [.given] else [])⟩ news d
          rw [if_neg hm]
          exact hother.workOn hrest
      | sweep => exact ⟨news, d, h.workOn hnext⟩
      | check m => exact ⟨news, d, h.workOn hnext⟩
      | mark m =>
        obtain ⟨d', hmarked⟩ := h.marked (marks_markDirty c.workspace m)
        exact ⟨news, d', hmarked.workOn hrest⟩

end Contested

/-- One step of either party, or of neither. -/
theorem contested_step {e : Engine ι υ σ} (he : e.Quiet) {n : Nat} {d₀ d : Document ι υ}
    {c : Contest ι υ σ} {news : Option ProjectPart} (h : Contested e n d₀ c news d)
    (party : Party) : ∃ news' d', Contested e n d₀ (c.step e n party) news' d' := by
  cases party with
  | update => exact ⟨news, h.stepUpdate he⟩
  | upsert => exact h.stepUpsert
  | bystander =>
    exact ⟨news, d, h.elsewhere h.here (.refl _ _ d) rfl
      (TimePoint.le_of_lt c.workspace.clock.last_lt_now) rfl⟩

theorem contested_run {e : Engine ι υ σ} (he : e.Quiet) {n : Nat} {d₀ : Document ι υ}
    (schedule : List Party) :
    ∀ {c : Contest ι υ σ} {news : Option ProjectPart} {d : Document ι υ},
      Contested e n d₀ c news d → ∃ news' d', Contested e n d₀ (c.run e n schedule) news' d' := by
  induction schedule with
  | nil =>
    intro c news d h
    exact ⟨news, d, h⟩
  | cons party rest ih =>
    intro c news d h
    obtain ⟨news', d', hstep⟩ := contested_step he h party
    exact ih hstep

theorem contested_start (e : Engine ι υ σ) {w : Workspace ι υ σ} (hnamed : w.parts.Named)
    {n : Nat} {d : Document ι υ} (hd : w.documents[n]? = some d)
    (hpart : w.parts.has d.key.part = true) (parts : List ProjectPart) :
    Contested e n d (.start w parts) none d where
  here := hd
  key := rfl
  arguments := rfl
  named := hnamed
  chores := by
    have hknown : ∃ part, w.parts.parts.get? d.key.part = some part := by
      rw [ProjectParts.has, Table.has_eq_isSome_get?] at hpart
      exact Option.isSome_iff_exists.1 hpart
    exact Or.inl ⟨⟨parts, rfl⟩, hknown, List.not_mem_nil, List.not_mem_nil, rfl⟩
  part := Contested.isVersion_of_not List.not_mem_nil rfl none
  seen s hs := by cases hs
  stamped part hnews := by cases hnews
  issued time htime := by cases htime
  ahead := ⟨List.not_mem_nil, List.not_mem_nil⟩
  reflects := trivial

/-! ## §6. What goes unnoticed. -/

/-- The unit of the document was made of the snapshot. -/
def Shows (e : Engine ι υ σ) (s : Snapshot) (d : Document ι υ) : Prop :=
  ∃ unit, d.handles.unit = .of unit ∧ e.Makes s unit

/-- The document has a unit that was parsed with other arguments than it has
now, and does not know it. -/
def Unnoticed (s : Snapshot) (d : Document ι υ) : Prop :=
  s.arguments ≠ d.part.arguments ++ d.arguments ∧ d.isOutdated = false

namespace Contested

variable {e : Engine ι υ σ} {n : Nat} {d₀ d : Document ι υ} {c : Contest ι υ σ}
  {news : Option ProjectPart}

/-- A part that is not the old one is the news. -/
theorem part_cases (h : Contested e n d₀ c news d) : d.part = d₀.part ∨ news = some d.part := by
  by_cases hgiven : .given ∈ c.history
  · have hpart := h.part.1 hgiven
    cases news with
    | none => exact Or.inl hpart
    | some part =>
      right
      rw [hpart]
      rfl
  · exact Or.inl (h.part.2 hgiven)

/-- The snapshot has the arguments of the past exactly if they changed, and it
was taken before the document got its part. -/
theorem stale_iff (h : Contested e n d₀ c news d) {s : Snapshot}
    (hs : c.update.snapshot? = some s) :
    s.arguments ≠ d.part.arguments ++ d.arguments ↔
      d.part.arguments ≠ d₀.part.arguments ∧ ¬ Earlier .given .taken c.history := by
  obtain ⟨part, hversion, harguments⟩ := h.seen s hs
  rw [harguments, h.arguments, ne_eq, List.append_cancel_right_eq]
  by_cases hearlier : Earlier .given .taken c.history
  · have hsame : part = d.part := by
      rw [hversion.1 hearlier, h.part.1 (mem_of_earlier hearlier)]
    rw [hsame]
    exact iff_of_false (fun hne => hne rfl) fun hboth => hboth.2 hearlier
  · rw [hversion.2 hearlier]
    constructor
    · intro hne
      exact ⟨Ne.symm hne, hearlier⟩
    · rintro ⟨hne, -⟩
      exact Ne.symm hne

/-- With another part than before, the document does not know that it is
outdated exactly if the time of its parse was taken after the registration. -/
theorem current_iff (h : Contested e n d₀ c news d) (hpart : d.part ≠ d₀.part)
    {time : TimePoint} (htime : c.update.time? = some time) (hbaseline : d.baseline = time) :
    d.isOutdated = false ↔ Earlier .registered .timed c.history := by
  obtain ⟨-, -, -, hstamp⟩ := h.stamped d.part (h.part_cases.resolve_left hpart)
  rw [hstamp time htime, Document.isOutdated, decide_eq_false_iff_not, hbaseline]
  exact Nat.not_le

end Contested

/-- When the update has finished and its parse has succeeded, the unit is what
the engine made of the snapshot.  From then on, whether the upsert has finished
or not, it goes unnoticed that its arguments are of the past exactly if the
arguments of the part did change, the snapshot was taken before the document
got them, and the time of the parse after they had been registered. -/
theorem unnoticed_iff {e : Engine ι υ σ} (he : e.Quiet) {w : Workspace ι υ σ}
    (hnamed : w.parts.Named) {n : Nat} {d : Document ι υ} (hd : w.documents[n]? = some d)
    (hpart : w.parts.has d.key.part = true) (parts : List ProjectPart) (schedule : List Party)
    {s : Snapshot} {p : Progress ι υ} {time : TimePoint}
    (hupdate : ((Contest.start w parts).run e n schedule).update = .finished s p)
    (hparsed : p.result.parsedAt = some time) :
    ∃ d', ((Contest.start w parts).run e n schedule).workspace.documents[n]? = some d' ∧
      Shows e s d' ∧
      (Unnoticed s d' ↔ d'.part.arguments ≠ d.part.arguments ∧
        ¬ Earlier .given .taken ((Contest.start w parts).run e n schedule).history ∧
        Earlier .registered .timed ((Contest.start w parts).run e n schedule).history) := by
  obtain ⟨news, d', h⟩ := contested_run he schedule (contested_start e hnamed hd hpart parts)
  generalize (Contest.start w parts).run e n schedule = c at hupdate h ⊢
  have hreflects := h.reflects
  rw [hupdate] at hreflects
  obtain ⟨hbaseline, hunit⟩ := hreflects time hparsed
  have hsnapshot : c.update.snapshot? = some s := by rw [hupdate]; rfl
  have htime : c.update.time? = some time := by rw [hupdate]; exact hparsed
  refine ⟨d', h.here, hunit, ?_⟩
  unfold Unnoticed
  rw [h.stale_iff hsnapshot, and_assoc, and_congr_right_iff]
  intro hchanged
  have hnew : d'.part ≠ d.part := fun hsame => hchanged (by rw [hsame])
  rw [h.current_iff hnew htime hbaseline]

/-- An engine whose calls all succeed at once. -/
def instantEngine : Engine Unit Unit Unit where
  newIndex w := ((), w)
  parse _ _ w := ((.ok (), ()), w)
  reparse _ _ w := (.ok (), w)
  dependencies _ := .empty

theorem quiet_instantEngine : instantEngine.Quiet := ⟨fun _ => ⟨(), rfl⟩, fun _ _ _ => ⟨(), rfl⟩⟩

/-- A document under a part. -/
def configured : Workspace Unit Unit Unit :=
  (Action.create [.new ⟨"/a.c"⟩ "p"]).perform
    ((Action.upsertParts [("p", ["-O1"])]).perform (.new (.fresh []) false ()))

theorem named_configured : configured.parts.Named :=
  (Action.drift_perform _ _).named ((Action.drift_perform _ _).named fun _ _ hget => nomatch hget)

/-- The part with other arguments. -/
def otherArguments : List ProjectPart := [⟨"p", ["-O2"], configured.clock.last⟩]

/-- The time of the parse is taken before the part is registered. -/
def guarded : Contest Unit Unit Unit :=
  (Contest.start configured otherArguments).run instantEngine 0
    [.update, .update, .upsert, .upsert, .upsert, .upsert, .upsert, .upsert, .update, .update]

theorem noticed_guarded : ∃ s p d', guarded.update = .finished s p ∧ guarded.chores = [] ∧
    guarded.workspace.documents[0]? = some d' ∧ Shows instantEngine s d' ∧ ¬ Unnoticed s d' := by
  obtain ⟨d, hd, hpart⟩ : ∃ d, configured.documents[0]? = some d ∧
      configured.parts.has d.key.part = true := ⟨_, rfl, by decide⟩
  obtain ⟨s, p, time, hupdate, hparsed⟩ : ∃ s p time, guarded.update = .finished s p ∧
      p.result.parsedAt = some time := ⟨_, _, _, rfl, rfl⟩
  obtain ⟨d', hd', hshows, hiff⟩ := unnoticed_iff quiet_instantEngine named_configured hd hpart
    otherArguments [.update, .update, .upsert, .upsert, .upsert, .upsert, .upsert, .upsert,
      .update, .update] hupdate hparsed
  refine ⟨s, p, d', hupdate, rfl, hd', hshows, fun hunnoticed => ?_⟩
  obtain ⟨-, -, before, after, heq, hmem⟩ := hiff.1 hunnoticed
  have heq : [.taken, .timed, .registered, .given] = before ++ .timed :: after := heq
  obtain ⟨front, rfl, rfl, -⟩ : ∃ front, before = .taken :: front ∧ front = [] ∧
      after = [.registered, .given] := by simpa [List.cons_eq_append_iff] using heq
  revert hmem
  decide

/-- The part is registered before the update begins, and handed out after it
has ended. -/
theorem unnoticed_parse :
    ¬ ∀ (schedule : List Party) (s : Snapshot) (p : Progress Unit Unit) (time : TimePoint)
        (d' : Document Unit Unit),
      ((Contest.start configured otherArguments).run instantEngine 0 schedule).update
        = .finished s p → p.result.parsedAt = some time →
      ((Contest.start configured otherArguments).run instantEngine 0 schedule).chores = [] →
      ((Contest.start configured otherArguments).run instantEngine 0 schedule).workspace.documents[0]?
        = some d' →
      s.arguments ≠ d'.part.arguments ++ d'.arguments → d'.isOutdated = true := by
  intro h
  have houtdated := h [.upsert, .update, .update, .update, .update, .upsert, .upsert, .upsert,
    .upsert] _ _ _ _ rfl rfl rfl rfl (by decide)
  revert houtdated
  decide

end ParseCache
