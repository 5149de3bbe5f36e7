/-
  ParseCache.Proofs.Update.DirtyRace — dirty events against updates under way.

  While a document is updated it may get dirty again, and several updates may
  be under way at once.  A `Race` is a document with the snapshots taken of it
  and the history of what happened, under any interleaving of dirty events,
  snapshots and results.  A result names its snapshot by position, so results
  may come in any order, or twice, or never.

  Main results:
    * `incorporate_run` — the results the updater makes are of the kind a race
      is about: applying one is applying it as based on its snapshot;
    * `dirty_iff_owed` — the document is dirty at the end exactly when its
      latest dirty event is not settled.

  What carries the proof is that no point of time is issued twice: a snapshot
  carries the dirty point the document has now exactly when it was taken after
  the latest dirty event.
-/
import ParseCache.Proofs.Collection.Marking
import ParseCache.Proofs.Update.Steps

namespace ParseCache

variable {ι υ σ : Type}

/-- The result `r` as an update brings it back that worked on the snapshot
`s`. -/
def UpdateResult.basedOn (r : UpdateResult) (s : Snapshot) : UpdateResult :=
  { r with dirtyPoint := some s.dirtyPoint }

/-! ## §1. Races. -/

/-- What happens to a document and around it. -/
inductive RaceEvent (ι υ σ : Type)
  /-- A dirty event on a document, this one or another. -/
  | markDirty (n : Nat)
  /-- A trigger that goes through documents and marks those that pass a test. -/
  | trigger (p : Workspace ι υ σ → Document ι υ → Bool) (ns : List Nat)
  /-- An update of the document starts. -/
  | snapshot
  /-- An update ends that started from the snapshot at position `k`. -/
  | incorporate (k : Nat) (r : UpdateResult)

/-- What the history of a race records. -/
inductive RaceMark
  /-- The document was marked dirty. -/
  | dirtied
  /-- A snapshot was taken. -/
  | taken
  /-- A result was applied, based on the snapshot at position `k`. -/
  | applied (k : Nat) (failed reparsed : Bool)
deriving Repr, DecidableEq

/-- A document by its number, the snapshots taken of it in order, and what
happened to it so far. -/
structure Race (ι υ σ : Type) where
  workspace : Workspace ι υ σ
  number : Nat
  snapshots : List Snapshot
  history : List RaceMark

namespace Race

/-- A document just created, in any workspace. -/
def start (w : Workspace ι υ σ) (path : Path) (part : ProjectPart) (arguments : List String) :
    Race ι υ σ :=
  let (time, w) := w.now
  let (n, w) := w.add (Document.new path part arguments time)
  { workspace := w, number := n, snapshots := [], history := [] }

/-- One event.  A trigger has hit the document if it returns it; a result
needs the snapshot it names. -/
def step (s : Race ι υ σ) : RaceEvent ι υ σ → Race ι υ σ
  | .markDirty n =>
    { s with
      workspace := s.workspace.markDirty n
      history := s.history ++ if s.number = n then [.dirtied] else [] }
  | .trigger p ns =>
    let (marked, w) := Workspace.markDirtyAll p ns s.workspace
    { s with
      workspace := w
      history := s.history ++ if s.number ∈ marked then [.dirtied] else [] }
  | .snapshot =>
    match s.workspace.documents[s.number]? with
    | none => s
    | some d =>
      { s with
        snapshots := s.snapshots ++ [d.snapshot s.workspace.buffers]
        history := s.history ++ [.taken] }
  | .incorporate k r =>
    match s.snapshots[k]? with
    | none => s
    | some snapshot =>
      { s with
        workspace := s.workspace.incorporate s.number (r.basedOn snapshot)
        history := s.history ++ [.applied k r.failed r.reparsed] }

/-- A whole interleaving. -/
def run (s : Race ι υ σ) (events : List (RaceEvent ι υ σ)) : Race ι υ σ := events.foldl step s

end Race

/-! ## §2. What is owed. -/

/-- Nothing in `after` settles a dirty event before which `seen` snapshots had
been taken: no failure, and no reparse based on a later snapshot. -/
def Unsettled (seen : Nat) (after : List RaceMark) : Prop :=
  ∀ k failed reparsed, RaceMark.applied k failed reparsed ∈ after →
    failed = false ∧ (reparsed = true → k < seen)

/-- There was a dirty event, and nothing after the latest one settled it. -/
def Owed (history : List RaceMark) : Prop :=
  ∃ before after, history = before ++ .dirtied :: after ∧ .dirtied ∉ after ∧
    Unsettled (before.count .taken) after

/-- A history has one latest dirty event. -/
theorem latest_unique {before after before' after' : List RaceMark}
    (h : before ++ .dirtied :: after = before' ++ .dirtied :: after')
    (hafter : .dirtied ∉ after) (hafter' : .dirtied ∉ after') :
    before = before' ∧ after = after' := by
  -- of two latest events one would be no later than the other: the gap between
  -- them would hold a dirty event
  rcases List.append_eq_append_iff.1 h with ⟨gap, hbefore, hrest⟩ | ⟨gap, hbefore, hrest⟩
  · cases gap with
    | nil =>
      rw [List.append_nil] at hbefore
      exact ⟨hbefore.symm, (List.cons.inj hrest).2⟩
    | cons m gap =>
      have hin : RaceMark.dirtied ∈ after := by
        rw [(List.cons.inj hrest).2]
        exact List.mem_append_right _ List.mem_cons_self
      exact absurd hin hafter
  · cases gap with
    | nil =>
      rw [List.append_nil] at hbefore
      exact ⟨hbefore, (List.cons.inj hrest).2.symm⟩
    | cons m gap =>
      have hin : RaceMark.dirtied ∈ after' := by
        rw [(List.cons.inj hrest).2]
        exact List.mem_append_right _ List.mem_cons_self
      exact absurd hin hafter'

/-- Around the latest dirty event, being owed is being unsettled. -/
theorem owed_iff {before after : List RaceMark} (hafter : .dirtied ∉ after) :
    Owed (before ++ .dirtied :: after) ↔ Unsettled (before.count .taken) after := by
  constructor
  · rintro ⟨before', after', heq, hafter', hunsettled⟩
    obtain ⟨rfl, rfl⟩ := latest_unique heq hafter hafter'
    exact hunsettled
  · intro hunsettled
    exact ⟨before, after, rfl, hafter, hunsettled⟩

/-- What is not a dirty event goes behind the latest one. -/
theorem latest_of_append {history before after : List RaceMark} {m : RaceMark}
    (hm : m ≠ .dirtied) (h : history ++ [m] = before ++ .dirtied :: after)
    (hafter : .dirtied ∉ after) :
    ∃ front, after = front ++ [m] ∧ history = before ++ .dirtied :: front ∧ .dirtied ∉ front := by
  rcases List.eq_nil_or_concat after with rfl | ⟨front, last, rfl⟩
  · obtain ⟨-, hlast⟩ := List.append_inj' h rfl
    exact absurd (List.cons.inj hlast).1 hm
  · rw [List.concat_eq_append] at h hafter
    rw [← List.cons_append, ← List.append_assoc] at h
    obtain ⟨hfront, hlast⟩ := List.append_inj' h rfl
    obtain rfl : m = last := (List.cons.inj hlast).1
    exact ⟨front, List.concat_eq_append, hfront, fun hin => hafter (List.mem_append_left _ hin)⟩

theorem not_owed {history : List RaceMark} (h : .dirtied ∉ history) : ¬ Owed history := by
  rintro ⟨before, after, rfl, -, -⟩
  exact h (List.mem_append_right _ List.mem_cons_self)

theorem unsettled_append_taken {seen : Nat} {after : List RaceMark} :
    Unsettled seen (after ++ [.taken]) ↔ Unsettled seen after := by
  constructor
  · intro h k failed reparsed hmem
    exact h k failed reparsed (List.mem_append_left _ hmem)
  · intro h k failed reparsed hmem
    rcases List.mem_append.1 hmem with hmem | hmem
    · exact h k failed reparsed hmem
    · cases List.mem_singleton.1 hmem

theorem unsettled_append_applied {seen : Nat} {after : List RaceMark} {k : Nat}
    {failed reparsed : Bool} :
    Unsettled seen (after ++ [.applied k failed reparsed]) ↔
      Unsettled seen after ∧ failed = false ∧ (reparsed = true → k < seen) := by
  constructor
  · intro h
    refine ⟨fun k failed reparsed hmem => h k failed reparsed (List.mem_append_left _ hmem), ?_⟩
    exact h k failed reparsed (List.mem_append_right _ (List.mem_singleton_self _))
  · rintro ⟨h, hlast⟩ k' failed' reparsed' hmem
    rcases List.mem_append.1 hmem with hmem | hmem
    · exact h k' failed' reparsed' hmem
    · cases List.mem_singleton.1 hmem
      exact hlast

/-! ## §3. The invariant. -/

/-- The document and its snapshots agree with the history. -/
structure Race.Coherent (s : Race ι υ σ) (d : Document ι υ) : Prop where
  here : s.workspace.documents[s.number]? = some d
  issued : d.dirtyPoint ≤ s.workspace.clock.last
  counted : s.snapshots.length = s.history.count .taken
  earlier : ∀ snapshot ∈ s.snapshots, snapshot.dirtyPoint ≤ d.dirtyPoint
  /-- Nothing is owed before the first dirty event. -/
  clean : .dirtied ∉ s.history → d.dirty = false
  /-- The snapshots after the latest dirty event are those that carry its
  point, and the flag is up while nothing settled it. -/
  latest : ∀ before after, s.history = before ++ .dirtied :: after → .dirtied ∉ after →
    (d.dirty = true ↔ Unsettled (before.count .taken) after) ∧
    ∀ k snapshot, s.snapshots[k]? = some snapshot →
      (snapshot.dirtyPoint = d.dirtyPoint ↔ before.count .taken ≤ k)

namespace Race.Coherent

variable {s : Race ι υ σ} {d : Document ι υ}

theorem dirty_iff (h : s.Coherent d) : d.dirty = true ↔ Owed s.history := by
  by_cases hever : .dirtied ∈ s.history
  · obtain ⟨before, after, heq, hafter⟩ : ∃ before after,
        s.history = before ++ .dirtied :: after ∧ .dirtied ∉ after := by
      -- the first dirty event of the reversed history
      obtain ⟨front, back, hsplit, hback⟩ :=
        List.eq_append_cons_of_mem (List.mem_reverse.2 hever)
      refine ⟨back.reverse, front.reverse, ?_, by simpa using hback⟩
      rw [← List.reverse_reverse s.history, hsplit]
      simp
    rw [heq, owed_iff hafter]
    exact (h.latest before after heq hafter).1
  · rw [h.clean hever]
    constructor
    · intro hfalse
      cases hfalse
    · intro howed
      exact absurd howed (not_owed hever)

/-- A dirty event: every snapshot so far is from before it. -/
theorem dirtied (h : s.Coherent d) {w : Workspace ι υ σ} {time : TimePoint}
    (hlt : s.workspace.clock.last < time) (hle : time ≤ w.clock.last)
    (hhere : w.documents[s.number]? = some (d.markDirty time)) :
    Coherent { s with workspace := w, history := s.history ++ [.dirtied] } (d.markDirty time) where
  here := hhere
  issued := hle
  counted := by
    rw [List.count_append]
    exact h.counted
  earlier snapshot hmem :=
    TimePoint.le_trans (h.earlier snapshot hmem)
      (TimePoint.le_trans h.issued (TimePoint.le_of_lt hlt))
  clean hnever := absurd (List.mem_append_right _ (List.mem_singleton_self _)) hnever
  latest before after heq hafter := by
    obtain ⟨rfl, rfl⟩ := latest_unique heq List.not_mem_nil hafter
    refine ⟨⟨fun _ k failed reparsed hmem => absurd hmem List.not_mem_nil, fun _ => rfl⟩, ?_⟩
    intro k snapshot hk
    have hlength : k < s.snapshots.length := (List.getElem?_eq_some_iff.1 hk).1
    -- points are issued in increasing order, so no snapshot carries the new one
    have hbefore : snapshot.dirtyPoint < time :=
      TimePoint.lt_of_le_of_lt
        (TimePoint.le_trans (h.earlier snapshot (List.mem_of_getElem? hk)) h.issued) hlt
    have hcounted := h.counted
    constructor
    · intro hpoint
      exact absurd hpoint (TimePoint.ne_of_lt hbefore)
    · intro hk'
      omega

/-- Time and other documents go on. -/
theorem passed (h : s.Coherent d) {w : Workspace ι υ σ}
    (hclock : s.workspace.clock.last ≤ w.clock.last)
    (hhere : w.documents[s.number]? = some d) :
    Coherent { s with workspace := w, history := s.history ++ [] } d where
  here := hhere
  issued := TimePoint.le_trans h.issued hclock
  counted := by
    rw [List.append_nil]
    exact h.counted
  earlier := h.earlier
  clean hnever := h.clean (by rwa [List.append_nil] at hnever)
  latest before after heq hafter := h.latest before after (by rwa [List.append_nil] at heq) hafter

/-- A round of dirty marks. -/
theorem marked (h : s.Coherent d) {w : Workspace ι υ σ} {marked : List Nat}
    (hmarks : Workspace.Marks marked s.workspace w) :
    ∃ d', Coherent
      { s with
        workspace := w, history := s.history ++ if s.number ∈ marked then [.dirtied] else [] } d' := by
  by_cases hin : s.number ∈ marked
  · obtain ⟨time, hlt, hle, hhere⟩ := hmarks.marked _ d hin h.here
    rw [if_pos hin]
    exact ⟨_, h.dirtied hlt hle hhere⟩
  · rw [if_neg hin]
    exact ⟨d, h.passed hmarks.clock ((hmarks.unmarked _ hin).trans h.here)⟩

/-- A snapshot is taken: it carries the point the document has now. -/
theorem taken (h : s.Coherent d) :
    Coherent
      { s with
        snapshots := s.snapshots ++ [d.snapshot s.workspace.buffers]
        history := s.history ++ [.taken] } d where
  here := h.here
  issued := h.issued
  counted := by
    rw [List.length_append, List.count_append, h.counted]
    rfl
  earlier snapshot hmem := by
    rcases List.mem_append.1 hmem with hmem | hmem
    · exact h.earlier snapshot hmem
    · rw [List.mem_singleton.1 hmem]
      exact TimePoint.le_refl _
  clean hnever := h.clean fun hin => hnever (List.mem_append_left _ hin)
  latest before after heq hafter := by
    obtain ⟨front, rfl, hhistory, hfront⟩ := latest_of_append (by decide) heq hafter
    obtain ⟨hdirty, hpoints⟩ := h.latest before front hhistory hfront
    rw [unsettled_append_taken]
    refine ⟨hdirty, fun k snapshot hk => ?_⟩
    have hcounted := h.counted
    have hsplit : before.count .taken ≤ s.history.count .taken := by
      rw [hhistory, List.count_append]
      exact Nat.le_add_right _ _
    -- an old snapshot, or the one just taken, which is the latest of all
    by_cases hlt : k < s.snapshots.length
    · rw [List.getElem?_append_left hlt] at hk
      exact hpoints k snapshot hk
    · rw [List.getElem?_append_right (by omega)] at hk
      have hpoint : snapshot.dirtyPoint = d.dirtyPoint := by
        rw [List.mem_singleton.1 (List.mem_of_getElem? hk)]
        rfl
      constructor
      · intro _
        omega
      · intro _
        exact hpoint

theorem dirtyPoint_incorporate (d : Document ι υ) (r : UpdateResult) :
    (d.incorporate r).dirtyPoint = d.dirtyPoint := by
  unfold Document.incorporate
  split <;> rfl

/-- A result is applied: a failure settles what is owed, and so does a
reparse of what the document is dirty for. -/
theorem applied (h : s.Coherent d) {k : Nat} {snapshot : Snapshot}
    (hk : s.snapshots[k]? = some snapshot) (r : UpdateResult) :
    Coherent
      { s with
        workspace := s.workspace.incorporate s.number (r.basedOn snapshot)
        history := s.history ++ [.applied k r.failed r.reparsed] }
      (d.incorporate (r.basedOn snapshot)) where
  here := by
    rw [Workspace.incorporate_eq]
    exact Workspace.getElem?_modify_self h.here _
  issued := by
    rw [dirtyPoint_incorporate, Workspace.incorporate_eq]
    exact h.issued
  counted := by
    rw [List.count_append]
    exact h.counted
  earlier := by
    rw [dirtyPoint_incorporate]
    exact h.earlier
  clean hnever := by
    have hclean := h.clean fun hin => hnever (List.mem_append_left _ hin)
    unfold Document.incorporate
    split
    · rfl
    · show (d.dirty && _) = false
      rw [hclean]
      rfl
  latest before after heq hafter := by
    obtain ⟨front, rfl, hhistory, hfront⟩ := latest_of_append (by simp) heq hafter
    obtain ⟨hdirty, hpoints⟩ := h.latest before front hhistory hfront
    rw [unsettled_append_applied, ← hdirty, dirtyPoint_incorporate]
    refine ⟨?_, hpoints⟩
    -- the test on dirty points tells whether the snapshot had seen the event
    have hlate : (some snapshot.dirtyPoint == some d.dirtyPoint) = false
        ↔ k < before.count .taken := by
      rw [beq_eq_false_iff_ne, ne_eq, Option.some.injEq, hpoints k snapshot hk, Nat.not_le]
    unfold Document.incorporate
    show (if r.failed = true then ({ d with failed := true, dirty := false } : Document ι υ)
      else _).dirty = true ↔ _
    cases r.failed with
    | true => simp
    | false =>
      show (d.dirty && !(r.reparsed && some snapshot.dirtyPoint == some d.dirtyPoint)) = true ↔ _
      rw [Bool.and_eq_true, Bool.not_eq_true', Bool.and_eq_false_iff, hlate]
      cases r.reparsed <;> simp

end Race.Coherent

/-! ## §4. Every interleaving. -/

namespace Race

theorem coherent_start (w : Workspace ι υ σ) (path : Path) (part : ProjectPart)
    (arguments : List String) :
    (start w path part arguments).Coherent (Document.new path part arguments w.clock.now.1) where
  here := by
    show (w.documents ++ [_])[w.documents.length]? = _
    rw [List.getElem?_append_right (Nat.le_refl _), Nat.sub_self]
    rfl
  issued := TimePoint.le_refl _
  counted := rfl
  earlier _ hmem := absurd hmem List.not_mem_nil
  clean _ := rfl
  latest before after heq _ := by
    have hnil := congrArg List.length heq
    simp [start] at hnil

/-- One event keeps document, snapshots and history in step. -/
theorem coherent_step {s : Race ι υ σ} {d : Document ι υ} (h : s.Coherent d)
    (event : RaceEvent ι υ σ) : ∃ d', (s.step event).Coherent d' := by
  cases event with
  | markDirty n =>
    have hmarked := h.marked (Workspace.marks_markDirty s.workspace n)
    simpa [step] using hmarked
  | trigger p ns => exact h.marked (Workspace.marks_markDirtyAll p ns s.workspace)
  | snapshot =>
    have hstep : s.step .snapshot =
        { s with
          snapshots := s.snapshots ++ [d.snapshot s.workspace.buffers]
          history := s.history ++ [.taken] } := by
      unfold step
      simp only [h.here]
    rw [hstep]
    exact ⟨d, h.taken⟩
  | incorporate k r =>
    cases hk : s.snapshots[k]? with
    | none =>
      have hstep : s.step (.incorporate k r) = s := by
        unfold step
        simp only [hk]
      rw [hstep]
      exact ⟨d, h⟩
    | some snapshot =>
      have hstep : s.step (.incorporate k r) =
          { s with
            workspace := s.workspace.incorporate s.number (r.basedOn snapshot)
            history := s.history ++ [.applied k r.failed r.reparsed] } := by
        unfold step
        simp only [hk]
      rw [hstep]
      exact ⟨_, h.applied hk r⟩

theorem coherent_run (events : List (RaceEvent ι υ σ)) :
    ∀ {s : Race ι υ σ} {d : Document ι υ}, s.Coherent d → ∃ d', (s.run events).Coherent d' := by
  induction events with
  | nil =>
    intro s d h
    exact ⟨d, h⟩
  | cons event rest ih =>
    intro s d h
    obtain ⟨d', h'⟩ := coherent_step h event
    exact ih h'

/-- What the updater makes of a snapshot is a result based on it. -/
theorem incorporate_run (e : Engine ι υ σ) (mode : UpdateMode) (s : Snapshot) (h : Handles ι υ)
    (w : Workspace ι υ σ) (d : Document ι υ) :
    d.incorporate (e.run mode s h w).1.result
      = d.incorporate ((e.run mode s h w).1.result.basedOn s) := by
  have hpoint := e.dirtyPoint_of_reparsed mode s h w
  generalize (e.run mode s h w).1.result = r at hpoint
  cases hre : r.reparsed with
  | true =>
    have hbased : r.basedOn s = r := by
      unfold UpdateResult.basedOn
      rw [← hpoint hre]
    rw [hbased]
  | false =>
    -- the dirty points differ, but nothing reads them
    simp [Document.incorporate, Document.installs, UpdateResult.basedOn, hre]

/-- After any interleaving the document is dirty exactly when there was a
dirty event and, since the latest one, neither a failed result was applied nor
a reparse based on a snapshot taken after it. -/
theorem dirty_iff_owed (w : Workspace ι υ σ) (path : Path) (part : ProjectPart)
    (arguments : List String) (events : List (RaceEvent ι υ σ)) :
    ∃ d, ((start w path part arguments).run events).workspace.documents[
        ((start w path part arguments).run events).number]? = some d ∧
      (d.dirty = true ↔ Owed ((start w path part arguments).run events).history) := by
  obtain ⟨d, h⟩ := coherent_run events (coherent_start w path part arguments)
  exact ⟨d, h.here, h.dirty_iff⟩

end Race

end ParseCache
