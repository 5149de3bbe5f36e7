/-
  ParseCache.Proofs.TimePoint.Issuing — the points that racing callers get.

  A caller does not hand out the value it stored: it hands out a value it
  computes again, after its exchange, from what the counter held before.  In
  between any number of other callers may exchange the counter and hand out
  points of their own, so points are not handed out in the order in which they
  were taken, and the clock reading a caller works with may be older than
  points that are already out.

  The history of a run is therefore read as a list of calls, in the order of
  their exchanges.  As long as the counter has not reached its limit, the
  stored values only grow along this list and every answer is the value stored
  by the caller's own exchange.

  Main results:
    * `step_cases` — the four things an event can do;
    * `Sound.step`, `sound_run` — what ties the history of a run to the counter
      and to the requests under way;
    * `points_follow_exchanges` — each point is the one its call stored, no
      earlier than the call's clock reading and later than the points of all
      calls that exchanged the counter before; no point is given out twice,
      and every caller sees its points in order.
-/
import ParseCache.TimePoint.Issue

namespace ParseCache

/-! ## §1. The calls a history tells of. -/

/-- A call that has exchanged the counter: its caller, its clock reading, the
value it stored, and the point it was given, once it was. -/
structure IssueCall where
  caller : Nat
  reading : Nat
  stored : Nat
  point : Option TimePoint
deriving Repr, DecidableEq

namespace IssueCall

/-- What was handed out to the call. -/
def answer (c : IssueCall) : Option (Nat × TimePoint) := c.point.map fun p => (c.caller, p)

/-- The last call of `caller` is given `point`. -/
def complete (caller : Nat) (point : TimePoint) : List IssueCall → List IssueCall
  | [] => []
  | c :: earlier =>
    if c.caller = caller then { c with point := some point } :: earlier
    else c :: complete caller point earlier

/-- The calls of a history, the latest exchange first. -/
def ofHistory : List IssueEntry → List IssueCall
  | [] => []
  | .exchanged caller reading stored :: before =>
    ⟨caller, reading, stored, none⟩ :: ofHistory before
  | .returned caller point :: before => complete caller point (ofHistory before)

/-- The last call of `caller`. -/
def lastOf (caller : Nat) (calls : List IssueCall) : Option IssueCall :=
  calls.find? fun c => c.caller == caller

variable {caller other : Nat} {point : TimePoint} {calls : List IssueCall}

/-- An answer changes nothing but the point of one call. -/
theorem mem_complete {c : IssueCall} (h : c ∈ complete caller point calls) :
    c ∈ calls ∨ ∃ d, lastOf caller calls = some d ∧ c = { d with point := some point } := by
  induction calls with
  | nil => cases h
  | cons d earlier ih =>
    rw [complete] at h
    by_cases hd : d.caller = caller
    · rw [if_pos hd] at h
      rcases List.mem_cons.1 h with rfl | h
      · exact Or.inr ⟨d, by simp [lastOf, hd], rfl⟩
      · exact Or.inl (List.mem_cons_of_mem _ h)
    · rw [if_neg hd] at h
      rcases List.mem_cons.1 h with rfl | h
      · exact Or.inl List.mem_cons_self
      · rcases ih h with h | ⟨e, he, rfl⟩
        · exact Or.inl (List.mem_cons_of_mem _ h)
        · exact Or.inr ⟨e, by simpa [lastOf, hd] using he, rfl⟩

theorem map_stored_complete : (complete caller point calls).map stored = calls.map stored := by
  induction calls with
  | nil => rfl
  | cons d earlier ih =>
    rw [complete]
    split
    · rfl
    · rw [List.map_cons, List.map_cons, ih]

theorem lastOf_complete_of_ne (h : other ≠ caller) :
    lastOf other (complete caller point calls) = lastOf other calls := by
  induction calls with
  | nil => rfl
  | cons d earlier ih =>
    rw [complete]
    by_cases hd : d.caller = caller
    · simp [lastOf, hd, Ne.symm h]
    · rw [if_neg hd]
      simp only [lastOf, List.find?_cons] at ih ⊢
      rw [ih]

/-- Where the last call of a caller is open, an answer to that caller is the
latest of its answers; the other callers' answers are the same as before. -/
theorem filter_answers_complete {c : IssueCall} (hc : lastOf caller calls = some c)
    (hopen : c.point = none) :
    ((complete caller point calls).filterMap answer).filter (fun e => e.1 == other)
      = if other = caller then
          (caller, point) :: (calls.filterMap answer).filter fun e => e.1 == other
        else (calls.filterMap answer).filter fun e => e.1 == other := by
  induction calls with
  | nil => cases hc
  | cons d earlier ih =>
    rw [complete]
    by_cases hd : d.caller = caller
    · obtain rfl : d = c := by simpa [lastOf, hd] using hc
      have hold : d.answer = none := by simp [answer, hopen]
      have hnew : answer { d with point := some point } = some (caller, point) := by
        simp [answer, hd]
      rw [if_pos hd, List.filterMap_cons_some hnew, List.filterMap_cons_none hold,
        List.filter_cons]
      by_cases ho : other = caller
      · simp [ho]
      · simp [ho, Ne.symm ho]
    · have hc : lastOf caller earlier = some c := by simpa [lastOf, hd] using hc
      rw [if_neg hd]
      cases hp : d.point with
      | none =>
        have hnone : d.answer = none := by simp [answer, hp]
        rw [List.filterMap_cons_none hnone, List.filterMap_cons_none hnone]
        exact ih hc
      | some p =>
        have hsome : d.answer = some (d.caller, p) := by simp [answer, hp]
        rw [List.filterMap_cons_some hsome, List.filterMap_cons_some hsome, List.filter_cons,
          List.filter_cons, ih hc]
        by_cases ho : other = caller
        · simp [ho, hd]
        · simp [ho]

end IssueCall

namespace Issuer

/-- The calls of a run, the latest exchange first. -/
def calls (s : Issuer) : List IssueCall := IssueCall.ofHistory s.history

/-! ## §2. What an event does. -/

/-- Below its limit the counter moves on with every exchange. -/
theorem lt_next (reading previous : Nat) (h : previous < limit) :
    previous < next reading previous := by
  simp only [next]
  omega

theorem min_reading_le_next (reading previous : Nat) : min reading limit ≤ next reading previous :=
  Nat.le_max_left _ _

/-- An event does nothing, or it is a look at the counter, or an exchange by a
caller that saw the counter as it is, or the end of a call whose exchange went
through. -/
theorem step_cases (s : Issuer) (event : Event) :
    s.step event = s
    ∨ (∃ caller reading, s.step event = s.look caller reading)
    ∨ (∃ caller reading, s.pending.get? caller = some ⟨reading, .saw s.counter⟩
        ∧ s.step event = s.store caller reading)
    ∨ (∃ caller reading previous, s.pending.get? caller = some ⟨reading, .replaced previous⟩
        ∧ s.step event = s.handOut caller reading previous) := by
  cases event with
  | load caller reading =>
    simp only [step]
    split
    · exact Or.inr (Or.inl ⟨caller, reading, rfl⟩)
    · exact Or.inl rfl
  | exchange caller =>
    simp only [step]
    split
    · rename_i reading counter hpending
      split
      · rename_i hcounter
        exact Or.inr (Or.inr (Or.inl ⟨caller, reading, hcounter ▸ hpending, rfl⟩))
      · exact Or.inr (Or.inl ⟨caller, reading, rfl⟩)
    · exact Or.inl rfl
  | miss caller =>
    simp only [step]
    split
    · rename_i reading _ _
      exact Or.inr (Or.inl ⟨caller, reading, rfl⟩)
    · exact Or.inl rfl
  | finish caller =>
    simp only [step]
    split
    · rename_i reading previous hpending
      exact Or.inr (Or.inr (Or.inr ⟨caller, reading, previous, hpending, rfl⟩))
    · exact Or.inl rfl

/-! ## §3. What every run keeps. -/

/-- What ties the calls of a run to its counter, to the requests under way and
to the points that were handed out. -/
structure Sound (s : Issuer) : Prop where
  /-- A request whose exchange went through is its caller's last call, and has
  no point yet: the one it will compute is the value it stored. -/
  pending : ∀ caller reading previous,
    s.pending.get? caller = some ⟨reading, .replaced previous⟩ →
      IssueCall.lastOf caller s.calls = some ⟨caller, reading, next reading previous, none⟩
  /-- An answer is the value that the call stored. -/
  own : ∀ c ∈ s.calls, ∀ p, c.point = some p → p.ticks = c.stored
  /-- The value stored is not before the clock reading. -/
  reading : ∀ c ∈ s.calls, min c.reading limit ≤ c.stored
  /-- No value stored is past the counter. -/
  below : ∀ value ∈ s.calls.map (·.stored), value ≤ s.counter
  /-- A later exchange stored a larger value. -/
  order : (s.calls.map (·.stored)).Pairwise (· > ·)
  /-- What was handed out are the answers of the calls, and each caller got
  them in the order of its exchanges. -/
  told : ∀ caller, s.issued.filter (fun e => e.1 == caller)
    = (s.calls.filterMap IssueCall.answer).filter fun e => e.1 == caller

theorem sound_start : start.Sound where
  pending _ _ _ h := by cases h
  own _ h := by cases h
  reading _ h := by cases h
  below _ h := by cases h
  order := List.Pairwise.nil
  told _ := rfl

/-- A look at the counter only changes what its caller has seen. -/
theorem Sound.look {s : Issuer} (h : s.Sound) (caller reading : Nat) :
    (s.look caller reading).Sound where
  pending other r previous hp := by
    replace hp : (s.pending.set caller ⟨reading, .saw s.counter⟩).get? other
        = some ⟨r, .replaced previous⟩ := hp
    rw [Table.get?_set] at hp
    split at hp
    · cases hp
    · exact h.pending other r previous hp
  own := h.own
  reading := h.reading
  below := h.below
  order := h.order
  told := h.told

/-- An exchange adds a call, which stores more than all calls before it as long
as the counter was below its limit. -/
theorem Sound.store {s : Issuer} (h : s.Sound) (hlimit : s.counter < limit)
    (caller reading : Nat) : (s.store caller reading).Sound := by
  have hnew : s.counter < next reading s.counter := lt_next reading s.counter hlimit
  refine ⟨?pending, ?own, ?reading, ?below, ?order, h.told⟩
  case pending =>
    intro other r previous hp
    replace hp : (s.pending.set caller ⟨reading, .replaced s.counter⟩).get? other
        = some ⟨r, .replaced previous⟩ := hp
    rw [Table.get?_set] at hp
    show IssueCall.lastOf other (⟨caller, reading, next reading s.counter, none⟩ :: s.calls) = _
    split at hp
    · rename_i hsame
      obtain rfl : other = caller := beq_iff_eq.1 hsame
      obtain ⟨rfl, rfl⟩ : reading = r ∧ s.counter = previous := by simpa using hp
      simp [IssueCall.lastOf]
    · rename_i hsame
      have hne : (caller == other) = false :=
        beq_eq_false_iff_ne.2 fun heq => hsame (beq_iff_eq.2 heq.symm)
      rw [IssueCall.lastOf, List.find?_cons, hne]
      exact h.pending other r previous hp
  case own =>
    intro c hc p hp
    rcases List.mem_cons.1 hc with rfl | hc
    · cases hp
    · exact h.own c hc p hp
  case reading =>
    intro c hc
    rcases List.mem_cons.1 hc with rfl | hc
    · exact min_reading_le_next reading s.counter
    · exact h.reading c hc
  case below =>
    intro value hv
    show value ≤ next reading s.counter
    rcases List.mem_cons.1 hv with rfl | hv
    · exact Nat.le_refl _
    · have := h.below value hv
      omega
  case order =>
    refine List.Pairwise.cons (fun value hv => ?_) h.order
    have := h.below value hv
    show value < next reading s.counter
    omega

/-- The end of a call gives its caller the value that the call stored. -/
theorem Sound.handOut {s : Issuer} (h : s.Sound) {caller reading previous : Nat}
    (hpending : s.pending.get? caller = some ⟨reading, .replaced previous⟩) :
    (s.handOut caller reading previous).Sound := by
  have hlast := h.pending caller reading previous hpending
  have hmem : ∀ c ∈ (s.handOut caller reading previous).calls, c ∈ s.calls
      ∨ c = ⟨caller, reading, next reading previous, some ⟨next reading previous⟩⟩ := by
    intro c hc
    rcases IssueCall.mem_complete hc with hc | ⟨d, hd, rfl⟩
    · exact Or.inl hc
    · obtain rfl := Option.some.inj (hlast.symm.trans hd)
      exact Or.inr rfl
  have hstored : (s.handOut caller reading previous).calls.map (·.stored)
      = s.calls.map (·.stored) := IssueCall.map_stored_complete
  refine ⟨?pending, ?own, ?reading, ?below, ?order, ?told⟩
  case pending =>
    intro other r p hp
    replace hp : (s.pending.erase caller).get? other = some ⟨r, .replaced p⟩ := hp
    rw [Table.get?_erase] at hp
    split at hp
    · cases hp
    · rename_i hsame
      have hne : other ≠ caller := fun heq => hsame (beq_iff_eq.2 heq)
      exact (IssueCall.lastOf_complete_of_ne hne).trans (h.pending other r p hp)
  case own =>
    intro c hc p hp
    rcases hmem c hc with hc | rfl
    · exact h.own c hc p hp
    · cases hp
      rfl
  case reading =>
    intro c hc
    rcases hmem c hc with hc | rfl
    · exact h.reading c hc
    · exact min_reading_le_next reading previous
  case below =>
    rw [hstored]
    exact h.below
  case order =>
    rw [hstored]
    exact h.order
  case told =>
    intro other
    refine Eq.trans ?_ (IssueCall.filter_answers_complete hlast rfl).symm
    show List.filter _ ((caller, ⟨next reading previous⟩) :: s.issued) = _
    rw [List.filter_cons, h.told other]
    by_cases ho : other = caller
    · simp [ho]
    · simp [ho, Ne.symm ho]

/-- One event keeps the state sound while the counter is below its limit. -/
theorem Sound.step {s : Issuer} (h : s.Sound) (hlimit : s.counter < limit) (event : Event) :
    (s.step event).Sound := by
  rcases step_cases s event with hstep | ⟨caller, reading, hstep⟩ | ⟨caller, reading, -, hstep⟩
    | ⟨caller, reading, previous, hpending, hstep⟩
  · rw [hstep]
    exact h
  · rw [hstep]
    exact h.look caller reading
  · rw [hstep]
    exact h.store hlimit caller reading
  · rw [hstep]
    exact h.handOut hpending

/-- A counter that has reached its limit stays there. -/
theorem limit_le_step {s : Issuer} (h : limit ≤ s.counter) (event : Event) :
    limit ≤ (s.step event).counter := by
  rcases step_cases s event with hstep | ⟨caller, reading, hstep⟩ | ⟨caller, reading, -, hstep⟩
    | ⟨caller, reading, previous, -, hstep⟩
  · rw [hstep]
    exact h
  · rw [hstep]
    exact h
  · rw [hstep]
    show limit ≤ next reading s.counter
    simp only [next]
    omega
  · rw [hstep]
    exact h

theorem limit_le_run (events : List Event) :
    ∀ {s : Issuer}, limit ≤ s.counter → limit ≤ (s.run events).counter := by
  induction events with
  | nil =>
    intro s h
    exact h
  | cons event events ih =>
    intro s h
    exact ih (limit_le_step h event)

/-- A run that ends below the limit was below it all the time, and so kept what
every single event keeps. -/
theorem sound_run (events : List Event) :
    ∀ {s : Issuer}, s.Sound → (s.run events).counter < limit → (s.run events).Sound := by
  induction events with
  | nil =>
    intro s h _
    exact h
  | cons event events ih =>
    intro s h hend
    have hlimit : s.counter < limit := by
      rcases Nat.lt_or_ge s.counter limit with hlt | hreached
      · exact hlt
      · have hrun := limit_le_run (event :: events) hreached
        omega
    exact ih (h.step hlimit event) hend

/-! ## §4. The points of a run. -/

/-- What callers may rely on. -/
structure InOrder (s : Issuer) : Prop where
  /-- What was handed out, caller by caller, are the answers of the calls. -/
  answers : s.issued.Perm (s.calls.filterMap IssueCall.answer)
  /-- Each point is the value that its call's exchange stored. -/
  own : ∀ c ∈ s.calls, ∀ p, c.point = some p → p.ticks = c.stored
  /-- No point is before the clock reading of its call. -/
  reading : ∀ c ∈ s.calls, ∀ p, c.point = some p → c.reading ≤ p.ticks
  /-- A point is later than the point of every call that exchanged the counter
  before. -/
  later : s.calls.Pairwise fun after before =>
    ∀ p q, after.point = some p → before.point = some q → q < p
  /-- No point is handed out twice. -/
  distinct : (s.issued.map (·.2)).Nodup
  /-- Each caller gets its points in strictly increasing order. -/
  increasing : ∀ caller, (s.pointsOf caller).Pairwise (· < ·)

/-- The points of the calls, the latest exchange first, only go back. -/
theorem Sound.later {s : Issuer} (h : s.Sound) :
    s.calls.Pairwise fun after before =>
      ∀ p q, after.point = some p → before.point = some q → q < p := by
  refine (List.pairwise_map.1 h.order).imp_of_mem
    fun {after before} hafter hbefore hlt p q hp hq => ?_
  show q.ticks < p.ticks
  rw [h.own after hafter p hp, h.own before hbefore q hq]
  exact hlt

theorem Sound.answers {s : Issuer} (h : s.Sound) :
    s.issued.Perm (s.calls.filterMap IssueCall.answer) := by
  rw [List.perm_iff_count]
  intro e
  -- an answer is counted among its own caller's answers
  have hown : ∀ l : List (Nat × TimePoint), (l.filter fun e' => e'.1 == e.1).count e = l.count e :=
    fun l => List.count_filter (beq_self_eq_true e.1)
  rw [← hown s.issued, h.told e.1, hown]

theorem answers_points (calls : List IssueCall) :
    (calls.filterMap IssueCall.answer).map (·.2) = calls.filterMap (·.point) := by
  rw [List.map_filterMap]
  congr 1
  funext c
  cases hp : c.point <;> simp [IssueCall.answer, hp]

theorem Sound.inOrder {s : Issuer} (h : s.Sound) (hlimit : s.counter < limit) : s.InOrder := by
  have hpoints : ((s.calls.filterMap IssueCall.answer).map (·.2)).Pairwise fun p q => q < p := by
    rw [answers_points, List.pairwise_filterMap]
    exact h.later.imp fun {after before} hlt p hp q hq => hlt p q hp hq
  refine ⟨h.answers, h.own, ?reading, h.later, ?distinct, ?increasing⟩
  case reading =>
    intro c hc p hp
    have hle := h.reading c hc
    have hbelow := h.below c.stored (List.mem_map_of_mem hc)
    rw [h.own c hc p hp]
    omega
  case distinct =>
    refine (h.answers.map (·.2)).nodup_iff.2 ?_
    refine hpoints.imp fun {p q} hlt heq => ?_
    subst heq
    exact Nat.lt_irrefl _ hlt
  case increasing =>
    intro caller
    show ((s.issued.filter fun e => e.1 == caller).map (·.2)).reverse.Pairwise _
    rw [h.told caller, List.pairwise_reverse]
    exact hpoints.sublist (List.filter_sublist.map Prod.snd)

/-- However the loads, exchanges and hand-outs of any number of callers are
interleaved, and whatever their clocks show: as long as the counter stays below
its limit, each point is the value its own call stored, no earlier than the
call's clock reading and later than the point of every call whose exchange came
before; so no point is handed out twice, and each caller sees its points in
strictly increasing order. -/
theorem points_follow_exchanges (events : List Event)
    (hlimit : (start.run events).counter < limit) : (start.run events).InOrder :=
  (sound_run events sound_start hlimit).inOrder hlimit

/-- Two callers, the second with an older clock reading: the first loses the
exchange and is still the first to get its point. -/
def overtaken : List Event :=
  [.load 0 7, .load 1 4, .exchange 1, .exchange 0, .miss 0, .exchange 0, .finish 0, .finish 1,
    .load 1 4, .exchange 1, .finish 1]

theorem points_follow_exchanges_overtaken :
    (start.run overtaken).counter < limit
      ∧ (start.run overtaken).issued = [(1, ⟨8⟩), (1, ⟨4⟩), (0, ⟨7⟩)]
      ∧ (start.run overtaken).InOrder :=
  ⟨by decide, by decide, points_follow_exchanges overtaken (by decide)⟩

end Issuer

end ParseCache
