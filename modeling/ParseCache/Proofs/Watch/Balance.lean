/-
  ParseCache.Proofs.Watch.Balance — the counts of a watch registry add up.

  The registry never looks through all its sets.  It keeps a count for every
  path and adjusts the counts of the paths that an operation is about.  Here
  it is shown that the counts are nevertheless those that counting the sets
  would give, and that the watcher hears of a path exactly when its count
  leaves zero or comes back to it.

  What carries the proof is that one operation adjusts the count of a path at
  most once: the paths it acquires and the paths it releases are different
  from each other.

  Main results:
    * `Adjusts` — what acquiring and releasing different paths can do;
    * `Balanced` — the counts are those of the sets;
    * `balanced_setWatched`, `balanced_remove` — every operation keeps the
      balance;
    * `reported_setWatched`, `reported_remove` — the calls an operation makes
      are the difference between what was watched and what is;
    * `isWatched_iff` — a path is watched when some set holds it;
    * `watched_increasing` — the watched paths are listed in order.
-/
import ParseCache.Proofs.Path.Sets
import ParseCache.Proofs.Table.Keys
import ParseCache.WatchRegistry

namespace ParseCache

/-! ## §1. Calls on the watcher. -/

namespace WatchEvent

/-- What the call tells about `q`: that it is watched, that it is not, or
nothing. -/
def about? (q : Path) : WatchEvent → Option Bool
  | watch p => if q.same p then some true else none
  | unwatch p => if q.same p then some false else none

/-- What a list of calls tells about `q`, the latest last. -/
def callsAbout (q : Path) (events : List WatchEvent) : List Bool := events.filterMap (about? q)

theorem callsAbout_append (q : Path) (events later : List WatchEvent) :
    callsAbout q (events ++ later) = callsAbout q events ++ callsAbout q later :=
  List.filterMap_append

theorem callsAbout_watch (q p : Path) :
    callsAbout q [watch p] = if q.same p then [true] else [] := by
  cases hq : q.same p <;> simp [callsAbout, about?, hq]

theorem callsAbout_unwatch (q p : Path) :
    callsAbout q [unwatch p] = if q.same p then [false] else [] := by
  cases hq : q.same p <;> simp [callsAbout, about?, hq]

/-- The calls it takes to get from one state of a path to another. -/
def callsBetween : Bool → Bool → List Bool
  | false, true => [true]
  | true, false => [false]
  | _, _ => []

/-- A path whose state does not change is not reported. -/
theorem callsBetween_self (b : Bool) : callsBetween b b = [] := by cases b <;> rfl

end WatchEvent

namespace WatchRegistry

open WatchEvent

/-! ## §2. One path acquired or released. -/

/-- In how many sets a path is, by the count of it. -/
def count (r : WatchRegistry) (q : Path) : Nat := (r.counts.get? q).getD 0

theorem count_eq_of_get? {r : WatchRegistry} {q : Path} {n : Nat} (h : r.counts.get? q = some n) :
    r.count q = n := by
  rw [count, h]
  rfl

theorem count_eq_zero_of_get? {r : WatchRegistry} {q : Path} (h : r.counts.get? q = none) :
    r.count q = 0 := by
  rw [count, h]
  rfl

/-- Spellings of one path have one count. -/
theorem count_congr (r : WatchRegistry) {p q : Path} (h : p.same q = true) :
    r.count p = r.count q := by
  rw [count, count, r.counts.get?_congr h]

/-- Every counted path has one count, and that is not zero. -/
structure Counted (r : WatchRegistry) : Prop where
  keys : r.counts.Distinct
  positive : ∀ q n, r.counts.get? q = some n → 0 < n

/-- Since no count is zero, a path is watched if its count is positive. -/
theorem Counted.isWatched_eq {r : WatchRegistry} (h : r.Counted) (q : Path) :
    r.isWatched q = decide (0 < r.count q) := by
  unfold isWatched count
  rw [Table.has_eq_isSome_get?]
  cases hq : r.counts.get? q with
  | none => rfl
  | some n => simpa using h.positive q n hq

/-- The calls made from `r` to `r'`: one for each path that is watched in one of
them only, saying which, and no others. -/
def Reported (r r' : WatchRegistry) : Prop :=
  ∃ later, r'.events = r.events ++ later ∧
    ∀ q, callsAbout q later = callsBetween (r.isWatched q) (r'.isWatched q)

theorem Reported.refl (r : WatchRegistry) : Reported r r :=
  ⟨[], (List.append_nil _).symm, fun _ => (callsBetween_self _).symm⟩

/-- From `r` to `r'` counts changed, and only of paths that `touched` admits. -/
structure Adjusts (touched : Path → Bool) (r r' : WatchRegistry) : Prop where
  before : r.Counted
  after : r'.Counted
  untouched : ∀ q, touched q = false → r'.count q = r.count q
  reported : Reported r r'

namespace Adjusts

variable {touched touched' : Path → Bool} {r r' r'' : WatchRegistry}

theorem refl (h : r.Counted) : Adjusts (fun _ => false) r r :=
  ⟨h, h, fun _ _ => rfl, .refl r⟩

theorem isWatched_eq (h : Adjusts touched r r') {q : Path} (hq : touched q = false) :
    r'.isWatched q = r.isWatched q := by
  rw [h.before.isWatched_eq, h.after.isWatched_eq, h.untouched q hq]

/-- Two adjustments are one, if no path is touched by both. -/
theorem trans (h : Adjusts touched r r') (h' : Adjusts touched' r' r'')
    (hapart : ∀ q, touched q = true → touched' q = false) :
    Adjusts (fun q => touched q || touched' q) r r'' where
  before := h.before
  after := h'.after
  untouched q hq := by
    rw [Bool.or_eq_false_iff] at hq
    rw [h'.untouched q hq.2, h.untouched q hq.1]
  reported := by
    obtain ⟨later, hevents, hlater⟩ := h.reported
    obtain ⟨later', hevents', hlater'⟩ := h'.reported
    refine ⟨later ++ later', by rw [hevents', hevents, List.append_assoc], fun q => ?_⟩
    rw [callsAbout_append, hlater, hlater']
    -- only one of the two has something to say about the path
    cases hq : touched q with
    | true => rw [h'.isWatched_eq (hapart q hq), callsBetween_self, List.append_nil]
    | false => rw [h.isWatched_eq hq, callsBetween_self, List.nil_append]

theorem congr (h : Adjusts touched r r') (heq : ∀ q, touched q = touched' q) :
    Adjusts touched' r r' := by
  have htouched : touched = touched' := funext heq
  rw [← htouched]
  exact h

end Adjusts

/-- A count that is set is found under every spelling of its path. -/
theorem count_set (r : WatchRegistry) (p q : Path) (n : Nat) :
    count { r with counts := r.counts.set p n } q = if q.same p then n else r.count q := by
  unfold count
  simp only [Table.get?_set, Path.keyed_same]
  split <;> rfl

/-- Acquiring a path adds one to its count and leaves the others alone. -/
theorem count_acquire (r : WatchRegistry) (p q : Path) :
    (r.acquire p).count q = r.count q + (q.same p).toNat := by
  have hsame : q.same p = true → r.counts.get? q = r.counts.get? p := fun h =>
    r.counts.get?_congr h
  unfold acquire
  -- the first set that holds a path begins its count, the others add to it
  cases hp : r.counts.get? p with
  | some n =>
    simp only
    rw [count_set]
    cases hq : q.same p with
    | true => simp [count, hsame hq, hp]
    | false => simp
  | none =>
    show count { r with counts := r.counts.set p 1 } q = _
    rw [count_set]
    cases hq : q.same p with
    | true => simp [count, hsame hq, hp]
    | false => simp

/-- A count that is begun or raised is not zero. -/
theorem counted_acquire {r : WatchRegistry} (h : r.Counted) (p : Path) :
    (r.acquire p).Counted := by
  have hset : ∀ n, 0 < n → ∀ q m, (r.counts.set p n).get? q = some m → 0 < m := by
    intro n hn q m hm
    rw [Table.get?_set] at hm
    split at hm
    · cases hm
      exact hn
    · exact h.positive q m hm
  unfold acquire
  split
  · rename_i n _
    exact ⟨h.keys.set p (n + 1), hset (n + 1) (Nat.succ_pos n)⟩
  · exact ⟨h.keys.set p 1, hset 1 Nat.one_pos⟩

/-- Acquiring a path touches that path only, and reports it if no set held it
before. -/
theorem adjusts_acquire {r : WatchRegistry} (h : r.Counted) (p : Path) :
    Adjusts (·.same p) r (r.acquire p) where
  before := h
  after := counted_acquire h p
  untouched q hq := by
    rw [count_acquire, hq]
    rfl
  reported := by
    have hcount := r.count_acquire p
    have hwatched := (counted_acquire h p).isWatched_eq
    cases hp : r.counts.get? p with
    | some n =>
      refine ⟨[], ?_, fun q => ?_⟩
      · unfold acquire
        rw [hp, List.append_nil]
      · rw [hwatched, hcount, h.isWatched_eq]
        cases hq : q.same p with
        | false => exact (callsBetween_self _).symm
        | true =>
          -- a path that is counted was watched before and still is
          have hpos : 0 < r.count q := by
            rw [r.count_congr hq, count_eq_of_get? hp]
            exact h.positive p n hp
          rw [decide_eq_true hpos, decide_eq_true (Nat.lt_of_lt_of_le hpos (Nat.le_add_right _ _))]
          rfl
    | none =>
      refine ⟨[.watch p], ?_, fun q => ?_⟩
      · unfold acquire
        rw [hp]
      · rw [hwatched, hcount, h.isWatched_eq, callsAbout_watch]
        cases hq : q.same p with
        | false => exact (callsBetween_self _).symm
        | true =>
          have hzero : r.count q = 0 := by
            rw [r.count_congr hq, count_eq_zero_of_get? hp]
          rw [hzero]
          rfl

/-- Releasing a path takes one off its count, if that is not zero already. -/
theorem count_release {r : WatchRegistry} (h : r.Counted) (p q : Path) :
    (r.release p).count q = r.count q - (q.same p).toNat := by
  have hsame : q.same p = true → r.counts.get? q = r.counts.get? p := fun h =>
    r.counts.get?_congr h
  unfold release
  cases hp : r.counts.get? p with
  | none =>
    cases hq : q.same p with
    | true => simp [count, hsame hq, hp]
    | false => simp
  | some n =>
    have hpos := h.positive p n hp
    simp only
    split
    -- no count is kept of a path that nobody holds
    · show ((r.counts.erase p).get? q).getD 0 = _
      rw [Table.get?_erase, Path.keyed_same]
      cases hq : q.same p with
      | true =>
        simp [count, hsame hq, hp]
        omega
      | false => simp [count]
    · rw [count_set]
      cases hq : q.same p with
      | true => simp [count, hsame hq, hp]
      | false => simp

/-- The count of a path that nobody holds any more is not kept as zero: its
entry goes. -/
theorem counted_release {r : WatchRegistry} (h : r.Counted) (p : Path) :
    (r.release p).Counted := by
  unfold release
  split
  · exact h
  · rename_i n hp
    split
    · refine ⟨h.keys.erase p, fun q m hm => ?_⟩
      rw [Table.get?_erase] at hm
      split at hm
      · cases hm
      · exact h.positive q m hm
    · refine ⟨h.keys.set p (n - 1), fun q m hm => ?_⟩
      rw [Table.get?_set] at hm
      split at hm
      · cases hm
        omega
      · exact h.positive q m hm

/-- Releasing a path touches that path only, and reports it if no set holds it
any more. -/
theorem adjusts_release {r : WatchRegistry} (h : r.Counted) (p : Path) :
    Adjusts (·.same p) r (r.release p) where
  before := h
  after := counted_release h p
  untouched q hq := by
    rw [count_release h, hq]
    rfl
  reported := by
    have hcount := count_release h p
    have hwatched := (counted_release h p).isWatched_eq
    cases hp : r.counts.get? p with
    | none =>
      have heq : r.release p = r := by
        unfold release
        rw [hp]
      rw [heq]
      exact .refl r
    | some n =>
      by_cases hn : n ≤ 1
      · -- the last set that held the path lets go of it
        refine ⟨[.unwatch p], ?_, fun q => ?_⟩
        · unfold release
          simp only [hp, if_pos hn]
        · rw [hwatched, hcount, h.isWatched_eq, callsAbout_unwatch]
          cases hq : q.same p with
          | false => exact (callsBetween_self _).symm
          | true =>
            have hone : r.count q = 1 := by
              rw [r.count_congr hq, count_eq_of_get? hp]
              exact Nat.le_antisymm hn (h.positive p n hp)
            rw [hone]
            rfl
      · refine ⟨[], ?_, fun q => ?_⟩
        · unfold release
          simp only [hp, if_neg hn, List.append_nil]
        · rw [hwatched, hcount, h.isWatched_eq]
          cases hq : q.same p with
          | false => exact (callsBetween_self _).symm
          | true =>
            have hmore : 1 < r.count q := by
              rw [r.count_congr hq, count_eq_of_get? hp]
              exact Nat.lt_of_not_le hn
            have hstill : 0 < r.count q - true.toNat := Nat.sub_pos_of_lt hmore
            rw [decide_eq_true hstill, decide_eq_true (Nat.lt_trans Nat.one_pos hmore)]
            rfl

/-! ## §3. Many paths, each acquired or released once. -/

theorem acquire_rest (r : WatchRegistry) (p : Path) :
    r.acquire p = { r with counts := (r.acquire p).counts, events := (r.acquire p).events } := by
  unfold acquire
  split <;> rfl

theorem release_rest (r : WatchRegistry) (p : Path) :
    r.release p = { r with counts := (r.release p).counts, events := (r.release p).events } := by
  unfold release
  split
  · rfl
  · split <;> rfl

/-- What is done to counts leaves the documents and their sets. -/
theorem foldl_rest {f : WatchRegistry → Path → WatchRegistry}
    (hf : ∀ r p, f r p = { r with counts := (f r p).counts, events := (f r p).events })
    (paths : List Path) :
    ∀ r : WatchRegistry, (paths.foldl f r).registered = r.registered ∧
      (paths.foldl f r).sets = r.sets := by
  induction paths with
  | nil =>
    intro r
    exact ⟨rfl, rfl⟩
  | cons p rest ih =>
    intro r
    obtain ⟨hregistered, hsets⟩ := ih (f r p)
    rw [List.foldl_cons, hregistered, hsets, hf r p]
    exact ⟨rfl, rfl⟩

/-- If a path is different from all others of a list, so are its other
spellings. -/
theorem any_same_eq_false {p : Path} {paths : List Path} (h : ∀ r ∈ paths, p.same r = false)
    {q : Path} (hq : q.same p = true) : paths.any q.same = false := by
  rw [List.any_eq_false]
  intro r hr hqr
  rw [Path.same_comm] at hq
  exact Bool.eq_false_iff.1 (h r hr) (Path.same_trans hq hqr)

/-- Where the paths of a list are different, each occurs once in it, under one
spelling or another. -/
theorem toNat_any_cons {p : Path} {paths : List Path} (h : ∀ r ∈ paths, p.same r = false)
    (q : Path) :
    ((p :: paths).any q.same).toNat = (q.same p).toNat + (paths.any q.same).toNat := by
  rw [List.any_cons]
  cases hq : q.same p with
  | false => rw [Bool.false_or, Bool.toNat_false, Nat.zero_add]
  | true =>
    rw [any_same_eq_false h hq]
    rfl

/-- What adjusts the count of its path can be done for different paths one
after the other. -/
theorem adjusts_foldl {f : WatchRegistry → Path → WatchRegistry}
    (hf : ∀ {r : WatchRegistry}, r.Counted → ∀ p, Adjusts (·.same p) r (f r p))
    (paths : List Path) :
    ∀ {r : WatchRegistry}, r.Counted → paths.Pairwise (fun p q => p.same q = false) →
      Adjusts (fun q => paths.any q.same) r (paths.foldl f r) := by
  induction paths with
  | nil =>
    intro r h _
    exact .refl h
  | cons p rest ih =>
    intro r h hdistinct
    obtain ⟨hp, hrest⟩ := List.pairwise_cons.1 hdistinct
    have hone := hf h p
    exact (hone.trans (ih hone.after hrest) fun q hq => any_same_eq_false hp hq).congr
      fun _ => List.any_cons.symm

/-- Acquiring different paths adds one to the count of each. -/
theorem count_acquireAll (paths : List Path) :
    ∀ r : WatchRegistry, paths.Pairwise (fun p q => p.same q = false) →
      ∀ q, (paths.foldl acquire r).count q = r.count q + (paths.any q.same).toNat := by
  induction paths with
  | nil =>
    intro r _ q
    rfl
  | cons p rest ih =>
    intro r hdistinct q
    obtain ⟨hp, hrest⟩ := List.pairwise_cons.1 hdistinct
    rw [List.foldl_cons, ih _ hrest, count_acquire, toNat_any_cons hp, Nat.add_assoc]

/-- Releasing different paths takes one off the count of each. -/
theorem count_releaseAll (paths : List Path) :
    ∀ {r : WatchRegistry}, r.Counted → paths.Pairwise (fun p q => p.same q = false) →
      ∀ q, (paths.foldl release r).count q = r.count q - (paths.any q.same).toNat := by
  induction paths with
  | nil =>
    intro r _ _ q
    rfl
  | cons p rest ih =>
    intro r h hdistinct q
    obtain ⟨hp, hrest⟩ := List.pairwise_cons.1 hdistinct
    rw [List.foldl_cons, ih (counted_release h p) hrest, count_release h, toNat_any_cons hp,
      Nat.sub_sub]

/-- Of different paths that are counted, each is still counted when its turn to
be released comes. -/
theorem count_pos_of_releaseAll {r : WatchRegistry} (h : r.Counted) {before after : List Path}
    {p : Path} (hdistinct : (before ++ p :: after).Pairwise fun p q => p.same q = false)
    (hp : 0 < r.count p) : 0 < (before.foldl release r).count p := by
  obtain ⟨hbefore, -, hapart⟩ := List.pairwise_append.1 hdistinct
  have hnot : before.any p.same = false := by
    rw [List.any_eq_false]
    intro q hq
    rw [Path.same_comm, hapart q hq p List.mem_cons_self]
    exact Bool.false_ne_true
  rw [count_releaseAll before h hbefore, hnot]
  exact hp

/-! ## §4. Counts of sets. -/

/-- The sets are sets, one for each document that has one, and the count of a
path is the number of sets that hold it. -/
structure Balanced (r : WatchRegistry) : Prop where
  counted : r.Counted
  keys : r.sets.Distinct
  proper : ∀ key s, r.sets.get? key = some s → s.Distinct
  count : ∀ q, r.count q = r.sets.tally (·.contains q)

/-- A path is watched when some set holds it. -/
theorem isWatched_iff {r : WatchRegistry} (h : r.Balanced) (q : Path) :
    r.isWatched q = true ↔ ∃ key s, r.sets.get? key = some s ∧ s.contains q = true := by
  rw [h.counted.isWatched_eq, decide_eq_true_iff, h.count, Table.tally_pos_iff h.keys]

/-- The set of a document, which is empty if it has none, has no path twice. -/
theorem setOf_distinct {r : WatchRegistry} (h : r.Balanced) (key : DocumentKey) :
    (r.setOf key).Distinct := by
  unfold setOf
  cases hs : r.sets.get? key with
  | none => exact List.Pairwise.nil
  | some s => exact h.proper key s hs

theorem setOf_congr (r : WatchRegistry) {k l : DocumentKey} (h : Keyed.same k l = true) :
    r.setOf k = r.setOf l := by
  unfold setOf
  rw [r.sets.get?_congr h]

/-- A path is in the set of a document if there is a set and it holds the path.
-/
theorem contains_setOf (r : WatchRegistry) (key : DocumentKey) (q : Path) :
    (r.setOf key).contains q = (r.sets.get? key).any (·.contains q) := by
  unfold setOf
  cases r.sets.get? key <;> rfl

/-- The set of a document is among those that are counted. -/
theorem toNat_setOf_le {r : WatchRegistry} (h : r.Balanced) (key : DocumentKey) (q : Path) :
    ((r.setOf key).contains q).toNat ≤ r.count q := by
  have herase := Table.tally_erase h.keys key (·.contains q)
  rw [h.count, contains_setOf]
  omega

theorem balanced_empty : empty.Balanced where
  counted := ⟨Table.distinct_empty, fun _ _ h => nomatch h⟩
  keys := Table.distinct_empty
  proper _ _ h := nomatch h
  count _ := rfl

/-- A document that is registered has no set yet. -/
theorem balanced_register {r : WatchRegistry} (h : r.Balanced) (key : DocumentKey) :
    (r.register key).Balanced :=
  ⟨⟨h.counted.keys, h.counted.positive⟩, h.keys, h.proper, h.count⟩

/-! ## §5. A set is replaced. -/

/-- What of a new set was not there before is acquired. -/
def gained (r : WatchRegistry) (key : DocumentKey) (paths : PathSet) : WatchRegistry :=
  (paths.diff (r.setOf key)).foldl acquire { r with sets := r.sets.set key paths }

/-- The set of a document that is not registered is refused, and nothing
changes. -/
theorem setWatched_of_unregistered {r : WatchRegistry} {key : DocumentKey}
    (hkey : r.registered.has key = false) (paths : PathSet) :
    r.setWatched key paths = (false, r) := by
  unfold setWatched
  rw [hkey]
  rfl

/-- The set of a registered document is replaced, what is new in it is acquired,
and then what is missing is released. -/
theorem setWatched_eq {r : WatchRegistry} {key : DocumentKey} (hkey : r.registered.has key = true)
    (paths : PathSet) :
    r.setWatched key paths =
      (true, ((r.setOf key).diff paths).foldl release (r.gained key paths)) := by
  unfold setWatched
  rw [hkey]
  rfl

/-- Replacing a set registers nobody. -/
theorem registered_setWatched (r : WatchRegistry) (key : DocumentKey) (paths : PathSet) :
    (r.setWatched key paths).2.registered = r.registered := by
  cases hkey : r.registered.has key with
  | false => rw [setWatched_of_unregistered hkey]
  | true =>
    rw [setWatched_eq hkey, (foldl_rest release_rest _ _).1]
    exact (foldl_rest acquire_rest _ _).1

/-- Acquiring and releasing leave the sets as they were put down at first. -/
theorem sets_setWatched (r : WatchRegistry) (key : DocumentKey) (paths : PathSet) :
    (r.setWatched key paths).2.sets =
      if r.registered.has key then r.sets.set key paths else r.sets := by
  cases hkey : r.registered.has key with
  | false =>
    rw [setWatched_of_unregistered hkey]
    rfl
  | true =>
    rw [setWatched_eq hkey, (foldl_rest release_rest _ _).2]
    exact (foldl_rest acquire_rest _ _).2

/-- A registered document gets the set; all others keep theirs. -/
theorem get?_setWatched (r : WatchRegistry) (key k : DocumentKey) (paths : PathSet) :
    (r.setWatched key paths).2.sets.get? k =
      if r.registered.has key && k.same key then some paths else r.sets.get? k := by
  rw [sets_setWatched]
  cases r.registered.has key with
  | false => rfl
  | true => rw [if_pos rfl, Table.get?_set, DocumentKey.keyed_same, Bool.true_and]

/-- What is in the new set and was not in the old one has one more to its count.
-/
theorem count_gained (r : WatchRegistry) (key : DocumentKey) {paths : PathSet}
    (hpaths : paths.Distinct) (q : Path) :
    (r.gained key paths).count q =
      r.count q + (paths.contains q && !(r.setOf key).contains q).toNat := by
  have hcount := count_acquireAll (paths.diff (r.setOf key))
    { r with sets := r.sets.set key paths } (PathSet.distinct_diff hpaths _) q
  rw [PathSet.contains_diff] at hcount
  exact hcount

section Replacing

variable {r : WatchRegistry} (h : r.Balanced) (key : DocumentKey) {paths : PathSet}
  (hpaths : paths.Distinct)

include h hpaths

/-- What the new set adds is different paths, so each is acquired once. -/
theorem adjusts_gained :
    Adjusts (fun q => (paths.diff (r.setOf key)).any q.same)
      { r with sets := r.sets.set key paths } (r.gained key paths) :=
  adjusts_foldl adjusts_acquire _ ⟨h.counted.keys, h.counted.positive⟩
    (PathSet.distinct_diff hpaths _)

/-- Acquiring what is new and releasing what is not there any more concern
different paths. -/
theorem adjusts_setWatched (hkey : r.registered.has key = true) :
    Adjusts
      (fun q => (paths.diff (r.setOf key)).any q.same || ((r.setOf key).diff paths).any q.same)
      { r with sets := r.sets.set key paths } (r.setWatched key paths).2 := by
  have hgained := adjusts_gained h key hpaths
  rw [setWatched_eq hkey]
  refine hgained.trans (adjusts_foldl adjusts_release _ hgained.after
    (PathSet.distinct_diff (setOf_distinct h key) _)) fun q hq => ?_
  rw [PathSet.contains_diff, Bool.and_eq_true] at hq
  rw [PathSet.contains_diff, hq.1]
  exact Bool.and_false _

/-- With a set replaced, the counts are still those of the sets. -/
theorem count_setWatched (hkey : r.registered.has key = true) (q : Path) :
    (r.setWatched key paths).2.count q = (r.sets.set key paths).tally (·.contains q) := by
  have hreleased := count_releaseAll ((r.setOf key).diff paths) (adjusts_gained h key hpaths).after
    (PathSet.distinct_diff (setOf_distinct h key) _) q
  have htally := Table.tally_set h.keys key paths (·.contains q)
  rw [setWatched_eq hkey, hreleased, count_gained r key hpaths, PathSet.contains_diff, h.count]
  rw [← contains_setOf] at htally
  -- the path is in the old set or not, and in the new one or not
  cases hold : (r.setOf key).contains q <;> cases hnew : paths.contains q <;>
    simp only [hold, hnew, Bool.toNat_true, Bool.toNat_false, Bool.and_true, Bool.and_false,
      Bool.not_true, Bool.not_false] at htally ⊢ <;> omega

/-- Replacing a set keeps the balance, also if it is refused. -/
theorem balanced_setWatched : (r.setWatched key paths).2.Balanced := by
  cases hkey : r.registered.has key with
  | false =>
    rw [setWatched_of_unregistered hkey]
    exact h
  | true =>
    have hsets := r.sets_setWatched key paths
    rw [if_pos hkey] at hsets
    refine ⟨(adjusts_setWatched h key hpaths hkey).after, ?_, fun k s hs => ?_, fun q => ?_⟩
    · rw [hsets]
      exact h.keys.set key paths
    · rw [get?_setWatched] at hs
      split at hs
      · cases hs
        exact hpaths
      · exact h.proper k s hs
    · rw [hsets]
      exact count_setWatched h key hpaths hkey q

/-- Every path is reported once if replacing the set made a difference to it. -/
theorem reported_setWatched : Reported r (r.setWatched key paths).2 := by
  cases hkey : r.registered.has key with
  | false =>
    rw [setWatched_of_unregistered hkey]
    exact .refl r
  | true => exact (adjusts_setWatched h key hpaths hkey).reported

end Replacing

/-! ## §6. A document is removed. -/

/-- The registry from which what the document watched is released. -/
def forgotten (r : WatchRegistry) (key : DocumentKey) : WatchRegistry :=
  { r with registered := r.registered.erase key, sets := r.sets.erase key }

theorem remove_eq (r : WatchRegistry) (key : DocumentKey) :
    r.remove key = (r.setOf key).paths.foldl release (r.forgotten key) := rfl

theorem registered_remove (r : WatchRegistry) (key : DocumentKey) :
    (r.remove key).registered = r.registered.erase key := by
  rw [remove_eq, (foldl_rest release_rest _ _).1]
  rfl

theorem sets_remove (r : WatchRegistry) (key : DocumentKey) :
    (r.remove key).sets = r.sets.erase key := by
  rw [remove_eq, (foldl_rest release_rest _ _).2]
  rfl

theorem has_remove (r : WatchRegistry) (key k : DocumentKey) :
    (r.remove key).registered.has k = (!k.same key && r.registered.has k) := by
  rw [registered_remove, Table.has_erase, DocumentKey.keyed_same]

theorem get?_remove (r : WatchRegistry) (key k : DocumentKey) :
    (r.remove key).sets.get? k = if k.same key then none else r.sets.get? k := by
  rw [sets_remove, Table.get?_erase, DocumentKey.keyed_same]

section Removing

variable {r : WatchRegistry} (h : r.Balanced) (key : DocumentKey)

include h

/-- What the removed document watched is different paths, so each is released
once. -/
theorem adjusts_remove :
    Adjusts (fun q => (r.setOf key).contains q) (r.forgotten key) (r.remove key) :=
  adjusts_foldl adjusts_release _ ⟨h.counted.keys, h.counted.positive⟩ (setOf_distinct h key)

theorem count_remove (q : Path) :
    (r.remove key).count q = (r.sets.erase key).tally (·.contains q) := by
  have hreleased := count_releaseAll (r.setOf key).paths
    (adjusts_remove h key).before (setOf_distinct h key) q
  have herase := Table.tally_erase h.keys key (·.contains q)
  rw [← contains_setOf, ← h.count] at herase
  have hcount : (r.remove key).count q = r.count q - ((r.setOf key).contains q).toNat := hreleased
  omega

/-- Removing a document keeps the balance. -/
theorem balanced_remove : (r.remove key).Balanced := by
  refine ⟨(adjusts_remove h key).after, ?_, fun k s hs => ?_, fun q => ?_⟩
  · rw [sets_remove]
    exact h.keys.erase key
  · rw [get?_remove] at hs
    split at hs
    · cases hs
    · exact h.proper k s hs
  · rw [sets_remove]
    exact count_remove h key q

/-- Every path is reported once if only this document watched it. -/
theorem reported_remove : Reported r (r.remove key) := (adjusts_remove h key).reported

/-- What is watched afterwards is in the set of another document. -/
theorem isWatched_remove (q : Path) :
    (r.remove key).isWatched q = true ↔ ∃ k s, k.same key = false ∧
      r.sets.get? k = some s ∧ s.contains q = true := by
  rw [isWatched_iff (balanced_remove h key)]
  simp only [get?_remove]
  constructor
  · rintro ⟨k, s, hs, hq⟩
    split at hs
    · cases hs
    · rename_i hother
      exact ⟨k, s, Bool.eq_false_iff.2 hother, hs, hq⟩
  · rintro ⟨k, s, hother, hs, hq⟩
    refine ⟨k, s, ?_, hq⟩
    rw [hother]
    exact hs

end Removing

/-! ## §7. The watched paths. -/

/-- The watched paths are listed in strictly increasing order. -/
theorem watched_increasing {r : WatchRegistry} (h : r.Counted) :
    r.watched.Pairwise fun p q => p.compare q = .lt :=
  Path.pairwise_lt_mergeSort (List.pairwise_map.2 h.keys)

/-- What is listed is what is watched. -/
theorem any_watched (r : WatchRegistry) (q : Path) : r.watched.any q.same = r.isWatched q := by
  unfold watched isWatched Table.has Table.keys
  rw [(List.mergeSort_perm _ _).any_eq, List.any_map]
  rfl

end WatchRegistry

end ParseCache
