/-
  ParseCache.Proofs.Buffers.LastWrite — a buffer store holds what was written
  last.

  The table behind a store has a key and a value for each path, and the two go
  apart: a write to a path that is there keeps the key as it was first spelled,
  while the buffer carries the spelling of the write.  Nobody sees the keys.  Seen
  through look-ups and through the list of buffers, a store is the last write to
  each path that was not followed by a removal, where paths are told apart by
  their components and by nothing else.

  Main results:
    * `latest?_snoc`, `written_iff` — the last write, read off a history;
    * `kept_step`, `kept_run` — every operation keeps a store in line with its
      history;
    * `ncard_components` — counting buffers is counting paths;
    * `last_write_wins` — what a store holds, how many buffers these are, and
      when its point of time moves.
-/
import Mathlib.Data.Set.Card
import ParseCache.Buffers
import ParseCache.Proofs.Table.Keys

namespace ParseCache

/-! ## §1. Histories. -/

/-- What is done to a buffer store, or meanwhile. -/
inductive BufferStep
  | put (path : Path) (content : String)
  | remove (path : Path)
  /-- Somebody else is issued a point of time. -/
  | wait
deriving Repr, DecidableEq

namespace BufferStep

/-- Whether the path is written or removed, in whatever spelling. -/
def about (p : Path) : BufferStep → Bool
  | put path _ => p.same path
  | remove path => p.same path
  | wait => false

/-- The buffer that is written. -/
def buffer? : BufferStep → Option Buffer
  | put path content => some ⟨path, content⟩
  | _ => none

/-- The latest step about a path. -/
def latest? (history : List BufferStep) (p : Path) : Option BufferStep :=
  history.reverse.find? (about p)

/-- The buffer was written to the path, and since then the path was neither
written nor removed. -/
def Written (history : List BufferStep) (p : Path) (b : Buffer) : Prop :=
  ∃ before after, history = before ++ put b.path b.content :: after ∧ p.same b.path = true ∧
    ∀ u ∈ after, u.about p = false

theorem latest?_snoc (history : List BufferStep) (s : BufferStep) (p : Path) :
    latest? (history ++ [s]) p = if s.about p then some s else latest? history p := by
  unfold latest?
  rw [List.reverse_append, List.reverse_singleton, List.singleton_append, List.find?_cons]
  cases s.about p <;> rfl

/-- A path has the buffer that was written last exactly if the latest step about
the path wrote it. -/
theorem written_iff {history : List BufferStep} {p : Path} {b : Buffer} :
    Written history p b ↔ (latest? history p).bind buffer? = some b := by
  rw [Option.bind_eq_some_iff]
  constructor
  · rintro ⟨before, after, rfl, hsame, hafter⟩
    refine ⟨put b.path b.content, ?_, rfl⟩
    unfold latest?
    rw [List.find?_eq_some_iff_append]
    refine ⟨hsame, after.reverse, before.reverse, by simp, fun u hu => ?_⟩
    rw [hafter u (List.mem_reverse.1 hu)]
    rfl
  · rintro ⟨s, hlatest, hbuffer⟩
    unfold latest? at hlatest
    obtain ⟨habout, after, before, hsplit, hafter⟩ := List.find?_eq_some_iff_append.1 hlatest
    cases s with
    | put path content =>
      cases hbuffer
      refine ⟨before.reverse, after.reverse, ?_, habout, fun u hu => ?_⟩
      · rw [List.reverse_eq_iff] at hsplit
        rw [hsplit]
        simp
      · simpa using hafter u (List.mem_reverse.1 hu)
    | remove path => cases hbuffer
    | wait => cases hbuffer

/-- A path has one buffer, in all of its spellings. -/
theorem Written.congr {history : List BufferStep} {p q : Path} {b : Buffer}
    (h : Written history p b) (hpq : p.same q = true) : Written history q b := by
  obtain ⟨before, after, hsplit, hsame, hafter⟩ := h
  have hqp : ∀ path : Path, q.same path = p.same path := fun path =>
    (Keyed.same_congr (κ := Path) hpq path).symm
  refine ⟨before, after, hsplit, by rw [hqp, hsame], fun u hu => ?_⟩
  have hu := hafter u hu
  cases u with
  | put path content => exact (hqp path).trans hu
  | remove path => exact (hqp path).trans hu
  | wait => rfl

end BufferStep

/-! ## §2. One operation. -/

/-- A buffer store, and the clock it takes its points of time from. -/
structure TimedBuffers where
  clock : Clock
  buffers : Buffers
deriving Repr

namespace TimedBuffers

open BufferStep

/-- A new store. -/
def start (clock : Clock) : TimedBuffers := ⟨clock.now.2, .new clock.now.1⟩

/-- One step.  A removal takes a point of time only if it finds something. -/
def step (s : TimedBuffers) : BufferStep → TimedBuffers
  | .put path content => ⟨s.clock.now.2, s.buffers.put path content s.clock.now.1⟩
  | .remove path =>
    match s.buffers.remove path s.clock.now.1 with
    | (true, buffers) => ⟨s.clock.now.2, buffers⟩
    | (false, buffers) => ⟨s.clock, buffers⟩
  | .wait => { s with clock := s.clock.now.2 }

/-- A new store after some steps. -/
def run (clock : Clock) (steps : List BufferStep) : TimedBuffers := steps.foldl step (start clock)

theorem step_remove (s : TimedBuffers) (path : Path) :
    s.step (.remove path) =
      if s.buffers.files.has path then
        ⟨s.clock.now.2, ⟨s.buffers.files.erase path, s.clock.now.1⟩⟩
      else s := by
  show (match s.buffers.remove path s.clock.now.1 with
    | (true, buffers) => (⟨s.clock.now.2, buffers⟩ : TimedBuffers)
    | (false, buffers) => ⟨s.clock, buffers⟩) = _
  unfold Buffers.remove
  cases s.buffers.files.has path with
  | true => rfl
  | false => rfl

/-- The store is in line with the history: it lists every path once, under a key
that means the same as the buffer's own path; a look-up finds what was written
last; and no point of time is ahead of the clock. -/
structure Kept (history : List BufferStep) (s : TimedBuffers) : Prop where
  distinct : s.buffers.files.Distinct
  keyed : ∀ e ∈ s.buffers.files.entries, e.1.same e.2.path = true
  files : ∀ p, s.buffers.file? p = (latest? history p).bind buffer?
  punctual : s.buffers.changed ≤ s.clock.last

theorem kept_start (clock : Clock) : Kept [] (start clock) where
  distinct := Table.distinct_empty
  keyed _ h := absurd h List.not_mem_nil
  files _ := rfl
  punctual := Nat.le_refl _

/-- A write replaces the buffer of its path and keeps the others. -/
theorem kept_put {history : List BufferStep} {s : TimedBuffers} (h : Kept history s)
    (path : Path) (content : String) :
    Kept (history ++ [.put path content]) (s.step (.put path content)) where
  distinct := h.distinct.set path ⟨path, content⟩
  keyed := by
    show ∀ e ∈ (s.buffers.files.set path ⟨path, content⟩).entries, e.1.same e.2.path = true
    intro e he
    unfold Table.set at he
    by_cases hhas : s.buffers.files.has path = true
    · rw [if_pos hhas] at he
      obtain ⟨old, hold, rfl⟩ := List.mem_map.1 he
      -- the old key stays, and means the same as the new path
      by_cases hkey : Keyed.same path old.1 = true
      · rw [if_pos hkey]
        exact (Path.same_comm old.1 path).trans hkey
      · rw [if_neg hkey]
        exact h.keyed old hold
    · rw [if_neg hhas] at he
      rcases List.mem_append.1 he with he | he
      · exact h.keyed e he
      · rw [List.mem_singleton.1 he]
        exact Path.same_refl path
  files p := by
    rw [latest?_snoc]
    show (s.buffers.files.set path ⟨path, content⟩).get? p = _
    rw [Table.get?_set]
    show (if p.same path then some ⟨path, content⟩ else s.buffers.file? p) =
      (if p.same path then some (.put path content) else latest? history p).bind buffer?
    by_cases hsame : p.same path = true
    · rw [if_pos hsame, if_pos hsame]
      rfl
    · rw [if_neg hsame, if_neg hsame]
      exact h.files p
  punctual := Nat.le_refl _

/-- A removal takes the buffer of its path away, if there is one. -/
theorem kept_remove {history : List BufferStep} {s : TimedBuffers} (h : Kept history s)
    (path : Path) : Kept (history ++ [.remove path]) (s.step (.remove path)) := by
  have hlatest : ∀ p, (latest? (history ++ [.remove path]) p).bind buffer? =
      if p.same path then none else s.buffers.file? p := by
    intro p
    rw [latest?_snoc, h.files p]
    show (if p.same path then some (.remove path) else latest? history p).bind buffer? = _
    by_cases hsame : p.same path = true
    · rw [if_pos hsame, if_pos hsame]
      rfl
    · rw [if_neg hsame, if_neg hsame]
  rw [step_remove]
  by_cases hhas : s.buffers.files.has path = true
  · rw [if_pos hhas]
    refine ⟨h.distinct.erase path, fun e he => ?_, fun p => ?_, Nat.le_refl _⟩
    · exact h.keyed e (List.mem_filter.1 he).1
    · rw [hlatest]
      exact Table.get?_erase s.buffers.files path p
  · rw [if_neg hhas]
    refine ⟨h.distinct, h.keyed, fun p => ?_, h.punctual⟩
    rw [hlatest]
    by_cases hsame : p.same path = true
    · -- the path had no buffer in the first place
      rw [if_pos hsame]
      show s.buffers.files.get? p = none
      rw [Table.get?_congr s.buffers.files hsame, ← Option.not_isSome_iff_eq_none,
        ← Table.has_eq_isSome_get?]
      exact hhas
    · rw [if_neg hsame]

theorem kept_step {history : List BufferStep} {s : TimedBuffers} (h : Kept history s)
    (t : BufferStep) : Kept (history ++ [t]) (s.step t) := by
  cases t with
  | put path content => exact kept_put h path content
  | remove path => exact kept_remove h path
  | wait =>
    refine ⟨h.distinct, h.keyed, fun p => ?_, ?_⟩
    · rw [latest?_snoc]
      exact h.files p
    · exact Nat.le_trans h.punctual (Nat.le_of_lt s.clock.last_lt_now)

/-- After any steps the store is in line with them. -/
theorem kept_run (clock : Clock) (steps : List BufferStep) : Kept steps (run clock steps) := by
  induction steps using List.reverseRecOn with
  | nil => exact kept_start clock
  | append_singleton earlier t ih =>
    have hrun : run clock (earlier ++ [t]) = (run clock earlier).step t := List.foldl_append
    rw [hrun]
    exact kept_step ih t

/-! ## §3. The list of buffers. -/

namespace Kept

variable {history : List BufferStep} {s : TimedBuffers}

theorem file?_eq_some_iff (h : Kept history s) {p : Path} {b : Buffer} :
    s.buffers.file? p = some b ↔ Written history p b := by
  rw [h.files, written_iff]

/-- What is listed is what a look-up finds under the path it carries. -/
theorem mem_toList_iff (h : Kept history s) {b : Buffer} :
    b ∈ s.buffers.toList ↔ Written history b.path b := by
  rw [← h.file?_eq_some_iff]
  show b ∈ s.buffers.files.entries.map (·.2) ↔ s.buffers.files.get? b.path = some b
  constructor
  · intro hmem
    obtain ⟨e, he, rfl⟩ := List.mem_map.1 hmem
    refine Table.get?_of_mem h.distinct he ?_
    exact (Path.same_comm e.2.path e.1).trans (h.keyed e he)
  · intro hfound
    obtain ⟨e, he, -, rfl⟩ := Table.mem_of_get? hfound
    exact List.mem_map.2 ⟨e, he, rfl⟩

/-- No two buffers belong to one path. -/
theorem pairwise_toList (h : Kept history s) :
    s.buffers.toList.Pairwise fun b b' => b.path.same b'.path = false := by
  show (s.buffers.files.entries.map (·.2)).Pairwise _
  rw [List.pairwise_map]
  refine List.Pairwise.imp_of_mem (fun {e e'} he he' hne => ?_) h.distinct
  -- the keys are different, and the paths mean the same as the keys
  rw [Bool.eq_false_iff] at hne ⊢
  intro hsame
  refine hne (Path.same_trans (h.keyed e he) (Path.same_trans hsame ?_))
  exact (Path.same_comm e'.2.path e'.1).trans (h.keyed e' he')

/-- There are as many buffers as there are paths with one. -/
theorem ncard_components (h : Kept history s) :
    {components | ∃ p b, p.components = components ∧ Written history p b}.ncard =
      s.buffers.size := by
  have hset : {components | ∃ p b, p.components = components ∧ Written history p b} =
      ((s.buffers.toList.map (·.path.components)).toFinset : Set (List Path.Component)) := by
    ext components
    rw [List.coe_toFinset]
    constructor
    · rintro ⟨p, b, rfl, hwritten⟩
      obtain ⟨-, -, -, hsame, -⟩ := id hwritten
      exact List.mem_map.2 ⟨b, h.mem_toList_iff.2 (hwritten.congr hsame),
        (Path.same_iff.1 hsame).symm⟩
    · intro hmem
      obtain ⟨b, hb, rfl⟩ := List.mem_map.1 hmem
      exact ⟨b.path, b, rfl, h.mem_toList_iff.1 hb⟩
  have hnodup : (s.buffers.toList.map (·.path.components)).Nodup := by
    rw [List.Nodup, List.pairwise_map]
    refine List.Pairwise.imp (fun {b b'} hne heq => ?_) h.pairwise_toList
    exact Bool.eq_false_iff.1 hne (Path.same_iff.2 heq)
  rw [hset, Set.ncard_coe_finset, List.toFinset_card_of_nodup hnodup, List.length_map]
  exact List.length_map _

end Kept

/-! ## §4. What a store is. -/

/-- The store is what its history says, and so is what it does next: it has the
buffer of the last write to each path, unless that path was removed since; it
counts and lists these buffers, each with the path it was written to; and its
point of time moves with every write and with every removal of a buffer. -/
structure LastWrites (history : List BufferStep) (s : TimedBuffers) : Prop where
  file : ∀ p b, s.buffers.file? p = some b ↔ Written history p b
  content : ∀ p content, s.buffers.content? p = some content ↔
    ∃ path, Written history p ⟨path, content⟩
  removes : ∀ p time, (s.buffers.remove p time).1 = true ↔ ∃ b, Written history p b
  size : s.buffers.size =
    {components | ∃ p b, p.components = components ∧ Written history p b}.ncard
  listed : ∀ b, b ∈ s.buffers.toList ↔ Written history b.path b
  once : s.buffers.toList.Pairwise fun b b' => b.path.same b'.path = false
  put_later : ∀ path content, s.buffers.changed < (s.step (.put path content)).buffers.changed
  remove_later : ∀ p b, Written history p b →
    s.buffers.changed < (s.step (.remove p)).buffers.changed
  remove_same : ∀ p, (¬ ∃ b, Written history p b) → s.step (.remove p) = s

/-- Of all that was done to a path, in any spelling, a store remembers the last
write, and forgets that with a removal. -/
theorem last_write_wins (clock : Clock) (steps : List BufferStep) :
    LastWrites steps (run clock steps) := by
  have hkept := kept_run clock steps
  have hhas : ∀ p, (run clock steps).buffers.files.has p = true ↔ ∃ b, Written steps p b := by
    intro p
    rw [Table.has_eq_isSome_get?, Option.isSome_iff_exists]
    exact exists_congr fun b => hkept.file?_eq_some_iff
  have hlater : (run clock steps).buffers.changed < (run clock steps).clock.now.1 :=
    Nat.lt_of_le_of_lt hkept.punctual (run clock steps).clock.last_lt_now
  refine
    { file := fun p b => hkept.file?_eq_some_iff
      content := fun p content => ?content
      removes := fun p time => ?removes
      size := hkept.ncard_components.symm
      listed := fun b => hkept.mem_toList_iff
      once := hkept.pairwise_toList
      put_later := fun path content => hlater
      remove_later := fun p b hwritten => ?later
      remove_same := fun p hnone => ?same }
  case content =>
    show ((run clock steps).buffers.file? p).map (·.content) = some content ↔ _
    rw [Option.map_eq_some_iff]
    constructor
    · rintro ⟨b, hb, rfl⟩
      exact ⟨b.path, hkept.file?_eq_some_iff.1 hb⟩
    · rintro ⟨path, hwritten⟩
      exact ⟨⟨path, content⟩, hkept.file?_eq_some_iff.2 hwritten, rfl⟩
  case removes =>
    rw [← hhas]
    unfold Buffers.remove
    cases (run clock steps).buffers.files.has p with
    | true => exact ⟨fun _ => rfl, fun _ => rfl⟩
    | false => exact ⟨nofun, nofun⟩
  case later =>
    rw [step_remove, if_pos ((hhas p).2 ⟨b, hwritten⟩)]
    exact hlater
  case same =>
    rw [step_remove, if_neg fun h => hnone ((hhas p).1 h)]

/-- Three spellings of one path: the buffer is the one written last, in the
spelling of that write. -/
example :
    (run .start [.put ⟨"src/a.c"⟩ "1", .put ⟨"src//a.c"⟩ "2", .remove ⟨"b.c"⟩,
      .put ⟨"src/./a.c"⟩ "3"]).buffers.toList = [⟨⟨"src/./a.c"⟩, "3"⟩] := by decide

end TimedBuffers

end ParseCache
