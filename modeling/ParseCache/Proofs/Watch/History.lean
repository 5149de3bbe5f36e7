/-
  ParseCache.Proofs.Watch.History — a watch registry is what its history says.

  Seen from outside, a registry is a finite function from documents to sets:
  a document has the set it was given last, unless it was not registered then
  or has been removed since.  The registry keeps counts and calls a watcher
  besides.  All of that is determined by the history of its operations, and
  here it is read off the history, without the counts.

  Main results:
    * `since_snoc` — how "some step did, and none since undid it" goes on with
      one more step;
    * `follows_step` — every operation keeps a registry in step with its
      history;
    * `refines_run` — after any operations the registry is the function of
      documents that its history describes, its counts count the documents of
      that function, and the watcher was told of every change once.
-/
import Mathlib.Data.List.Chain
import ParseCache.Proofs.Watch.Balance

namespace ParseCache

/-! ## §1. Histories. -/

/-- An operation of a watch registry. -/
inductive WatchStep
  | register (key : DocumentKey)
  | set (key : DocumentKey) (paths : List Path)
  | remove (key : DocumentKey)
deriving Repr, DecidableEq

namespace WatchStep

variable {happens : List WatchStep → WatchStep → Prop} {undoes : WatchStep → Prop}

/-- Whether a document with the key is registered. -/
def registers (key : DocumentKey) : WatchStep → Bool
  | register k => key.same k
  | _ => false

/-- Whether a document with the key is removed. -/
def removes (key : DocumentKey) : WatchStep → Bool
  | remove k => key.same k
  | _ => false

/-- The set that is asked for, if it is for a document with the key. -/
def asks? (key : DocumentKey) : WatchStep → Option PathSet
  | set k paths => if key.same k then some (.ofList paths) else none
  | _ => none

/-- In the history some step happened, given the steps before it, and none
since has undone it. -/
def Since (happens : List WatchStep → WatchStep → Prop) (undoes : WatchStep → Prop)
    (history : List WatchStep) : Prop :=
  ∃ before s after, history = before ++ s :: after ∧ happens before s ∧ ∀ u ∈ after, ¬ undoes u

theorem not_since_nil : ¬ Since happens undoes [] := by
  rintro ⟨before, s, after, hsplit, -⟩
  exact List.append_ne_nil_of_right_ne_nil before (List.cons_ne_nil s after) hsplit.symm

/-- The latest step is the one that happened, or it has not undone the one that
did. -/
theorem since_snoc (history : List WatchStep) (s : WatchStep) :
    Since happens undoes (history ++ [s]) ↔
      happens history s ∨ Since happens undoes history ∧ ¬ undoes s := by
  constructor
  · rintro ⟨before, t, after, hsplit, hhappens, hkept⟩
    rcases List.eq_nil_or_concat after with rfl | ⟨after, u, rfl⟩
    · obtain ⟨rfl, hlast⟩ := List.append_inj' hsplit rfl
      cases hlast
      exact Or.inl hhappens
    · rw [List.concat_eq_append, ← List.cons_append, ← List.append_assoc] at hsplit
      obtain ⟨rfl, hlast⟩ := List.append_inj' hsplit rfl
      cases hlast
      rw [List.concat_eq_append] at hkept
      exact Or.inr ⟨⟨before, t, after, rfl, hhappens,
        fun v hv => hkept v (List.mem_append_left _ hv)⟩,
        hkept s (List.mem_append_right _ (List.mem_singleton_self s))⟩
  · rintro (hhappens | ⟨⟨before, t, after, rfl, hhappens, hkept⟩, hs⟩)
    · exact ⟨history, s, [], rfl, hhappens, fun _ hu => absurd hu List.not_mem_nil⟩
    · refine ⟨before, t, after ++ [s], by rw [List.append_assoc]; rfl, hhappens, fun u hu => ?_⟩
      rcases List.mem_append.1 hu with hu | hu
      · exact hkept u hu
      · rwa [List.mem_singleton.1 hu]

/-- A document with the key was registered, and none has been removed since. -/
def Registered (history : List WatchStep) (key : DocumentKey) : Prop :=
  Since (fun _ s => s.registers key = true) (fun u => u.removes key = true) history

/-- The set `paths` was asked for while the document was registered; since then
it has not been removed, and no other set was asked for. -/
def Accepted (history : List WatchStep) (key : DocumentKey) (paths : PathSet) : Prop :=
  Since (fun before s => s.asks? key = some paths ∧ Registered before key)
    (fun u => u.removes key = true ∨ (u.asks? key).isSome = true) history

theorem registered_snoc_register (history : List WatchStep) (k key : DocumentKey) :
    Registered (history ++ [register k]) key ↔ key.same k = true ∨ Registered history key := by
  unfold Registered
  rw [since_snoc]
  exact or_congr_right (and_iff_left Bool.false_ne_true)

/-- A set neither registers a document nor removes it. -/
theorem registered_snoc_set (history : List WatchStep) (k key : DocumentKey) (paths : List Path) :
    Registered (history ++ [set k paths]) key ↔ Registered history key := by
  unfold Registered
  rw [since_snoc]
  exact (or_iff_right Bool.false_ne_true).trans (and_iff_left Bool.false_ne_true)

/-- A removal takes back the registration of its document under any spelling. -/
theorem registered_snoc_remove (history : List WatchStep) (k key : DocumentKey) :
    Registered (history ++ [remove k]) key ↔ Registered history key ∧ ¬ key.same k = true := by
  unfold Registered
  rw [since_snoc]
  exact or_iff_right Bool.false_ne_true

/-- A registration gives no set to anybody. -/
theorem accepted_snoc_register (history : List WatchStep) (k key : DocumentKey) (s : PathSet) :
    Accepted (history ++ [register k]) key s ↔ Accepted history key s := by
  unfold Accepted
  rw [since_snoc]
  simp [asks?, removes]

/-- A registered document has the set it asked for last. -/
theorem accepted_snoc_set (history : List WatchStep) (k key : DocumentKey) (paths : List Path)
    (s : PathSet) :
    Accepted (history ++ [set k paths]) key s ↔
      key.same k = true ∧ PathSet.ofList paths = s ∧ Registered history key ∨
        Accepted history key s ∧ ¬ key.same k = true := by
  unfold Accepted
  rw [since_snoc]
  cases hkey : key.same k with
  | false => simp [asks?, removes, hkey]
  | true => simp [asks?, removes, hkey]

/-- A removal takes back the set of its document. -/
theorem accepted_snoc_remove (history : List WatchStep) (k key : DocumentKey) (s : PathSet) :
    Accepted (history ++ [remove k]) key s ↔ Accepted history key s ∧ ¬ key.same k = true := by
  unfold Accepted
  rw [since_snoc]
  simp [asks?, removes]

/-- A document with a set is registered. -/
theorem Accepted.registered {history : List WatchStep} {key : DocumentKey} {s : PathSet}
    (h : Accepted history key s) : Registered history key := by
  obtain ⟨_, t, after, rfl, ⟨hasks, before, r, between, rfl, hr, hbetween⟩, hafter⟩ := h
  refine ⟨before, r, between ++ t :: after, by simp, hr, fun u hu => ?_⟩
  rcases List.mem_append.1 hu with hu | hu
  · exact hbetween u hu
  · rcases List.mem_cons.1 hu with rfl | hu
    · -- a step that asks for a set removes nothing
      cases u with
      | set k paths => exact Bool.false_ne_true
      | register k => cases hasks
      | remove k => cases hasks
    · exact fun hremoves => hafter u hu (Or.inl hremoves)

end WatchStep

namespace WatchRegistry

open WatchEvent WatchStep

/-- One operation. -/
def step (r : WatchRegistry) : WatchStep → WatchRegistry
  | .register key => r.register key
  | .set key paths => (r.setWatched key (.ofList paths)).2
  | .remove key => r.remove key

/-- A registry after operations. -/
def run (steps : List WatchStep) : WatchRegistry := steps.foldl step empty

/-- Where an operation begins to release paths, and the paths it releases. -/
def releases (r : WatchRegistry) : WatchStep → WatchRegistry × List Path
  | .register key => (r.register key, [])
  | .set key paths =>
    if r.registered.has key then
      (r.gained key (.ofList paths), (r.setOf key).diff (.ofList paths))
    else (r, [])
  | .remove key => (r.forgotten key, (r.setOf key).paths)

theorem releases_set (r : WatchRegistry) (key : DocumentKey) (paths : List Path) :
    r.releases (.set key paths) =
      if r.registered.has key then
        (r.gained key (.ofList paths), (r.setOf key).diff (.ofList paths))
      else (r, []) := rfl

/-- Every operation ends with its releases. -/
theorem step_eq_releases (r : WatchRegistry) (s : WatchStep) :
    r.step s = (r.releases s).2.foldl release (r.releases s).1 := by
  cases s with
  | register key => rfl
  | remove key => rfl
  | set key paths =>
    show (r.setWatched key (.ofList paths)).2 = _
    rw [releases_set]
    cases hkey : r.registered.has key with
    | false =>
      rw [setWatched_of_unregistered hkey]
      rfl
    | true =>
      rw [setWatched_eq hkey]
      rfl

/-! ## §2. Calls on the watcher. -/

/-- The calls about a path begin with a watch, go back and forth, and leave the
path watched or not. -/
structure Alternates (calls : List Bool) (watched : Bool) : Prop where
  chain : calls.IsChain (· ≠ ·)
  first : calls.head?.getD true = true
  last : calls.getLast?.getD false = watched

/-- One more call, if it is due, goes on with the alternation. -/
theorem Alternates.append {calls : List Bool} {b : Bool} (h : Alternates calls b) (b' : Bool) :
    Alternates (calls ++ callsBetween b b') b' := by
  by_cases hb : b = b'
  · subst hb
    rw [callsBetween_self, List.append_nil]
    exact h
  · have hone : callsBetween b b' = [b'] := by
      cases b <;> cases b' <;> first | rfl | exact absurd rfl hb
    rw [hone]
    refine ⟨?_, ?_, ?_⟩
    · rw [List.isChain_append]
      refine ⟨h.chain, List.isChain_singleton b', fun x hx y hy => ?_⟩
      -- the latest call said `b`
      have hx : calls.getLast? = some x := hx
      have hlast := h.last
      rw [hx] at hlast
      cases hlast
      cases hy
      exact hb
    · cases calls with
      | nil =>
        have hfalse : false = b := h.last
        cases b' with
        | true => rfl
        | false => exact absurd hfalse.symm hb
      | cons c rest => exact h.first
    · rw [List.getLast?_append]
      rfl

/-! ## §3. One operation. -/

/-- Whatever the operation, the counts are those of the sets. -/
theorem balanced_step {r : WatchRegistry} (h : r.Balanced) (s : WatchStep) :
    (r.step s).Balanced := by
  cases s with
  | register key => exact balanced_register h key
  | set key paths => exact balanced_setWatched h key (PathSet.distinct_ofList paths)
  | remove key => exact balanced_remove h key

/-- Whatever the operation, the calls are the difference it makes. -/
theorem reported_step {r : WatchRegistry} (h : r.Balanced) (s : WatchStep) :
    Reported r (r.step s) := by
  cases s with
  | register key => exact .refl r
  | set key paths => exact reported_setWatched h key (PathSet.distinct_ofList paths)
  | remove key => exact reported_remove h key

/-- A path is counted when an operation releases it. -/
theorem count_pos_of_releases {r : WatchRegistry} (h : r.Balanced) (s : WatchStep)
    {before after : List Path} {p : Path} (hsplit : (r.releases s).2 = before ++ p :: after) :
    0 < (before.foldl release (r.releases s).1).count p := by
  have hmem : p ∈ (r.releases s).2 := by
    rw [hsplit]
    exact List.mem_append_right _ List.mem_cons_self
  -- what is released was in the set of the document
  have hset : ∀ {key : DocumentKey}, p ∈ (r.setOf key).paths → 0 < r.count p := by
    intro key hp
    have hle := toNat_setOf_le h key p
    have hcontains : (r.setOf key).contains p = true :=
      List.any_eq_true.2 ⟨p, hp, Path.same_refl p⟩
    rw [hcontains] at hle
    exact hle
  cases s with
  | register key => exact absurd hmem List.not_mem_nil
  | remove key =>
    have hdistinct := setOf_distinct h key
    unfold PathSet.Distinct at hdistinct
    rw [show (r.setOf key).paths = before ++ p :: after from hsplit] at hdistinct
    exact count_pos_of_releaseAll (adjusts_remove h key).before hdistinct (hset hmem)
  | set key paths =>
    rw [releases_set] at hsplit hmem ⊢
    cases hkey : r.registered.has key with
    | false =>
      rw [hkey] at hmem
      exact absurd hmem List.not_mem_nil
    | true =>
      simp only [hkey, if_true] at hsplit hmem ⊢
      have hpaths := PathSet.distinct_ofList paths
      have hdistinct := PathSet.distinct_diff (setOf_distinct h key) (.ofList paths)
      rw [hsplit] at hdistinct
      refine count_pos_of_releaseAll (adjusts_gained h key hpaths).after hdistinct ?_
      rw [count_gained r key hpaths]
      exact Nat.lt_of_lt_of_le (hset (List.mem_filter.1 hmem).1) (Nat.le_add_right _ _)

/-- A registry is in step with a history: it has the documents and the sets of
the history, its counts are right, and the calls so far fit. -/
structure Follows (history : List WatchStep) (r : WatchRegistry) : Prop where
  balanced : r.Balanced
  registered : ∀ key, r.registered.has key = true ↔ Registered history key
  sets : ∀ key s, r.sets.get? key = some s ↔ Accepted history key s
  calls : ∀ q, Alternates (callsAbout q r.events) (r.isWatched q)

theorem follows_empty : Follows [] empty where
  balanced := balanced_empty
  registered _ := ⟨nofun, fun h => absurd h not_since_nil⟩
  sets _ _ := ⟨nofun, fun h => absurd h not_since_nil⟩
  calls _ := ⟨List.IsChain.nil, rfl, rfl⟩

/-- One more operation, one more step of the history. -/
theorem follows_step {history : List WatchStep} {r : WatchRegistry} (h : Follows history r)
    (s : WatchStep) : Follows (history ++ [s]) (r.step s) where
  balanced := balanced_step h.balanced s
  registered key := by
    have hold := h.registered key
    cases s with
    | register k =>
      rw [registered_snoc_register, ← hold]
      show (r.registered.set k ()).has key = true ↔ _
      rw [Table.has_set, Bool.or_eq_true]
      rfl
    | set k paths =>
      rw [registered_snoc_set, ← hold]
      show (r.setWatched k _).2.registered.has key = true ↔ _
      rw [registered_setWatched]
    | remove k =>
      rw [registered_snoc_remove, ← hold]
      show (r.remove k).registered.has key = true ↔ _
      rw [has_remove, Bool.and_eq_true, Bool.not_eq_true', Bool.not_eq_true, and_comm]
  sets key s' := by
    have hold := h.sets key s'
    cases s with
    | register k =>
      rw [accepted_snoc_register]
      exact hold
    | set k paths =>
      rw [accepted_snoc_set, ← hold, ← h.registered]
      show (r.setWatched k _).2.sets.get? key = some s' ↔ _
      rw [get?_setWatched]
      cases hkey : key.same k with
      | false => simp
      | true =>
        have hhas : r.registered.has key = r.registered.has k := Table.has_congr _ hkey
        rw [hhas]
        cases hk : r.registered.has k with
        | true => simp
        | false =>
          -- a document that is not registered has no set, and gets none
          have hnone : ¬ r.sets.get? key = some s' := by
            intro hs'
            have hregistered := (h.registered key).2 (hold.1 hs').registered
            rw [hhas, hk] at hregistered
            cases hregistered
          simp [hnone]
    | remove k =>
      rw [accepted_snoc_remove, ← hold]
      show (r.remove k).sets.get? key = some s' ↔ _
      rw [get?_remove]
      cases key.same k with
      | false => simp
      | true => simp
  calls q := by
    obtain ⟨later, hevents, hlater⟩ := reported_step h.balanced s
    rw [hevents, callsAbout_append, hlater]
    exact (h.calls q).append _

/-- A registry follows its history through any number of operations. -/
theorem follows_foldl (steps : List WatchStep) :
    ∀ {history : List WatchStep} {r : WatchRegistry}, Follows history r →
      Follows (history ++ steps) (steps.foldl step r) := by
  induction steps with
  | nil =>
    intro history r h
    rw [List.append_nil]
    exact h
  | cons s rest ih =>
    intro history r h
    have hrest := ih (follows_step h s)
    rw [List.append_assoc] at hrest
    exact hrest

theorem follows_run (steps : List WatchStep) : Follows steps (run steps) :=
  follows_foldl steps follows_empty

/-! ## §4. What a history says. -/

/-- The registry is what the history says: a document gets a set if it is
registered, and has the set it got last; a path has the number of documents
that have it in their sets, if there are any; it is watched if there are; and
the watcher was told so by turns. -/
structure Refines (history : List WatchStep) (r : WatchRegistry) : Prop where
  accepts : ∀ key paths, (r.setWatched key paths).1 = true ↔ Registered history key
  sets : ∀ key s, r.sets.get? key = some s ↔ Accepted history key s
  counts : ∀ q, ∃ holders : List DocumentKey,
    holders.Pairwise (fun k l => k.same l = false) ∧
    (∀ key, (∃ s, Accepted history key s ∧ s.contains q = true) ↔
      ∃ l ∈ holders, key.same l = true) ∧
    r.counts.get? q = if holders = [] then none else some holders.length
  watched : ∀ q, r.isWatched q = true ↔ ∃ key s, Accepted history key s ∧ s.contains q = true
  calls : ∀ q, Alternates (callsAbout q r.events) (r.isWatched q)

/-- One operation is exact: it tells the watcher once of every path that is
watched now and was not, or the other way round, and of nothing else; and
whenever it releases a path, the path is counted. -/
structure Exact (r : WatchRegistry) (s : WatchStep) : Prop where
  reported : Reported r (r.step s)
  releasing : r.step s = (r.releases s).2.foldl release (r.releases s).1
  counted : ∀ before p after, (r.releases s).2 = before ++ p :: after →
    0 < (before.foldl release (r.releases s).1).count p

theorem Follows.refines {history : List WatchStep} {r : WatchRegistry} (h : Follows history r) :
    Refines history r where
  accepts key paths := by
    rw [← h.registered key]
    cases hkey : r.registered.has key with
    | false => rw [setWatched_of_unregistered hkey]
    | true => rw [setWatched_eq hkey]
  sets := h.sets
  counts q := by
    have hkeys := h.balanced.keys
    -- the holders are the keys whose sets hold the path
    refine ⟨r.sets.keysWhere (·.contains q), hkeys.keysWhere _, fun key => ?_, ?_⟩
    · refine Iff.trans ?_ (Table.get?_any_iff hkeys (·.contains q) key)
      simp only [Option.any_eq_true, h.sets]
    · have hlength := r.sets.length_keysWhere (·.contains q)
      rw [← h.balanced.count] at hlength
      cases hq : r.counts.get? q with
      | none =>
        rw [count_eq_zero_of_get? hq] at hlength
        rw [if_pos (List.length_eq_zero_iff.1 hlength)]
      | some n =>
        rw [count_eq_of_get? hq] at hlength
        have hne : r.sets.keysWhere (·.contains q) ≠ [] := by
          rw [← List.length_pos_iff, hlength]
          exact h.balanced.counted.positive q n hq
        rw [if_neg hne, hlength]
  watched q := by
    rw [isWatched_iff h.balanced]
    simp only [h.sets]
  calls := h.calls

/-- After any operations the registry is what they say, and the next operation
is exact. -/
theorem refines_run (steps : List WatchStep) :
    Refines steps (run steps) ∧ ∀ s, Exact (run steps) s :=
  ⟨(follows_run steps).refines, fun s =>
    ⟨reported_step (follows_run steps).balanced s, step_eq_releases _ s, fun _ _ _ hsplit =>
      count_pos_of_releases (follows_run steps).balanced s hsplit⟩⟩

/-- A path that two documents have, in two spellings, is unwatched when the
second lets go of it; a document that is not registered any more gets nothing. -/
example :
    (run [.register ⟨⟨"a.c"⟩, "p"⟩, .register ⟨⟨"b.c"⟩, "p"⟩,
      .set ⟨⟨"a.c"⟩, "p"⟩ [⟨"x.h"⟩, ⟨"a.h"⟩], .set ⟨⟨"b.c"⟩, "p"⟩ [⟨"x.h//"⟩],
      .remove ⟨⟨"a.c"⟩, "p"⟩, .set ⟨⟨"a.c"⟩, "p"⟩ [⟨"x.h"⟩], .remove ⟨⟨"b.c"⟩, "p"⟩]).events =
    [.watch ⟨"x.h"⟩, .watch ⟨"a.h"⟩, .unwatch ⟨"a.h"⟩, .unwatch ⟨"x.h//"⟩] := by
  decide

end WatchRegistry

end ParseCache
