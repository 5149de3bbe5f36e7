/-
  ParseCache.Proofs.Collection.Watches — what is watched is what the held
  documents depend on.

  The dependencies of a document are kept with the document, its watches in the
  registry.  They are made equal when a result arrives that replaces the
  dependencies, and nothing else touches either; but a document may have been
  evicted by then, and another one may have come under its key.  A result that
  arrives for a document whose key belongs to another one is ruled out here.

  Main results:
    * `Agrees` — the registry has the dependencies of every held document that
      was ever updated with success, and nothing else;
    * `lasting_agrees`, `agrees_incorporate` — occurrences and results keep it
      so;
    * `mirrors_of_followed` — in every state the watched paths are the
      dependencies of the held documents that were updated with success.
-/
import ParseCache.Proofs.Collection.Registration

namespace ParseCache

variable {ι υ σ : Type}

namespace Workspace

/-! ## §1. Runs. -/

/-- No other held document has the key. -/
def Alone (w : Workspace ι υ σ) (n : Nat) (key : DocumentKey) : Prop :=
  ∀ m ∈ w.held, ∀ d, w.documents[m]? = some d → d.key.same key = true → m = n

/-- A cache in use, with the documents that were updated with success so far.
Engines are orderly, and a result arrives for a document while no other held
document has its key, whether at the end of an update or by itself. -/
inductive Followed : Workspace ι υ σ → List Nat → Prop
  | start (disk : Disk) (requireFiles : Bool) (context : σ) :
      Followed (.new disk requireFiles context) []
  | meanwhile {w w' : Workspace ι υ σ} {settled : List Nat} (h : Followed w settled)
      (hmeanwhile : Meanwhile w w') : Followed w' settled
  | update {w : Workspace ι υ σ} {settled : List Nat} (h : Followed w settled)
      {e : Engine ι υ σ} (he : e.Orderly) (mode : UpdateMode) {n : Nat} {d : Document ι υ}
      (hd : w.documents[n]? = some d) (halone : (w.outcome e mode d).2.Alone n d.key) :
      Followed (w.update e mode n)
        (if Document.installs (w.outcome e mode d).1.result then n :: settled else settled)
  | incorporate {w : Workspace ι υ σ} {settled : List Nat} (h : Followed w settled) {n : Nat}
      {d : Document ι υ} (hd : w.documents[n]? = some d) (halone : w.Alone n d.key)
      {r : UpdateResult} (hr : r.dependencies.Distinct) :
      Followed (w.incorporate n r) (if Document.installs r then n :: settled else settled)

/-! ## §2. What every step preserves. -/

/-- A held document has its dependencies as its set if it was updated with
success, and no set otherwise. -/
structure Agrees (settled : List Nat) (w : Workspace ι υ σ) : Prop extends Tidy w where
  balanced : w.watches.Balanced
  numbered : ∀ n ∈ settled, n < w.documents.length
  sets : ∀ n ∈ w.held, ∀ d, w.documents[n]? = some d →
    w.watches.sets.get? d.key = if n ∈ settled then some d.dependencies else none

/-- No document was updated, and there is no set. -/
theorem agrees_new (disk : Disk) (requireFiles : Bool) (context : σ) :
    (new disk requireFiles context : Workspace ι υ σ).Agrees [] where
  toTidy := tidy_new disk requireFiles context
  balanced := WatchRegistry.balanced_empty
  numbered _ h := absurd h List.not_mem_nil
  sets _ h := absurd h List.not_mem_nil

/-- Occurrences keep the registry in agreement: a document that comes has no set
yet, one that goes takes its set with it, and no other set is touched. -/
theorem lasting_agrees (settled : List Nat) :
    Lasting fun w : Workspace ι υ σ => w.Agrees settled where
  named h := h.named
  known h := h.known
  stays h hstays := by
    refine ⟨tidy_stays h.toTidy hstays, ?_, ?_, fun n hn d hd => ?_⟩
    · rw [hstays.watches]
      exact h.balanced
    · rw [hstays.length]
      exact h.numbered
    · obtain ⟨d₀, hd₀, hkey, hdependencies⟩ := hstays.before hd
      rw [hstays.held] at hn
      rw [hstays.watches, hkey, hdependencies]
      exact h.sets n hn d₀ hd₀
  come {w} d h hkey := by
    refine ⟨tidy_come h.toTidy d, WatchRegistry.balanced_register h.balanced d.key, ?_,
      fun n hn d' hd' => ?_⟩
    · intro n hn
      rw [length_come]
      exact Nat.lt_succ_of_lt (h.numbered n hn)
    · rcases mem_held_come.1 hn with rfl | hn
      · -- the document that has come was never updated, and had no predecessor
        rw [getElem?_come_self] at hd'
        cases hd'
        have hnot : w.documents.length ∉ settled := fun hmem =>
          Nat.lt_irrefl _ (h.numbered _ hmem)
        rw [if_neg hnot]
        exact h.get?_eq_none hkey
      · rw [getElem?_come_of_lt d (h.known n hn)] at hd'
        exact h.sets n hn d' hd'
  evict {w} key h := by
    refine ⟨tidy_evict h.toTidy key, WatchRegistry.balanced_remove h.balanced key, h.numbered,
      fun n hn d hd => ?_⟩
    obtain ⟨hn, hany⟩ := mem_held_evict.1 hn
    have hd : w.documents[n]? = some d := hd
    rw [hd, Option.any_some] at hany
    show (w.watches.remove key).sets.get? d.key = _
    rw [WatchRegistry.get?_remove, hany]
    exact h.sets n hn d hd
  withoutParts ids h :=
    ⟨lasting_tidy.withoutParts ids h.toTidy, h.balanced, h.numbered, h.sets⟩

/-- A result for a document whose key no other held document has. -/
theorem agrees_incorporate {w : Workspace ι υ σ} {settled : List Nat} (h : w.Agrees settled)
    {n : Nat} {d : Document ι υ} (hd : w.documents[n]? = some d) (halone : w.Alone n d.key)
    {r : UpdateResult} (hr : r.dependencies.Distinct) :
    (w.incorporate n r).Agrees (if Document.installs r then n :: settled else settled) := by
  have hwatches := watches_incorporate hd r
  have hpaths := PathSet.distinct_insert hr d.key.path
  have hlt : n < w.documents.length := (List.getElem?_eq_some_iff.1 hd).1
  refine ⟨tidy_incorporate h.toTidy n r, ?_, ?_, fun m hm d' hd' => ?_⟩
  · rw [hwatches]
    split
    · exact WatchRegistry.balanced_setWatched h.balanced d.key hpaths
    · exact h.balanced
  · rw [length_incorporate]
    intro m hm
    split at hm
    · rcases List.mem_cons.1 hm with rfl | hm
      · exact hlt
      · exact h.numbered m hm
    · exact h.numbered m hm
  · rw [held_incorporate] at hm
    obtain ⟨d₀, hd₀, hkey, hdependencies⟩ := before_incorporate hd'
    have hold := h.sets m hm d₀ hd₀
    rw [hkey]
    cases hinstalls : Document.installs r with
    | false => simpa [hwatches, hinstalls, hdependencies] using hold
    | true =>
      rw [if_pos rfl]
      by_cases hmn : n = m
      · subst hmn
        rw [hd] at hd₀
        cases hd₀
        rw [get?_incorporate_self h.toTidy hd hm hinstalls, if_pos List.mem_cons_self,
          hdependencies, if_pos ⟨rfl, hinstalls⟩]
      · -- the other held documents have other keys
        have hapart : d₀.key.same d.key = false := by
          rw [Bool.eq_false_iff]
          intro hsame
          exact hmn (halone m hm d₀ hd₀ hsame).symm
        have hkept : d'.dependencies = d₀.dependencies := by
          rw [hdependencies, if_neg fun hself => hmn hself.1]
        rw [get?_incorporate_of_ne hd r hapart, hold, hkept]
        simp only [List.mem_cons, Ne.symm hmn, false_or]

/-- The registry agrees with the documents in every state of a cache in use. An
update is its engine at work, during which other things may occur, and then the
result that arrives. -/
theorem agrees_of_followed {w : Workspace ι υ σ} {settled : List Nat} (h : Followed w settled) :
    w.Agrees settled := by
  induction h with
  | start disk requireFiles context => exact agrees_new disk requireFiles context
  | meanwhile _ hmeanwhile ih => exact (lasting_agrees _).meanwhile ih hmeanwhile
  | @update w settled _ e he mode n d hd halone ih =>
    have harrived : (w.outcome e mode d).2.Agrees settled :=
      (lasting_agrees _).meanwhile ih (Engine.meanwhile_run he _ _ w mode)
    have hstays := stays_supplied w e mode n d
    obtain ⟨d', hd', hkey'⟩ := key_supplied ih.toTidy he mode hd
    rw [update_eq_incorporate hd]
    refine agrees_incorporate ((lasting_agrees _).stays harrived hstays) hd' ?_
      (Engine.distinct_run he _ _ w mode)
    -- nothing comes or goes when the document is given its resources
    intro m hm d₁ hd₁ hsame
    obtain ⟨d₀, hd₀, hkey₀, -⟩ := hstays.before hd₁
    rw [hkey₀, hkey'] at hsame
    rw [hstays.held] at hm
    exact halone m hm d₀ hd₀ hsame
  | incorporate _ hd halone hr ih => exact agrees_incorporate ih hd halone hr

/-! ## §3. What is watched. -/

/-- The watches mirror the dependencies of the held documents that were updated
with success: each of them has its dependencies as its set, the others and
those that are not held have none, and the watched paths are all these
dependencies, in path order and once each. -/
structure Mirrors (w : Workspace ι υ σ) (settled : List Nat) : Prop where
  held : ∀ n ∈ w.held, ∀ d, w.documents[n]? = some d →
    w.watches.sets.get? d.key = if n ∈ settled then some d.dependencies else none
  others : ∀ key, w.hasDocument key = false → w.watches.sets.get? key = none
  increasing : w.watches.watched.Pairwise fun p q => p.compare q = .lt
  watched : ∀ q, w.watches.watched.any q.same = true ↔
    ∃ n ∈ w.held, n ∈ settled ∧ ∃ d, w.documents[n]? = some d ∧ d.dependencies.contains q = true

/-- Agreement of the sets is enough: a path is watched if some set holds it, and
a set belongs to a held document. -/
theorem Agrees.mirrors {w : Workspace ι υ σ} {settled : List Nat} (h : w.Agrees settled) :
    w.Mirrors settled where
  held := h.sets
  others _ hkey := h.get?_eq_none hkey
  increasing := WatchRegistry.watched_increasing h.balanced.counted
  watched q := by
    rw [WatchRegistry.any_watched, WatchRegistry.isWatched_iff h.balanced]
    constructor
    · rintro ⟨key, s, hs, hq⟩
      -- a set belongs to a held document
      have hheld := h.recorded key s hs
      rw [h.registered, hasDocument_iff] at hheld
      obtain ⟨n, hn, d, hd, hkey⟩ := hheld
      have hset := h.sets n hn d hd
      rw [Table.get?_congr _ hkey, hs] at hset
      by_cases hsettled : n ∈ settled
      · rw [if_pos hsettled] at hset
        cases hset
        exact ⟨n, hn, hsettled, d, hd, hq⟩
      · rw [if_neg hsettled] at hset
        cases hset
    · rintro ⟨n, hn, hsettled, d, hd, hq⟩
      have hset := h.sets n hn d hd
      rw [if_pos hsettled] at hset
      exact ⟨d.key, d.dependencies, hset, hq⟩

/-- Watches agree with dependencies in every state of a cache in use. -/
theorem mirrors_of_followed {w : Workspace ι υ σ} {settled : List Nat} (h : Followed w settled) :
    w.Mirrors settled :=
  (agrees_of_followed h).mirrors

/-! ## §4. A first update. -/

/-- An engine that finds one header. -/
def oneHeader : Behaviour Unit Unit Unit := .steady [] ⟨[⟨"/a.h"⟩]⟩

theorem orderly_oneHeader : oneHeader.engine.Orderly :=
  orderly_engine oneHeader fun _ => List.pairwise_singleton _ _

/-- A document that has not been parsed yet. -/
def justCreated : Session Unit Unit Unit :=
  [Action.upsertParts [("p", [])], .create [.new ⟨"/a.c"⟩ "p"]].foldl Session.act
    (Session.start (.fresh []) false ())

theorem followed_justCreated : Followed justCreated [] :=
  .meanwhile (.start (.fresh []) false ⟨(), [], 0⟩) (Session.meanwhile_acts _ _)

/-- A document gets its first dependency from an update, and that is watched. -/
theorem mirrors_first_update : (justCreated.update oneHeader.engine .asNeeded 0).Mirrors [0] := by
  have hd : justCreated.documents[0]? = some _ := rfl
  exact mirrors_of_followed
    (.update followed_justCreated orderly_oneHeader .asNeeded hd
      fun m hm _ _ _ => List.mem_singleton.1 hm)

end Workspace

end ParseCache
