/-
  ParseCache.Proofs.Collection.Registration — the documents the watch registry
  knows are those the collection holds.

  Two structures say which documents there are: the collection itself, and the
  registry that lets them have watches.  They are changed by different calls,
  and nothing compares them when the program runs.  In a tidy cache they agree,
  and no operation, update or late result makes it untidy.

  Main results:
    * `Tidy` — registered is what is held, and what has a set is registered;
    * `lasting_tidy` — it outlasts every occurrence;
    * `tidy_incorporate`, `tidy_update` — and every result, wherever it comes
      from and whenever it arrives.
-/
import ParseCache.Proofs.Update.Orderly
import ParseCache.Proofs.Watch.Balance

namespace ParseCache

variable {ι υ σ : Type}

namespace Workspace

/-- The registered documents are the held ones, and only they have sets. -/
structure Tidy (w : Workspace ι υ σ) : Prop where
  named : w.parts.Named
  known : w.Known
  registered : ∀ key, w.watches.registered.has key = w.hasDocument key
  recorded : ∀ key s, w.watches.sets.get? key = some s → w.watches.registered.has key = true

/-- A key that is not held has no set. -/
theorem Tidy.get?_eq_none {w : Workspace ι υ σ} (h : w.Tidy) {key : DocumentKey}
    (hkey : w.hasDocument key = false) : w.watches.sets.get? key = none := by
  cases hset : w.watches.sets.get? key with
  | none => rfl
  | some s =>
    have hregistered := h.recorded key s hset
    rw [h.registered, hkey] at hregistered
    cases hregistered

theorem tidy_new (disk : Disk) (requireFiles : Bool) (context : σ) :
    (new disk requireFiles context : Workspace ι υ σ).Tidy where
  named _ _ h := nomatch h
  known _ h := absurd h List.not_mem_nil
  registered _ := rfl
  recorded _ _ h := nomatch h

/-! ## §1. Occurrences. -/

theorem tidy_stays {w w' : Workspace ι υ σ} (h : w.Tidy) (hstays : Stays w w') : w'.Tidy where
  named := hstays.named h.named
  known := hstays.known h.known
  registered key := by
    rw [hstays.watches, hstays.hasDocument_eq]
    exact h.registered key
  recorded key s hs := by
    rw [hstays.watches] at hs ⊢
    exact h.recorded key s hs

theorem tidy_come {w : Workspace ι υ σ} (h : w.Tidy) (d : Document ι υ) : (w.come d).Tidy where
  named := h.named
  known := known_come h.known d
  registered key := by
    rw [hasDocument_come h.known, DocumentKey.same_comm, ← h.registered]
    exact Table.has_set _ _ _ _
  recorded key s hs := by
    show (w.watches.registered.set d.key ()).has key = true
    rw [Table.has_set, h.recorded key s hs, Bool.or_true]

theorem tidy_evict {w : Workspace ι υ σ} (h : w.Tidy) (key : DocumentKey) :
    (w.evict key).Tidy where
  named := h.named
  known n hn := h.known n (mem_held_evict.1 hn).1
  registered k := by
    rw [hasDocument_evict, ← h.registered]
    exact WatchRegistry.has_remove w.watches key k
  recorded k s hs := by
    have hs : (w.watches.remove key).sets.get? k = some s := hs
    show (w.watches.remove key).registered.has k = true
    rw [WatchRegistry.get?_remove] at hs
    rw [WatchRegistry.has_remove]
    cases hk : k.same key with
    | true =>
      rw [hk] at hs
      cases hs
    | false =>
      rw [hk] at hs
      exact h.recorded k s hs

theorem lasting_tidy : Lasting (Tidy : Workspace ι υ σ → Prop) where
  named h := h.named
  known h := h.known
  stays := tidy_stays
  come d h _ := tidy_come h d
  evict key h := tidy_evict h key
  withoutParts ids h := ⟨ProjectParts.named_remove ids _ h.named, h.known, h.registered, h.recorded⟩

/-- A document keeps its number and its key for good. -/
theorem lasting_key (n : Nat) (key : DocumentKey) :
    Lasting fun w : Workspace ι υ σ => w.Tidy ∧ ∃ d, w.documents[n]? = some d ∧ d.key = key where
  named h := h.1.named
  known h := h.1.known
  stays h hstays := by
    obtain ⟨htidy, d, hd, hkey⟩ := h
    obtain ⟨d', hd', hkey', -⟩ := hstays.document n d hd
    exact ⟨tidy_stays htidy hstays, d', hd', hkey'.trans hkey⟩
  come d' h _ := by
    obtain ⟨htidy, d, hd, hkey⟩ := h
    refine ⟨tidy_come htidy d', d, ?_, hkey⟩
    rw [getElem?_come_of_lt d' (List.getElem?_eq_some_iff.1 hd).1]
    exact hd
  evict key' h := ⟨tidy_evict h.1 key', h.2⟩
  withoutParts ids h := ⟨lasting_tidy.withoutParts ids h.1, h.2⟩

/-! ## §2. Results. -/

/-- A result registers nothing, and gives a set to a registered document only. -/
theorem tidy_incorporate {w : Workspace ι υ σ} (h : w.Tidy) (n : Nat) (r : UpdateResult) :
    (w.incorporate n r).Tidy := by
  -- it is enough to look at the watches
  suffices hwatches : (w.incorporate n r).watches.registered = w.watches.registered ∧
      ∀ key s, (w.incorporate n r).watches.sets.get? key = some s →
        w.watches.registered.has key = true by
    refine ⟨?_, ?_, fun key => ?_, fun key s hs => ?_⟩
    · rw [parts_incorporate]
      exact h.named
    · unfold Known
      rw [held_incorporate, length_incorporate]
      exact h.known
    · rw [hasDocument_incorporate, hwatches.1]
      exact h.registered key
    · rw [hwatches.1]
      exact hwatches.2 key s hs
  cases hd : w.documents[n]? with
  | none =>
    rw [watches_incorporate_of_none hd]
    exact ⟨rfl, h.recorded⟩
  | some d =>
    rw [watches_incorporate hd]
    split
    · refine ⟨WatchRegistry.registered_setWatched _ _ _, fun key s hs => ?_⟩
      rw [WatchRegistry.get?_setWatched] at hs
      split at hs
      · rename_i hself
        rw [Bool.and_eq_true] at hself
        rw [Table.has_congr _ hself.2]
        exact hself.1
      · exact h.recorded key s hs
    · exact ⟨rfl, h.recorded⟩

/-- A held document has the set its result asked for. -/
theorem get?_incorporate_self {w : Workspace ι υ σ} (h : w.Tidy) {n : Nat} {d : Document ι υ}
    (hd : w.documents[n]? = some d) (hn : n ∈ w.held) {r : UpdateResult}
    (hr : Document.installs r = true) :
    (w.incorporate n r).watches.sets.get? d.key = some (r.dependencies.insert d.key.path) := by
  have hregistered : w.watches.registered.has d.key = true := by
    rw [h.registered, hasDocument_iff]
    exact ⟨n, hn, d, hd, DocumentKey.same_refl _⟩
  rw [watches_incorporate hd, if_pos hr, WatchRegistry.get?_setWatched, hregistered,
    DocumentKey.same_refl]
  rfl

/-- A result leaves the sets of other keys alone. -/
theorem get?_incorporate_of_ne {w : Workspace ι υ σ} {n : Nat} {d : Document ι υ}
    (hd : w.documents[n]? = some d) (r : UpdateResult) {key : DocumentKey}
    (hkey : key.same d.key = false) :
    (w.incorporate n r).watches.sets.get? key = w.watches.sets.get? key := by
  rw [watches_incorporate hd]
  split
  · rw [WatchRegistry.get?_setWatched, hkey, Bool.and_false]
    rfl
  · rfl

/-- When the result of an update arrives, its document has the key it had. -/
theorem key_supplied {w : Workspace ι υ σ} (h : w.Tidy) {e : Engine ι υ σ} (he : e.Orderly)
    (mode : UpdateMode) {n : Nat} {d : Document ι υ} (hd : w.documents[n]? = some d) :
    ∃ d', (w.supplied e mode n d).documents[n]? = some d' ∧ d'.key = d.key := by
  obtain ⟨-, d₁, hd₁, hkey₁⟩ := (lasting_key n d.key).meanwhile ⟨h, d, hd, rfl⟩
    (Engine.meanwhile_run he (d.snapshot w.buffers) d.handles w mode)
  obtain ⟨d₂, hd₂, hkey₂, -⟩ := (stays_supplied w e mode n d).document n d₁ hd₁
  exact ⟨d₂, hd₂, hkey₂.trans hkey₁⟩

theorem tidy_update {w : Workspace ι υ σ} (h : w.Tidy) {e : Engine ι υ σ} (he : e.Orderly)
    (mode : UpdateMode) (n : Nat) : (w.update e mode n).Tidy := by
  cases hd : w.documents[n]? with
  | none =>
    rw [update_of_none hd]
    exact h
  | some d =>
    have harrived : (w.outcome e mode d).2.Tidy :=
      lasting_tidy.meanwhile h (Engine.meanwhile_run he _ _ w mode)
    rw [update_eq_incorporate hd]
    exact tidy_incorporate (tidy_stays harrived (stays_supplied w e mode n d)) n _

end Workspace

end ParseCache
