/-
  ParseCache.Proofs.Collection.Membership — held documents and the parts they
  belong to.

  A document is created under a registered part, and a part that is removed
  takes its documents with it.  Removing parts is done in two steps, though:
  the registry gives up the parts one by one, and only if it did not come
  across an unknown id are the documents evicted.  A request that fails
  half-way leaves documents behind whose part is gone.

  Main results:
    * `housed_perform` — everything else keeps every document under a
      registered part;
    * `evicted_removeParts` — a removal that succeeds leaves nothing of the
      documents;
    * `housed_iff_spared` — over a whole run documents lose their parts exactly
      through removals that fail half-way;
    * `orphan_after_failed_removal` — such a removal.
-/
import ParseCache.Proofs.Collection.Registration

namespace ParseCache

variable {ι υ σ : Type}

/-! ## §1. The registry. -/

namespace ProjectParts

/-- Removing parts takes away those with the given ids, at most. -/
theorem has_remove_of_not_mem {id : String} (ids : List String) :
    ∀ r : ProjectParts, id ∉ ids → (remove ids r).2.has id = r.has id := by
  induction ids with
  | nil =>
    intro r _
    rfl
  | cons id' rest ih =>
    intro r hid
    rw [List.mem_cons, not_or] at hid
    unfold remove
    split
    · rw [ih _ hid.2]
      unfold has
      have hne : Keyed.same id id' = false := beq_false_of_ne hid.1
      rw [Table.has_erase, hne]
      rfl
    · rfl

end ProjectParts

namespace Workspace

/-! ## §2. Evictions. -/

/-- Evictions let go of the documents with the given keys. -/
theorem mem_held_evictAll {n : Nat} (keys : List DocumentKey) :
    ∀ w : Workspace ι υ σ, n ∈ (keys.foldl evict w).held ↔
      n ∈ w.held ∧ ∀ key ∈ keys, w.documents[n]?.any (·.key.same key) = false := by
  induction keys with
  | nil =>
    intro w
    simp
  | cons key rest ih =>
    intro w
    rw [List.foldl_cons, ih, mem_held_evict, List.forall_mem_cons, and_assoc]
    rfl

theorem evictAll_rest (keys : List DocumentKey) :
    ∀ w : Workspace ι υ σ, (keys.foldl evict w).documents = w.documents ∧
      (keys.foldl evict w).parts = w.parts := by
  induction keys with
  | nil =>
    intro w
    exact ⟨rfl, rfl⟩
  | cons key rest ih =>
    intro w
    exact ih (w.evict key)

/-- Every held document belongs to a registered part. -/
def Housed (w : Workspace ι υ σ) : Prop :=
  ∀ n ∈ w.held, ∀ d, w.documents[n]? = some d → w.parts.has d.key.part = true

/-- Nothing is left of the documents under the parts. -/
def Evicted (w : Workspace ι υ σ) (ids : List String) : Prop :=
  ∀ key : DocumentKey, key.part ∈ ids → w.hasDocument key = false ∧
    w.watches.registered.has key = false ∧ w.watches.sets.get? key = none

/-- Removing the parts succeeds, or no held document loses its part by it. -/
def Spared (w : Workspace ι υ σ) (ids : List String) : Prop :=
  (w.removeParts ids).1 = .ok () ∨
    ∀ n ∈ w.held, ∀ d, w.documents[n]? = some d → w.parts.has d.key.part = true →
      (w.removeParts ids).2.parts.has d.key.part = true

/-- Who is still held after a removal that succeeded was so before, under
another part. -/
theorem held_removeParts {w : Workspace ι υ σ} {ids : List String}
    (hok : (w.removeParts ids).1 = .ok ()) {n : Nat} {d : Document ι υ}
    (hn : n ∈ (w.removeParts ids).2.held)
    (hd : (w.removeParts ids).2.documents[n]? = some d) :
    n ∈ w.held ∧ w.documents[n]? = some d ∧ d.key.part ∉ ids ∧
      (w.removeParts ids).2.parts.has d.key.part = w.parts.has d.key.part := by
  rcases removeParts_cases w ids with ⟨refusal, -, heq⟩ | ⟨-, heq⟩
  · rw [heq] at hok
    cases hok
  · rw [heq] at hn hd ⊢
    obtain ⟨hn, hkeys⟩ := (mem_held_evictAll _ _).1 hn
    obtain ⟨hdocuments, hparts⟩ := evictAll_rest ((w.heldWhere fun d =>
      ids.contains d.key.part).filterMap fun n => w.documents[n]?.map (·.key)) (w.withoutParts ids)
    rw [hdocuments] at hd
    have hd : w.documents[n]? = some d := hd
    have hn : n ∈ w.held := hn
    -- the key of a document under one of the parts is among those evicted
    have hpart : d.key.part ∉ ids := by
      intro hmem
      have hkey := hkeys d.key (List.mem_filterMap.2 ⟨n, mem_heldWhere.2 ⟨hn, ?_⟩, ?_⟩)
      · have hsame : (w.withoutParts ids).documents[n]? = some d := hd
        rw [hsame, Option.any_some, DocumentKey.same_refl] at hkey
        cases hkey
      · rw [hd]
        exact List.contains_iff_mem.2 hmem
      · rw [hd]
        rfl
    refine ⟨hn, hd, hpart, ?_⟩
    rw [hparts]
    exact ProjectParts.has_remove_of_not_mem ids w.parts hpart

/-- A removal that succeeds leaves nothing of the documents. -/
theorem evicted_removeParts {w : Workspace ι υ σ} (h : w.Tidy) {ids : List String}
    (hok : (w.removeParts ids).1 = .ok ()) : (w.removeParts ids).2.Evicted ids := by
  have htidy : (w.removeParts ids).2.Tidy := lasting_tidy.perform h (.action (.removeParts ids))
  intro key hkey
  have hfree : (w.removeParts ids).2.hasDocument key = false := by
    rw [Bool.eq_false_iff]
    intro hheld
    obtain ⟨n, hn, d, hd, hsame⟩ := hasDocument_iff.1 hheld
    obtain ⟨-, -, hpart, -⟩ := held_removeParts hok hn hd
    rw [(DocumentKey.same_iff.1 hsame).2] at hpart
    exact hpart hkey
  refine ⟨hfree, ?_, htidy.get?_eq_none hfree⟩
  rw [htidy.registered]
  exact hfree

/-! ## §3. Occurrences. -/

theorem housed_turnover {w w' : Workspace ι υ σ} (h : Turnover w w') (hknown : w.Known) :
    w.Housed → w'.Housed := by
  suffices hboth : w.Known → w.Housed → w'.Known ∧ w'.Housed from
    fun hhoused => (hboth hknown hhoused).2
  clear hknown
  induction h with
  | stay hstays =>
    refine fun hknown hhoused => ⟨hstays.known hknown, fun n hn d hd => ?_⟩
    obtain ⟨d₀, hd₀, hkey, -⟩ := hstays.before hd
    rw [hstays.held] at hn
    rw [hkey]
    exact hstays.parts _ (hhoused n hn d₀ hd₀)
  | come w d _ hpart =>
    refine fun hknown hhoused => ⟨known_come hknown d, fun n hn d' hd' => ?_⟩
    rcases mem_held_come.1 hn with rfl | hn
    · rw [getElem?_come_self] at hd'
      cases hd'
      exact hpart
    · rw [getElem?_come_of_lt d (hknown n hn)] at hd'
      exact hhoused n hn d' hd'
  | go w key =>
    exact fun hknown hhoused => ⟨fun n hn => hknown n (mem_held_evict.1 hn).1,
      fun n hn => hhoused n (mem_held_evict.1 hn).1⟩
  | trans _ _ ih ih' =>
    intro hknown hhoused
    obtain ⟨hknown', hhoused'⟩ := ih hknown hhoused
    exact ih' hknown' hhoused'

/-- What removing parts does to the parts of held documents. -/
theorem housed_removeParts_iff {w : Workspace ι υ σ} (h : w.Housed) (ids : List String) :
    (w.removeParts ids).2.Housed ↔ w.Spared ids := by
  constructor
  · intro hhoused
    rcases removeParts_cases w ids with ⟨refusal, -, heq⟩ | ⟨-, heq⟩
    · refine Or.inr fun n hn d hd _ => hhoused n ?_ d ?_
      · rw [heq]
        exact hn
      · rw [heq]
        exact hd
    · left
      rw [heq]
  · intro hspared n hn d hd
    rcases removeParts_cases w ids with ⟨refusal, -, heq⟩ | ⟨-, heq⟩
    · -- nobody was evicted, so nobody may have lost a part
      rcases hspared with hok | hspared
      · rw [heq] at hok
        cases hok
      · rw [heq] at hn hd
        exact hspared n hn d hd (h n hn d hd)
    · have hok : (w.removeParts ids).1 = .ok () := by rw [heq]
      obtain ⟨hn, hd, -, hparts⟩ := held_removeParts hok hn hd
      rw [hparts]
      exact h n hn d hd

/-- Nothing but a removal of parts takes the part of a document away. -/
theorem housed_perform {w : Workspace ι υ σ} (htidy : w.Tidy) (h : w.Housed) {o : Occurrence}
    (hspared : ∀ ids, o = .action (.removeParts ids) → w.Spared ids) : (o.perform w).Housed := by
  by_cases ho : ∃ ids, o = .action (.removeParts ids)
  · obtain ⟨ids, rfl⟩ := ho
    exact (housed_removeParts_iff h ids).2 (hspared ids rfl)
  · have hcleared : w.cleared o = w := by
      unfold cleared
      split
      · rename_i ids
        exact absurd ⟨ids, rfl⟩ ho
      · rfl
    have hturnover := turnover_perform htidy.named htidy.known o
    rw [hcleared] at hturnover
    exact housed_turnover hturnover htidy.known h

/-! ## §4. Runs. -/

/-- The workspace after occurrences. -/
def after (w : Workspace ι υ σ) (occurrences : List Occurrence) : Workspace ι υ σ :=
  occurrences.foldl Occurrence.perform w

theorem after_take_succ (w : Workspace ι υ σ) {occurrences : List Occurrence} {k : Nat}
    {o : Occurrence} (ho : occurrences[k]? = some o) :
    w.after (occurrences.take (k + 1)) = o.perform (w.after (occurrences.take k)) := by
  unfold after
  rw [List.take_add_one, ho, List.foldl_append]
  rfl

theorem tidy_after (occurrences : List Occurrence) :
    ∀ {w : Workspace ι υ σ}, w.Tidy → (w.after occurrences).Tidy := by
  induction occurrences with
  | nil =>
    intro w h
    exact h
  | cons o rest ih =>
    intro w h
    exact ih (lasting_tidy.perform h o)

theorem housed_new (disk : Disk) (requireFiles : Bool) (context : σ) :
    (new disk requireFiles context : Workspace ι υ σ).Housed :=
  fun _ hn => absurd hn List.not_mem_nil

/-- Whatever occurs, every held document belongs to a registered part in all
states exactly if no removal of parts failed after it had taken the part of
one.  A removal that succeeds leaves nothing of the documents under its
parts. -/
theorem housed_iff_spared (disk : Disk) (requireFiles : Bool) (context : σ)
    (occurrences : List Occurrence) :
    ((∀ k, ((new disk requireFiles context : Workspace ι υ σ).after (occurrences.take k)).Housed) ↔
      ∀ k ids, occurrences[k]? = some (.action (.removeParts ids)) →
        ((new disk requireFiles context : Workspace ι υ σ).after (occurrences.take k)).Spared ids) ∧
    ∀ k ids, occurrences[k]? = some (.action (.removeParts ids)) →
      (((new disk requireFiles context : Workspace ι υ σ).after
        (occurrences.take k)).removeParts ids).1 = .ok () →
      ((new disk requireFiles context : Workspace ι υ σ).after
        (occurrences.take (k + 1))).Evicted ids := by
  generalize hstart : (new disk requireFiles context : Workspace ι υ σ) = start
  have htidy : ∀ k, (start.after (occurrences.take k)).Tidy := by
    intro k
    rw [← hstart]
    exact tidy_after _ (tidy_new disk requireFiles context)
  refine ⟨⟨fun h k ids ho => ?_, fun h k => ?_⟩, fun k ids ho hok => ?_⟩
  · have hnext := h (k + 1)
    rw [after_take_succ start ho] at hnext
    exact (housed_removeParts_iff (h k) ids).1 hnext
  · induction k with
    | zero =>
      rw [← hstart]
      exact housed_new disk requireFiles context
    | succ k ih =>
      cases ho : occurrences[k]? with
      | none =>
        rw [List.take_add_one, ho, Option.toList_none, List.append_nil]
        exact ih
      | some o =>
        rw [after_take_succ start ho]
        refine housed_perform (htidy k) ih fun ids hids => ?_
        rw [hids] at ho
        exact h k ids ho
  · rw [after_take_succ start ho]
    exact evicted_removeParts (htidy k) hok

/-- A part is registered, gets a document, and is removed. -/
def partInPassing : List Occurrence :=
  [.action (.upsertParts [("p", [])]), .action (.create [.new ⟨"/a.c"⟩ "p"]),
    .action (.removeParts ["p"])]

theorem evicted_partInPassing :
    ((new (.fresh []) false () : Workspace Unit Unit Unit).after partInPassing).Evicted ["p"] :=
  (housed_iff_spared (.fresh []) false () partInPassing).2 2 ["p"] rfl rfl

/-- The part is removed before the unknown id is found, and its document is
left behind. -/
theorem orphan_after_failed_removal :
    ¬ ∀ occurrences : List Occurrence,
      ((new (.fresh []) false () : Workspace Unit Unit Unit).after occurrences).Housed := by
  intro h
  have hpart := h [.action (.upsertParts [("p", [])]), .action (.create [.new ⟨"/a.c"⟩ "p"]),
    .action (.removeParts ["p", "q"])] 0 (List.mem_singleton_self 0) _ rfl
  revert hpart
  decide

end Workspace

end ParseCache
