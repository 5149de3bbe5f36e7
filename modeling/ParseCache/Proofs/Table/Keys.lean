/-
  ParseCache.Proofs.Table.Keys — tables that list every key once.

  A table is a list, and nothing in its type keeps a key from being listed
  twice under two spellings.  Nothing that is built by `set` and `erase` does
  so, and for such a table counting entries means counting keys.

  Main results:
    * `Distinct.set`, `Distinct.erase` — both keep the keys of a table
      different from each other;
    * `tally_set`, `tally_erase` — how the number of values with a property
      changes;
    * `get?_any_iff` — the entries that are counted are those that a look-up
      finds.
-/
import ParseCache.Table

namespace ParseCache.Table

variable {κ ν : Type}

/-! ## §1. Values with a property. -/

/-- How many values satisfy `f`. -/
def tally (t : Table κ ν) (f : ν → Bool) : Nat := t.entries.countP fun e => f e.2

/-- The keys whose values satisfy `f`. -/
def keysWhere (t : Table κ ν) (f : ν → Bool) : List κ :=
  (t.entries.filter fun e => f e.2).map (·.1)

/-- There are as many keys under a test as values that pass it. -/
theorem length_keysWhere (t : Table κ ν) (f : ν → Bool) : (t.keysWhere f).length = t.tally f := by
  rw [keysWhere, List.length_map, tally, List.countP_eq_length_filter]

/-! ## §2. Different keys. -/

variable [Keyed κ]

/-- No key is listed twice, in whatever spelling. -/
def Distinct (t : Table κ ν) : Prop :=
  t.entries.Pairwise fun a b => Keyed.same a.1 b.1 = false

theorem distinct_empty : (empty : Table κ ν).Distinct := List.Pairwise.nil

theorem Distinct.erase {t : Table κ ν} (h : t.Distinct) (k : κ) : (t.erase k).Distinct :=
  List.Pairwise.filter _ h

/-- The keys under a test are different where all keys are. -/
theorem Distinct.keysWhere {t : Table κ ν} (h : t.Distinct) (f : ν → Bool) :
    (t.keysWhere f).Pairwise fun k l => Keyed.same k l = false := by
  rw [Table.keysWhere, List.pairwise_map]
  exact List.Pairwise.filter _ h

theorem has_eq_false_iff {t : Table κ ν} {k : κ} :
    t.has k = false ↔ ∀ e ∈ t.entries, Keyed.same k e.1 = false := by
  rw [has, List.any_eq_false]
  simp only [Bool.not_eq_true]

/-- What is found was put in, under some spelling of the key. -/
theorem mem_of_get? {t : Table κ ν} {k : κ} {v : ν} (h : t.get? k = some v) :
    ∃ e ∈ t.entries, Keyed.same k e.1 = true ∧ e.2 = v := by
  obtain ⟨e, hfind, hv⟩ := Option.map_eq_some_iff.1 h
  exact ⟨e, List.mem_of_find?_eq_some hfind, by simpa using List.find?_some hfind, hv⟩

variable [LawfulKeyed κ]

/-- A key that is set again does not stand in the table twice. -/
theorem Distinct.set {t : Table κ ν} (h : t.Distinct) (k : κ) (v : ν) : (t.set k v).Distinct := by
  unfold Table.set
  cases hk : t.has k with
  | true =>
    -- the keys stay, only a value is replaced
    have hkeys : ∀ e : κ × ν, (if Keyed.same k e.1 then (e.1, v) else e).1 = e.1 := by
      intro e
      split <;> rfl
    show (t.entries.map _).Pairwise _
    rw [List.pairwise_map]
    refine List.Pairwise.imp (fun {a b} hab => ?_) h
    rw [hkeys, hkeys]
    exact hab
  | false =>
    show (t.entries ++ [(k, v)]).Pairwise _
    rw [List.pairwise_append]
    refine ⟨h, List.pairwise_singleton _ _, fun a ha b hb => ?_⟩
    rw [List.mem_singleton.1 hb, Bool.eq_false_iff]
    intro hak
    exact Bool.eq_false_iff.1 (has_eq_false_iff.1 hk a ha) (LawfulKeyed.symm hak)

/-! ## §3. What a look-up finds. -/

/-- Every entry is found under its key. -/
theorem get?_of_mem {t : Table κ ν} (h : t.Distinct) {e : κ × ν} (he : e ∈ t.entries) {k : κ}
    (hk : Keyed.same k e.1 = true) : t.get? k = some e.2 := by
  obtain ⟨entries⟩ := t
  unfold get?
  induction entries with
  | nil => exact absurd he List.not_mem_nil
  | cons a rest ih =>
    have hne := (List.pairwise_cons.1 h).1
    rw [List.find?_cons]
    rcases List.mem_cons.1 he with rfl | he
    · rw [hk]
      rfl
    · have hka : Keyed.same k a.1 = false := by
        rw [Bool.eq_false_iff]
        intro hka
        exact Bool.eq_false_iff.1 (hne e he) (LawfulKeyed.trans (LawfulKeyed.symm hka) hk)
      rw [hka]
      exact ih (List.pairwise_cons.1 h).2 he

/-- Spellings of one key are found alike. -/
theorem has_congr (t : Table κ ν) {k l : κ} (h : Keyed.same k l = true) : t.has k = t.has l := by
  rw [has_eq_isSome_get?, has_eq_isSome_get?, t.get?_congr h]

theorem has_set (t : Table κ ν) (k l : κ) (v : ν) :
    (t.set k v).has l = (Keyed.same l k || t.has l) := by
  rw [has_eq_isSome_get?, has_eq_isSome_get?, get?_set]
  cases Keyed.same l k <;> rfl

theorem has_erase (t : Table κ ν) (k l : κ) :
    (t.erase k).has l = (!Keyed.same l k && t.has l) := by
  rw [has_eq_isSome_get?, has_eq_isSome_get?, get?_erase]
  cases Keyed.same l k <;> rfl

/-! ## §4. Counting. -/

/-- A key is among those whose values satisfy `f` when a look-up finds such a
value. -/
theorem get?_any_iff {t : Table κ ν} (h : t.Distinct) (f : ν → Bool) (k : κ) :
    (t.get? k).any f = true ↔ ∃ l ∈ t.keysWhere f, Keyed.same k l = true := by
  constructor
  · intro hany
    obtain ⟨v, hv, hf⟩ := (Option.any_eq_true _ _).1 hany
    obtain ⟨e, he, hk, rfl⟩ := mem_of_get? hv
    exact ⟨e.1, List.mem_map.2 ⟨e, List.mem_filter.2 ⟨he, hf⟩, rfl⟩, hk⟩
  · rintro ⟨l, hl, hk⟩
    obtain ⟨e, he, rfl⟩ := List.mem_map.1 hl
    obtain ⟨he, hf⟩ := List.mem_filter.1 he
    rw [get?_of_mem h he hk]
    exact hf

/-- Where keys are different, a value that passes the test is found under its
key, and is not hidden by another. -/
theorem tally_pos_iff {t : Table κ ν} (h : t.Distinct) (f : ν → Bool) :
    0 < t.tally f ↔ ∃ k v, t.get? k = some v ∧ f v = true := by
  rw [tally, List.countP_pos_iff]
  constructor
  · rintro ⟨e, he, hf⟩
    exact ⟨e.1, e.2, get?_of_mem h he (LawfulKeyed.refl _), hf⟩
  · rintro ⟨k, v, hv, hf⟩
    obtain ⟨e, he, -, rfl⟩ := mem_of_get? hv
    exact ⟨e, he, hf⟩

/-- Without a key, the count is less by what was at the key. -/
theorem tally_erase {t : Table κ ν} (h : t.Distinct) (k : κ) (f : ν → Bool) :
    (t.erase k).tally f + ((t.get? k).any f).toNat = t.tally f := by
  obtain ⟨entries⟩ := t
  unfold erase get? tally
  induction entries with
  | nil => rfl
  | cons e rest ih =>
    have hrest := ih (List.pairwise_cons.1 h).2
    rw [List.filter_cons, List.find?_cons, List.countP_cons]
    cases hke : Keyed.same k e.1 with
    | false =>
      simp only [Bool.not_false, if_true, List.countP_cons] at hrest ⊢
      omega
    | true =>
      -- this is the only entry of the key, so the rest stays
      have hall : ∀ a ∈ rest, (!Keyed.same k a.1) = true := by
        intro a ha
        rw [Keyed.same_congr hke, (List.pairwise_cons.1 h).1 a ha]
        rfl
      simp only [Bool.not_true, Bool.false_eq_true, if_false, List.filter_eq_self.2 hall]
      cases hf : f e.2 with
      | false => simp [hf]
      | true => simp [hf]

/-- A key that is set and erased is gone as if it had only been erased. -/
theorem erase_set (t : Table κ ν) (k : κ) (v : ν) : (t.set k v).erase k = t.erase k := by
  obtain ⟨entries⟩ := t
  unfold set
  split
  · rename_i hk
    clear hk
    show (⟨(entries.map _).filter _⟩ : Table κ ν) = ⟨entries.filter _⟩
    congr 1
    induction entries with
    | nil => rfl
    | cons e rest ih =>
      rw [List.map_cons, List.filter_cons, List.filter_cons]
      cases hke : Keyed.same k e.1 with
      | false => simp [hke, ih]
      | true => simp [hke, ih]
  · show (⟨(entries ++ [(k, v)]).filter _⟩ : Table κ ν) = ⟨entries.filter _⟩
    rw [List.filter_append]
    simp [LawfulKeyed.refl]

/-- With a new value at a key, the count changes by the old value and the new. -/
theorem tally_set {t : Table κ ν} (h : t.Distinct) (k : κ) (v : ν) (f : ν → Bool) :
    (t.set k v).tally f + ((t.get? k).any f).toNat = t.tally f + (f v).toNat := by
  have hset := tally_erase (h.set k v) k f
  have herase := tally_erase h k f
  rw [erase_set, get?_set_self] at hset
  have hnew : ((some v).any f).toNat = (f v).toNat := rfl
  omega

end ParseCache.Table
