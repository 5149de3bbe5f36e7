/-
  ParseCache.Table — finite tables whose keys may be spelled in several ways.

  A table is a list of entries, at most one per key up to `Keyed.same`.
  Setting a key that is there keeps its spelling and its place and replaces
  the value; a new key goes to the end.  `get?` after `set` and after `erase`
  is what one expects of a finite function.
-/

namespace ParseCache

/-- Keys that are compared by what they mean. -/
class Keyed (κ : Type) where
  /-- Whether two keys mean the same. -/
  same : κ → κ → Bool

/-- Meaning the same is an equivalence. -/
class LawfulKeyed (κ : Type) [Keyed κ] : Prop where
  refl (k : κ) : Keyed.same k k = true
  symm {k l : κ} : Keyed.same k l = true → Keyed.same l k = true
  trans {k l m : κ} : Keyed.same k l = true → Keyed.same l m = true → Keyed.same k m = true

instance : Keyed String := ⟨(· == ·)⟩

instance : LawfulKeyed String where
  refl _ := beq_self_eq_true _
  symm h := beq_iff_eq.2 (beq_iff_eq.1 h).symm
  trans h h' := beq_iff_eq.2 ((beq_iff_eq.1 h).trans (beq_iff_eq.1 h'))

/-- Keys that mean the same as `k` are not told apart by `Keyed.same`. -/
theorem Keyed.same_congr {κ : Type} [Keyed κ] [LawfulKeyed κ] {k l : κ}
    (h : Keyed.same k l = true) (m : κ) : Keyed.same k m = Keyed.same l m := by
  rw [Bool.eq_iff_iff]
  exact ⟨LawfulKeyed.trans (LawfulKeyed.symm h), LawfulKeyed.trans h⟩

/-- The entries of a table, in the order their keys came in. -/
structure Table (κ ν : Type) where
  entries : List (κ × ν)
deriving Repr, DecidableEq, Inhabited

namespace Table

variable {κ ν : Type} [Keyed κ]

/-- The table without entries. -/
def empty : Table κ ν := ⟨[]⟩

/-- The value at a key. -/
def get? (t : Table κ ν) (k : κ) : Option ν :=
  (t.entries.find? fun e => Keyed.same k e.1).map (·.2)

/-- Whether the key is there. -/
def has (t : Table κ ν) (k : κ) : Bool := t.entries.any fun e => Keyed.same k e.1

/-- Replaces the value at a key, or adds the key. -/
def set (t : Table κ ν) (k : κ) (v : ν) : Table κ ν :=
  if t.has k then ⟨t.entries.map fun e => if Keyed.same k e.1 then (e.1, v) else e⟩
  else ⟨t.entries ++ [(k, v)]⟩

/-- Removes a key. -/
def erase (t : Table κ ν) (k : κ) : Table κ ν :=
  ⟨t.entries.filter fun e => !Keyed.same k e.1⟩

/-- The keys, as first spelled. -/
def keys (t : Table κ ν) : List κ := t.entries.map (·.1)

/-- The values. -/
def values (t : Table κ ν) : List ν := t.entries.map (·.2)

/-- How many keys there are. -/
def size (t : Table κ ν) : Nat := t.entries.length

/-! ## §1. What is at a key afterwards. -/

theorem has_eq_isSome_get? (t : Table κ ν) (k : κ) : t.has k = (t.get? k).isSome := by
  rw [get?, Option.isSome_map, has, List.isSome_find?]

variable [LawfulKeyed κ]

theorem get?_congr (t : Table κ ν) {k l : κ} (h : Keyed.same k l = true) :
    t.get? k = t.get? l := by
  simp only [get?, Keyed.same_congr h]

/-- A key that was set has its new value. -/
theorem get?_set_self (t : Table κ ν) (k : κ) (v : ν) : (t.set k v).get? k = some v := by
  obtain ⟨entries⟩ := t
  rw [set]
  split
  · rename_i h
    simp only [has, get?] at h ⊢
    induction entries with
    | nil => simp at h
    | cons e rest ih =>
      rw [List.map_cons, List.find?_cons]
      cases hke : Keyed.same k e.1
      · simp only [hke, Bool.false_eq_true, if_false]
        exact ih (by simpa [hke] using h)
      · simp [hke]
  · rename_i h
    have hnone : entries.find? (fun e => Keyed.same k e.1) = none := by
      simpa [has] using h
    simp [get?, List.find?_append, hnone, LawfulKeyed.refl]

/-- Setting a key leaves the other keys alone. -/
theorem get?_set_of_ne (t : Table κ ν) {k l : κ} (v : ν) (h : Keyed.same l k = false) :
    (t.set k v).get? l = t.get? l := by
  obtain ⟨entries⟩ := t
  rw [set]
  split
  · rename_i hk
    clear hk
    simp only [get?]
    induction entries with
    | nil => rfl
    | cons e rest ih =>
      rw [List.map_cons, List.find?_cons, List.find?_cons]
      cases hke : Keyed.same k e.1
      · simp only [Bool.false_eq_true, if_false]
        cases Keyed.same l e.1 <;> simp_all only
      · have hle : Keyed.same l e.1 = false := Bool.eq_false_iff.2 fun hl =>
          Bool.eq_false_iff.1 h (LawfulKeyed.trans hl (LawfulKeyed.symm hke))
        simp only [if_true, hle, ih]
  · simp [get?, List.find?_append, h]

/-- A set key has the value, whatever its spelling; the others keep theirs. -/
theorem get?_set (t : Table κ ν) (k l : κ) (v : ν) :
    (t.set k v).get? l = if Keyed.same l k then some v else t.get? l := by
  split
  · rename_i h
    rw [get?_congr _ h, get?_set_self]
  · rename_i h
    exact get?_set_of_ne t v (Bool.eq_false_iff.2 h)

/-- An erased key has no value, whatever its spelling; the others keep theirs. -/
theorem get?_erase (t : Table κ ν) (k l : κ) :
    (t.erase k).get? l = if Keyed.same l k then none else t.get? l := by
  obtain ⟨entries⟩ := t
  simp only [erase, get?]
  split
  · rename_i h
    simp only [Keyed.same_congr h]
    induction entries with
    | nil => rfl
    | cons e rest ih => cases hke : Keyed.same k e.1 <;> simp_all
  · rename_i h
    induction entries with
    | nil => rfl
    | cons e rest ih =>
      rw [List.filter_cons, List.find?_cons]
      cases hke : Keyed.same k e.1
      · cases hle : Keyed.same l e.1 <;> simp_all
      · have hle : Keyed.same l e.1 = false := Bool.eq_false_iff.2 fun hl =>
          h (LawfulKeyed.trans hl (LawfulKeyed.symm hke))
        simpa [hle] using ih

end Table

end ParseCache
