/-
  ParseCache.Proofs.Lists — lists and results.

  Facts about lists, and about computations that may fail, which name nothing of
  caches or scans.  Several theories rest on them, and the standard library has
  no lemma for them.

  Main results:
    * `lookup_filter` — what is filtered out is not missed by look-ups of other
      keys;
    * `not_of_mem_dropWhile` — a list that a test cuts in two halves;
    * `find?_eq_of_fewer` — a search finds the same if fewer elements pass, as
      long as the one it found does;
    * `notMem_of_mem_splitOn`, `length_splitOn`, `takeWhile_ne_append` — the
      pieces of a list between separators;
    * `modify_congr` — a change at one place is a change of one element.
-/
import Mathlib.Data.List.Basic
import Mathlib.Data.List.TakeWhile

namespace ParseCache

/-! ## §1. Look-ups and searches. -/

/-- A filter that keeps every entry of a key does not show in its look-up. -/
theorem lookup_filter {α β : Type} [BEq α] [LawfulBEq α] (keep : α × β → Bool) (k : α)
    (h : ∀ v, keep (k, v) = true) (entries : List (α × β)) :
    (entries.filter keep).lookup k = entries.lookup k := by
  induction entries with
  | nil => rfl
  | cons e rest ih =>
    obtain ⟨l, v⟩ := e
    by_cases hk : k = l
    · subst hk
      rw [List.filter_cons_of_pos (h v), List.lookup_cons_self, List.lookup_cons_self]
    · have hbeq : (k == l) = false := by simpa using hk
      rw [List.filter_cons]
      split <;> simp [List.lookup_cons, hbeq, ih]

/-- Past the first element that fails a test all elements fail it, if with any
element the test holds of those before it. -/
theorem not_of_mem_dropWhile {α : Type} {p : α → Bool} :
    ∀ {l : List α}, (l.Pairwise fun a b => p b = true → p a = true) →
      ∀ b ∈ l.dropWhile p, p b = false := by
  intro l
  induction l with
  | nil => exact fun _ _ hb => absurd hb List.not_mem_nil
  | cons a rest ih =>
    intro hl b hb
    obtain ⟨hfirst, hrest⟩ := List.pairwise_cons.1 hl
    by_cases ha : p a = true
    · rw [List.dropWhile_cons_of_pos ha] at hb
      exact ih hrest b hb
    · rw [List.dropWhile_cons_of_neg ha] at hb
      rw [Bool.eq_false_iff]
      intro hpb
      apply ha
      rcases List.mem_cons.1 hb with rfl | hb
      · exact hpb
      · exact hfirst b hb hpb

/-- A search with a stricter test finds the same, if what was found passes. -/
theorem find?_eq_of_fewer {α : Type} {p p' : α → Bool} {xs : List α}
    (hless : ∀ x ∈ xs, p' x = true → p x = true)
    (hfound : ∀ x, xs.find? p = some x → p' x = true) : xs.find? p' = xs.find? p := by
  induction xs with
  | nil => rfl
  | cons x rest ih =>
    rw [List.find?_cons, List.find?_cons]
    cases hx : p x with
    | true =>
      have hx' : p' x = true := hfound x (by rw [List.find?_cons, hx])
      rw [hx']
    | false =>
      have hx' : p' x = false := by
        rw [Bool.eq_false_iff]
        intro hx'
        rw [hless x List.mem_cons_self hx'] at hx
        cases hx
      rw [hx']
      refine ih (fun y hy => hless y (List.mem_cons_of_mem _ hy)) fun y hy => ?_
      refine hfound y ?_
      rw [List.find?_cons, hx]
      exact hy

/-! ## §2. Pieces between separators. -/

/-- No piece holds the separator. -/
theorem notMem_of_mem_splitOn {α : Type} [BEq α] [LawfulBEq α] (sep : α) (l : List α) :
    ∀ piece ∈ l.splitOn sep, sep ∉ piece := by
  induction l with
  | nil => simp
  | cons a rest ih =>
    rw [List.splitOn_cons_eq_if_modifyHead]
    by_cases ha : a = sep
    · simpa [ha] using ih
    · rw [if_neg (by simpa using ha)]
      obtain ⟨head, tail, htail⟩ := List.exists_cons_of_ne_nil (List.splitOn_ne_nil sep rest)
      rw [htail] at ih ⊢
      intro piece hmem
      rcases List.mem_cons.1 hmem with rfl | hmem
      · have hhead := ih head List.mem_cons_self
        rw [List.mem_cons, not_or]
        exact ⟨Ne.symm ha, hhead⟩
      · exact ih piece (List.mem_cons_of_mem _ hmem)

/-- Every piece but the last is followed by a separator. -/
theorem length_splitOn {α : Type} [BEq α] (sep : α) (l : List α) :
    (l.splitOn sep).flatten.length + (l.splitOn sep).length = l.length + 1 := by
  induction l with
  | nil => rfl
  | cons a rest ih =>
    rw [List.splitOn_cons_eq_if_modifyHead]
    obtain ⟨head, tail, htail⟩ := List.exists_cons_of_ne_nil (List.splitOn_ne_nil sep rest)
    rw [htail, List.flatten_cons, List.length_append, List.length_cons] at ih
    rw [htail, List.length_cons]
    split
    · rw [List.flatten_cons, List.flatten_cons, List.nil_append, List.length_append,
        List.length_cons, List.length_cons]
      omega
    · rw [List.modifyHead_cons, List.flatten_cons, List.length_append, List.length_cons,
        List.length_cons]
      omega

/-- A list without the separator is a piece by itself. -/
theorem takeWhile_ne_of_notMem {α : Type} [DecidableEq α] {sep : α} {l : List α} (h : sep ∉ l) :
    l.takeWhile (· ≠ sep) = l := by
  rw [List.takeWhile_eq_self_iff]
  intro a ha
  exact decide_eq_true fun heq => h (heq ▸ ha)

/-- A piece goes up to the first separator. -/
theorem takeWhile_ne_append {α : Type} [DecidableEq α] {sep : α} {piece : List α}
    (h : sep ∉ piece) (rest : List α) :
    (piece ++ sep :: rest).takeWhile (· ≠ sep) = piece := by
  have hinside : ∀ a ∈ piece, decide (a ≠ sep) = true :=
    List.takeWhile_eq_self_iff.1 (takeWhile_ne_of_notMem h)
  rw [List.takeWhile_append_of_pos hinside]
  simp

/-! ## §3. Changes, element by element. -/

/-- All that counts of a change is what it makes of its element. -/
theorem modify_congr {α : Type} {l : List α} {n : Nat} {a : α} (ha : l[n]? = some a)
    {f g : α → α} (h : f a = g a) : l.modify n f = l.modify n g := by
  apply List.ext_getElem?
  intro m
  by_cases hm : n = m
  · subst hm
    rw [List.getElem?_modify_eq, List.getElem?_modify_eq, ha]
    exact congrArg some h
  · rw [List.getElem?_modify_ne _ _ hm, List.getElem?_modify_ne _ _ hm]

/-- What is read item by item as it was written is the list that was written. -/
theorem mapM_map_eq_some {α β : Type} {read : β → Option α} {write : α → β} {items : List α}
    (h : ∀ item ∈ items, read (write item) = some item) :
    (items.map write).mapM read = some items := by
  induction items with
  | nil => rfl
  | cons item items ih =>
    rw [List.map_cons, List.mapM_cons, h item List.mem_cons_self,
      ih fun i hi => h i (List.mem_cons_of_mem item hi)]
    rfl

/-! ## §4. Results. -/

/-- A computation that succeeds has succeeded in its first step. -/
theorem ok_of_bind {ε α β : Type} {x : Except ε α} {f : α → Except ε β} {b : β}
    (h : x >>= f = .ok b) : ∃ a, x = .ok a ∧ f a = .ok b := by
  cases x with
  | error cause => cases h
  | ok a => exact ⟨a, rfl, h⟩

/-- Forgetting the cause of a failure loses no result. -/
theorem eq_ok_of_toOption {ε α : Type} {r : Except ε α} {a : α} (h : r.toOption = some a) :
    r = .ok a := by
  cases r with
  | error e => cases h
  | ok b =>
    cases h
    rfl

end ParseCache
