/-
  ParseCache.Proofs.Path.Sets — sets of paths, and how they are listed.

  A set of paths is a list as well, and what makes it a set is that no path is
  in it under two spellings.  Paths are ordered by their components, and the
  order ties exactly on paths that are the same; a set that is sorted is
  therefore listed in strictly increasing order.

  Main results:
    * `Component.compare`, `Path.compare` — transitive comparisons, by
      instances of the classes for them;
    * `pairwise_lt_mergeSort` — different paths, sorted, increase strictly;
    * `distinct_ofList` — sets that are built path by path are sets;
    * `contains_diff` — what is in a difference.
-/
import ParseCache.PathSet

namespace ParseCache

/-! ## §1. The order of paths. -/

namespace Path

namespace Component

/-- What tells a component from others of its kind. -/
def label : Component → String
  | name s => s
  | _ => ""

/-- Components are compared by their kinds and then by their labels. -/
theorem compare_eq_compareLex :
    compare = compareLex (compareOn Component.rank) (compareOn Component.label) := by
  funext a b
  cases a <;> cases b <;> rfl

instance : Std.TransCmp compare := by
  rw [compare_eq_compareLex]
  infer_instance

instance : Std.LawfulEqCmp compare where
  eq_of_compare {a b} h := by
    rw [compare_eq_compareLex, compareLex_eq_eq] at h
    have hrank : a.rank = b.rank := Std.LawfulEqCmp.eq_of_compare h.1
    have hlabel : a.label = b.label := Std.LawfulEqCmp.eq_of_compare h.2
    cases a <;> cases b <;> first | exact congrArg name hlabel | rfl | cases hrank

end Component

/-- Lists of components are compared like words. -/
abbrev compareComponents : List Component → List Component → Ordering :=
  List.compareLex Component.compare

instance : Std.TransCmp compare where
  eq_swap {p q} := @Std.OrientedCmp.eq_swap _ compareComponents _ p.components q.components
  isLE_trans {p q r} :=
    @Std.TransCmp.isLE_trans _ compareComponents _ p.components q.components r.components

/-- The order ties exactly on paths that are the same. -/
theorem compare_eq_iff {p q : Path} : p.compare q = .eq ↔ p.same q = true := by
  rw [same_iff]
  exact @Std.LawfulEqCmp.compare_eq_iff_eq _ compareComponents _ p.components q.components

/-- Different paths increase strictly once they are sorted. -/
theorem pairwise_lt_mergeSort {paths : List Path}
    (h : paths.Pairwise fun p q => p.same q = false) :
    (paths.mergeSort le).Pairwise fun p q => p.compare q = .lt := by
  have htrans : ∀ p q r : Path, p.le q = true → q.le r = true → p.le r = true :=
    fun p q r => @Std.TransCmp.isLE_trans _ compare _ p q r
  have htotal : ∀ p q : Path, (p.le q || q.le p) = true := by
    intro p q
    unfold le
    rw [@Std.OrientedCmp.eq_swap _ compare _ q p]
    cases p.compare q <;> rfl
  have hsorted := List.pairwise_mergeSort htrans htotal paths
  -- sorting does not make different paths the same
  have hdifferent : (paths.mergeSort le).Pairwise fun p q => p.same q = false := by
    refine (List.mergeSort_perm paths le).symm.pairwise h fun {p q} hpq => ?_
    rw [same_comm]
    exact hpq
  refine (hsorted.and hdifferent).imp fun {p q} hpq => ?_
  obtain ⟨hle, hne⟩ := hpq
  cases hcompare : p.compare q with
  | lt => rfl
  | eq =>
    rw [compare_eq_iff.1 hcompare] at hne
    cases hne
  | gt =>
    unfold le at hle
    rw [hcompare] at hle
    cases hle

end Path

/-! ## §2. Sets. -/

namespace PathSet

/-- No path is in the set under two spellings. -/
def Distinct (s : PathSet) : Prop := s.paths.Pairwise fun p q => p.same q = false

theorem contains_congr (s : PathSet) {p q : Path} (h : p.same q = true) :
    s.contains p = s.contains q := by
  have hsame : p.same = q.same := by
    funext r
    simp only [Path.same, Path.same_iff.1 h]
  rw [contains, contains, hsame]

/-- What is put into a set is in it. -/
theorem contains_insert_self (s : PathSet) (p : Path) : (s.insert p).contains p = true := by
  rw [contains_insert, Path.same_refl, Bool.true_or]

/-- What was listed before is still listed. -/
theorem mem_paths_insert {s : PathSet} {p q : Path} (h : q ∈ s.paths) :
    q ∈ (s.insert p).paths := by
  unfold insert
  split
  · exact h
  · exact List.mem_append_left _ h

theorem distinct_insert {s : PathSet} (h : s.Distinct) (p : Path) : (s.insert p).Distinct := by
  unfold insert
  split
  · exact h
  · rename_i hp
    show (s.paths ++ [p]).Pairwise _
    rw [List.pairwise_append]
    refine ⟨h, List.pairwise_singleton _ _, fun q hq r hr => ?_⟩
    rw [List.mem_singleton.1 hr, Path.same_comm, Bool.eq_false_iff]
    intro hpq
    exact hp (List.any_eq_true.2 ⟨q, hq, hpq⟩)

/-- What is put together path by path is a set. -/
theorem distinct_ofList (paths : List Path) : (ofList paths).Distinct := by
  suffices h : ∀ s : PathSet, s.Distinct → (paths.foldl insert s).Distinct from
    h empty List.Pairwise.nil
  induction paths with
  | nil =>
    intro s hs
    exact hs
  | cons p rest ih =>
    intro s hs
    exact ih _ (distinct_insert hs p)

theorem distinct_diff {s : PathSet} (h : s.Distinct) (t : PathSet) :
    (s.diff t).Pairwise fun p q => p.same q = false :=
  List.Pairwise.filter _ h

theorem contains_diff (s t : PathSet) (q : Path) :
    (s.diff t).any q.same = (s.contains q && !t.contains q) := by
  rw [Bool.eq_iff_iff, Bool.and_eq_true, List.any_eq_true]
  constructor
  · rintro ⟨p, hp, hqp⟩
    obtain ⟨hp, hnot⟩ := List.mem_filter.1 hp
    rw [contains_congr t hqp]
    exact ⟨List.any_eq_true.2 ⟨p, hp, hqp⟩, hnot⟩
  · rintro ⟨hs, ht⟩
    obtain ⟨p, hp, hqp⟩ := List.any_eq_true.1 hs
    rw [contains_congr t hqp] at ht
    exact ⟨p, List.mem_filter.2 ⟨hp, ht⟩, hqp⟩

end PathSet

end ParseCache
