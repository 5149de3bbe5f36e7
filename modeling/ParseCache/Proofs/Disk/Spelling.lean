/-
  ParseCache.Proofs.Disk.Spelling — in how many ways a file can be spelled.

  A path in normal form leads to a place either from the root, or from the
  working directory through a number of `..`.  Place and number tell the path,
  and the limit on the length of a path bounds the number.  This is what makes
  the paths in normal form that lead to a file finitely many.

  Main results:
    * `spelled_of_find` — a path in normal form that leads somewhere is one of
      finitely many spellings of the place it leads to;
    * `Spelled.unique` — place and spelling tell the path.
-/
import ParseCache.Proofs.Disk.FileChange
import ParseCache.Proofs.Lists

namespace ParseCache

/-! ## §1. Lengths. -/

namespace Path

/-- A character takes a byte at least. -/
theorem length_le_utf8ByteSize (text : List Char) :
    text.length ≤ (String.ofList text).utf8ByteSize := by
  induction text with
  | nil => exact Nat.zero_le _
  | cons c rest ih =>
    have hcons : String.ofList (c :: rest) = String.singleton c ++ String.ofList rest := by
      rw [← String.toList_inj]
      simp
    have hpos := c.utf8Size_pos
    rw [hcons, String.utf8ByteSize_append, String.utf8ByteSize_singleton, List.length_cons]
    omega

/-- Each leading `..` takes three characters with the slash after it. -/
theorem ups_le_utf8ByteSize {p : Path} {ups : Nat} {rest : List (List Char)}
    (h : p.segments = List.replicate ups ['.', '.'] ++ rest) :
    3 * ups ≤ p.text.utf8ByteSize + 1 := by
  have hlengths := length_splitOn '/' p.text.toList
  have hsegments : p.text.toList.splitOn '/'
      = List.replicate ups (List.replicate 2 '.') ++ rest := h
  have hlength := length_le_utf8ByteSize p.text.toList
  rw [hsegments, List.flatten_append, List.flatten_replicate_replicate, List.length_append,
    List.length_append, List.length_replicate, List.length_replicate] at hlengths
  rw [String.ofList_toList] at hlength
  omega

/-- Leading `..` take names off the end. -/
theorem arrive_ups (ups : Nat) (rest : List (List Char)) :
    ∀ names : List String, arrive names (List.replicate ups ['.', '.'] ++ rest)
      = arrive (names.take (names.length - ups)) rest := by
  induction ups with
  | zero =>
    intro names
    rw [Nat.sub_zero, List.take_length]
    rfl
  | succ ups ih =>
    intro names
    have hup : arrive names (['.', '.'] :: (List.replicate ups ['.', '.'] ++ rest))
        = arrive names.dropLast (List.replicate ups ['.', '.'] ++ rest) := rfl
    rw [List.replicate_succ, List.cons_append, hup, ih, List.length_dropLast,
      List.dropLast_eq_take, List.take_take]
    congr 2
    omega

end Path

/-! ## §2. Spellings of a place. -/

namespace Disk

/-- The path `p` leads to `found` from the root, at level 0, or through one
`..` fewer than its level from the working directory. -/
def Spelled (d : Disk) (p : Path) (found : Place) (level : Nat) : Prop :=
  (level = 0 ∧ p = Path.ofPlace found) ∨
  ∃ (ups : Nat) (names : List String), level = ups + 1 ∧
    p = Path.ofComponents (List.replicate ups .up ++ names.map .name) ∧
    found = d.workDir.take (d.workDir.length - ups) ++ names

/-- Place and level tell the path. -/
theorem Spelled.unique {d : Disk} {p q : Path} {found : Place} {level : Nat}
    (hp : d.Spelled p found level) (hq : d.Spelled q found level) : p = q := by
  rcases hp with ⟨hlevel, rfl⟩ | ⟨ups, names, hlevel, rfl, hfound⟩
  · rcases hq with ⟨-, rfl⟩ | ⟨ups, names, hlevel', -, -⟩
    · rfl
    · omega
  · rcases hq with ⟨hlevel', -⟩ | ⟨ups', names', hlevel', rfl, hfound'⟩
    · omega
    · obtain rfl : ups = ups' := by omega
      rw [List.append_cancel_left (hfound.symm.trans hfound')]

/-- A path in normal form that leads to a place is one of its spellings. -/
theorem spelled_of_find {d : Disk} {p : Path} (hp : p.normalize = p) {found : Place} {node : Node}
    (h : d.find p = .ok (found, node)) :
    d.node? found = some node ∧ ∃ level ≤ pathLimit, d.Spelled p found level := by
  obtain ⟨cs, hcanonical, hcs⟩ := Path.exists_canonical hp
  obtain ⟨hfound, hnode, -⟩ := walk_eq_ok _ (find_eq_ok h)
  refine ⟨hnode, ?_⟩
  cases hcanonical with
  | absolute hnames =>
    rename_i names
    have habs : p.isAbsolute = true := by
      rw [hcs]
      exact Path.isAbsolute_ofPlace names
    rw [if_pos habs] at hfound
    have hplace : found = p.place := hfound
    refine ⟨0, Nat.zero_le _, Or.inl ⟨rfl, ?_⟩⟩
    rw [hplace, ← Path.normalize_eq_ofPlace habs, hp]
  | relative ups hnames =>
    rename_i names
    have hsteps : ∀ c ∈ List.replicate ups Path.Component.up ++ names.map .name, Path.IsStep c := by
      intro c hc
      rcases List.mem_append.1 hc with hc | hc
      · exact Or.inl (List.eq_of_mem_replicate hc)
      · obtain ⟨s, hs, rfl⟩ := List.mem_map.1 hc
        exact Path.isStep_name (hnames s hs)
    have hne : List.replicate ups Path.Component.up ++ names.map .name ≠ [] := by
      -- the empty path leads nowhere
      intro hnil
      rw [hcs, hnil] at h
      cases h
    obtain ⟨habs, hsegments⟩ := Path.written_steps hne hsteps
    rw [← hcs] at habs hsegments
    have hpieces : p.segments = List.replicate ups ['.', '.'] ++ names.map String.toList := by
      rw [hsegments, List.map_append, List.map_replicate, List.map_map]
      rfl
    rw [habs, if_neg Bool.false_ne_true, hpieces, Path.arrive_ups, Path.arrive_names hnames]
      at hfound
    refine ⟨ups + 1, ?_, Or.inr ⟨ups, names, rfl, hcs, hfound⟩⟩
    have hlimit : p.text.utf8ByteSize ≤ pathLimit := by
      rw [find] at h
      split at h
      · cases h
      · split at h
        · cases h
        · split at h
          · cases h
          · omega
    have hups := Path.ups_le_utf8ByteSize hpieces
    unfold pathLimit at hlimit ⊢
    omega

end Disk

end ParseCache
