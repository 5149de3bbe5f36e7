/-
  ParseCache.Proofs.Path.Walk — what a path means, and that its normal form
  says just that.

  A path is read as a walk over positions, which are lists of names from the
  root down: the root goes to the root, a name goes down, `..` goes up where
  there is something above, and `.` stays.  Normalising does not change the
  walk; and two paths with the same walk have the same normal form, because
  different canonical lists can be told apart by where they lead from a few
  positions.  A path read from another one is the walk of the one after the walk
  of the other, so normalising first makes no difference to a join.

  Main results:
    * `walk_normalize` — the normal form is the same walk;
    * `eq_of_same_walk` — canonical lists with the same walk are equal;
    * `walk_join` — a join walks one path after the other;
    * `normalize_canonical` — the normal form is canonical for the walk.
-/
import ParseCache.Proofs.Path.Canonical

namespace ParseCache.Path

/-! ## §1. Walks. -/

/-- Where a component leads to from a position. -/
def Component.lead (position : List String) : Component → List String
  | root => []
  | here => position
  | up => position.dropLast
  | name s => position ++ [s]

/-- Where a path leads to from a position. -/
def walk (p : Path) (position : List String) : List String :=
  p.components.foldl Component.lead position

/-- Two paths lead to the same position from every position. -/
def SameWalk (p q : Path) : Prop :=
  ∀ position : List String, (∀ s ∈ position, IsName s) → p.walk position = q.walk position

/-! ## §2. Normalising keeps the walk. -/

/-- A component that is put on the stack of `Component.reduce`, or taken back
from it, is a step of the walk. -/
theorem lead_reduce (stack : List Component) (c : Component) (position : List String) :
    (Component.reduce stack c).reverse.foldl Component.lead position
      = Component.lead (stack.reverse.foldl Component.lead position) c := by
  unfold Component.reduce
  split
  · rfl
  · -- `..` takes the last name back
    rw [List.reverse_cons, List.foldl_append]
    show _ = (_ ++ [_]).dropLast
    rw [List.dropLast_concat]
  · -- above the root there is nothing
    rw [List.reverse_cons, List.foldl_append]
    rfl
  · rw [List.reverse_cons, List.foldl_append]
    rfl
  · rw [List.reverse_cons, List.foldl_append]
    rfl

theorem foldl_lead_reduce (components : List Component) (position : List String) :
    ∀ stack : List Component,
      (components.foldl Component.reduce stack).reverse.foldl Component.lead position
        = components.foldl Component.lead (stack.reverse.foldl Component.lead position) := by
  induction components with
  | nil =>
    intro stack
    rfl
  | cons c rest ih =>
    -- the stack holds what the walk has come to so far
    intro stack
    rw [List.foldl_cons, ih, lead_reduce, List.foldl_cons]

/-- The normal form of a path is the same walk. -/
theorem walk_normalize (p : Path) (position : List String) :
    p.normalize.walk position = p.walk position := by
  rw [walk, components_normalize, reduced, foldl_lead_reduce]
  rfl

/-! ## §3. Walks tell canonical lists apart. -/

/-- Two lists of components lead to the same position from every position. -/
def Component.SameWalk (cs cs' : List Component) : Prop :=
  ∀ position : List String, (∀ s ∈ position, IsName s) →
    cs.foldl Component.lead position = cs'.foldl Component.lead position

theorem Component.SameWalk.symm {cs cs' : List Component} (h : SameWalk cs cs') :
    SameWalk cs' cs := fun position hposition => (h position hposition).symm

/-- The components of a relative path in normal form. -/
def relative (ups : Nat) (names : List String) : List Component :=
  List.replicate ups .up ++ names.map .name

theorem foldl_lead_names (names : List String) :
    ∀ position : List String,
      (names.map Component.name).foldl Component.lead position = position ++ names := by
  induction names with
  | nil => simp
  | cons s rest ih =>
    intro position
    rw [List.map_cons, List.foldl_cons, ih]
    simp [Component.lead]

theorem foldl_lead_ups (ups : Nat) :
    ∀ position : List String,
      (List.replicate ups Component.up).foldl Component.lead position
        = position.take (position.length - ups) := by
  induction ups with
  | zero => simp
  | succ ups ih =>
    intro position
    have hup : Component.lead position .up = position.dropLast := rfl
    rw [List.replicate_succ, List.foldl_cons, hup, ih, List.length_dropLast,
      List.dropLast_eq_take, List.take_take]
    congr 1
    omega

/-- Where `..` and names lead to from a position that repeats one name. -/
theorem foldl_lead_relative {n ups : Nat} (h : ups ≤ n) (s : String) (names : List String) :
    (relative ups names).foldl Component.lead (List.replicate n s)
      = List.replicate (n - ups) s ++ names := by
  rw [relative, List.foldl_append, foldl_lead_ups, foldl_lead_names, List.length_replicate,
    List.take_replicate]
  congr 2
  omega

theorem isName_letter : IsName "a" ∧ IsName "b" := by
  refine ⟨⟨?_, rfl⟩, ⟨?_, rfl⟩⟩ <;> decide

theorem isName_replicate {s : String} (hs : IsName s) (n : Nat) :
    ∀ t ∈ List.replicate n s, IsName t := by
  intro t ht
  rw [List.eq_of_mem_replicate ht]
  exact hs

/-- Of two relative lists with the same walk, neither has more leading `..`. -/
theorem ups_le_of_same_walk {ups ups' : Nat} {names names' : List String}
    (h : Component.SameWalk (relative ups names) (relative ups' names')) : ups' ≤ ups := by
  refine Nat.le_of_not_lt fun hlt => ?_
  -- from a position with just enough names, one walk forgets what the names were
  have hletter : ∀ s, IsName s → List.replicate (ups' - ups) s ++ names = names' := by
    intro s hs
    have hwalk := h (List.replicate ups' s) (isName_replicate hs ups')
    rw [foldl_lead_relative (by omega), foldl_lead_relative (Nat.le_refl _), Nat.sub_self] at hwalk
    exact hwalk
  obtain ⟨k, hk⟩ : ∃ k, ups' - ups = k + 1 := ⟨ups' - ups - 1, by omega⟩
  have hsame := (hletter "a" isName_letter.1).trans (hletter "b" isName_letter.2).symm
  rw [hk, List.replicate_succ, List.replicate_succ, List.cons_append, List.cons_append] at hsame
  exact absurd (List.cons.inj hsame).1 (by decide)

/-- A walk that starts from the root forgets where it was, and one that does not
remembers. -/
theorem not_same_walk (names : List String) (ups : Nat) (names' : List String) :
    ¬ Component.SameWalk (.root :: names.map .name) (relative ups names') := by
  intro h
  have hlength : ∀ n, ups ≤ n → names.length = n - ups + names'.length := by
    intro n hn
    have hwalk := h (List.replicate n "a") (isName_replicate isName_letter.1 n)
    rw [foldl_lead_relative hn, List.foldl_cons, foldl_lead_names] at hwalk
    simpa [Component.lead] using congrArg List.length hwalk
  have hnear := hlength ups (Nat.le_refl _)
  have hfar := hlength (ups + 1) (Nat.le_succ _)
  omega

/-- Canonical lists with the same walk are equal. -/
theorem eq_of_same_walk {cs cs' : List Component} (h : Canonical cs) (h' : Canonical cs')
    (hwalk : Component.SameWalk cs cs') : cs = cs' := by
  cases h with
  | absolute hnames =>
    cases h' with
    | absolute hnames' =>
      have hroot := hwalk [] (by simp)
      rw [List.foldl_cons, List.foldl_cons, foldl_lead_names, foldl_lead_names] at hroot
      rw [List.append_cancel_left hroot]
    | relative ups hnames' => exact absurd hwalk (not_same_walk _ ups _)
  | relative ups hnames =>
    cases h' with
    | absolute hnames' => exact absurd hwalk.symm (not_same_walk _ ups _)
    | relative ups' hnames' =>
      have hle := ups_le_of_same_walk hwalk
      have hle' := ups_le_of_same_walk hwalk.symm
      obtain rfl : ups = ups' := Nat.le_antisymm hle' hle
      have hnames := hwalk (List.replicate ups "a") (isName_replicate isName_letter.1 ups)
      rw [← relative, ← relative, foldl_lead_relative (Nat.le_refl _),
        foldl_lead_relative (Nat.le_refl _)] at hnames
      rw [List.append_cancel_left hnames]

/-- The same walk, the same normal form. -/
theorem normalize_eq_iff {p q : Path} : p.normalize = q.normalize ↔ SameWalk p q := by
  constructor
  · intro h position _
    rw [← walk_normalize p, h, walk_normalize]
  · intro h
    have hcomponents : reduced p.components = reduced q.components := by
      refine eq_of_same_walk (reduced_canonical p) (reduced_canonical q)
        fun position hposition => ?_
      rw [← components_normalize, ← components_normalize]
      show p.normalize.walk position = q.normalize.walk position
      rw [walk_normalize, walk_normalize]
      exact h position hposition
    show ofComponents (reduced p.components) = ofComponents (reduced q.components)
    rw [hcomponents]

/-! ## §4. Joins. -/

/-- The walk follows the pieces of the text. -/
theorem foldl_lead_filterMap (segments : List (List Char)) :
    ∀ position : List String,
      (segments.filterMap Component.ofSegment?).foldl Component.lead position
        = arrive position segments := by
  induction segments with
  | nil =>
    intro position
    rfl
  | cons segment rest ih =>
    intro position
    rw [List.filterMap_cons, arrive]
    cases hread : Component.ofSegment? segment with
    | none => exact ih position
    | some c =>
      cases c with
      | root => exact absurd hread (ofSegment?_ne_root segment)
      | here => exact absurd hread (ofSegment?_ne_here segment)
      | name s => exact ih (position ++ [s])
      | up => exact ih position.dropLast

theorem walk_eq_arrive (p : Path) (position : List String) :
    p.walk position = arrive (if p.isAbsolute then [] else position) p.segments := by
  rw [walk, components]
  by_cases habs : p.isAbsolute = true
  · rw [if_pos habs, if_pos habs, List.foldl_cons]
    exact foldl_lead_filterMap p.segments []
  · rw [if_neg habs, if_neg habs]
    split
    · rename_i rest hsegments
      -- a leading `.` stays where it is, as component and as piece
      rw [hsegments, List.foldl_cons]
      exact foldl_lead_filterMap rest position
    · exact foldl_lead_filterMap p.segments position

theorem arrive_append (segments rest : List (List Char)) :
    ∀ position : List String,
      arrive position (segments ++ rest) = arrive (arrive position segments) rest := by
  intro position
  rw [← foldl_lead_filterMap, ← foldl_lead_filterMap, ← foldl_lead_filterMap,
    List.filterMap_append, List.foldl_append]

/-- What `q` is written after, if it is read from `p` and does not start at the
root: nothing, or the pieces of `p`. -/
theorem segments_join {p q : Path} (h : q.isAbsolute = false) :
    (p.text.toList = [] ∧ p.join q = q) ∨
    ((p.join q).isAbsolute = p.isAbsolute ∧ ∃ pieces : List (List Char),
      (p.join q).segments = pieces ++ q.segments ∧
        ∀ position, arrive position p.segments = arrive position pieces) := by
  rw [join, h, if_neg Bool.false_ne_true]
  rcases List.eq_nil_or_concat p.text.toList with hnil | ⟨front, last, hlast⟩
  · left
    rw [hnil]
    exact ⟨rfl, rfl⟩
  · right
    have hhead : ∀ rest : List Char,
        (p.text.toList ++ rest).head? = p.text.toList.head? := by
      intro rest
      rw [hlast]
      cases front <;> rfl
    rw [hlast, List.concat_eq_append, List.getLast?_concat]
    split
    · rename_i hnone
      cases hnone
    · rename_i hslash
      obtain rfl : last = '/' := Option.some.inj hslash
      refine ⟨?_, front.splitOn '/', ?_, fun position => ?_⟩
      · rw [isAbsolute, isAbsolute, String.toList_append, hhead]
      · rw [segments, String.toList_append, hlast, List.concat_eq_append, List.append_assoc]
        exact List.splitOn_append_cons_self front q.text.toList
      · -- the empty piece after the slash leads nowhere
        rw [segments, hlast, List.concat_eq_append, List.splitOn_append_cons_self, arrive_append]
        rfl
    · refine ⟨?_, p.segments, ?_, fun position => rfl⟩
      · rw [isAbsolute, isAbsolute, String.toList_append, String.toList_append, List.append_assoc,
          hhead]
      · rw [segments, String.toList_append, String.toList_append, List.append_assoc]
        exact List.splitOn_append_cons_self p.text.toList q.text.toList

/-- A path read from another one walks on from where that leads. -/
theorem walk_join (p q : Path) (position : List String) :
    (p.join q).walk position = q.walk (p.walk position) := by
  cases habs : q.isAbsolute with
  | true =>
    rw [join, if_pos habs, walk_eq_arrive, walk_eq_arrive, if_pos habs, if_pos habs]
  | false =>
    rw [walk_eq_arrive q, habs, if_neg Bool.false_ne_true]
    rcases segments_join (p := p) habs with ⟨hempty, hjoin⟩ | ⟨hsame, pieces, hpieces, hwalk⟩
    · have hstay : p.walk position = position := by
        rw [walk_eq_arrive, isAbsolute, segments, hempty]
        rfl
      rw [hjoin, hstay, walk_eq_arrive, habs, if_neg Bool.false_ne_true]
    · rw [walk_eq_arrive, hsame, hpieces, arrive_append, walk_eq_arrive, hwalk]

/-! ## §5. The canonical form. -/

/-- A canonical list has no `.`. -/
theorem Canonical.here_notMem {cs : List Component} (h : Canonical cs) : Component.here ∉ cs := by
  cases h <;> simp

/-- The normal form of a path is the canonical way to write its walk: it is the
same walk; after a root, or a run of `..`, it has nothing but names; and it is
the same, as text and by components, exactly for paths with the same walk.  So
normalising twice is normalising once, and what is joined may be normalised
before. -/
theorem normalize_canonical :
    (∀ (p : Path) (position : List String), p.normalize.walk position = p.walk position) ∧
    (∀ p : Path, Canonical p.normalize.components ∧ Component.here ∉ p.normalize.components) ∧
    (∀ p q : Path, (p.normalize = q.normalize ↔ SameWalk p q) ∧
      (p.normalize.same q.normalize = true ↔ SameWalk p q)) ∧
    (∀ p : Path, p.normalize.normalize = p.normalize) ∧
    ∀ p q : Path, (p.join q).normalize = (p.normalize.join q.normalize).normalize := by
  refine ⟨walk_normalize, fun p => ?_, fun p q => ⟨normalize_eq_iff, ?_⟩, normalize_normalize,
    fun p q => ?_⟩
  · have hcanonical : Canonical p.normalize.components := by
      rw [components_normalize]
      exact reduced_canonical p
    exact ⟨hcanonical, hcanonical.here_notMem⟩
  · rw [← normalize_eq_iff]
    constructor
    · intro h
      have hsame := normalize_eq_of_same h
      rwa [normalize_normalize, normalize_normalize] at hsame
    · intro h
      rw [h]
      exact same_refl q.normalize
  · refine normalize_eq_iff.2 fun position _ => ?_
    rw [walk_join, walk_join, walk_normalize, walk_normalize]

end ParseCache.Path
