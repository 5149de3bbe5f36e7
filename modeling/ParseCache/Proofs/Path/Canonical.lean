/-
  ParseCache.Proofs.Path.Canonical — the normal form of a path, as text and as
  components.

  `Path.normalize` works on components and then writes text.  For what other
  modules need of it, two things have to be settled once:

    * `components_normalize` — reading the text back gives the components
      that were written, because the reduced list is canonical: a root or a
      run of `..`, and then names;
    * `normalize_eq_ofPlace` — the normal form of a path that starts at the
      root is the path of one place, the list of names from the root down.
-/
import ParseCache.Path.Normal
import ParseCache.Proofs.Lists

namespace ParseCache.Path

/-! ## §1. Names. -/

/-- A text that is a name between slashes. -/
def IsName (s : String) : Prop :=
  '/' ∉ s.toList ∧ Component.ofSegment? s.toList = some (.name s)

theorem ofSegment?_ne_root (segment : List Char) :
    Component.ofSegment? segment ≠ some .root := by
  unfold Component.ofSegment?
  split <;> simp

theorem ofSegment?_ne_here (segment : List Char) :
    Component.ofSegment? segment ≠ some .here := by
  unfold Component.ofSegment?
  split <;> simp

/-- What a piece without slashes is read as, if it is read as a name. -/
theorem isName_of_ofSegment? {segment : List Char} {s : String} (hslash : '/' ∉ segment)
    (h : Component.ofSegment? segment = some (.name s)) : IsName s := by
  have hs : s = String.ofList segment := by
    unfold Component.ofSegment? at h
    split at h <;> simp_all
  subst hs
  rw [IsName, String.toList_ofList]
  exact ⟨hslash, h⟩

theorem IsName.ne_nil {s : String} (h : IsName s) : s.toList ≠ [] := by
  intro hnil
  have hread := h.2
  rw [hnil] at hread
  cases hread

theorem IsName.ne_dot {s : String} (h : IsName s) : s.toList ≠ ['.'] := by
  intro hdot
  have hread := h.2
  rw [hdot] at hread
  cases hread

/-! ## §2. Canonical component lists. -/

/-- The components that a normal form may have: what it starts from, the root
or a number of `..`, and the names that follow. -/
inductive Canonical : List Component → Prop
  | absolute {names : List String} (h : ∀ s ∈ names, IsName s) :
      Canonical (.root :: names.map .name)
  | relative (ups : Nat) {names : List String} (h : ∀ s ∈ names, IsName s) :
      Canonical (List.replicate ups .up ++ names.map .name)

theorem canonical_root : Canonical [.root] :=
  .absolute fun _ h => absurd h List.not_mem_nil

theorem canonical_ups (ups : Nat) : Canonical (List.replicate ups .up) := by
  have h := Canonical.relative ups fun s h => absurd h (List.not_mem_nil (a := s))
  simpa using h

/-- The components after the first one of any path are names and `..`. -/
def IsStep (c : Component) : Prop := c = .up ∨ ∃ s, c = .name s ∧ IsName s

theorem isStep_of_mem_filterMap {segments : List (List Char)} (h : ∀ s ∈ segments, '/' ∉ s)
    {c : Component} (hc : c ∈ segments.filterMap Component.ofSegment?) : IsStep c := by
  obtain ⟨segment, hmem, hread⟩ := List.mem_filterMap.1 hc
  cases c with
  | root => exact absurd hread (ofSegment?_ne_root segment)
  | here => exact absurd hread (ofSegment?_ne_here segment)
  | up => exact Or.inl rfl
  | name s => exact Or.inr ⟨s, rfl, isName_of_ofSegment? (h segment hmem) hread⟩

/-- The components of a path: a root or a leading `.` or neither, and steps. -/
theorem components_eq (p : Path) :
    ∃ steps : List Component, (∀ c ∈ steps, IsStep c) ∧
      (p.components = .root :: steps ∧ p.isAbsolute = true ∨
        p.isAbsolute = false ∧ (p.components = .here :: steps ∨ p.components = steps)) := by
  have hslash : ∀ segment ∈ p.segments, '/' ∉ segment := notMem_of_mem_splitOn '/' p.text.toList
  rw [components]
  by_cases habs : p.isAbsolute = true
  · refine ⟨_, fun c hc => isStep_of_mem_filterMap hslash hc, Or.inl ⟨?_, habs⟩⟩
    rw [if_pos habs]
  · rw [if_neg habs]
    rw [Bool.not_eq_true] at habs
    split
    · rename_i rest hsegments
      have hrest : ∀ segment ∈ rest, '/' ∉ segment := fun segment hmem =>
        hslash segment (by rw [hsegments]; exact List.mem_cons_of_mem _ hmem)
      exact ⟨_, fun c hc => isStep_of_mem_filterMap hrest hc, Or.inr ⟨habs, Or.inl rfl⟩⟩
    · exact ⟨_, fun c hc => isStep_of_mem_filterMap hslash hc, Or.inr ⟨habs, Or.inr rfl⟩⟩

/-! ## §3. Reducing gives a canonical list. -/

theorem reduce_name (stack : List Component) (s : String) :
    Component.reduce stack (.name s) = .name s :: stack := by
  unfold Component.reduce
  split <;> simp_all

/-- The stack of `Component.reduce` while it works: the canonical list it
will become, last component first. -/
theorem reduce_canonical {stack : List Component} (hstack : Canonical stack.reverse)
    {c : Component} (hc : IsStep c) : Canonical (Component.reduce stack c).reverse := by
  rcases hc with rfl | ⟨s, rfl, hs⟩
  · -- `..`: takes a name back, stays at the root, or joins the leading run
    generalize hcs : stack.reverse = cs at hstack
    have hst : stack = cs.reverse := by rw [← hcs, List.reverse_reverse]
    subst hst
    cases hstack with
    | absolute h =>
      rename_i names
      -- at the root `..` leads nowhere, below it to the place above
      rcases List.eq_nil_or_concat names with rfl | ⟨front, last, rfl⟩
      · exact canonical_root
      · have hfront : ∀ s ∈ front, IsName s := fun s hs => h s (by simp [hs])
        simpa [Component.reduce] using Canonical.absolute hfront
    | relative ups h =>
      rename_i names
      rcases List.eq_nil_or_concat names with rfl | ⟨front, last, rfl⟩
      · have hup : Component.reduce (List.replicate ups Component.up) .up
            = List.replicate (ups + 1) .up := by
          cases ups <;> rfl
        simpa [hup] using canonical_ups (ups + 1)
      · have hfront : ∀ s ∈ front, IsName s := fun s hs => h s (by simp [hs])
        simpa [Component.reduce] using Canonical.relative ups hfront
  · -- a name: pushed
    rw [reduce_name, List.reverse_cons]
    have happend : ∀ names : List String, (∀ t ∈ names, IsName t) →
        ∀ t ∈ names ++ [s], IsName t := by
      intro names h t ht
      rcases List.mem_append.1 ht with ht | ht
      · exact h t ht
      · rw [List.mem_singleton.1 ht]
        exact hs
    generalize stack.reverse = cs at hstack
    cases hstack with
    | absolute h =>
      simpa using Canonical.absolute (happend _ h)
    | relative ups h =>
      simpa using Canonical.relative ups (happend _ h)

theorem foldl_reduce_canonical {steps : List Component} (hsteps : ∀ c ∈ steps, IsStep c) :
    ∀ stack : List Component, Canonical stack.reverse →
      Canonical (steps.foldl Component.reduce stack).reverse := by
  induction steps with
  | nil => intro stack h; exact h
  | cons c steps ih =>
    intro stack h
    rw [List.foldl_cons]
    exact ih (fun d hd => hsteps d (List.mem_cons_of_mem _ hd)) _
      (reduce_canonical h (hsteps c List.mem_cons_self))

theorem reduced_canonical (p : Path) : Canonical (reduced p.components) := by
  obtain ⟨steps, hsteps, ⟨h, -⟩ | ⟨-, h | h⟩⟩ := components_eq p
  · rw [h]
    exact foldl_reduce_canonical hsteps [.root] canonical_root
  · rw [h]
    exact foldl_reduce_canonical hsteps [] (canonical_ups 0)
  · rw [h]
    exact foldl_reduce_canonical hsteps [] (canonical_ups 0)

/-! ## §4. Reading a canonical list back. -/

/-- The pieces of a text written with single slashes. -/
theorem splitOn_intercalate_text {components : List Component} (hne : components ≠ [])
    (h : ∀ c ∈ components, IsStep c) :
    ("/".intercalate (components.map Component.text)).toList.splitOn '/'
      = components.map fun c => c.text.toList := by
  rw [String.toList_intercalate, List.map_map]
  refine List.splitOn_intercalate '/' ?_ (by simpa using hne)
  intro text htext
  obtain ⟨c, hc, rfl⟩ := List.mem_map.1 htext
  rcases h c hc with rfl | ⟨s, rfl, hs⟩
  · show '/' ∉ ("..".toList : List Char)
    decide
  · exact hs.1

theorem ofSegment?_text {c : Component} (h : IsStep c) :
    Component.ofSegment? c.text.toList = some c := by
  rcases h with rfl | ⟨s, rfl, hs⟩
  · rfl
  · exact hs.2

theorem filterMap_ofSegment?_text {components : List Component} (h : ∀ c ∈ components, IsStep c) :
    (components.map fun c => c.text.toList).filterMap Component.ofSegment? = components := by
  induction components with
  | nil => rfl
  | cons c rest ih =>
    rw [List.map_cons, List.filterMap_cons, ofSegment?_text (h c List.mem_cons_self)]
    show c :: _ = _
    rw [ih fun d hd => h d (List.mem_cons_of_mem _ hd)]

theorem isStep_name {s : String} (h : IsName s) : IsStep (.name s) := Or.inr ⟨s, rfl, h⟩

/-- The path of a place: the names from the root down. -/
def ofPlace (names : List String) : Path := ofComponents (.root :: names.map .name)

theorem isAbsolute_ofPlace (names : List String) : (ofPlace names).isAbsolute = true := by
  simp [ofPlace, ofComponents, isAbsolute]

/-- Before the first slash there is nothing, and after it come the names. -/
theorem segments_ofPlace {names : List String} (h : ∀ s ∈ names, IsName s) :
    (ofPlace names).segments = [] :: if names = [] then [[]] else names.map String.toList := by
  have hsteps : ∀ c ∈ names.map Component.name, IsStep c := by
    intro c hc
    obtain ⟨s, hs, rfl⟩ := List.mem_map.1 hc
    exact isStep_name (h s hs)
  have htext : (ofPlace names).text.toList
      = '/' :: ("/".intercalate ((names.map Component.name).map Component.text)).toList := by
    rw [ofPlace, ofComponents, String.toList_append]
    rfl
  rw [segments, htext, List.splitOn_cons_eq_if_modifyHead, if_pos (by rfl)]
  congr 1
  split
  · rename_i hnil
    subst hnil
    rfl
  · rename_i hne
    rw [splitOn_intercalate_text (by simpa using hne) hsteps, List.map_map]
    rfl

/-- A list of steps is written without a slash in front. -/
theorem written_steps {cs : List Component} (hne : cs ≠ []) (h : ∀ c ∈ cs, IsStep c) :
    (ofComponents cs).isAbsolute = false ∧
      (ofComponents cs).segments = cs.map fun c => c.text.toList := by
  obtain ⟨c, rest, rfl⟩ := List.exists_cons_of_ne_nil hne
  have hwritten : ofComponents (c :: rest)
      = ⟨"/".intercalate ((c :: rest).map Component.text)⟩ := by
    rcases h c List.mem_cons_self with rfl | ⟨s, rfl, -⟩ <;> rfl
  have hhead : c.text.toList ≠ [] ∧ '/' ∉ c.text.toList := by
    rcases h c List.mem_cons_self with rfl | ⟨s, rfl, hs⟩
    · decide
    · exact ⟨hs.ne_nil, hs.1⟩
  constructor
  · rw [isAbsolute, hwritten]
    obtain ⟨a, as, has⟩ := List.exists_cons_of_ne_nil hhead.1
    have ha : a ≠ '/' := fun h => hhead.2 (by rw [has, h]; exact List.mem_cons_self)
    cases rest <;> simp [has, ha]
  · rw [segments, hwritten]
    exact splitOn_intercalate_text hne h

/-- Reading what was written for a canonical list gives the list. -/
theorem components_ofComponents {cs : List Component} (h : Canonical cs) :
    (ofComponents cs).components = cs := by
  cases h with
  | absolute hnames =>
    rename_i names
    have hsteps : ∀ c ∈ names.map Component.name, IsStep c := by
      intro c hc
      obtain ⟨s, hs, rfl⟩ := List.mem_map.1 hc
      exact isStep_name (hnames s hs)
    show (ofPlace names).components = _
    rw [components, isAbsolute_ofPlace names, if_pos rfl, segments_ofPlace hnames]
    show Component.root :: List.filterMap _ _ = _
    cases names with
    | nil => rfl
    | cons s rest =>
      rw [if_neg (by simp), List.filterMap_cons]
      show Component.root :: List.filterMap _ _ = _
      have hread := filterMap_ofSegment?_text hsteps
      rw [List.map_map] at hread
      exact congrArg _ hread
  | relative ups hnames =>
    rename_i names
    generalize hlist : List.replicate ups Component.up ++ names.map Component.name = cs
    have hsteps : ∀ c ∈ cs, IsStep c := by
      intro c hc
      rw [← hlist] at hc
      rcases List.mem_append.1 hc with hc | hc
      · exact Or.inl (List.eq_of_mem_replicate hc)
      · obtain ⟨s, hs, rfl⟩ := List.mem_map.1 hc
        exact isStep_name (hnames s hs)
    clear hlist hnames
    cases cs with
    | nil => rfl
    | cons c rest =>
      obtain ⟨habs, hpieces⟩ := written_steps (List.cons_ne_nil c rest) hsteps
      -- a leading `.` would be read as a component, but none is written
      have hdot : c.text.toList ≠ ['.'] := by
        rcases hsteps c List.mem_cons_self with rfl | ⟨s, rfl, hs⟩
        · decide
        · exact hs.ne_dot
      rw [components, habs, if_neg (by simp), hpieces]
      split
      · rename_i heq
        exact absurd (List.cons.inj heq).1 hdot
      · exact filterMap_ofSegment?_text hsteps

theorem components_normalize (p : Path) : p.normalize.components = reduced p.components :=
  components_ofComponents (reduced_canonical p)

/-! ## §5. Normalising what is normal. -/

/-- Pushing names puts them on the stack as they are. -/
theorem foldl_reduce_names (names : List String) :
    ∀ stack : List Component,
      (names.map Component.name).foldl Component.reduce stack
        = (names.map Component.name).reverse ++ stack := by
  induction names with
  | nil => intro stack; rfl
  | cons s rest ih =>
    intro stack
    rw [List.map_cons, List.foldl_cons, ih, reduce_name]
    simp

theorem foldl_reduce_ups (ups k : Nat) :
    (List.replicate ups Component.up).foldl Component.reduce (List.replicate k .up)
      = List.replicate (k + ups) .up := by
  induction ups generalizing k with
  | zero => rfl
  | succ ups ih =>
    have hup : Component.reduce (List.replicate k Component.up) .up
        = List.replicate (k + 1) .up := by
      cases k <;> rfl
    rw [List.replicate_succ, List.foldl_cons, hup, ih]
    congr 1
    omega

theorem reduced_of_canonical {cs : List Component} (h : Canonical cs) : reduced cs = cs := by
  cases h with
  | absolute h =>
    rename_i names
    show ((names.map Component.name).foldl Component.reduce [.root]).reverse = _
    rw [foldl_reduce_names]
    simp
  | relative ups h =>
    rename_i names
    have hups := foldl_reduce_ups ups 0
    rw [reduced, List.foldl_append]
    rw [show List.replicate 0 Component.up = [] from rfl, Nat.zero_add] at hups
    rw [hups, foldl_reduce_names]
    simp

@[simp] theorem normalize_normalize (p : Path) : p.normalize.normalize = p.normalize := by
  show ofComponents (reduced p.normalize.components) = _
  rw [components_normalize, reduced_of_canonical (reduced_canonical p)]
  rfl

/-- A path that is its own normal form is written for a canonical list. -/
theorem exists_canonical {p : Path} (h : p.normalize = p) :
    ∃ cs, Canonical cs ∧ p = ofComponents cs :=
  ⟨_, reduced_canonical p, h.symm⟩

/-- The normal form depends on the components alone. -/
theorem normalize_eq_of_same {p q : Path} (h : p.same q = true) : p.normalize = q.normalize := by
  show ofComponents (reduced p.components) = ofComponents (reduced q.components)
  rw [same_iff.1 h]

/-- Paths in normal form are the same only if they are spelled alike. -/
theorem eq_of_same {p q : Path} (hp : p.normalize = p) (hq : q.normalize = q)
    (h : p.same q = true) : p = q := by
  rw [← hp, ← hq]
  exact normalize_eq_of_same h

/-! ## §6. Paths that start at the root. -/

/-- The names from the root down that following the pieces of a path leads
to, starting from `names`. -/
def arrive : List String → List (List Char) → List String
  | names, [] => names
  | names, segment :: rest =>
    match Component.ofSegment? segment with
    | some (.name s) => arrive (names ++ [s]) rest
    | some .up => arrive names.dropLast rest
    | _ => arrive names rest

/-- Where a path that starts at the root leads to, by its text alone. -/
def place (p : Path) : List String := arrive [] p.segments

theorem isName_of_mem_arrive {segments : List (List Char)} (h : ∀ s ∈ segments, '/' ∉ s) :
    ∀ names : List String, (∀ s ∈ names, IsName s) → ∀ s ∈ arrive names segments, IsName s := by
  induction segments with
  | nil => intro names hnames; exact hnames
  | cons segment rest ih =>
    intro names hnames
    have ih := ih fun s hs => h s (List.mem_cons_of_mem _ hs)
    rw [arrive]
    split
    · rename_i t hread
      refine ih _ fun s hs => ?_
      rcases List.mem_append.1 hs with hs | hs
      · exact hnames s hs
      · rw [List.mem_singleton.1 hs]
        exact isName_of_ofSegment? (h segment List.mem_cons_self) hread
    · exact ih _ fun s hs => hnames s (List.dropLast_subset _ hs)
    · exact ih _ hnames

theorem isName_of_mem_place (p : Path) : ∀ s ∈ p.place, IsName s :=
  isName_of_mem_arrive (notMem_of_mem_splitOn '/' p.text.toList) [] (by simp)

/-- Over a root, the stack of `Component.reduce` holds the names arrived at. -/
theorem foldl_reduce_arrive (segments : List (List Char)) :
    ∀ names : List String,
      (segments.filterMap Component.ofSegment?).foldl Component.reduce
          ((names.map Component.name).reverse ++ [.root])
        = ((arrive names segments).map Component.name).reverse ++ [.root] := by
  induction segments with
  | nil => intro names; rfl
  | cons segment rest ih =>
    intro names
    rw [List.filterMap_cons, arrive]
    cases hread : Component.ofSegment? segment with
    | none => exact ih names
    | some c =>
      cases c with
      | root => exact absurd hread (ofSegment?_ne_root segment)
      | here => exact absurd hread (ofSegment?_ne_here segment)
      | name s =>
        have ih := ih (names ++ [s])
        rw [List.map_append, List.reverse_append] at ih
        rw [List.foldl_cons, reduce_name]
        exact ih
      | up =>
        rw [List.foldl_cons]
        rcases List.eq_nil_or_concat names with rfl | ⟨front, last, rfl⟩
        · exact ih []
        · have ih := ih front
          simpa [Component.reduce] using ih

/-- The normal form of a path that starts at the root is the path of the
place it leads to. -/
theorem normalize_eq_ofPlace {p : Path} (h : p.isAbsolute = true) :
    p.normalize = ofPlace p.place := by
  have hreduce := foldl_reduce_arrive p.segments []
  rw [normalize, ofPlace, components, if_pos h]
  show ofComponents ((p.segments.filterMap Component.ofSegment?).foldl Component.reduce
    [.root]).reverse = _
  rw [show [Component.root] = (([] : List String).map Component.name).reverse ++ [.root] from rfl,
    hreduce, List.reverse_append, List.reverse_reverse]
  rfl

theorem components_ofPlace {names : List String} (h : ∀ s ∈ names, IsName s) :
    (ofPlace names).components = .root :: names.map .name :=
  components_ofComponents (.absolute h)

/-- Names lead further down. -/
theorem arrive_names {names : List String} (h : ∀ s ∈ names, IsName s) :
    ∀ front : List String, arrive front (names.map String.toList) = front ++ names := by
  induction names with
  | nil => simp [arrive]
  | cons s rest ih =>
    intro front
    rw [List.map_cons, arrive, (h s List.mem_cons_self).2]
    simp [ih fun t ht => h t (List.mem_cons_of_mem _ ht)]

theorem isAbsolute_normalize {p : Path} (h : p.isAbsolute = true) :
    p.normalize.isAbsolute = true := by
  rw [normalize_eq_ofPlace h, isAbsolute_ofPlace]

/-- What is read from a directory that starts at the root starts at the root. -/
theorem isAbsolute_join {p : Path} (h : p.isAbsolute = true) (q : Path) :
    (p.join q).isAbsolute = true := by
  rw [join]
  split
  · assumption
  · have hhead : p.text.toList.head? = some '/' := by simpa [isAbsolute] using h
    obtain ⟨rest, hrest⟩ : ∃ rest, p.text.toList = '/' :: rest := by
      cases htext : p.text.toList with
      | nil => simp [htext] at hhead
      | cons c rest => rw [htext] at hhead; cases hhead; exact ⟨rest, rfl⟩
    split
    · rename_i hnone
      simp [hrest] at hnone
    · simp [isAbsolute, hrest]
    · simp [isAbsolute, hrest]

theorem isAbsolute_resolve {p : Path} (h : p.isAbsolute = true) (q : Path) :
    (p.resolve q).isAbsolute = true :=
  isAbsolute_normalize (isAbsolute_join h q)

/-- The parent of a path that starts at the root starts at the root. -/
theorem isAbsolute_parent? {p q : Path} (h : p.isAbsolute = true) (hq : p.parent? = some q) :
    q.isAbsolute = true := by
  rw [parent?, opening, if_pos h] at hq
  simp only at hq
  split at hq
  · simp at hq
  · cases hq
    simp [written, isAbsolute]

end ParseCache.Path
