/-
  ParseCache.Proofs.Disk.FileChange — what a change of one file changes.

  Rewriting or deleting a file that exists leaves every directory as it is, so
  it can be seen under those paths only that lead to the file.  `FileChange`
  says this of two disks by place.  A path that starts at the root leads to the
  place it names by its text, although a lookup goes through every directory
  on the way.

  Main results:
    * `place_of_find` — where a rooted path leads is told by its text;
    * `FileChange.same_sight` — under the paths that do not lead to the file the
      disks look the same;
    * `FileChange.isFile_of_isFile`, `FileChange.holds_of_holds` — nothing new
      appears;
    * `fileChange_write`, `fileChange_remove` — rewriting and deleting a file
      are such changes.
-/
import ParseCache.Disk
import ParseCache.Proofs.Lists
import ParseCache.Proofs.Path.Canonical

namespace ParseCache.Disk

/-! ## §1. Where a lookup ends. -/

/-- A lookup goes on from directories only. -/
theorem walk_cons_of_not_directory {d : Disk} {place : Place}
    (h : d.node? place ≠ some .directory) (segment : List Char) (rest : List (List Char)) :
    ∃ e, d.walk place (segment :: rest) = .error e := by
  rw [walk]
  cases hnode : d.node? place with
  | none => exact ⟨_, rfl⟩
  | some node =>
    cases node with
    | directory => exact absurd hnode h
    | text content => exact ⟨_, rfl⟩
    | binary => exact ⟨_, rfl⟩

/-- A lookup that succeeds ends where the text says; and if every place above
its start is a directory, so is every place above its end. -/
theorem walk_eq_ok {d : Disk} (segments : List (List Char)) :
    ∀ {place found : Place} {node : Node}, d.walk place segments = .ok (found, node) →
      found = Path.arrive place segments ∧ d.node? found = some node ∧
        ((∀ k < place.length, d.node? (place.take k) = some .directory) →
          ∀ k < found.length, d.node? (found.take k) = some .directory) := by
  induction segments with
  | nil =>
    intro place found node h
    rw [walk] at h
    cases hnode : d.node? place with
    | none => rw [hnode] at h; cases h
    | some there =>
      rw [hnode] at h
      cases h
      exact ⟨rfl, hnode, fun habove => habove⟩
  | cons segment rest ih =>
    intro place found node h
    have hhere : d.node? place = some .directory := by
      by_contra hnot
      obtain ⟨e, he⟩ := walk_cons_of_not_directory hnot segment rest
      rw [he] at h
      cases h
    rw [walk, hhere] at h
    -- the lookup takes a piece as the text does
    rw [Path.arrive]
    cases hread : Path.Component.ofSegment? segment with
    | none =>
      rw [hread] at h
      exact ih h
    | some component =>
      rw [hread] at h
      cases component with
      | root => exact ih h
      | here => exact ih h
      | up =>
        obtain ⟨hfound, hthere, habove'⟩ := ih h
        refine ⟨hfound, hthere, fun habove => habove' fun k hk => ?_⟩
        rw [List.length_dropLast] at hk
        rw [List.dropLast_eq_take, List.take_take, Nat.min_eq_left (by omega)]
        exact habove k (by omega)
      | name name =>
        have h : (if nameLimit < name.utf8ByteSize then .error .nameTooLong
          else d.walk (place ++ [name]) rest) = Except.ok (found, node) := h
        by_cases hlong : nameLimit < name.utf8ByteSize
        · rw [if_pos hlong] at h
          cases h
        · rw [if_neg hlong] at h
          obtain ⟨hfound, hthere, habove'⟩ := ih h
          refine ⟨hfound, hthere, fun habove => habove' fun k hk => ?_⟩
          rw [List.length_append, List.length_singleton] at hk
          -- the only new place above is the one the piece was read in
          by_cases hlt : k < place.length
          · rw [List.take_append_of_le_length (by omega)]
            exact habove k hlt
          · have hlen : k = place.length := by omega
            rw [hlen, List.take_append_of_le_length (by omega), List.take_length]
            exact hhere

/-- A lookup in the root fails on the text of the path or walks it. -/
theorem find_eq_ok {d : Disk} {p : Path} {found : Place} {node : Node}
    (h : d.find p = .ok (found, node)) :
    d.walk (if p.isAbsolute then [] else d.workDir) p.segments = .ok (found, node) := by
  rw [find] at h
  split at h
  · cases h
  · split at h
    · cases h
    · split at h
      · cases h
      · exact h

theorem place_of_find {d : Disk} {p : Path} (habs : p.isAbsolute = true) {found : Place}
    {node : Node} (h : d.find p = .ok (found, node)) :
    found = p.place ∧ d.node? found = some node ∧
      ∀ k < found.length, d.node? (found.take k) = some .directory := by
  have hwalk := find_eq_ok h
  rw [if_pos habs] at hwalk
  obtain ⟨hfound, hnode, habove⟩ := walk_eq_ok _ hwalk
  exact ⟨hfound, hnode, habove fun k hk => absurd hk (Nat.not_lt_zero k)⟩

/-- The place an operation on the disk works at. -/
theorem placeOf_eq (d : Disk) {p : Path} (habs : p.isAbsolute = true) : d.placeOf p = p.place := by
  have hjoin : d.workPath.join p = p := by rw [Path.join, if_pos habs]
  rw [placeOf, Path.resolve, hjoin, Path.normalize_eq_ofPlace habs,
    Path.components_ofPlace p.isName_of_mem_place]
  show List.filterMap _ (p.place.map Path.Component.name) = _
  induction p.place with
  | nil => rfl
  | cons s rest ih => exact congrArg (List.cons s) ih

theorem isFile_iff {d : Disk} {p : Path} :
    d.isFile p = true ↔ ∃ place node, d.find p = .ok (place, node) ∧ node ≠ .directory := by
  rw [isFile]
  cases hfind : d.find p with
  | error e => simp
  | ok found =>
    obtain ⟨place, node⟩ := found
    constructor
    · intro h
      refine ⟨place, node, rfl, ?_⟩
      rintro rfl
      cases h
    · rintro ⟨_, _, heq, hne⟩
      cases heq
      cases node with
      | directory => exact absurd rfl hne
      | text content => rfl
      | binary => rfl

/-! ## §2. Changes of one file. -/

/-- The second disk differs from the first in nothing but what stands at
`place` or, if that is a file no more, below it. -/
structure FileChange (place : Place) (d d' : Disk) : Prop where
  before : ∃ node, d.node? place = some node ∧ node ≠ .directory
  after : d'.node? place ≠ some .directory
  elsewhere : ∀ q : Place, ¬ place <+: q → d'.node? q = d.node? q

variable {place : Place} {d d' : Disk}

/-- Both walks agree until they come to the changed file. -/
theorem FileChange.walk (h : FileChange place d d') (segments : List (List Char)) :
    ∀ q : Place, ¬ place <+: q ∨ q = place →
      d'.walk q segments = d.walk q segments
        ∨ (∃ node, d.walk q segments = .ok (place, node) ∧ node ≠ .directory)
        ∨ ∃ e e', d.walk q segments = .error e ∧ d'.walk q segments = .error e' := by
  obtain ⟨old, hold, hfile⟩ := h.before
  induction segments with
  | nil =>
    intro q hq
    rcases hq with hq | rfl
    · left
      rw [Disk.walk, Disk.walk, h.elsewhere q hq]
    · right
      left
      exact ⟨old, by rw [Disk.walk, hold], hfile⟩
  | cons segment rest ih =>
    intro q hq
    rcases hq with hq | rfl
    · rw [Disk.walk, Disk.walk, h.elsewhere q hq]
      cases hnode : d.node? q with
      | none => exact Or.inl rfl
      | some node =>
        cases node with
        | text content => exact Or.inl rfl
        | binary => exact Or.inl rfl
        | directory =>
          simp only
          split
          · rename_i name _
            split
            · exact Or.inl rfl
            · refine ih _ ?_
              by_cases hnext : place <+: q ++ [name]
              · -- one more name: either the place itself, or already above `q`
                rcases List.prefix_concat_iff.1 hnext with heq | hpre
                · exact Or.inr (by simpa using heq.symm)
                · exact absurd hpre hq
              · exact Or.inl hnext
          · exact ih _ (Or.inl fun hpre => hq (hpre.trans (List.dropLast_prefix q)))
          · exact ih _ (Or.inl hq)
    · -- pieces remain after the file: both walks fail
      right
      right
      have hbefore : d.node? q ≠ some .directory := by
        rw [hold]
        exact fun hdirectory => hfile (Option.some.inj hdirectory)
      obtain ⟨e, he⟩ := walk_cons_of_not_directory hbefore segment rest
      obtain ⟨e', he'⟩ := walk_cons_of_not_directory h.after segment rest
      exact ⟨e, e', he, he'⟩

theorem FileChange.place_ne_nil (h : FileChange place d d') : place ≠ [] := by
  rintro rfl
  obtain ⟨node, hnode, hfile⟩ := h.before
  cases hnode
  exact hfile rfl

theorem FileChange.find (h : FileChange place d d') {p : Path} (habs : p.isAbsolute = true) :
    d'.find p = d.find p
      ∨ (∃ node, d.find p = .ok (place, node) ∧ node ≠ .directory)
      ∨ ∃ e e', d.find p = .error e ∧ d'.find p = .error e' := by
  rw [Disk.find, Disk.find, habs]
  split
  · exact Or.inl rfl
  · split
    · exact Or.inl rfl
    · split
      · exact Or.inl rfl
      · exact h.walk p.segments [] (Or.inl fun hpre => h.place_ne_nil (List.prefix_nil.1 hpre))

/-- A path that leads to another file, or nowhere, is seen as before. -/
theorem FileChange.same_sight (h : FileChange place d d') {p : Path} (habs : p.isAbsolute = true)
    (hother : ∀ node, d.find p ≠ .ok (place, node)) :
    d'.isFile p = d.isFile p ∧ (d'.read p).toOption = (d.read p).toOption := by
  rcases h.find habs with heq | ⟨node, hnode, -⟩ | ⟨e, e', he, he'⟩
  · rw [Disk.isFile, Disk.isFile, Disk.read, Disk.read, heq]
    exact ⟨rfl, rfl⟩
  · exact absurd hnode (hother node)
  · rw [Disk.isFile, Disk.isFile, Disk.read, Disk.read, he, he']
    exact ⟨rfl, rfl⟩

/-- No file appears. -/
theorem FileChange.isFile_of_isFile (h : FileChange place d d') {p : Path}
    (habs : p.isAbsolute = true) (hfile : d'.isFile p = true) : d.isFile p = true := by
  rcases h.find habs with heq | ⟨node, hnode, hne⟩ | ⟨e, e', -, he'⟩
  · rw [Disk.isFile, heq] at hfile
    exact hfile
  · exact isFile_iff.2 ⟨_, _, hnode, hne⟩
  · rw [Disk.isFile, he'] at hfile
    cases hfile

/-- Nothing appears. -/
theorem FileChange.holds_of_holds (h : FileChange place d d') {p : Path}
    (habs : p.isAbsolute = true) (hholds : d'.holds p = true) : d.holds p = true := by
  rcases h.find habs with heq | ⟨node, hnode, -⟩ | ⟨e, e', -, he'⟩
  · rw [Disk.holds, heq] at hholds
    exact hholds
  · rw [Disk.holds, hnode]
  · rw [Disk.holds, he'] at hholds
    cases hholds

/-! ## §3. Writing and removing a file. -/

/-- Where every directory on the way is there, none is made. -/
theorem makeDirectories_eq {d : Disk} (names : List String) :
    ∀ place : Place,
      (∀ k ≤ names.length, d.node? (place ++ names.take k) = some .directory) →
      d.makeDirectories place names = some d := by
  induction names with
  | nil =>
    intro place h
    have hplace := h 0 (Nat.le_refl 0)
    rw [List.take_zero, List.append_nil] at hplace
    rw [makeDirectories, if_pos hplace]
  | cons name rest ih =>
    intro place h
    have hplace := h 0 (Nat.zero_le _)
    rw [List.take_zero, List.append_nil] at hplace
    have hnext := h 1 (by simp)
    rw [List.take_succ_cons, List.take_zero] at hnext
    rw [makeDirectories, hplace]
    simp only [hnext]
    refine ih (place ++ [name]) fun k hk => ?_
    have := h (k + 1) (by simpa using hk)
    rw [List.take_succ_cons] at this
    simpa using this

theorem node?_of_ne_nil (d : Disk) {q : Place} (hq : q ≠ []) : d.node? q = d.nodes.lookup q := by
  cases q with
  | nil => exact absurd rfl hq
  | cons s rest => rfl

/-- The place and the state of an existing file. -/
theorem place_of_isFile {d : Disk} {p : Path} (habs : p.isAbsolute = true)
    (hfile : d.isFile p = true) :
    (∃ node, d.node? p.place = some node ∧ node ≠ .directory) ∧ p.place ≠ [] ∧
      ∀ k < p.place.length, d.node? (p.place.take k) = some .directory := by
  obtain ⟨found, node, hfind, hne⟩ := isFile_iff.1 hfile
  obtain ⟨rfl, hnode, habove⟩ := place_of_find habs hfind
  refine ⟨⟨node, hnode, hne⟩, ?_, habove⟩
  intro hnil
  rw [hnil] at hnode
  cases hnode
  exact hne rfl

/-- Writing a file where no directory stands, in directories that can be made. -/
theorem write_eq_set {d made : Disk} {p : Path} {node : Node} (hnode : node ≠ .directory)
    (hmade : d.makeDirectories [] (d.placeOf p).dropLast = some made)
    (hplace : made.node? (d.placeOf p) ≠ some .directory) :
    d.write p node = made.set (d.placeOf p) node := by
  unfold write
  generalize d.placeOf p = place at *
  cases node with
  | directory => exact absurd rfl hnode
  | text content => simp only [hmade, if_neg hplace]
  | binary => simp only [hmade, if_neg hplace]

/-- Rewriting an existing file changes one file. -/
theorem fileChange_write {d : Disk} {p : Path} (habs : p.isAbsolute = true)
    (hfile : d.isFile p = true) {node : Node} (hnode : node ≠ .directory) :
    FileChange p.place d (d.write p node) := by
  obtain ⟨⟨old, hold, hne⟩, hplace, habove⟩ := place_of_isFile habs hfile
  have hmade : d.makeDirectories [] p.place.dropLast = some d := by
    refine makeDirectories_eq _ [] fun k hk => ?_
    rw [List.length_dropLast] at hk
    have hpos : 0 < p.place.length := List.length_pos_iff.2 hplace
    rw [List.nil_append, List.dropLast_eq_take, List.take_take, Nat.min_eq_left (by omega)]
    exact habove k (by omega)
  have hplaceOf := placeOf_eq d habs
  have hwrite : d.write p node = d.set p.place node := by
    rw [← hplaceOf] at hmade hold ⊢
    refine write_eq_set hnode hmade ?_
    rw [hold]
    exact fun h => hne (Option.some.inj h)
  rw [hwrite]
  refine ⟨⟨old, hold, hne⟩, ?_, fun q hq => ?_⟩
  · rw [node?_of_ne_nil _ hplace, Disk.set, List.lookup_cons_self]
    exact fun h => hnode (Option.some.inj h)
  · have hqp : q ≠ p.place := fun h => hq (h ▸ List.prefix_refl _)
    cases q with
    | nil => rfl
    | cons s rest =>
      rw [node?_of_ne_nil _ (List.cons_ne_nil s rest), node?_of_ne_nil _ (List.cons_ne_nil s rest),
        Disk.set, List.lookup_cons]
      have hbeq : (s :: rest == p.place) = false := by simpa using hqp
      rw [hbeq]
      exact lookup_filter _ _ (fun v => by simpa using hqp) d.nodes

/-- Deleting an existing file changes one file. -/
theorem fileChange_remove {d : Disk} {p : Path} (habs : p.isAbsolute = true)
    (hfile : d.isFile p = true) : FileChange p.place d (d.remove p) := by
  obtain ⟨hbefore, hplace, -⟩ := place_of_isFile habs hfile
  refine ⟨hbefore, ?_, fun q hq => ?_⟩
  · have hgone : (d.nodes.filter fun e => !p.place.isPrefixOf e.1).lookup p.place = none := by
      rw [List.lookup_eq_none_iff]
      intro e he
      rw [bne_iff_ne]
      intro heq
      -- what is kept does not stand at the place
      have hkept := (List.mem_filter.1 he).2
      rw [← heq, List.isPrefixOf_iff_prefix.2 (List.prefix_refl _)] at hkept
      cases hkept
    rw [node?_of_ne_nil _ hplace, remove, placeOf_eq d habs, hgone]
    exact nofun
  · cases q with
    | nil => rfl
    | cons s rest =>
      rw [node?_of_ne_nil _ (List.cons_ne_nil s rest), node?_of_ne_nil _ (List.cons_ne_nil s rest),
        remove, placeOf_eq d habs]
      refine lookup_filter _ _ (fun v => ?_) d.nodes
      have hpre : p.place.isPrefixOf (s :: rest) = false :=
        Bool.eq_false_iff.2 fun h => hq (List.isPrefixOf_iff_prefix.1 h)
      rw [hpre]
      rfl

end ParseCache.Disk
