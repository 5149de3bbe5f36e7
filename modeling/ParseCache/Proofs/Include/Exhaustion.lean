/-
  ParseCache.Proofs.Include.Exhaustion — a scan comes to its end.

  `Include.scan` runs its work list for a number of steps fixed in advance.
  This file shows that the number is enough.  Every step takes a path off the
  queue, and a path enters the queue only when it is included for the first
  time and can be read.  Included paths are in normal form and differ from
  each other, and there are at most `Sources.bound` such paths that can be
  read.

  Main results:
    * `countP_readable_le` — the bound on readable paths;
    * `owing_step` — what a scan owes goes down by one with every step;
    * `queue_run_eq_nil`, `run_eq_of_le` — after enough steps nothing is
      queued, and further steps change nothing.
-/
import ParseCache.Include.Scan
import ParseCache.Proofs.Disk.Spelling

namespace ParseCache.Include

/-! ## §1. How many paths can be read. -/

/-- How a source can be spelled: as a buffer is, or as a place on disk at a
level. -/
inductive Spelling
  | buffer (key : Path)
  | file (place : Place) (level : Nat)
deriving DecidableEq

namespace Sources

/-- Whether a path can be read as text. -/
def readable (s : Sources) (p : Path) : Bool :=
  match s.read p with
  | .ok _ => true
  | .error _ => false

/-- All spellings. -/
def spellings (s : Sources) : List Spelling :=
  s.buffers.files.entries.map (fun e => .buffer e.1) ++
    s.disk.nodes.flatMap fun e => (List.range (Disk.pathLimit + 1)).map (.file e.1)

theorem length_spellings (s : Sources) : s.spellings.length = s.bound := by
  have hnodes : ∀ nodes : List (Place × Node),
      (nodes.flatMap fun e => (List.range (Disk.pathLimit + 1)).map (Spelling.file e.1)).length
        = nodes.length * (Disk.pathLimit + 1) := by
    intro nodes
    induction nodes with
    | nil => simp
    | cons e rest ih =>
      rw [List.flatMap_cons, List.length_append, ih, List.length_map, List.length_range,
        List.length_cons, Nat.succ_mul]
      omega
  rw [spellings, List.length_append, List.length_map, hnodes]
  rfl

/-- The path `p` is spelled this way. -/
def Spells (s : Sources) (p : Path) : Spelling → Prop
  | .buffer key => p.same key = true
  | .file place level => s.disk.Spelled p place level

theorem Spells.same {s : Sources} {p q : Path} {spelling : Spelling} (hp : s.Spells p spelling)
    (hq : s.Spells q spelling) : p.same q = true := by
  cases spelling with
  | buffer key =>
    have hq : q.same key = true := hq
    rw [Path.same_comm] at hq
    exact Path.same_trans hp hq
  | file place level =>
    rw [Disk.Spelled.unique hp hq]
    exact Path.same_refl q

/-- Every path in normal form that can be read is spelled in one of these ways. -/
theorem exists_spelling {s : Sources} {p : Path} (hp : p.normalize = p)
    (h : s.readable p = true) : ∃ spelling ∈ s.spellings, s.Spells p spelling := by
  unfold readable read at h
  cases hbuffer : s.buffers.content? p with
  | some content =>
    have hget : (s.buffers.files.get? p).isSome = true := by
      have hsome : (s.buffers.content? p).isSome = true := by rw [hbuffer]; rfl
      rwa [Buffers.content?, Option.isSome_map] at hsome
    -- the buffer is stored under some spelling of the path
    rw [← Table.has_eq_isSome_get?] at hget
    obtain ⟨e, he, hsame⟩ := List.any_eq_true.1 hget
    exact ⟨.buffer e.1, List.mem_append_left _ (List.mem_map.2 ⟨e, he, rfl⟩), hsame⟩
  | none =>
    rw [hbuffer] at h
    unfold Disk.read at h
    cases hfind : s.disk.find p with
    | error e => rw [hfind] at h; cases h
    | ok found =>
      obtain ⟨place, node⟩ := found
      obtain ⟨hnode, level, hlevel, hspelled⟩ := Disk.spelled_of_find hp hfind
      cases node with
      | directory => rw [hfind] at h; cases h
      | binary => rw [hfind] at h; cases h
      | text content =>
        -- the root is a directory, so the file is listed
        have hplace : place ≠ [] := by
          rintro rfl
          cases hnode
        rw [Disk.node?_of_ne_nil _ hplace] at hnode
        obtain ⟨before, after, hnodes, -⟩ := List.lookup_eq_some_iff.1 hnode
        refine ⟨.file place level, List.mem_append_right _ ?_, hspelled⟩
        refine List.mem_flatMap.2 ⟨(place, .text content), ?_, List.mem_map.2 ⟨level, ?_, rfl⟩⟩
        · rw [hnodes]
          exact List.mem_append_right _ List.mem_cons_self
        · exact List.mem_range.2 (Nat.lt_succ_of_le hlevel)

/-- Different paths are spelled differently. -/
theorem length_le_of_spells {s : Sources} (paths : List Path) :
    ∀ spellings : List Spelling,
      (∀ p ∈ paths, ∃ spelling ∈ spellings, s.Spells p spelling) →
      paths.Pairwise (fun p q => p.same q = false) → paths.length ≤ spellings.length := by
  induction paths with
  | nil =>
    intro spellings _ _
    exact Nat.zero_le _
  | cons p rest ih =>
    intro spellings hspelled hdistinct
    obtain ⟨spelling, hmem, hp⟩ := hspelled p List.mem_cons_self
    obtain ⟨hp', hrest⟩ := List.pairwise_cons.1 hdistinct
    -- a spelling that is taken is not needed for the other paths
    have hless : rest.length ≤ (spellings.erase spelling).length := by
      refine ih _ (fun q hq => ?_) hrest
      obtain ⟨spelling', hmem', hq'⟩ := hspelled q (List.mem_cons_of_mem _ hq)
      refine ⟨spelling', (List.mem_erase_of_ne ?_).2 hmem', hq'⟩
      rintro rfl
      have hsame := hp.same hq'
      rw [hp' q hq] at hsame
      cases hsame
    have hpos : 0 < spellings.length := List.length_pos_of_mem hmem
    rw [List.length_erase_of_mem hmem] at hless
    rw [List.length_cons]
    omega

/-- Among different paths in normal form at most `bound` can be read. -/
theorem countP_readable_le (s : Sources) {paths : List Path}
    (hnormal : ∀ p ∈ paths, p.normalize = p)
    (hdistinct : paths.Pairwise fun p q => p.same q = false) :
    paths.countP s.readable ≤ s.bound := by
  rw [List.countP_eq_length_filter, ← s.length_spellings]
  refine length_le_of_spells (s := s) _ _ (fun p hp => ?_) (hdistinct.filter _)
  obtain ⟨hmem, hreadable⟩ := List.mem_filter.1 hp
  exact exists_spelling (hnormal p hmem) hreadable

end Sources

/-! ## §2. What a scan has met. -/

namespace ScanState

variable {sources : Sources} {directories : List Path} {primary current : Path} {s : ScanState}

/-- The paths met are the primary file and what is included; included paths
are in normal form, and each is included once. -/
structure Sound (primary : Path) (s : ScanState) : Prop where
  visited : ∀ q, s.visited.contains q = (q.same primary || s.includes.contains q)
  normal : ∀ p ∈ s.includes.paths, p.normalize = p
  distinct : s.includes.paths.Pairwise fun p q => p.same q = false

theorem sound_start (primary : Path) (source : String) : Sound primary (start primary source) where
  visited q := by
    show ((PathSet.empty.insert primary).contains q) = (q.same primary || PathSet.empty.contains q)
    rw [PathSet.contains_insert]
  normal p hp := by cases hp
  distinct := List.Pairwise.nil

/-- What a directive leads to is in normal form. -/
theorem normal_of_resolve? {d : Directive} {found : Path}
    (h : sources.resolve? current directories d = some found) : found.normalize = found := by
  obtain ⟨directory, -, rfl⟩ := List.mem_map.1 (List.mem_of_find?_eq_some h)
  exact Path.normalize_normalize _

/-- The three ways to follow a directive: it leads nowhere, to what was met
before, or to a file that is included now. -/
theorem follow_cases (sources : Sources) (directories : List Path) (current : Path)
    (s : ScanState) (d : Directive) :
    (sources.resolve? current directories d = none ∧
      follow sources directories current s d =
        { s with unresolved := (follow sources directories current s d).unresolved }) ∨
    (∃ found, sources.resolve? current directories d = some found ∧
      s.visited.contains found = true ∧ follow sources directories current s d = s) ∨
    (∃ found, sources.resolve? current directories d = some found ∧
      s.visited.contains found = false ∧
      follow sources directories current s d =
        { s with
          visited := s.visited.insert found
          includes := s.includes.insert found
          queue := s.queue ++
            match sources.read found with
            | .ok content => [(found, content)]
            | .error _ => [] }) := by
  unfold follow
  cases hresolved : sources.resolve? current directories d with
  | none =>
    left
    refine ⟨rfl, ?_⟩
    simp only
    split <;> rfl
  | some found =>
    right
    simp only
    cases hvisited : s.visited.contains found with
    | true => exact Or.inl ⟨found, rfl, hvisited, rfl⟩
    | false =>
      right
      refine ⟨found, rfl, hvisited, ?_⟩
      cases sources.read found with
      | ok content => rfl
      | error e => simp

theorem paths_insert {set : PathSet} {p : Path} (h : set.contains p = false) :
    (set.insert p).paths = set.paths ++ [p] := by
  rw [PathSet.insert, if_neg (by rw [h]; exact Bool.false_ne_true)]

theorem not_includes (hs : Sound primary s) {p : Path} (h : s.visited.contains p = false) :
    s.includes.contains p = false := by
  rw [hs.visited p, Bool.or_eq_false_iff] at h
  exact h.2

theorem sound_follow (hs : Sound primary s) (d : Directive) :
    Sound primary (follow sources directories current s d) := by
  rcases follow_cases sources directories current s d with
    ⟨-, heq⟩ | ⟨found, -, -, heq⟩ | ⟨found, hresolved, hnew, heq⟩
  · rw [heq]
    exact ⟨hs.visited, hs.normal, hs.distinct⟩
  · rw [heq]
    exact hs
  · rw [heq]
    have hfresh := not_includes hs hnew
    refine ⟨fun q => ?_, fun p hp => ?_, ?_⟩
    · rw [PathSet.contains_insert, PathSet.contains_insert, hs.visited q]
      cases q.same found <;> cases q.same primary <;> rfl
    · rw [paths_insert hfresh] at hp
      rcases List.mem_append.1 hp with hp | hp
      · exact hs.normal p hp
      · rw [List.mem_singleton.1 hp]
        exact normal_of_resolve? hresolved
    · rw [paths_insert hfresh, List.pairwise_append]
      refine ⟨hs.distinct, List.pairwise_singleton _ _, fun p hp q hq => ?_⟩
      rw [List.mem_singleton.1 hq, Path.same_comm]
      exact Bool.eq_false_iff.2 fun hsame =>
        Bool.eq_false_iff.1 hfresh (List.any_eq_true.2 ⟨p, hp, hsame⟩)

theorem sound_follows (directives : List Directive) :
    ∀ {s : ScanState}, Sound primary s →
      Sound primary (directives.foldl (follow sources directories current) s) := by
  induction directives with
  | nil =>
    intro s hs
    exact hs
  | cons d rest ih =>
    intro s hs
    exact ih (sound_follow hs d)

/-! ## §3. What a scan owes. -/

/-- The queue, and what may still enter it. -/
def owing (sources : Sources) (s : ScanState) : Nat :=
  s.queue.length + (sources.bound - s.includes.paths.countP sources.readable)

/-- A file that enters the queue is paid for by its being included. -/
theorem owing_follow (hs : Sound primary s) (d : Directive) :
    (follow sources directories current s d).owing sources = s.owing sources := by
  have hsound : Sound primary (follow sources directories current s d) := sound_follow hs d
  have hbound := sources.countP_readable_le hsound.normal hsound.distinct
  rcases follow_cases sources directories current s d with
    ⟨-, heq⟩ | ⟨found, -, -, heq⟩ | ⟨found, -, hnew, heq⟩
  · rw [heq]
    rfl
  · rw [heq]
  · rw [heq] at hbound ⊢
    simp only [owing] at hbound ⊢
    rw [paths_insert (not_includes hs hnew), List.countP_append, List.countP_singleton] at hbound ⊢
    -- only a file that can be read is queued, and only such a file is paid for
    cases hread : sources.read found with
    | ok content =>
      have hreadable : sources.readable found = true := by rw [Sources.readable, hread]
      rw [hreadable, if_pos rfl] at hbound ⊢
      rw [List.length_append, List.length_singleton]
      omega
    | error e =>
      have hreadable : sources.readable found = false := by rw [Sources.readable, hread]
      rw [hreadable, if_neg Bool.false_ne_true, List.append_nil]
      rfl

theorem owing_follows (directives : List Directive) :
    ∀ {s : ScanState}, Sound primary s →
      (directives.foldl (follow sources directories current) s).owing sources
        = s.owing sources := by
  induction directives with
  | nil =>
    intro s _
    rfl
  | cons d rest ih =>
    intro s hs
    rw [List.foldl_cons, ih (sound_follow hs d), owing_follow hs d]

theorem sound_step (hs : Sound primary s) : Sound primary (s.step sources directories) := by
  unfold step
  split
  · exact hs
  · exact sound_follows _ ⟨hs.visited, hs.normal, hs.distinct⟩

theorem owing_step (hs : Sound primary s) (hqueue : s.queue ≠ []) :
    (s.step sources directories).owing sources + 1 = s.owing sources := by
  unfold step
  split
  · rename_i hnil
    exact absurd hnil hqueue
  · rename_i current source rest hcons
    have hrest : Sound primary { s with queue := rest } := ⟨hs.visited, hs.normal, hs.distinct⟩
    rw [owing_follows _ hrest]
    simp only [owing, hcons, List.length_cons]
    omega

/-! ## §4. The end of a scan. -/

theorem run_of_queue_eq_nil (h : s.queue = []) (n : Nat) : run sources directories n s = s := by
  cases n with
  | zero => rfl
  | succ n =>
    rw [run, if_pos]
    rw [h]
    rfl

theorem run_succ (h : s.queue ≠ []) (n : Nat) :
    run sources directories (n + 1) s
      = run sources directories n (s.step sources directories) := by
  rw [run, if_neg]
  rw [List.isEmpty_iff]
  exact h

/-- After as many steps as it owes, a scan has nothing queued. -/
theorem queue_run_eq_nil (n : Nat) :
    ∀ {s : ScanState}, Sound primary s → s.owing sources ≤ n →
      (run sources directories n s).queue = [] := by
  induction n with
  | zero =>
    intro s _ h
    have hlength : s.queue.length = 0 := by
      unfold owing at h
      omega
    exact List.eq_nil_of_length_eq_zero hlength
  | succ n ih =>
    intro s hs h
    by_cases hqueue : s.queue = []
    · rw [run_of_queue_eq_nil hqueue]
      exact hqueue
    · have hstep : (s.step sources directories).owing sources + 1 = s.owing sources :=
        owing_step hs hqueue
      rw [run_succ hqueue]
      exact ih (sound_step hs) (by omega)

/-- Once nothing is queued, further steps change nothing. -/
theorem run_eq_of_le {n m : Nat} (hnm : n ≤ m) :
    ∀ {s : ScanState}, (run sources directories n s).queue = [] →
      run sources directories m s = run sources directories n s := by
  induction n generalizing m with
  | zero =>
    intro s h
    exact run_of_queue_eq_nil h m
  | succ n ih =>
    intro s h
    obtain ⟨m, rfl⟩ : ∃ k, m = k + 1 := ⟨m - 1, by omega⟩
    by_cases hqueue : s.queue = []
    · rw [run_of_queue_eq_nil hqueue, run_of_queue_eq_nil hqueue]
    · rw [run_succ hqueue] at h ⊢
      rw [run_succ hqueue]
      exact ih (by omega) h

/-- The steps a scan is given are enough. -/
theorem queue_run_start (sources : Sources) (directories : List Path) (primary : Path)
    (source : String) :
    (run sources directories (sources.bound + 1) (start primary source)).queue = [] := by
  refine queue_run_eq_nil _ (sound_start primary source) ?_
  show 1 + (sources.bound - 0) ≤ _
  omega

end ScanState

end ParseCache.Include
