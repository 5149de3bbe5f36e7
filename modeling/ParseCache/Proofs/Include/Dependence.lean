/-
  ParseCache.Proofs.Include.Dependence — what the outcome of a scan depends on.

  A scan asks its sources about many paths, but what it finds depends on few
  of them: on those it met.  A directive that led nowhere, or past some
  candidates, still does so as long as no path has become a source.  So two
  scans over different sources run in step.

  The paths a scan can ask about are kept to a class `ok`, closed under the
  candidates of directives, because callers know of some paths only.

  Main results:
    * `run_congr` — the work lists run in step;
    * `scan_congr` — a scan finds the same in other sources if these hold
      nothing new, and agree on the primary file and on everything included.
-/
import ParseCache.Proofs.Include.Exhaustion
import ParseCache.Proofs.Lists

namespace ParseCache.Include

variable {S S' : Sources} {directories : List Path} {ok : Path → Prop}

/-! ## §1. One directive. -/

/-- The paths that directives may mean in a file of the class are in the
class. -/
def Closed (ok : Path → Prop) (directories : List Path) : Prop :=
  ∀ (current : Path) (d : Directive), ok current →
    ∀ found ∈ Sources.candidates current directories d, ok found

/-- The second sources know nothing that the first do not. -/
def NothingNew (ok : Path → Prop) (S S' : Sources) : Prop :=
  ∀ q, ok q → S'.holds q = true → S.holds q = true

/-- Both sources know the path, or neither does, and it reads the same. -/
def Agree (S S' : Sources) (q : Path) : Prop :=
  S'.holds q = S.holds q ∧ (S'.read q).toOption = (S.read q).toOption

namespace ScanState

variable {current : Path} {s : ScanState}

/-- What was met stays met. -/
theorem visited_follow (d : Directive) {q : Path} (h : s.visited.contains q = true) :
    (follow S directories current s d).visited.contains q = true := by
  rcases follow_cases S directories current s d with
    ⟨-, heq⟩ | ⟨found, -, -, heq⟩ | ⟨found, -, -, heq⟩
  · rw [heq]
    exact h
  · rw [heq]
    exact h
  · rw [heq, PathSet.contains_insert, h, Bool.or_true]

/-- A directive leads to a file that is visited from then on. -/
theorem visited_of_resolve? {d : Directive} {found : Path}
    (h : S.resolve? current directories d = some found) :
    (follow S directories current s d).visited.contains found = true := by
  rcases follow_cases S directories current s d with
    ⟨hnone, -⟩ | ⟨found', hsome, hvisited, heq⟩ | ⟨found', hsome, -, heq⟩
  · rw [hnone] at h
    cases h
  · rw [hsome] at h
    cases h
    rw [heq]
    exact hvisited
  · rw [hsome] at h
    cases h
    rw [heq, PathSet.contains_insert, Path.same_refl, Bool.true_or]

/-- What was visited stays visited, directive after directive. -/
theorem visited_follows (directives : List Directive) {q : Path} :
    ∀ {s : ScanState}, s.visited.contains q = true →
      (directives.foldl (follow S directories current) s).visited.contains q = true := by
  induction directives with
  | nil =>
    intro s h
    exact h
  | cons d rest ih =>
    intro s h
    exact ih (visited_follow d h)

/-- A directive leads to the same path in both sources. -/
theorem follow_congr (hclosed : Closed ok directories) (hcurrent : ok current)
    (hnew : NothingNew ok S S') (d : Directive)
    (hmet : ∀ q, ok q → (follow S directories current s d).visited.contains q = true →
      Agree S S' q) :
    follow S' directories current s d = follow S directories current s d := by
  -- candidates that failed still fail, and the one that was found is met
  have hresolve : S'.resolve? current directories d = S.resolve? current directories d := by
    refine find?_eq_of_fewer (fun q hq => hnew q (hclosed current d hcurrent q hq)) fun q hq => ?_
    have hagree := hmet q (hclosed current d hcurrent q (List.mem_of_find?_eq_some hq))
      (visited_of_resolve? hq)
    rw [hagree.1]
    exact List.find?_some hq
  unfold follow
  rw [hresolve]
  cases hfound : S.resolve? current directories d with
  | none => rfl
  | some found =>
    have hagree := hmet found (hclosed current d hcurrent found (List.mem_of_find?_eq_some hfound))
      (visited_of_resolve? hfound)
    -- of what is read only the text counts, not the reason of a failure
    have hread := hagree.2
    simp only
    cases hS : S.read found with
    | ok content =>
      cases hS' : S'.read found with
      | ok content' =>
        rw [hS, hS'] at hread
        cases hread
        rfl
      | error e =>
        rw [hS, hS'] at hread
        cases hread
    | error e =>
      cases hS' : S'.read found with
      | ok content' =>
        rw [hS, hS'] at hread
        cases hread
      | error e' => rfl

/-- The directives of a file lead to the same state in both sources, if these
agree on what was visited in the end. -/
theorem follows_congr (hclosed : Closed ok directories) (hcurrent : ok current)
    (hnew : NothingNew ok S S') (directives : List Directive) :
    ∀ {s : ScanState},
      (∀ q, ok q →
        (directives.foldl (follow S directories current) s).visited.contains q = true →
        Agree S S' q) →
      directives.foldl (follow S' directories current) s
        = directives.foldl (follow S directories current) s := by
  induction directives with
  | nil =>
    intro s _
    rfl
  | cons d rest ih =>
    intro s hmet
    rw [List.foldl_cons, List.foldl_cons]
    rw [follow_congr hclosed hcurrent hnew d fun q hq hvisited =>
      hmet q hq (visited_follows rest hvisited)]
    exact ih hmet

/-! ## §2. Whole scans. -/

/-- Everything queued is in the class. -/
def Queued (ok : Path → Prop) (s : ScanState) : Prop := ∀ e ∈ s.queue, ok e.1

theorem queued_follow (hclosed : Closed ok directories) (hcurrent : ok current) (d : Directive)
    (hs : Queued ok s) : Queued ok (follow S directories current s d) := by
  rcases follow_cases S directories current s d with
    ⟨-, heq⟩ | ⟨found, -, -, heq⟩ | ⟨found, hresolved, -, heq⟩
  · rw [heq]
    exact hs
  · rw [heq]
    exact hs
  · rw [heq]
    intro e he
    rcases List.mem_append.1 he with he | he
    · exact hs e he
    · have hfound := hclosed current d hcurrent found (List.mem_of_find?_eq_some hresolved)
      cases hread : S.read found with
      | ok content =>
        rw [hread] at he
        rw [List.mem_singleton.1 he]
        exact hfound
      | error cause =>
        rw [hread] at he
        cases he

/-- The queue stays within the class, directive after directive. -/
theorem queued_follows (hclosed : Closed ok directories) (hcurrent : ok current)
    (directives : List Directive) :
    ∀ {s : ScanState}, Queued ok s →
      Queued ok (directives.foldl (follow S directories current) s) := by
  induction directives with
  | nil =>
    intro s hs
    exact hs
  | cons d rest ih =>
    intro s hs
    exact ih (queued_follow hclosed hcurrent d hs)

/-- What was visited stays visited to the end of the scan. -/
theorem visited_run (n : Nat) {q : Path} :
    ∀ {s : ScanState}, s.visited.contains q = true →
      (run S directories n s).visited.contains q = true := by
  induction n with
  | zero =>
    intro s h
    exact h
  | succ n ih =>
    intro s h
    by_cases hqueue : s.queue = []
    · rw [run_of_queue_eq_nil hqueue]
      exact h
    · rw [run_succ hqueue]
      refine ih ?_
      unfold step
      split
      · exact h
      · exact visited_follows _ h

theorem sound_run (S : Sources) (directories : List Path) {primary : Path} (n : Nat) :
    ∀ {s : ScanState}, Sound primary s → Sound primary (run S directories n s) := by
  induction n with
  | zero =>
    intro s hs
    exact hs
  | succ n ih =>
    intro s hs
    by_cases hqueue : s.queue = []
    · rw [run_of_queue_eq_nil hqueue]
      exact hs
    · rw [run_succ hqueue]
      exact ih (sound_step hs)

/-- The work lists run in step, as long as the sources agree on what the first
one meets. -/
theorem run_congr (hclosed : Closed ok directories) (hnew : NothingNew ok S S') (n : Nat) :
    ∀ {s : ScanState}, Queued ok s →
      (∀ q, ok q → (run S directories n s).visited.contains q = true → Agree S S' q) →
      run S' directories n s = run S directories n s := by
  induction n with
  | zero =>
    intro s _ _
    rfl
  | succ n ih =>
    intro s hs hmet
    cases hqueue : s.queue with
    | nil => rw [run_of_queue_eq_nil hqueue, run_of_queue_eq_nil hqueue]
    | cons e rest =>
      have hne : s.queue ≠ [] := by
        rw [hqueue]
        exact List.cons_ne_nil e rest
      obtain ⟨current, source⟩ := e
      have hcurrent : ok current := hs (current, source) (by rw [hqueue]; exact List.mem_cons_self)
      have hrest : Queued ok { s with queue := rest } := fun e he =>
        hs e (by rw [hqueue]; exact List.mem_cons_of_mem _ he)
      have hstep : ∀ T : Sources, s.step T directories
          = (directives source).foldl (follow T directories current) { s with queue := rest } := by
        intro T
        unfold step
        rw [hqueue]
      rw [run_succ hne] at hmet
      rw [run_succ hne, run_succ hne]
      rw [hstep S] at hmet ⊢
      -- what one file leads to is met by the whole run
      have hsame := follows_congr hclosed hcurrent hnew (directives source) fun q hq hvisited =>
        hmet q hq (visited_run n hvisited)
      rw [hstep S', hsame]
      exact ih (queued_follows hclosed hcurrent _ hrest) hmet

end ScanState

/-- A scan finds the same in sources that hold nothing new and agree on the
primary file and on every included one. -/
theorem scan_congr {file : Path} {arguments : List String} {found : Scanned}
    (hscan : scan S file arguments = .ok found) (hclosed : Closed ok (searchPaths arguments))
    (hfile : ok file.normalize) (hnew : NothingNew ok S S')
    (hprimary : (S'.read file).toOption = (S.read file).toOption)
    (hmet : ∀ q, ok q →
      (q.same file.normalize = true ∨ ∃ p ∈ found.includes, q.same p = true) → Agree S S' q) :
    scan S' file arguments = .ok found := by
  unfold scan at hscan ⊢
  cases hread : S.read file with
  | error e =>
    rw [hread] at hscan
    cases hscan
  | ok source =>
    rw [hread] at hscan hprimary
    rw [eq_ok_of_toOption hprimary]
    cases hscan
    -- both scans are over by the time the longer one has stopped
    have hlong := ScanState.run_eq_of_le (Nat.le_max_left (S.bound + 1) (S'.bound + 1))
      (ScanState.queue_run_start S (searchPaths arguments) file.normalize source)
    have hlong' := ScanState.run_eq_of_le (Nat.le_max_right (S.bound + 1) (S'.bound + 1))
      (ScanState.queue_run_start S' (searchPaths arguments) file.normalize source)
    have hqueued : ScanState.Queued ok (ScanState.start file.normalize source) := by
      intro e he
      rw [List.mem_singleton.1 he]
      exact hfile
    have hstep := ScanState.run_congr hclosed hnew (max (S.bound + 1) (S'.bound + 1)) hqueued
      fun q hq hvisited => by
        rw [hlong] at hvisited
        -- a run meets its primary file and what it includes, and nothing else
        have hsound := ScanState.sound_run S (searchPaths arguments) (S.bound + 1)
          (ScanState.sound_start file.normalize source)
        rw [hsound.visited q, Bool.or_eq_true] at hvisited
        refine hmet q hq ?_
        rcases hvisited with hprimary | hincluded
        · exact Or.inl hprimary
        · obtain ⟨p, hp, hsame⟩ := List.any_eq_true.1 hincluded
          exact Or.inr ⟨p, List.mem_mergeSort.2 hp, hsame⟩
    have hend : ScanState.run S' (searchPaths arguments) (S'.bound + 1)
        (ScanState.start file.normalize source)
        = ScanState.run S (searchPaths arguments) (S.bound + 1)
          (ScanState.start file.normalize source) := hlong'.symm.trans (hstep.trans hlong)
    simp only [hend]

end ParseCache.Include
