/-
  ParseCache.Proofs.Include.Reading — which files a scan reads, and how often.

  `Include.scan` says what a scan finds, but not what it reads on the way.  Here
  the scan is written once more with a log: every path is noted when its text is
  asked for.  The scan with a log finds what the scan finds, and its log holds the
  primary file and then the included files, in the order they were met.

  Main results:
    * `followLogged_eq`, `runLogged_eq` — what is read is what is included
      newly;
    * `scanLogged_eq` — a scan reads its primary file, under the spelling it was
      given in, and then every included file once.
-/
import ParseCache.Proofs.Include.Exhaustion

namespace ParseCache.Include

/-! ## §1. A scan with a log. -/

/-- The text of a source, and the log with the path that was read. -/
def Sources.readLogged (S : Sources) (p : Path) (log : List Path) :
    Except EngineError String × List Path := (S.read p, log ++ [p])

namespace ScanState

/-- Follows one directive of the file `current`. -/
def followLogged (S : Sources) (directories : List Path) (current : Path)
    (s : ScanState) (log : List Path) (d : Directive) : ScanState × List Path :=
  match S.resolve? current directories d with
  | none =>
    let name := String.ofList d.name
    (if s.unresolved.contains name then s else { s with unresolved := s.unresolved ++ [name] }, log)
  | some found =>
    if s.visited.contains found then (s, log)
    else
      let s := { s with visited := s.visited.insert found, includes := s.includes.insert found }
      match S.readLogged found log with
      | (.ok content, log) => ({ s with queue := s.queue ++ [(found, content)] }, log)
      | (.error _, log) => (s, log)

/-- Follows all directives of the file at the head of the queue. -/
def stepLogged (S : Sources) (directories : List Path) (s : ScanState) (log : List Path) :
    ScanState × List Path :=
  match s.queue with
  | [] => (s, log)
  | (current, source) :: rest =>
    (directives source).foldl (fun r d => followLogged S directories current r.1 r.2 d)
      ({ s with queue := rest }, log)

/-- At most `n` steps; it stops early where nothing is queued. -/
def runLogged (S : Sources) (directories : List Path) :
    Nat → ScanState → List Path → ScanState × List Path
  | 0, s, log => (s, log)
  | n + 1, s, log =>
    if s.queue.isEmpty then (s, log)
    else
      let (s, log) := s.stepLogged S directories log
      runLogged S directories n s log

end ScanState

/-- Scans a primary file, and tells which paths it has read. -/
def scanLogged (S : Sources) (file : Path) (arguments : List String) :
    Except EngineError Scanned × List Path :=
  match S.readLogged file [] with
  | (.error e, log) => (.error e, log)
  | (.ok source, log) =>
    let (found, log) := ScanState.runLogged S (searchPaths arguments) (S.bound + 1)
      (ScanState.start file.normalize source) log
    (.ok ⟨found.includes.sorted, found.unresolved.mergeSort fun a b => (compare a b).isLE⟩, log)

/-! ## §2. What is in the log. -/

namespace ScanState

variable {S : Sources} {directories : List Path} {primary : Path}

/-- What was read on the way from `s` to `s'` is what was included newly. -/
def Reads (s : ScanState) (reads : List Path) (s' : ScanState) : Prop :=
  s'.includes.paths = s.includes.paths ++ reads

theorem Reads.trans {s s' s'' : ScanState} {reads reads' : List Path} (h : Reads s reads s')
    (h' : Reads s' reads' s'') : Reads s (reads ++ reads') s'' := by
  unfold Reads at h h' ⊢
  rw [h', h, List.append_assoc]

/-- With a log a directive is followed as without, and what it reads is what was
included newly. -/
theorem followLogged_eq (current : Path) {s : ScanState} (hs : Sound primary s) (d : Directive)
    (log : List Path) :
    ∃ reads, followLogged S directories current s log d
        = (follow S directories current s d, log ++ reads) ∧
      Reads s reads (follow S directories current s d) := by
  unfold followLogged follow Sources.readLogged
  cases S.resolve? current directories d with
  | none =>
    refine ⟨[], by rw [List.append_nil], ?_⟩
    simp only
    split <;> exact (List.append_nil _).symm
  | some found =>
    cases hvisited : s.visited.contains found with
    | true =>
      simp only [hvisited, if_true]
      exact ⟨[], by rw [List.append_nil], (List.append_nil _).symm⟩
    | false =>
      -- only here something is read, and only here something is included
      refine ⟨[found], ?_, ?_⟩
      · simp only [hvisited, Bool.false_eq_true, if_false]
        cases S.read found <;> rfl
      · have hinsert := paths_insert (not_includes hs hvisited)
        simp only [hvisited, Bool.false_eq_true, if_false]
        cases S.read found <;> exact hinsert

/-- The log is left open, since each directive finds what the ones before it have
read. -/
theorem followsLogged_eq (current : Path) (ds : List Directive) :
    ∀ {s : ScanState} (log : List Path), Sound primary s →
      ∃ reads, ds.foldl (fun r d => followLogged S directories current r.1 r.2 d) (s, log)
          = (ds.foldl (follow S directories current) s, log ++ reads) ∧
        Reads s reads (ds.foldl (follow S directories current) s) := by
  induction ds with
  | nil =>
    intro s log _
    exact ⟨[], by rw [List.append_nil]; rfl, (List.append_nil _).symm⟩
  | cons d rest ih =>
    intro s log hs
    obtain ⟨reads, heq, hreads⟩ := @followLogged_eq S directories primary current s hs d log
    obtain ⟨reads', heq', hreads'⟩ := ih (log ++ reads) (sound_follow hs d)
    refine ⟨reads ++ reads', ?_, hreads.trans hreads'⟩
    rw [List.foldl_cons, List.foldl_cons, heq, heq', List.append_assoc]

theorem stepLogged_eq {s : ScanState} (hs : Sound primary s) (log : List Path) :
    ∃ reads, s.stepLogged S directories log = (s.step S directories, log ++ reads) ∧
      Reads s reads (s.step S directories) := by
  unfold stepLogged step
  cases hqueue : s.queue with
  | nil => exact ⟨[], by rw [List.append_nil], (List.append_nil _).symm⟩
  | cons head rest =>
    obtain ⟨current, source⟩ := head
    have hrest : Sound primary { s with queue := rest } := ⟨hs.visited, hs.normal, hs.distinct⟩
    exact followsLogged_eq current (directives source) log hrest

/-- So it is with a whole scan, by induction on its rounds. -/
theorem runLogged_eq (n : Nat) :
    ∀ {s : ScanState} (log : List Path), Sound primary s →
      ∃ reads, runLogged S directories n s log = (run S directories n s, log ++ reads) ∧
        Reads s reads (run S directories n s) := by
  induction n with
  | zero =>
    intro s log _
    exact ⟨[], by rw [List.append_nil]; rfl, (List.append_nil _).symm⟩
  | succ n ih =>
    intro s log hs
    unfold runLogged run
    split
    · exact ⟨[], by rw [List.append_nil], (List.append_nil _).symm⟩
    · obtain ⟨reads, heq, hreads⟩ := @stepLogged_eq S directories primary s hs log
      obtain ⟨reads', heq', hreads'⟩ := ih (log ++ reads) (sound_step hs)
      refine ⟨reads ++ reads', ?_, hreads.trans hreads'⟩
      rw [heq, ← List.append_assoc]
      exact heq'

end ScanState

/-- A scan reads its primary file, and then every file that it includes. -/
theorem scanLogged_eq (S : Sources) (file : Path) (arguments : List String) :
    ∃ reads, scanLogged S file arguments = (scan S file arguments, file :: reads) ∧
      ∀ found, scan S file arguments = .ok found → reads.Perm found.includes := by
  unfold scanLogged scan Sources.readLogged
  cases S.read file with
  | error e => exact ⟨[], rfl, nofun⟩
  | ok source =>
    obtain ⟨reads, heq, hreads⟩ := @ScanState.runLogged_eq S (searchPaths arguments) _
      (S.bound + 1) _ ([] ++ [file]) (ScanState.sound_start file.normalize source)
    refine ⟨reads, ?_, fun found hfound => ?_⟩
    · simp only [heq]
      rfl
    cases hfound
    -- nothing is included at the start
    have hreads : _ = [] ++ reads := hreads
    rw [List.nil_append] at hreads
    rw [← hreads]
    exact (List.mergeSort_perm _ _).symm

end ParseCache.Include
