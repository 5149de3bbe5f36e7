/-
  ParseCache.Proofs.Include.Closure — a scan finds what is included, directly or
  not, and nothing else.

  One file includes another if its text has a directive that leads there.  A
  name in quotes leads to the source beside the file, if there is one, and
  otherwise, like every name in angle brackets, to the source in the first
  search directory that has one.  A scan goes through a list of candidates
  instead, and follows this relation from its primary file with a work list.
  That nothing is left out is an invariant of the work list: every directive of
  every file met has been followed, or it waits, with its file in the queue or
  among the directives of the file at hand.

  Main results:
    * `Task.resolves_iff` — the candidates are tried in the order in which a
      directive resolves;
    * `traced_follow`, `traced_ends` — the invariant, for one directive and for
      the whole loop;
    * `Traced.exact` — at the end of the loop, what is included is what can be
      reached, and what is unresolved is what is missed on the way;
    * `scan_closure` — when a scan fails, and when it does not, that its loop
      ends with the exact result, and that no file was read twice.
-/
import Mathlib.Logic.Relation
import ParseCache.Proofs.Include.Reading
import ParseCache.Proofs.Path.Sets

namespace ParseCache.Include

/-! ## §1. Files that include others. -/

/-- What a scan starts from: the sources, the directories it searches, and the
primary file, in normal form, with the text that was read for it. -/
structure Task where
  sources : Sources
  directories : List Path
  primary : Path
  text : String
  normal : primary.normalize = primary

/-- What the name of a directive means below a directory. -/
def Directive.below (d : Directive) (directory : Path) : Path :=
  directory.resolve ⟨String.ofList d.name⟩

namespace Task

variable (t : Task)

/-- The text of a file.  That of the primary file is known from the start. -/
def textOf (p : Path) : Option String :=
  if p = t.primary then some t.text else (t.sources.read p).toOption

/-- A name in quotes is a source below the directory of the file `p` whose
directive it is, and this source is `q`. -/
def FoundBeside (p : Path) (d : Directive) (q : Path) : Prop :=
  d.form = .quoted ∧ (∃ own, p.parent? = some own ∧ q = d.below own) ∧ t.sources.holds q = true

/-- The name is a source below some search directory, and below the first of
these in their order it is `q`. -/
def FoundBySearch (d : Directive) (q : Path) : Prop :=
  ∃ before directory after, t.directories = before ++ directory :: after ∧
    q = d.below directory ∧ t.sources.holds q = true ∧
      ∀ earlier ∈ before, t.sources.holds (d.below earlier) = false

/-- A directive in `p` leads to `q`.  A name in quotes is looked for beside `p`
first; if it is not there, and for a name in angle brackets at once, the search
directories decide. -/
def Resolves (p : Path) (d : Directive) (q : Path) : Prop :=
  t.FoundBeside p d q ∨ (∀ r, ¬ t.FoundBeside p d r) ∧ t.FoundBySearch d q

/-- The file `p` has a directive that leads to `q`. -/
def Includes (p q : Path) : Prop :=
  ∃ text, t.textOf p = some text ∧ ∃ d ∈ directives text, t.Resolves p d q

/-- The file `p` has a directive with this name that leads nowhere. -/
def Misses (p : Path) (name : String) : Prop :=
  ∃ text, t.textOf p = some text ∧ ∃ d ∈ directives text,
    (∀ q, ¬ t.Resolves p d q) ∧ name = String.ofList d.name

/-- The files that the primary file includes, directly or not. -/
abbrev Reaches (q : Path) : Prop := Relation.TransGen t.Includes t.primary q

variable {t} {p q : Path} {d : Directive}

/-- Where a name in quotes has a directory beside it, that one is tried first. -/
theorem candidates_of_own {own : Path} (hform : d.form = .quoted) (hown : p.parent? = some own) :
    Sources.candidates p t.directories d = d.below own :: t.directories.map d.below := by
  unfold Sources.candidates
  rw [hform, hown]
  rfl

/-- Otherwise the search directories are all that is tried. -/
theorem candidates_of_not_own (h : d.form = .quoted → p.parent? = none) :
    Sources.candidates p t.directories d = t.directories.map d.below := by
  unfold Sources.candidates
  cases hform : d.form with
  | quoted =>
    rw [h hform]
    rfl
  | angled => rfl

/-- The search directories are tried one after the other. -/
theorem foundBySearch_iff :
    t.FoundBySearch d q ↔ (t.directories.map d.below).find? t.sources.holds = some q := by
  unfold FoundBySearch
  rw [List.find?_map, Option.map_eq_some_iff]
  constructor
  · rintro ⟨before, directory, after, heq, rfl, hholds, hbefore⟩
    refine ⟨directory, List.find?_eq_some_iff_append.2 ⟨hholds, before, after, heq, ?_⟩, rfl⟩
    intro earlier hearlier
    show (!t.sources.holds (d.below earlier)) = true
    rw [hbefore earlier hearlier]
    rfl
  · rintro ⟨directory, hfind, rfl⟩
    obtain ⟨hholds, before, after, heq, hbefore⟩ := List.find?_eq_some_iff_append.1 hfind
    refine ⟨before, directory, after, heq, rfl, hholds, fun earlier hearlier => ?_⟩
    simpa using hbefore earlier hearlier

/-- Where the directory of the file is not tried, nothing is found in it. -/
theorem not_foundBeside (h : d.form = .quoted → p.parent? = none) (q : Path) :
    ¬ t.FoundBeside p d q := by
  rintro ⟨hform, ⟨own, hown, -⟩, -⟩
  rw [h hform] at hown
  cases hown

/-- Where it is tried, its candidate is found exactly if it is a source. -/
theorem foundBeside_iff {own : Path} (hform : d.form = .quoted) (hown : p.parent? = some own) :
    t.FoundBeside p d q ↔ q = d.below own ∧ t.sources.holds (d.below own) = true := by
  unfold FoundBeside
  constructor
  · rintro ⟨-, ⟨own', hown', rfl⟩, hholds⟩
    rw [hown] at hown'
    cases hown'
    exact ⟨rfl, hholds⟩
  · rintro ⟨rfl, hholds⟩
    exact ⟨hform, ⟨own, hown, rfl⟩, hholds⟩

/-- The scanner tries candidates in the order in which a directive resolves. -/
theorem resolves_iff :
    t.Resolves p d q ↔ t.sources.resolve? p t.directories d = some q := by
  unfold Resolves Sources.resolve?
  by_cases h : d.form = .quoted → p.parent? = none
  · rw [candidates_of_not_own h, ← foundBySearch_iff]
    constructor
    · rintro (hbeside | ⟨-, hsearch⟩)
      · exact absurd hbeside (not_foundBeside h q)
      · exact hsearch
    · exact fun hsearch => Or.inr ⟨not_foundBeside h, hsearch⟩
  · obtain ⟨hform, hparent⟩ := Classical.not_imp.1 h
    obtain ⟨own, hown⟩ := Option.ne_none_iff_exists'.1 hparent
    rw [candidates_of_own hform hown, foundBySearch_iff]
    simp only [foundBeside_iff hform hown]
    -- the source beside the file hides the search directories
    cases hholds : t.sources.holds (d.below own) with
    | true =>
      rw [List.find?_cons_of_pos hholds, Option.some.injEq]
      constructor
      · rintro (⟨rfl, -⟩ | ⟨hnone, -⟩)
        · rfl
        · exact absurd ⟨rfl, rfl⟩ (hnone (d.below own))
      · rintro rfl
        exact Or.inl ⟨rfl, rfl⟩
    | false =>
      rw [List.find?_cons_of_neg (by rw [hholds]; exact Bool.false_ne_true)]
      constructor
      · rintro (⟨-, hfalse⟩ | ⟨-, hsearch⟩)
        · cases hfalse
        · exact hsearch
      · exact fun hsearch => Or.inr ⟨fun _ hr => Bool.false_ne_true hr.2, hsearch⟩

/-- It finds nothing exactly where a directive leads nowhere. -/
theorem resolve?_eq_none_iff :
    t.sources.resolve? p t.directories d = none ↔ ∀ q, ¬ t.Resolves p d q := by
  simp only [Option.eq_none_iff_forall_ne_some, resolves_iff, ne_eq]

end Task

/-! ## §2. What a directive adds. -/

namespace ScanState

variable {S : Sources} {directories : List Path} {current : Path} {s s' : ScanState}

/-- A directive that leads nowhere is noted by its name, and no other is. -/
theorem mem_unresolved_follow (d : Directive) {name : String} :
    name ∈ (follow S directories current s d).unresolved ↔
      name ∈ s.unresolved ∨
        S.resolve? current directories d = none ∧ name = String.ofList d.name := by
  unfold follow
  cases hresolved : S.resolve? current directories d with
  | some found =>
    simp only [reduceCtorEq, false_and, or_false]
    split
    · rfl
    · split <;> rfl
  | none =>
    simp only [true_and]
    split
    · rename_i hthere
      constructor
      · exact Or.inl
      · rintro (h | rfl)
        · exact h
        · exact List.contains_iff_mem.1 hthere
    · rw [List.mem_append, List.mem_singleton]

theorem nodup_unresolved_follow (h : s.unresolved.Nodup) (d : Directive) :
    (follow S directories current s d).unresolved.Nodup := by
  unfold follow
  cases S.resolve? current directories d with
  | some found =>
    simp only
    split
    · exact h
    · split <;> exact h
  | none =>
    simp only
    split
    · exact h
    · rename_i hnew
      rw [List.nodup_append]
      refine ⟨h, List.nodup_cons.2 ⟨List.not_mem_nil, List.nodup_nil⟩, fun a ha b hb => ?_⟩
      rw [List.mem_singleton.1 hb]
      rintro rfl
      exact hnew (List.contains_iff_mem.2 ha)

/-- From `s` to `s'` nothing was taken back. -/
structure Extends (s s' : ScanState) : Prop where
  includes : ∀ p ∈ s.includes.paths, p ∈ s'.includes.paths
  unresolved : ∀ name ∈ s.unresolved, name ∈ s'.unresolved
  queue : ∀ e ∈ s.queue, e ∈ s'.queue

theorem Extends.refl (s : ScanState) : Extends s s :=
  ⟨fun _ h => h, fun _ h => h, fun _ h => h⟩

theorem extends_follow (d : Directive) :
    Extends s (follow S directories current s d) := by
  have hunresolved : ∀ name ∈ s.unresolved,
      name ∈ (follow S directories current s d).unresolved :=
    fun name hname => (mem_unresolved_follow d).2 (Or.inl hname)
  rcases follow_cases S directories current s d with
    ⟨-, heq⟩ | ⟨found, -, -, heq⟩ | ⟨found, -, -, heq⟩
  · rw [heq]
    exact ⟨fun _ h => h, hunresolved, fun _ h => h⟩
  · rw [heq]
    exact .refl s
  · rw [heq]
    exact ⟨fun _ h => PathSet.mem_paths_insert h, fun _ h => h, fun _ h => List.mem_append_left _ h⟩

end ScanState

/-! ## §3. The invariant. -/

open ScanState

/-- The file has been met. -/
def Met (t : Task) (s : ScanState) (p : Path) : Prop := p = t.primary ∨ p ∈ s.includes.paths

/-- The directive has been followed: to a file that was met, or to nowhere, which
is noted. -/
def Followed (t : Task) (s : ScanState) (p : Path) (d : Directive) : Prop :=
  (∃ q, t.Resolves p d q ∧ Met t s q) ∨
    (t.sources.resolve? p t.directories d = none ∧ String.ofList d.name ∈ s.unresolved)

/-- The file with this text waits in the queue, or of its directives each was
followed or is still to be followed. -/
def Covered (t : Task) (todo : List (Path × Directive)) (s : ScanState) (p : Path)
    (text : String) : Prop :=
  (p, text) ∈ s.queue ∨ ∀ d ∈ directives text, (p, d) ∈ todo ∨ Followed t s p d

/-- A scan on its way, with the directives of the file at hand that are still to
be followed. -/
structure Traced (t : Task) (todo : List (Path × Directive)) (s : ScanState) : Prop where
  sound : Sound t.primary s
  apart : t.primary ∉ s.includes.paths
  nodup : s.unresolved.Nodup
  /-- What is included is reached. -/
  reached : ∀ p ∈ s.includes.paths, t.Reaches p
  /-- What is noted as missing is missed by a file that was met. -/
  missed : ∀ name ∈ s.unresolved, ∃ p, Met t s p ∧ t.Misses p name
  queued : ∀ e ∈ s.queue, Met t s e.1 ∧ t.textOf e.1 = some e.2
  waiting : ∀ e ∈ todo, Met t s e.1 ∧ ∃ text, t.textOf e.1 = some text ∧ e.2 ∈ directives text
  /-- The directives of every file met were followed, or they wait. -/
  covered : ∀ p, Met t s p → ∀ text, t.textOf p = some text → Covered t todo s p text

variable {t : Task} {s s' : ScanState} {p q : Path} {d : Directive}
  {todo : List (Path × Directive)}

theorem Met.extends (h : Met t s p) (hs : Extends s s') : Met t s' p :=
  h.imp_right (hs.includes p)

theorem Followed.extends (h : Followed t s p d) (hs : Extends s s') : Followed t s' p d := by
  rcases h with ⟨q, hq, hmet⟩ | ⟨hnone, hname⟩
  · exact Or.inl ⟨q, hq, hmet.extends hs⟩
  · exact Or.inr ⟨hnone, hs.unresolved _ hname⟩

/-- One directive is not to be followed any more, since it has been followed. -/
theorem Covered.next {text : String} (h : Covered t ((p, d) :: todo) s q text)
    (hs : Extends s s') (hfollowed : Followed t s' p d) : Covered t todo s' q text := by
  rcases h with hwaits | hall
  · exact Or.inl (hs.queue _ hwaits)
  · refine Or.inr fun d' hd' => ?_
    rcases hall d' hd' with htodo | hdone
    · rcases List.mem_cons.1 htodo with heq | htodo
      · cases heq
        exact Or.inr hfollowed
      · exact Or.inl htodo
    · exact Or.inr (hdone.extends hs)

theorem reaches_of_met (h : Traced t todo s) (hp : Met t s p) :
    Relation.ReflTransGen t.Includes t.primary p := by
  rcases hp with rfl | hp
  · exact .refl
  · exact (h.reached p hp).to_reflTransGen

/-- A path in normal form that was visited was met. -/
theorem Traced.met_of_visited (h : Traced t todo s) (hq : q.normalize = q)
    (hvisited : s.visited.contains q = true) : Met t s q := by
  rw [h.sound.visited q, Bool.or_eq_true] at hvisited
  -- everything visited is in normal form, so being the same is being equal
  rcases hvisited with hprimary | hincluded
  · exact Or.inl (Path.eq_of_same hq t.normal hprimary)
  · obtain ⟨p, hp, hsame⟩ := List.any_eq_true.1 hincluded
    right
    rw [Path.eq_of_same hq (h.sound.normal p hp) hsame]
    exact hp

/-- A path that was not visited is not the primary file. -/
theorem Traced.ne_primary (h : Traced t todo s) (hnew : s.visited.contains q = false) :
    q ≠ t.primary := by
  rintro rfl
  rw [h.sound.visited t.primary, Path.same_refl] at hnew
  cases hnew

theorem traced_start (t : Task) : Traced t [] (start t.primary t.text) where
  sound := sound_start t.primary t.text
  apart := List.not_mem_nil
  nodup := List.nodup_nil
  reached p hp := absurd hp List.not_mem_nil
  missed name hname := absurd hname List.not_mem_nil
  queued e he := by
    rw [List.mem_singleton.1 he]
    exact ⟨Or.inl rfl, if_pos rfl⟩
  waiting e he := absurd he List.not_mem_nil
  covered p hp text htext := by
    rcases hp with rfl | hp
    · rw [Task.textOf, if_pos rfl] at htext
      cases htext
      exact Or.inl (List.mem_singleton_self _)
    · exact absurd hp List.not_mem_nil

/-! ## §4. One directive. -/

/-- What is left to show when a directive of the file `p` has been followed:
what was added is reached, and the directive is accounted for. -/
theorem Traced.next (h : Traced t ((p, d) :: todo) s) (hs : Extends s s')
    (hsound : Sound t.primary s') (hnodup : s'.unresolved.Nodup)
    (hincludes : ∀ q ∈ s'.includes.paths, q ∈ s.includes.paths ∨
      (q ≠ t.primary ∧ t.Resolves p d q ∧
        ∀ text, t.textOf q = some text → (q, text) ∈ s'.queue))
    (hmissed : ∀ name ∈ s'.unresolved, name ∈ s.unresolved ∨ t.Misses p name)
    (hqueued : ∀ e ∈ s'.queue, e ∈ s.queue ∨ Met t s' e.1 ∧ t.textOf e.1 = some e.2)
    (hfollowed : Followed t s' p d) : Traced t todo s' := by
  obtain ⟨hmet, text, htext, hd⟩ := h.waiting (p, d) List.mem_cons_self
  refine
    { sound := hsound, nodup := hnodup, apart := ?apart, reached := ?reached, missed := ?missed
      queued := ?queued, waiting := ?waiting, covered := ?covered }
  case apart =>
    intro hprimary
    rcases hincludes _ hprimary with hold | ⟨hne, -⟩
    · exact h.apart hold
    · exact hne rfl
  case reached =>
    intro q hq
    rcases hincludes q hq with hold | ⟨-, hresolves, -⟩
    · exact h.reached q hold
    · -- one step beyond the file whose directive it is
      exact Relation.TransGen.tail' (reaches_of_met h hmet) ⟨text, htext, d, hd, hresolves⟩
  case missed =>
    intro name hname
    rcases hmissed name hname with hold | hnew
    · obtain ⟨q, hq, hmisses⟩ := h.missed name hold
      exact ⟨q, hq.extends hs, hmisses⟩
    · exact ⟨p, hmet.extends hs, hnew⟩
  case queued =>
    intro e he
    rcases hqueued e he with hold | hnew
    · obtain ⟨he, htext⟩ := h.queued e hold
      exact ⟨he.extends hs, htext⟩
    · exact hnew
  case waiting =>
    intro e he
    obtain ⟨he, hwaiting⟩ := h.waiting e (List.mem_cons_of_mem _ he)
    exact ⟨he.extends hs, hwaiting⟩
  case covered =>
    intro q hq text' htext'
    -- a file that is new waits with all its directives
    rcases hq with rfl | hq
    · exact (h.covered _ (Or.inl rfl) text' htext').next hs hfollowed
    · rcases hincludes q hq with hold | ⟨-, -, hnew⟩
      · exact (h.covered q (Or.inr hold) text' htext').next hs hfollowed
      · exact Or.inl (hnew text' htext')

/-- A directive that leads nowhere is noted by its name. -/
theorem traced_nowhere (h : Traced t ((p, d) :: todo) s)
    (hnone : t.sources.resolve? p t.directories d = none)
    (heq : follow t.sources t.directories p s d =
      { s with unresolved := (follow t.sources t.directories p s d).unresolved }) :
    Traced t todo (follow t.sources t.directories p s d) := by
  obtain ⟨-, text, htext, hd⟩ := h.waiting (p, d) List.mem_cons_self
  have hunresolved := @mem_unresolved_follow t.sources t.directories p s d
  have hincludes : (follow t.sources t.directories p s d).includes = s.includes := by rw [heq]
  have hqueue : (follow t.sources t.directories p s d).queue = s.queue := by rw [heq]
  refine h.next (extends_follow d) (sound_follow h.sound d) (nodup_unresolved_follow h.nodup d)
    ?_ ?_ ?_ ?_
  · intro q hq
    rw [hincludes] at hq
    exact Or.inl hq
  · intro name hname
    rcases hunresolved.1 hname with hold | ⟨-, hname⟩
    · exact Or.inl hold
    · exact Or.inr ⟨text, htext, d, hd, Task.resolve?_eq_none_iff.1 hnone, hname⟩
  · intro e he
    rw [hqueue] at he
    exact Or.inl he
  · exact Or.inr ⟨hnone, hunresolved.2 (Or.inr ⟨hnone, rfl⟩)⟩

/-- A directive that leads to a file that was met adds nothing. -/
theorem traced_again (h : Traced t ((p, d) :: todo) s)
    (hfound : t.sources.resolve? p t.directories d = some q)
    (hvisited : s.visited.contains q = true) : Traced t todo s := by
  have hmet : Met t s q := h.met_of_visited (normal_of_resolve? hfound) hvisited
  exact h.next (.refl s) h.sound h.nodup (fun _ hq => Or.inl hq) (fun _ hname => Or.inl hname)
    (fun _ he => Or.inl he) (Or.inl ⟨q, Task.resolves_iff.2 hfound, hmet⟩)

/-- A file other than the primary one joins the queue with its text, if it can be
read. -/
theorem mem_queue_append (hne : q ≠ t.primary) (queue : List (Path × String))
    (e : Path × String) :
    e ∈ queue ++
        (match t.sources.read q with
          | .ok content => [(q, content)]
          | .error _ => []) ↔
      e ∈ queue ∨ e.1 = q ∧ t.textOf e.1 = some e.2 := by
  obtain ⟨q', text⟩ := e
  rw [List.mem_append]
  refine or_congr_right ?_
  unfold Task.textOf
  cases hread : t.sources.read q with
  | ok content =>
    rw [List.mem_singleton, Prod.mk.injEq]
    constructor
    · rintro ⟨rfl, rfl⟩
      exact ⟨rfl, by rw [if_neg hne, hread]; rfl⟩
    · rintro ⟨rfl, htext⟩
      rw [if_neg hne, hread] at htext
      exact ⟨rfl, (Option.some.inj htext).symm⟩
  | error e =>
    -- a file that cannot be read has no text, and does not join
    refine iff_of_false List.not_mem_nil ?_
    rintro ⟨rfl, htext⟩
    rw [if_neg hne, hread] at htext
    cases htext

/-- A file that is met for the first time is included, and queued if it can be
read. -/
theorem traced_new (h : Traced t ((p, d) :: todo) s)
    (hfound : t.sources.resolve? p t.directories d = some q)
    (hnew : s.visited.contains q = false)
    (heq : follow t.sources t.directories p s d =
      { s with
        visited := s.visited.insert q
        includes := s.includes.insert q
        queue := s.queue ++
          match t.sources.read q with
          | .ok content => [(q, content)]
          | .error _ => [] }) :
    Traced t todo (follow t.sources t.directories p s d) := by
  have hne : q ≠ t.primary := h.ne_primary hnew
  have hincludes : (follow t.sources t.directories p s d).includes.paths
      = s.includes.paths ++ [q] := by
    rw [heq]
    exact paths_insert (not_includes h.sound hnew)
  have hmet : Met t (follow t.sources t.directories p s d) q := by
    refine Or.inr ?_
    rw [hincludes]
    exact List.mem_append_right _ (List.mem_singleton_self q)
  have hqueue : ∀ e : Path × String, e ∈ (follow t.sources t.directories p s d).queue ↔
      e ∈ s.queue ∨ e.1 = q ∧ t.textOf e.1 = some e.2 := by
    intro e
    rw [heq]
    exact mem_queue_append hne s.queue e
  refine h.next (extends_follow d) (sound_follow h.sound d) (nodup_unresolved_follow h.nodup d)
    ?_ ?_ ?_ ?_
  · intro q' hq'
    rw [hincludes] at hq'
    rcases List.mem_append.1 hq' with hq' | hq'
    · exact Or.inl hq'
    · obtain rfl := List.mem_singleton.1 hq'
      exact Or.inr ⟨hne, Task.resolves_iff.2 hfound, fun text htext =>
        (hqueue (q', text)).2 (Or.inr ⟨rfl, htext⟩)⟩
  · intro name hname
    rw [heq] at hname
    exact Or.inl hname
  · intro e he
    rcases (hqueue e).1 he with he | ⟨rfl, htext⟩
    · exact Or.inl he
    · exact Or.inr ⟨hmet, htext⟩
  · exact Or.inl ⟨q, Task.resolves_iff.2 hfound, hmet⟩

/-- Following a directive keeps the invariant. -/
theorem traced_follow (h : Traced t ((p, d) :: todo) s) :
    Traced t todo (follow t.sources t.directories p s d) := by
  rcases follow_cases t.sources t.directories p s d with
    ⟨hnone, heq⟩ | ⟨found, hfound, hvisited, heq⟩ | ⟨found, hfound, hnew, heq⟩
  · exact traced_nowhere h hnone heq
  · rw [heq]
    exact traced_again h hfound hvisited
  · exact traced_new h hfound hnew heq

theorem traced_follows (p : Path) (ds : List Directive) :
    ∀ {s : ScanState}, Traced t (ds.map fun d => (p, d)) s →
      Traced t [] (ds.foldl (follow t.sources t.directories p) s) := by
  induction ds with
  | nil =>
    intro s h
    exact h
  | cons d rest ih =>
    intro s h
    exact ih (traced_follow h)

/-! ## §5. The loop. -/

/-- The file at the head of the queue is taken off, and its directives are to be
followed. -/
theorem traced_take {text : String} {rest : List (Path × String)} (h : Traced t [] s)
    (hqueue : s.queue = (p, text) :: rest) :
    Traced t ((directives text).map fun d => (p, d)) { s with queue := rest } where
  sound := ⟨h.sound.visited, h.sound.normal, h.sound.distinct⟩
  apart := h.apart
  nodup := h.nodup
  reached := h.reached
  missed := h.missed
  queued e he := h.queued e (by rw [hqueue]; exact List.mem_cons_of_mem _ he)
  waiting e he := by
    obtain ⟨hmet, htext⟩ := h.queued (p, text) (by rw [hqueue]; exact List.mem_cons_self)
    obtain ⟨d, hd, rfl⟩ := List.mem_map.1 he
    exact ⟨hmet, text, htext, hd⟩
  covered q hq text' htext' := by
    rcases h.covered q hq text' htext' with hwaits | hall
    · rw [hqueue] at hwaits
      rcases List.mem_cons.1 hwaits with heq | hwaits
      · cases heq
        exact Or.inr fun d hd => Or.inl (List.mem_map.2 ⟨d, hd, rfl⟩)
      · exact Or.inl hwaits
    · refine Or.inr fun d hd => Or.inr ?_
      rcases hall d hd with htodo | hdone
      · exact absurd htodo List.not_mem_nil
      · exact hdone

theorem traced_step (h : Traced t [] s) : Traced t [] (s.step t.sources t.directories) := by
  unfold step
  split
  · exact h
  · rename_i current source rest hqueue
    exact traced_follows current _ (traced_take h hqueue)

/-- The loop of a scan comes to its end in `last`: as long as something is
queued, another step is taken. -/
inductive Ends (S : Sources) (directories : List Path) : ScanState → ScanState → Prop
  | stop {s : ScanState} (h : s.queue = []) : Ends S directories s s
  | step {s last : ScanState} (h : s.queue ≠ []) (hrest : Ends S directories
      (s.step S directories) last) : Ends S directories s last

/-- A run that leaves nothing queued is the whole loop. -/
theorem ends_run {S : Sources} {directories : List Path} (n : Nat) :
    ∀ {s : ScanState}, (run S directories n s).queue = [] →
      Ends S directories s (run S directories n s) := by
  induction n with
  | zero =>
    intro s h
    exact .stop h
  | succ n ih =>
    intro s h
    by_cases hqueue : s.queue = []
    · rw [run_of_queue_eq_nil hqueue]
      exact .stop hqueue
    · rw [run_succ hqueue] at h ⊢
      exact .step hqueue (ih h)

theorem traced_ends {last : ScanState} (h : Ends t.sources t.directories s last) :
    Traced t [] s → Traced t [] last ∧ last.queue = [] := by
  induction h with
  | stop hqueue => exact fun hs => ⟨hs, hqueue⟩
  | step _ _ ih => exact fun hs => ih (traced_step hs)

/-- The result is exactly what the task asks for. -/
structure Exact (t : Task) (found : Scanned) : Prop where
  includes : ∀ q, q ∈ found.includes ↔ q ≠ t.primary ∧ t.Reaches q
  normal : ∀ q ∈ found.includes, q.normalize = q
  unresolved : ∀ name, name ∈ found.unresolved ↔
    ∃ p, Relation.ReflTransGen t.Includes t.primary p ∧ t.Misses p name
  /-- Included files are listed in path order, and once each. -/
  increasing : found.includes.Pairwise fun p q => p.compare q = .lt
  nodup : found.unresolved.Nodup

/-- What a scan found when its loop ended in this state. -/
def ScanState.found (s : ScanState) : Scanned :=
  ⟨s.includes.sorted, s.unresolved.mergeSort fun a b => (compare a b).isLE⟩

/-- Once nothing is queued, whatever can be reached has been met. -/
theorem Traced.met_of_reaches (h : Traced t [] s) (hqueue : s.queue = [])
    (hq : Relation.ReflTransGen t.Includes t.primary q) : Met t s q := by
  induction hq with
  | refl => exact Or.inl rfl
  | @tail p q _ hincludes ih =>
    obtain ⟨text, htext, d, hd, hresolves⟩ := hincludes
    rcases h.covered p ih text htext with hwaits | hall
    · rw [hqueue] at hwaits
      exact absurd hwaits List.not_mem_nil
    · rcases hall d hd with htodo | ⟨q', hq', hmet⟩ | ⟨hnone, -⟩
      · exact absurd htodo List.not_mem_nil
      · -- a directive leads to one file only
        rw [Task.resolves_iff] at hq' hresolves
        rw [hq'] at hresolves
        cases hresolves
        exact hmet
      · rw [Task.resolves_iff, hnone] at hresolves
        cases hresolves

/-- At the end of the loop the result is exact. -/
theorem Traced.exact (h : Traced t [] s) (hqueue : s.queue = []) : Exact t s.found where
  includes q := by
    show q ∈ s.includes.paths.mergeSort Path.le ↔ _
    rw [List.mem_mergeSort]
    constructor
    · intro hq
      exact ⟨fun heq => h.apart (heq ▸ hq), h.reached q hq⟩
    · rintro ⟨hne, hreaches⟩
      rcases h.met_of_reaches hqueue hreaches.to_reflTransGen with heq | hq
      · exact absurd heq hne
      · exact hq
  normal q hq := h.sound.normal q (List.mem_mergeSort.1 hq)
  unresolved name := by
    show name ∈ s.unresolved.mergeSort _ ↔ _
    rw [List.mem_mergeSort]
    constructor
    · intro hname
      obtain ⟨p, hp, hmisses⟩ := h.missed name hname
      exact ⟨p, reaches_of_met h hp, hmisses⟩
    · rintro ⟨p, hreaches, text, htext, d, hd, hnowhere, rfl⟩
      rcases h.covered p (h.met_of_reaches hqueue hreaches) text htext with hwaits | hall
      · rw [hqueue] at hwaits
        exact absurd hwaits List.not_mem_nil
      · rw [← Task.resolve?_eq_none_iff] at hnowhere
        rcases hall d hd with htodo | ⟨q, hq, -⟩ | ⟨-, hname⟩
        · exact absurd htodo List.not_mem_nil
        · rw [Task.resolves_iff, hnowhere] at hq
          cases hq
        · exact hname
  increasing := Path.pairwise_lt_mergeSort h.sound.distinct
  nodup := (List.mergeSort_perm _ _).nodup_iff.2 h.nodup

/-! ## §6. The scan. -/

/-- A source can be read exactly when it is a buffer or text on disk. -/
theorem Sources.read_error_iff (S : Sources) (p : Path) :
    (∃ e, S.read p = .error e) ↔
      S.buffers.content? p = none ∧ ∀ text, S.disk.read p ≠ .ok text := by
  unfold Sources.read
  cases S.buffers.content? p with
  | some content => exact ⟨nofun, fun h => nomatch h.1⟩
  | none =>
    cases S.disk.read p with
    | ok content => exact ⟨nofun, fun h => absurd rfl (h.2 content)⟩
    | error cause => exact ⟨fun _ => ⟨rfl, nofun⟩, fun _ => ⟨_, rfl⟩⟩

/-- A scan fails exactly when its primary file cannot be read. -/
theorem scan_error_iff (S : Sources) (file : Path) (arguments : List String) :
    (∃ e, scan S file arguments = .error e) ↔ ∃ e, S.read file = .error e := by
  unfold scan
  cases S.read file with
  | error e => exact ⟨fun _ => ⟨e, rfl⟩, fun _ => ⟨e, rfl⟩⟩
  | ok source => exact ⟨nofun, nofun⟩

/-- What is included differs, also in its normal form, from the primary file and
from each other. -/
theorem Traced.distinct (h : Traced t [] s) {file : Path} (hfile : file.normalize = t.primary)
    {reads : List Path} (hreads : reads.Perm s.found.includes) :
    ((file :: reads).map Path.normalize).Nodup := by
  have hperm : reads.Perm s.includes.paths := hreads.trans (List.mergeSort_perm _ _)
  have hnormal : reads.map Path.normalize = reads :=
    (List.map_congr_left fun p hp => h.sound.normal p (hperm.subset hp)).trans reads.map_id
  rw [List.map_cons, hnormal, hfile, List.nodup_cons]
  refine ⟨fun hmem => h.apart (hperm.subset hmem), hperm.nodup_iff.2 ?_⟩
  refine h.sound.distinct.imp fun hne heq => ?_
  rw [heq, Path.same_refl] at hne
  cases hne

/-- A scan fails exactly when its primary file is neither a buffer nor text on
disk.  Otherwise its loop ends; what it includes and what it could not resolve
are exact; and the files it read are the primary file, under the spelling it was
given in, and every included file that was met, no two of them spellings of one
path. -/
theorem scan_closure (S : Sources) (file : Path) (arguments : List String) :
    ((∃ e, scan S file arguments = .error e) ↔
      S.buffers.content? file = none ∧ ∀ text, S.disk.read file ≠ .ok text) ∧
    ∀ source, S.read file = .ok source →
      ∃ last reads,
        Ends S (searchPaths arguments) (start file.normalize source) last ∧
        scan S file arguments = .ok last.found ∧
        Exact ⟨S, searchPaths arguments, file.normalize, source, Path.normalize_normalize _⟩
          last.found ∧
        scanLogged S file arguments = (.ok last.found, file :: reads) ∧
        reads.Perm last.found.includes ∧
        ((file :: reads).map Path.normalize).Nodup := by
  refine ⟨(scan_error_iff S file arguments).trans (S.read_error_iff file), ?_⟩
  intro source hread
  let task : Task :=
    ⟨S, searchPaths arguments, file.normalize, source, Path.normalize_normalize _⟩
  -- the steps that a scan is given are enough for the loop to end
  let last := run S (searchPaths arguments) (S.bound + 1) (start file.normalize source)
  have hends : Ends S (searchPaths arguments) (start file.normalize source) last :=
    ends_run _ (queue_run_start S _ _ source)
  obtain ⟨htraced, hqueue⟩ := traced_ends (t := task) hends (traced_start task)
  have hscan : scan S file arguments = .ok last.found := by
    rw [scan, hread]
    rfl
  obtain ⟨reads, hlogged, hreads⟩ := scanLogged_eq S file arguments
  rw [hscan] at hlogged
  have hperm := hreads _ hscan
  exact ⟨last, reads, hends, hscan, htraced.exact hqueue, hlogged, hperm,
    htraced.distinct rfl hperm⟩

end ParseCache.Include
