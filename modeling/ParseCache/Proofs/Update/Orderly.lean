/-
  ParseCache.Proofs.Update.Orderly — engines that leave the cache to its
  operations.

  An engine gets the whole workspace and gives it back, so that the rest of the
  program can go on while it works.  An orderly engine does not reach into the
  cache itself: between a call and its return there are occurrences and nothing
  else.  What outlives every occurrence then outlives every run of the engine,
  and the rest of an update is the result that is applied where it arrives.

  Main results:
    * `meanwhile_run` — between the start of an update and the arrival of its
      result there are occurrences only;
    * `distinct_run` — the dependencies of a result are a set;
    * `update_eq_incorporate` — an update applies its result where it arrives;
    * `watches_incorporate` — what applying a result does to the watches;
    * `orderly_engine` — an engine given by its behaviour is orderly.
-/
import ParseCache.Proofs.Collection.Turnover
import ParseCache.Proofs.Path.Sets
import ParseCache.Proofs.Update.Session

namespace ParseCache

variable {ι υ σ : Type}

/-! ## §1. Orderly engines. -/

namespace Workspace

/-- What can happen between two moments of the rest of the program: time goes
on, something occurs, the surroundings change. -/
inductive Meanwhile (w : Workspace ι υ σ) : Workspace ι υ σ → Prop
  | nothing : Meanwhile w w
  | tick {w' : Workspace ι υ σ} (h : Meanwhile w w') : Meanwhile w w'.now.2
  | occur {w' : Workspace ι υ σ} (h : Meanwhile w w') (o : Occurrence) :
      Meanwhile w (o.perform w')
  | remember {w' : Workspace ι υ σ} (h : Meanwhile w w') (context : σ) :
      Meanwhile w { w' with context := context }

theorem Meanwhile.trans {w w' w'' : Workspace ι υ σ} (h : Meanwhile w w')
    (h' : Meanwhile w' w'') : Meanwhile w w'' := by
  induction h' with
  | nothing => exact h
  | tick _ ih => exact ih.tick
  | occur _ o ih => exact ih.occur o
  | remember _ context ih => exact ih.remember context

/-- What is lasting lasts in the meantime. -/
theorem Lasting.meanwhile {P : Workspace ι υ σ → Prop} (h : Lasting P) {w w' : Workspace ι υ σ}
    (hw : P w) (hmeanwhile : Meanwhile w w') : P w' := by
  induction hmeanwhile with
  | nothing => exact hw
  | tick _ ih => exact h.stays ih (stays_now _)
  | occur _ o ih => exact h.perform ih o
  | remember _ context ih => exact h.stays ih (.of_eq rfl rfl rfl rfl)

end Workspace

open Workspace

/-- During its calls there are occurrences only, and the dependencies it tells
are a set. -/
structure Engine.Orderly (e : Engine ι υ σ) : Prop where
  newIndex : ∀ w, Meanwhile w (e.newIndex w).2
  parse : ∀ request index w, Meanwhile w (e.parse request index w).2
  reparse : ∀ request unit w, Meanwhile w (e.reparse request unit w).2
  distinct : ∀ unit, (e.dependencies unit).Distinct

namespace Engine

/-! ## §2. Runs. -/

section Runs

variable {e : Engine ι υ σ} (he : e.Orderly) (s : Snapshot) (h : Handles ι υ)
  (w : Workspace ι υ σ)

include he

omit s h w in
/-- An orderly engine leaves to occurrences what happens while it works. -/
theorem within_meanwhile : e.Within Meanwhile where
  refl _ := .nothing
  trans := Meanwhile.trans
  now _ := .tick .nothing
  newIndex := he.newIndex
  parse := he.parse
  reparse := he.reparse

/-- So does a whole update, until its result arrives. -/
theorem meanwhile_run (mode : UpdateMode) : Meanwhile w (e.run mode s h w).2 :=
  (within_meanwhile he).run mode s h w

theorem distinct_parseIfNeeded : (e.parseIfNeeded s h w).1.result.dependencies.Distinct := by
  rcases e.parseIfNeeded_cases s h w with ⟨unit, -, -, heq⟩ | heq
  · rw [heq]
    exact List.Pairwise.nil
  · rw [heq]
    rcases e.parseStep_cases s { h with unit := .null } w with ⟨unit, -, heq⟩ | ⟨cause, -, heq⟩
    · rw [heq]
      exact PathSet.distinct_insert (he.distinct unit) s.file
    · rw [heq]
      exact List.Pairwise.nil

theorem distinct_reparseStep {p : Progress ι υ} (hp : p.result.dependencies.Distinct) :
    (e.reparseStep s p w).1.result.dependencies.Distinct := by
  rcases e.reparseStep_cases s p w with
    ⟨unit, unit', -, -, heq⟩ | ⟨unit, cause, -, -, heq⟩ | ⟨-, heq⟩
  · rw [heq]
    exact PathSet.distinct_insert (he.distinct unit') s.file
  · rw [heq]
    exact hp
  · rw [heq]
    exact hp

/-- The dependencies an update comes back with are a set: they come from the
engine, or are those of no unit at all. -/
theorem distinct_run (mode : UpdateMode) : (e.run mode s h w).1.result.dependencies.Distinct := by
  have hfirst := distinct_parseIfNeeded he s h w
  rcases e.run_cases mode s h w with ⟨-, heq⟩ | ⟨-, -, heq⟩ | ⟨-, heq⟩
  · rw [heq]
    exact hfirst
  · rw [heq]
    exact distinct_reparseStep he s _ hfirst
  · rw [heq]
    exact distinct_reparseStep he s w List.Pairwise.nil

end Runs

end Engine

/-! ## §3. Results. -/

namespace Workspace

/-- What an update of a document comes to: the result with the resources it
leaves, and the workspace in which it arrives. -/
def outcome (w : Workspace ι υ σ) (e : Engine ι υ σ) (mode : UpdateMode) (d : Document ι υ) :
    Progress ι υ × Workspace ι υ σ :=
  e.run mode (d.snapshot w.buffers) d.handles w

/-- The workspace in which a result arrives, once the document has the
resources that come with it. -/
def supplied (w : Workspace ι υ σ) (e : Engine ι υ σ) (mode : UpdateMode) (n : Nat)
    (d : Document ι υ) : Workspace ι υ σ :=
  (w.outcome e mode d).2.modify n fun d' => { d' with handles := (w.outcome e mode d).1.handles }

/-- An update is the engine at work, the resources put back, and the result
applied. -/
theorem update_eq_incorporate {e : Engine ι υ σ} {mode : UpdateMode} {w : Workspace ι υ σ}
    {n : Nat} {d : Document ι υ} (hd : w.documents[n]? = some d) :
    w.update e mode n = (w.supplied e mode n d).incorporate n (w.outcome e mode d).1.result := by
  unfold update
  rw [hd]
  rfl

/-- Resources are of no interest to keys and dependencies. -/
theorem stays_supplied (w : Workspace ι υ σ) (e : Engine ι υ σ) (mode : UpdateMode) (n : Nat)
    (d : Document ι υ) : Stays (w.outcome e mode d).2 (w.supplied e mode n d) :=
  (Stays.refl _).modify n fun _ => ⟨rfl, rfl⟩

end Workspace

theorem Document.incorporate_key (d : Document ι υ) (r : UpdateResult) :
    (d.incorporate r).key = d.key := by
  unfold Document.incorporate
  split <;> rfl

/-- A result that installs dependencies replaces those of the document, and its
own file stays one of them. -/
theorem Document.incorporate_dependencies (d : Document ι υ) (r : UpdateResult) :
    (d.incorporate r).dependencies =
      if Document.installs r then r.dependencies.insert d.key.path else d.dependencies := by
  unfold Document.incorporate
  cases hfailed : r.failed with
  | false => rfl
  | true =>
    -- a failed result replaces nothing
    unfold Document.installs
    rw [hfailed]
    rfl

namespace Workspace

/-- A result that replaces the dependencies of a document says what it is to
watch. -/
theorem watches_incorporate {w : Workspace ι υ σ} {n : Nat} {d : Document ι υ}
    (hd : w.documents[n]? = some d) (r : UpdateResult) :
    (w.incorporate n r).watches =
      if Document.installs r then
        (w.watches.setWatched d.key (r.dependencies.insert d.key.path)).2
      else w.watches := by
  have hdependencies := d.incorporate_dependencies r
  rw [incorporate_cases, getElem?_modify_self hd]
  cases hinstalls : Document.installs r with
  | false => rfl
  | true =>
    rw [hinstalls, if_pos rfl] at hdependencies
    simp only [if_true, d.incorporate_key r, hdependencies]

/-- A result for no document changes no watches. -/
theorem watches_incorporate_of_none {w : Workspace ι υ σ} {n : Nat}
    (hd : w.documents[n]? = none) (r : UpdateResult) :
    (w.incorporate n r).watches = w.watches := by
  have hnone : (w.modify n (·.incorporate r)).documents[n]? = none := by
    rw [List.getElem?_eq_none_iff] at hd ⊢
    exact Nat.le_trans (Nat.le_of_eq (List.length_modify _ _ _)) hd
  rw [incorporate_cases, hnone]
  rfl

/-- A result does not let go of anybody. -/
theorem held_incorporate (w : Workspace ι υ σ) (n : Nat) (r : UpdateResult) :
    (w.incorporate n r).held = w.held := by rw [incorporate_eq]

theorem parts_incorporate (w : Workspace ι υ σ) (n : Nat) (r : UpdateResult) :
    (w.incorporate n r).parts = w.parts := by rw [incorporate_eq]

theorem length_incorporate (w : Workspace ι υ σ) (n : Nat) (r : UpdateResult) :
    (w.incorporate n r).documents.length = w.documents.length := by
  rw [incorporate_eq]
  exact List.length_modify _ _ _

/-- Apart from the watches, a result changes the dependencies of one document. -/
theorem getElem?_incorporate {w : Workspace ι υ σ} {m : Nat} {d : Document ι υ}
    (hd : w.documents[m]? = some d) (n : Nat) (r : UpdateResult) :
    ∃ d', (w.incorporate n r).documents[m]? = some d' ∧ d'.key = d.key ∧
      d'.dependencies =
        if n = m ∧ Document.installs r = true then r.dependencies.insert d.key.path
        else d.dependencies := by
  have hdocuments : (w.incorporate n r).documents = (w.modify n (·.incorporate r)).documents := by
    rw [incorporate_eq]
    rfl
  rw [hdocuments]
  by_cases hm : n = m
  · subst hm
    refine ⟨d.incorporate r, getElem?_modify_self hd _, d.incorporate_key r, ?_⟩
    rw [d.incorporate_dependencies r]
    simp only [true_and]
  · refine ⟨d, (getElem?_modify_of_ne w hm _).trans hd, rfl, ?_⟩
    rw [if_neg fun h => hm h.1]

/-- The document from before the result. -/
theorem before_incorporate {w : Workspace ι υ σ} {n m : Nat} {r : UpdateResult}
    {d' : Document ι υ} (hd' : (w.incorporate n r).documents[m]? = some d') :
    ∃ d, w.documents[m]? = some d ∧ d'.key = d.key ∧
      d'.dependencies =
        if n = m ∧ Document.installs r = true then r.dependencies.insert d.key.path
        else d.dependencies := by
  have hlt : m < w.documents.length := by
    rw [← length_incorporate w n r]
    exact (List.getElem?_eq_some_iff.1 hd').1
  obtain ⟨d'', hd'', hchanged⟩ := getElem?_incorporate (List.getElem?_eq_getElem hlt) n r
  rw [hd'] at hd''
  cases hd''
  exact ⟨_, List.getElem?_eq_getElem hlt, hchanged⟩

/-- A result leaves all keys as they are. -/
theorem hasDocument_incorporate (w : Workspace ι υ σ) (n : Nat) (r : UpdateResult)
    (key : DocumentKey) : (w.incorporate n r).hasDocument key = w.hasDocument key :=
  hasDocument_eq_of_keys (held_incorporate w n r) (length_incorporate w n r)
    (fun _ _ hd => (getElem?_incorporate hd n r).imp fun _ hd' => ⟨hd'.1, hd'.2.1⟩) key

end Workspace

/-! ## §4. Engines that are given by their behaviour. -/

namespace Session

/-- The actions of a session are occurrences. -/
theorem meanwhile_acts (actions : List Action) :
    ∀ w : Session ι υ σ, Meanwhile w (actions.foldl act w) := by
  induction actions with
  | nil =>
    intro w
    exact .nothing
  | cons a rest ih =>
    intro w
    -- an action is noted in the log first, then done
    have hnote : Meanwhile w (w.note a) := Meanwhile.nothing.remember _
    exact (hnote.occur (.action a)).trans (ih (w.act a))

theorem meanwhile_after {α : Type} (w : Session ι υ σ) (r : Reply α σ) :
    Meanwhile w (w.after r) := by
  have hremember : Meanwhile w (w.remember r.memory) := Meanwhile.nothing.remember _
  exact hremember.trans (meanwhile_acts r.meanwhile (w.remember r.memory))

end Session

/-- Whatever an engine does that is given by its behaviour, it does by
actions. -/
theorem orderly_engine (b : Behaviour ι υ σ) (hb : ∀ unit, (b.dependencies unit).Distinct) :
    b.engine.Orderly where
  newIndex w := Session.meanwhile_after w (b.newIndex w)
  parse request index w := Session.meanwhile_after w (b.parse request index w)
  reparse request unit w := Session.meanwhile_after w (b.reparse request unit.unit w)
  distinct unit := hb unit.unit

end ParseCache
