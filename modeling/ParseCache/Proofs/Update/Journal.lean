/-
  ParseCache.Proofs.Update.Journal — what a document says of its updates.

  Three things tell how the updates of a document went: its unit, its failure
  flag and its dependencies.  The unit is disposed or replaced while an update
  runs, the other two are written when its result arrives, and other updates
  and operations come in between.  A journal of all updates shows that the three
  tell one story: each is what it can be read off the journal.

  Main results:
    * `ends_run` — an update fails and leaves no unit, or succeeds and leaves one;
    * `Told` — what a document says is what its endings in the journal say;
    * `told_of_passing` — whatever passes, every document goes on saying so;
    * `same_story` — flag, unit and dependencies, in every state of every run.
-/
import ParseCache.Proofs.Update.Orderly

namespace ParseCache

open Workspace

/-! ## §1. How an update ends. -/

/-- How an update of a document ended, and the unit it left. -/
structure Ending (υ : Type) where
  number : Nat
  failed : Bool
  unit? : Option υ
deriving Repr

/-- What the surroundings remember of the updates, the latest first. -/
structure Journal (υ σ : Type) where
  inner : σ
  endings : List (Ending υ)

variable {ι υ σ : Type}

namespace Engine

/-- What the first half of an update, or all of it, can come to.  Only a new or
a reparsed unit comes with new dependencies. -/
structure Ends (e : Engine ι υ σ) (s : Snapshot) (h : Handles ι υ) (p : Progress ι υ) : Prop where
  failed : p.result.failed = p.handles.unit.resource.isNone
  unit : ∀ unit, p.handles.unit.resource = some unit →
    Document.installs p.result = true ∧ p.result.dependencies = e.dependenciesOf s unit ∨
      Document.installs p.result = false ∧ h.unit.resource = some unit

variable (e : Engine ι υ σ) (s : Snapshot) (h : Handles ι υ) (w : Workspace ι υ σ)

/-- The parse half ends with the unit of its parse, the unit it was given, or
none if it failed. -/
theorem ends_parseIfNeeded : e.Ends s h (e.parseIfNeeded s h w).1 := by
  rcases e.parseIfNeeded_cases s h w with ⟨unit, hunit, -, heq⟩ | heq
  · rw [heq]
    refine ⟨?_, fun unit' hunit' => Or.inr ⟨rfl, hunit'⟩⟩
    rw [hunit]
    rfl
  · rw [heq]
    rcases e.parseStep_cases s { h with unit := .null } w with ⟨unit, -, heq⟩ | ⟨cause, -, heq⟩
    · rw [heq]
      refine ⟨rfl, fun unit' hunit' => Or.inl ⟨rfl, ?_⟩⟩
      obtain rfl : unit = unit' := Option.some.inj hunit'
      rfl
    · -- the unit was dropped before the parse
      rw [heq]
      exact ⟨rfl, nofun⟩

/-- The reparse half ends with the unit reparsed, or failed and has none. -/
theorem ends_reparseStep {p : Progress ι υ} (hp : p.result.failed = false) :
    e.Ends s h (e.reparseStep s p w).1 := by
  rcases e.reparseStep_cases s p w with
    ⟨unit, unit', -, -, heq⟩ | ⟨unit, cause, -, -, heq⟩ | ⟨-, heq⟩
  · rw [heq]
    refine ⟨hp, fun unit'' hunit => Or.inl ⟨?_, ?_⟩⟩
    · unfold Document.installs
      simp only [reparseBegun, hp, Bool.not_false, Bool.or_true, Bool.and_self]
    · obtain rfl : unit' = unit'' := Option.some.inj hunit
      rfl
  · rw [heq]
    exact ⟨rfl, nofun⟩
  · rw [heq]
    exact ⟨rfl, nofun⟩

/-- An update fails and leaves no unit, or succeeds and leaves one. -/
theorem ends_run (mode : UpdateMode) : e.Ends s h (e.run mode s h w).1 := by
  rcases e.run_cases mode s h w with ⟨-, heq⟩ | ⟨-, hfirst, heq⟩ | ⟨-, heq⟩
  · rw [heq]
    exact e.ends_parseIfNeeded s h w
  · rw [heq]
    exact e.ends_reparseStep s h _ hfirst
  · rw [heq]
    exact e.ends_reparseStep s h w rfl

end Engine

/-! ## §2. What passes. -/

namespace Workspace

variable {w w' w'' : Workspace ι υ (Journal υ σ)}

/-- The endings of one document, the latest first. -/
def endings (w : Workspace ι υ (Journal υ σ)) (n : Nat) : List (Ending υ) :=
  w.context.endings.filter (·.number == n)

/-- The engine gets its memory back. -/
def remind (w : Workspace ι υ (Journal υ σ)) (inner : σ) : Workspace ι υ (Journal υ σ) :=
  { w with context := { w.context with inner := inner } }

/-- Notes how an update ended. -/
def note (w : Workspace ι υ (Journal υ σ)) (n : Nat) (p : Progress ι υ) :
    Workspace ι υ (Journal υ σ) :=
  { w with context := { w.context with
      endings := ⟨n, p.result.failed, p.handles.unit.resource⟩ :: w.context.endings } }

/-- An update whose ending is noted. -/
def noted (w : Workspace ι υ (Journal υ σ)) (e : Engine ι υ (Journal υ σ)) (mode : UpdateMode)
    (n : Nat) : Workspace ι υ (Journal υ σ) :=
  match w.documents[n]? with
  | none => w
  | some d => (w.update e mode n).note n (w.outcome e mode d).1

/-- What can pass while the documents `busy` are updated: operations of every
kind, and updates of other documents, by engines during whose calls the like
may pass.  The engines may do anything else, but agree on what a unit depends
on.  An update holds the resources of its document, so no other update of the
same document begins before it has ended. -/
inductive Passing (dependencies : υ → PathSet) :
    List Nat → Workspace ι υ (Journal υ σ) → Workspace ι υ (Journal υ σ) → Prop
  | nothing {busy : List Nat} (w : Workspace ι υ (Journal υ σ)) : Passing dependencies busy w w
  | tick {busy : List Nat} {w w' : Workspace ι υ (Journal υ σ)}
      (h : Passing dependencies busy w w') : Passing dependencies busy w w'.now.2
  | occur {busy : List Nat} {w w' : Workspace ι υ (Journal υ σ)}
      (h : Passing dependencies busy w w') (o : Occurrence) :
      Passing dependencies busy w (o.perform w')
  /-- A part that may have been built at any time. -/
  | install {busy : List Nat} {w w' : Workspace ι υ (Journal υ σ)}
      (h : Passing dependencies busy w w') (n : Nat) (part : ProjectPart) :
      Passing dependencies busy w (w'.modify n (·.setPart part))
  | remind {busy : List Nat} {w w' : Workspace ι υ (Journal υ σ)}
      (h : Passing dependencies busy w w') (inner : σ) :
      Passing dependencies busy w (w'.remind inner)
  | update {busy : List Nat} {w w' : Workspace ι υ (Journal υ σ)}
      (h : Passing dependencies busy w w') {n : Nat} (hn : n ∉ busy)
      {e : Engine ι υ (Journal υ σ)} (he : e.dependencies = dependencies)
      (hindex : ∀ v, Passing dependencies (n :: busy) v (e.newIndex v).2)
      (hparse : ∀ request index v, Passing dependencies (n :: busy) v (e.parse request index v).2)
      (hreparse : ∀ request unit v,
        Passing dependencies (n :: busy) v (e.reparse request unit v).2)
      (mode : UpdateMode) : Passing dependencies busy w (w'.noted e mode n)

/-! ## §3. What is left alone. -/

end Workspace

/-- What an update would change is left alone. -/
structure Document.Rests (d d' : Document ι υ) : Prop where
  key : d'.key = d.key
  dependencies : d'.dependencies = d.dependencies
  failed : d'.failed = d.failed
  handles : d'.handles = d.handles

namespace Document.Rests

variable {d d' d'' : Document ι υ}

theorem refl (d : Document ι υ) : d.Rests d := ⟨rfl, rfl, rfl, rfl⟩

theorem trans (h : d.Rests d') (h' : d'.Rests d'') : d.Rests d'' :=
  ⟨h'.key.trans h.key, h'.dependencies.trans h.dependencies, h'.failed.trans h.failed,
    h'.handles.trans h.handles⟩

end Document.Rests

/-- A version of its part is no part of what the journal tells of a document. -/
theorem Document.rests_setPart (d : Document ι υ) (part : ProjectPart) :
    d.Rests (d.setPart part) := by
  unfold Document.setPart
  split
  · exact ⟨rfl, rfl, rfl, rfl⟩
  · exact .refl d

/-- A document no update has seen. -/
structure Document.Untold (d : Document ι υ) : Prop where
  handles : d.handles = .null
  failed : d.failed = false
  dependencies : d.dependencies = PathSet.empty.insert d.key.path

theorem Document.Untold.rests {d d' : Document ι υ} (h : d.Untold) (h' : d.Rests d') :
    d'.Untold where
  handles := h'.handles.trans h.handles
  failed := h'.failed.trans h.failed
  dependencies := by rw [h'.dependencies, h'.key, h.dependencies]

namespace Workspace

variable {w w' w'' : Workspace ι υ (Journal υ σ)}

/-- No update ended: old documents were left alone, and new ones came. -/
structure Rests (w w' : Workspace ι υ (Journal υ σ)) : Prop where
  endings : w'.context.endings = w.context.endings
  old : ∀ (n : Nat) (d : Document ι υ), w.documents[n]? = some d →
    ∃ d', w'.documents[n]? = some d' ∧ d.Rests d'
  fresh : ∀ (n : Nat) (d' : Document ι υ), w.documents[n]? = none → w'.documents[n]? = some d' →
    d'.Untold

namespace Rests

theorem of_documents_eq (hdocuments : w'.documents = w.documents)
    (hendings : w'.context.endings = w.context.endings) : Rests w w' where
  endings := hendings
  old n d hd := ⟨d, by rw [hdocuments, hd], .refl d⟩
  fresh n d' hnone hsome := by
    rw [hdocuments, hnone] at hsome
    cases hsome

theorem refl (w : Workspace ι υ (Journal υ σ)) : Rests w w := of_documents_eq rfl rfl

theorem trans (h : Rests w w') (h' : Rests w' w'') : Rests w w'' where
  endings := h'.endings.trans h.endings
  old n d hd := by
    obtain ⟨d', hd', hrests⟩ := h.old n d hd
    obtain ⟨d'', hd'', hrests'⟩ := h'.old n d' hd'
    exact ⟨d'', hd'', hrests.trans hrests'⟩
  fresh n d'' hnone hsome := by
    -- it came in the second part, or in the first and was left alone since
    cases hmid : w'.documents[n]? with
    | none => exact h'.fresh n d'' hmid hsome
    | some d' =>
      obtain ⟨d, hd, hrests⟩ := h'.old n d' hmid
      rw [hsome] at hd
      cases hd
      exact (h.fresh n d' hnone hmid).rests hrests

theorem of_drift (h : Drift w w') : Rests w w' where
  endings := by rw [h.context]
  old n d hd := by
    obtain ⟨d', hd', hdrift⟩ := h.old n d hd
    exact ⟨d', hd', hdrift.key, hdrift.dependencies, hdrift.failed, hdrift.handles⟩
  fresh n d' hnone hsome :=
    have hunparsed := h.fresh n d' hnone hsome
    ⟨hunparsed.handles, hunparsed.failed, hunparsed.dependencies⟩

/-- A loop whose steps leave updates alone does. -/
theorem foldl {α : Type} {f : Workspace ι υ (Journal υ σ) → α → Workspace ι υ (Journal υ σ)}
    (hf : ∀ w a, Rests w (f w a)) (as : List α) (w : Workspace ι υ (Journal υ σ)) :
    Rests w (as.foldl f w) :=
  List.foldlRecOn as f (refl w) fun w' h a _ => h.trans (hf w' a)

end Rests

theorem rests_setPart (w : Workspace ι υ (Journal υ σ)) (n : Nat) (part : ProjectPart) :
    Rests w (w.modify n (·.setPart part)) where
  endings := rfl
  old m d hd := by
    by_cases hm : n = m
    · subst hm
      exact ⟨_, getElem?_modify_self hd _, d.rests_setPart part⟩
    · exact ⟨d, (getElem?_modify_of_ne w hm _).trans hd, .refl d⟩
  fresh m d' hnone hsome := by
    -- no document comes from a part
    have hlen : w.documents.length ≤ m := List.getElem?_eq_none_iff.1 hnone
    rw [List.getElem?_eq_none (by simpa [modify] using hlen)] at hsome
    cases hsome

theorem rests_installPart (w : Workspace ι υ (Journal υ σ)) (id : String) :
    Rests w (w.installPart id) := by
  unfold installPart
  split
  · exact .refl w
  · exact Rests.foldl (fun w n => rests_setPart w n _) _ w

/-- Whatever occurs besides updates, nothing is entered, and what the journal
tells of documents stays. -/
theorem rests_perform (w : Workspace ι υ (Journal υ σ)) (o : Occurrence) :
    Rests w (o.perform w) := by
  cases o with
  | action a => exact .of_drift (a.drift_perform w)
  | upsertParts parts =>
    have hregistered : Rests w (w.registerParts parts).2 := .of_documents_eq rfl rfl
    have hinstalled := Rests.foldl rests_installPart (w.registerParts parts).1
      (w.registerParts parts).2
    exact (hregistered.trans hinstalled).trans (.of_drift (drift_markOutdated _))

/-! ## §4. What documents say. -/

end Workspace

/-- The latest update that succeeded. -/
def lastSuccess (endings : List (Ending υ)) : Option (Ending υ) := endings.find? (!·.failed)

/-- The dependencies of a document after these endings: those of the unit the
latest success left, and its own file. -/
def dependenciesAfter (dependencies : υ → PathSet) (path : Path) (endings : List (Ending υ)) :
    PathSet :=
  match (lastSuccess endings).bind (·.unit?) with
  | some unit => (dependencies unit).insert path
  | none => PathSet.empty.insert path

/-- A document says what its endings say. -/
structure Told (dependencies : υ → PathSet) (endings : List (Ending υ)) (d : Document ι υ) :
    Prop where
  ended : ∀ ending ∈ endings, ending.failed = ending.unit?.isNone
  unit : d.handles.unit.resource = endings.head?.bind (·.unit?)
  failed : d.failed = endings.head?.any (·.failed)
  dependencies : d.dependencies = dependenciesAfter dependencies d.key.path endings

namespace Told

variable {dependencies : υ → PathSet} {endings : List (Ending υ)} {d d' : Document ι υ}

theorem untold (h : d.Untold) : Told dependencies [] d where
  ended _ hmem := absurd hmem List.not_mem_nil
  unit := by
    rw [h.handles]
    rfl
  failed := h.failed
  dependencies := h.dependencies

theorem rests (h : Told dependencies endings d) (hrests : d.Rests d') :
    Told dependencies endings d' where
  ended := h.ended
  unit := by
    rw [hrests.handles]
    exact h.unit
  failed := hrests.failed.trans h.failed
  dependencies := by
    rw [hrests.dependencies, hrests.key]
    exact h.dependencies

/-- A document that has a unit has it from its latest update, which
succeeded. -/
theorem lastSuccess_of_unit (h : Told dependencies endings d) {unit : υ}
    (hunit : d.handles.unit.resource = some unit) :
    (lastSuccess endings).bind (·.unit?) = some unit := by
  have hlatest := h.unit
  rw [hunit] at hlatest
  cases endings with
  | nil => cases hlatest
  | cons ending rest =>
    have hleft : ending.unit? = some unit := hlatest.symm
    have hfailed : ending.failed = false := by
      rw [h.ended ending List.mem_cons_self, hleft]
      rfl
    unfold lastSuccess
    rw [List.find?_cons_of_pos (by rw [hfailed]; rfl)]
    exact hleft

/-- A path that is in the set is not put in again. -/
theorem insert_insert (s : PathSet) (p : Path) : (s.insert p).insert p = s.insert p := by
  have hmem := PathSet.contains_insert_self s p
  rw [PathSet.insert, if_pos hmem]

/-- Dependencies are replaced together with the unit they belong to. -/
theorem dependencies_settle (p : Progress ι υ) (d : Document ι υ) :
    (p.settle d).dependencies =
      if Document.installs p.result then p.result.dependencies.insert d.key.path
      else d.dependencies :=
  Document.incorporate_dependencies { d with handles := p.handles } p.result

/-- An update writes what it came to. -/
theorem settle (h : Told dependencies endings d) {e : Engine ι υ σ}
    (he : e.dependencies = dependencies) {s : Snapshot} (hfile : s.file = d.key.path)
    {p : Progress ι υ} (hp : e.Ends s d.handles p) (n : Nat) :
    Told dependencies (⟨n, p.result.failed, p.handles.unit.resource⟩ :: endings) (p.settle d) := by
  obtain ⟨hkey, -, -, -, hhandles⟩ := settle_rest p d
  refine ⟨fun ending hmem => ?_, ?_, ?_, ?_⟩
  · rcases List.mem_cons.1 hmem with rfl | hmem
    · exact hp.failed
    · exact h.ended ending hmem
  · rw [hhandles]
    rfl
  · show (p.settle d).failed = p.result.failed
    unfold Progress.settle Document.incorporate
    cases p.result.failed <;> rfl
  · rw [hkey, dependencies_settle]
    cases hunit : p.handles.unit.resource with
    | none =>
      -- a failure leaves the dependencies of the latest success
      have hfailed : p.result.failed = true := by
        rw [hp.failed, hunit]
        rfl
      have hinstalls : Document.installs p.result = false := by
        rw [Document.installs, hfailed]
        rfl
      rw [hinstalls, if_neg Bool.false_ne_true, h.dependencies, hfailed]
      rfl
    | some unit =>
      have hfailed : p.result.failed = false := by
        rw [hp.failed, hunit]
        rfl
      have hafter : dependenciesAfter dependencies d.key.path
          (⟨n, p.result.failed, some unit⟩ :: endings) = (dependencies unit).insert d.key.path := by
        rw [hfailed]
        rfl
      rw [hafter]
      rcases hp.unit unit hunit with ⟨hinstalls, hdependencies⟩ | ⟨hinstalls, hkept⟩
      · rw [hinstalls, if_pos rfl, hdependencies, Engine.dependenciesOf, he, hfile, insert_insert]
      · -- the unit is still that of the latest success
        rw [hinstalls, if_neg Bool.false_ne_true, h.dependencies, dependenciesAfter,
          h.lastSuccess_of_unit hkept]

end Told

/-! ## §5. Whatever passes. -/

namespace Workspace

variable {dependencies : υ → PathSet} {w w' w'' : Workspace ι υ (Journal υ σ)}

/-- Document `n` was left alone, and no update of it ended. -/
structure Undisturbed (n : Nat) (w w' : Workspace ι υ (Journal υ σ)) : Prop where
  endings : w'.endings n = w.endings n
  document : ∀ d, w.documents[n]? = some d → ∃ d', w'.documents[n]? = some d' ∧ d.Rests d'

theorem Undisturbed.trans {n : Nat} (h : Undisturbed n w w') (h' : Undisturbed n w' w'') :
    Undisturbed n w w'' where
  endings := h'.endings.trans h.endings
  document d hd := by
    obtain ⟨d', hd', hrests⟩ := h.document d hd
    obtain ⟨d'', hd'', hrests'⟩ := h'.document d' hd'
    exact ⟨d'', hd'', hrests.trans hrests'⟩

/-- A document that rests is undisturbed. -/
theorem Rests.undisturbed (h : Rests w w') (n : Nat) : Undisturbed n w w' where
  endings := by
    unfold Workspace.endings
    rw [h.endings]
  document d hd := h.old n d hd

/-- Every document says what its endings say, and only documents that exist
have endings. -/
structure AllTold (dependencies : υ → PathSet) (w : Workspace ι υ (Journal υ σ)) : Prop where
  known : ∀ ending ∈ w.context.endings, ending.number < w.documents.length
  told : ∀ (n : Nat) (d : Document ι υ), w.documents[n]? = some d →
    Told dependencies (w.endings n) d

/-- What the journal tells of all documents stays true while they rest. -/
theorem AllTold.rests (h : AllTold dependencies w) (hrests : Rests w w') :
    AllTold dependencies w' where
  known ending hmem := by
    rw [hrests.endings] at hmem
    obtain ⟨d', hd', -⟩ := hrests.old _ _ (List.getElem?_eq_getElem (h.known ending hmem))
    exact (List.getElem?_eq_some_iff.1 hd').1
  told n d' hd' := by
    rw [(hrests.undisturbed n).endings]
    cases hd : w.documents[n]? with
    | some d =>
      obtain ⟨d'', hd'', hsame⟩ := hrests.old n d hd
      rw [hd'] at hd''
      cases hd''
      exact (h.told n d hd).rests hsame
    | none =>
      -- a new document has no endings yet
      have hnone : w.endings n = [] := by
        refine List.filter_eq_nil_iff.2 fun ending hmem hnumber => ?_
        have hlt := h.known ending hmem
        rw [beq_iff_eq.1 hnumber] at hlt
        exact Nat.not_lt.2 (List.getElem?_eq_none_iff.1 hd) hlt
      rw [hnone]
      exact Told.untold (hrests.fresh n d' hd hd')

/-- While the documents `busy` are left alone, every document goes on saying
what its endings say. -/
structure Preserves (dependencies : υ → PathSet) (busy : List Nat)
    (w w' : Workspace ι υ (Journal υ σ)) : Prop where
  undisturbed : ∀ n ∈ busy, Undisturbed n w w'
  told : AllTold dependencies w → AllTold dependencies w'

theorem Preserves.trans {busy : List Nat} (h : Preserves dependencies busy w w')
    (h' : Preserves dependencies busy w' w'') : Preserves dependencies busy w w'' where
  undisturbed n hn := (h.undisturbed n hn).trans (h'.undisturbed n hn)
  told hw := h'.told (h.told hw)

theorem Rests.preserves (h : Rests w w') (busy : List Nat) : Preserves dependencies busy w w' where
  undisturbed n _ := h.undisturbed n
  told hw := hw.rests h

theorem rests_now (w : Workspace ι υ (Journal υ σ)) : Rests w w.now.2 := .of_documents_eq rfl rfl

/-- An update enters how it ended, in front of what was entered during its
calls. -/
theorem noted_eq (e : Engine ι υ (Journal υ σ)) (mode : UpdateMode) {n : Nat} {d : Document ι υ}
    (hd : w.documents[n]? = some d) :
    (w.noted e mode n).documents =
        (w.outcome e mode d).2.documents.modify n (w.outcome e mode d).1.settle ∧
      (w.noted e mode n).context.endings =
        ⟨n, (w.outcome e mode d).1.result.failed,
          (w.outcome e mode d).1.handles.unit.resource⟩ ::
            (w.outcome e mode d).2.context.endings := by
  have hnoted : w.noted e mode n = (w.update e mode n).note n (w.outcome e mode d).1 := by
    unfold noted
    rw [hd]
  rw [hnoted, update_eq hd]
  exact ⟨rfl, rfl⟩

/-- A noted update adds the ending of its document, and writes what it came to. -/
theorem noted_self {e : Engine ι υ (Journal υ σ)} {mode : UpdateMode} {n : Nat}
    {d d' : Document ι υ} (hd : w.documents[n]? = some d)
    (hd' : (w.outcome e mode d).2.documents[n]? = some d') :
    (w.noted e mode n).documents[n]? = some ((w.outcome e mode d).1.settle d') ∧
      (w.noted e mode n).endings n =
        ⟨n, (w.outcome e mode d).1.result.failed, (w.outcome e mode d).1.handles.unit.resource⟩ ::
          (w.outcome e mode d).2.endings n := by
  obtain ⟨hdocuments, hendings⟩ := noted_eq e mode hd
  refine ⟨?_, ?_⟩
  · rw [hdocuments]
    exact getElem?_modify_self hd' _
  · unfold endings
    rw [hendings, List.filter_cons_of_pos (by rw [beq_iff_eq])]

/-- It leaves the other documents to those who are updating them. -/
theorem noted_other (e : Engine ι υ (Journal υ σ)) (mode : UpdateMode) {n m : Nat}
    {d : Document ι υ} (hd : w.documents[n]? = some d) (hm : n ≠ m) :
    (w.noted e mode n).documents[m]? = (w.outcome e mode d).2.documents[m]? ∧
      (w.noted e mode n).endings m = (w.outcome e mode d).2.endings m := by
  obtain ⟨hdocuments, hendings⟩ := noted_eq e mode hd
  refine ⟨?_, ?_⟩
  · rw [hdocuments]
    exact getElem?_modify_of_ne _ hm _
  · unfold endings
    rw [hendings, List.filter_cons_of_neg (by rw [beq_iff_eq]; exact hm)]

/-- A noted update after whose run all is told leaves all told. -/
theorem AllTold.noted {e : Engine ι υ (Journal υ σ)} (he : e.dependencies = dependencies)
    {mode : UpdateMode} {n : Nat} {d : Document ι υ} (hd : w.documents[n]? = some d)
    (hsame : Undisturbed n w (w.outcome e mode d).2)
    (h : AllTold dependencies (w.outcome e mode d).2) :
    AllTold dependencies (w.noted e mode n) := by
  obtain ⟨d₁, hd₁, hrests⟩ := hsame.document d hd
  obtain ⟨hdocuments, hendings⟩ := noted_eq e mode hd
  refine ⟨fun ending hmem => ?_, fun m d' hd' => ?_⟩
  · rw [hdocuments, List.length_modify]
    rw [hendings] at hmem
    rcases List.mem_cons.1 hmem with rfl | hmem
    · exact (List.getElem?_eq_some_iff.1 hd₁).1
    · exact h.known ending hmem
  · by_cases hm : n = m
    · subst hm
      -- the document is as the update found it
      have hends : e.Ends (d.snapshot w.buffers) d₁.handles (w.outcome e mode d).1 := by
        rw [hrests.handles]
        exact e.ends_run (d.snapshot w.buffers) d.handles w mode
      have hfile : (d.snapshot w.buffers).file = d₁.key.path :=
        congrArg DocumentKey.path hrests.key.symm
      obtain ⟨hdocument, hmore⟩ := noted_self hd hd₁
      rw [hdocument] at hd'
      cases hd'
      rw [hmore]
      exact (h.told n d₁ hd₁).settle he hfile hends n
    · obtain ⟨hdocument, hsame⟩ := noted_other e mode hd hm
      rw [hdocument] at hd'
      rw [hsame]
      exact h.told m d' hd'

/-- An update during whose engine calls all is preserved preserves all. -/
theorem preserves_noted {busy : List Nat} {n : Nat} (hn : n ∉ busy)
    {e : Engine ι υ (Journal υ σ)} (he : e.dependencies = dependencies)
    (hcalls : e.Within (Preserves dependencies (n :: busy))) (mode : UpdateMode) :
    Preserves dependencies busy w (w.noted e mode n) := by
  cases hd : w.documents[n]? with
  | none =>
    have hnoted : w.noted e mode n = w := by
      unfold noted
      rw [hd]
    rw [hnoted]
    exact (Rests.refl w).preserves busy
  | some d =>
    have hrun : Preserves dependencies (n :: busy) w (w.outcome e mode d).2 :=
      hcalls.run mode (d.snapshot w.buffers) d.handles w
    have hsame := hrun.undisturbed n List.mem_cons_self
    refine ⟨fun m hm => ?_, fun hw => (hrun.told hw).noted he hd hsame⟩
    have hne : n ≠ m := fun h => hn (h ▸ hm)
    have hleft := hrun.undisturbed m (List.mem_cons_of_mem n hm)
    obtain ⟨hdocument, hendings⟩ := noted_other e mode hd hne
    refine ⟨hendings.trans hleft.endings, fun d₁ hd₁ => ?_⟩
    rw [hdocument]
    exact hleft.document d₁ hd₁

/-- Whatever passes, every document goes on saying what its endings say. -/
theorem preserves_of_passing {busy : List Nat} (h : Passing dependencies busy w w') :
    Preserves dependencies busy w w' := by
  induction h with
  | nothing w => exact (Rests.refl w).preserves _
  | tick _ ih => exact ih.trans ((rests_now _).preserves _)
  | occur _ o ih => exact ih.trans ((rests_perform _ o).preserves _)
  | install _ n part ih => exact ih.trans ((rests_setPart _ n part).preserves _)
  | @remind _ _ w' _ inner ih =>
    have hrests : Rests w' (w'.remind inner) := .of_documents_eq rfl rfl
    exact ih.trans (hrests.preserves _)
  | @update busy w w' _ n hn e he _ _ _ mode ih ihindex ihparse ihreparse =>
    -- during the calls the document is busy as well
    have hcalls : e.Within (Preserves dependencies (n :: busy)) :=
      { refl := fun v => (Rests.refl v).preserves _
        trans := Preserves.trans
        now := fun v => (rests_now v).preserves _
        newIndex := ihindex
        parse := ihparse
        reparse := ihreparse }
    exact ih.trans (preserves_noted hn he hcalls mode)

/-- In a new workspace there is nothing to tell of. -/
theorem allTold_new (disk : Disk) (requireFiles : Bool) (inner : σ) :
    AllTold dependencies
      (new disk requireFiles ⟨inner, []⟩ : Workspace ι υ (Journal υ σ)) where
  known _ hmem := absurd hmem List.not_mem_nil
  told _ _ hd := nomatch hd

/-- In every state of every run, every document says what its endings say. -/
theorem told_of_passing {disk : Disk} {requireFiles : Bool} {inner : σ}
    (h : Passing dependencies [] (new disk requireFiles ⟨inner, []⟩) w) :
    AllTold dependencies w :=
  (preserves_of_passing h).told (allTold_new disk requireFiles inner)

end Workspace

/-! ## §6. One story. -/

/-- The failure flag, the unit and the dependencies of a document agree about
how its updates went. -/
structure SameStory (dependencies : υ → PathSet) (endings : List (Ending υ)) (d : Document ι υ) :
    Prop where
  before : endings = [] → d.handles.unit.resource = none ∧ d.failed = false
  after : endings ≠ [] → (d.failed = true ↔ d.handles.unit.resource = none)
  parsed : ∀ unit, d.handles.unit.resource = some unit →
    d.dependencies = (dependencies unit).insert d.key.path
  unparsed : d.handles.unit.resource = none →
    d.dependencies = dependenciesAfter dependencies d.key.path endings
  own : d.dependencies.contains d.key.path = true

/-- What the journal tells of a document is the story its state tells. -/
theorem Told.sameStory {dependencies : υ → PathSet} {endings : List (Ending υ)}
    {d : Document ι υ} (h : Told dependencies endings d) :
    SameStory dependencies endings d where
  before hnone := by
    subst hnone
    exact ⟨h.unit, h.failed⟩
  after hsome := by
    obtain ⟨ending, rest, rfl⟩ := List.exists_cons_of_ne_nil hsome
    have hunit : d.handles.unit.resource = ending.unit? := h.unit
    have hfailed : d.failed = ending.failed := h.failed
    rw [hunit, hfailed, h.ended ending List.mem_cons_self, Option.isNone_iff_eq_none]
  parsed unit hunit := by
    rw [h.dependencies, dependenciesAfter, h.lastSuccess_of_unit hunit]
  unparsed _ := h.dependencies
  own := by
    rw [h.dependencies, dependenciesAfter]
    split <;> exact PathSet.contains_insert_self _ _

/-- In every state of every run of a cache, whatever its engines answer and
whatever goes on meanwhile, the failure flag, the unit and the dependencies of
every document tell the same story. -/
theorem same_story {dependencies : υ → PathSet} {disk : Disk} {requireFiles : Bool} {inner : σ}
    {w : Workspace ι υ (Journal υ σ)}
    (h : Passing dependencies [] (.new disk requireFiles ⟨inner, []⟩) w) {n : Nat}
    {d : Document ι υ} (hd : w.documents[n]? = some d) :
    SameStory dependencies (w.endings n) d :=
  ((told_of_passing h).told n d hd).sameStory

/-- An engine that reads one header, and can do so only once.  While it fails,
the document becomes dirty. -/
def brittleEngine : Engine Unit PathSet (Journal PathSet Unit) where
  newIndex w := ((), w)
  parse _ _ w := ((.ok ⟨[⟨"/a.h"⟩]⟩, ()), w)
  reparse _ _ w := (.error .noTranslationUnit, (Occurrence.action (.markDirty 0)).perform w)
  dependencies unit := unit

/-- A cache that is asked to hold one document. -/
def blank : Workspace Unit PathSet (Journal PathSet Unit) := .new (.fresh []) false ⟨(), []⟩

/-- The document is there. -/
def unread : Workspace Unit PathSet (Journal PathSet Unit) :=
  (Occurrence.action (.create [.new ⟨"/a.c"⟩ "p"])).perform
    ((Occurrence.action (.upsertParts [("p", [])])).perform blank)

/-- It was parsed, and then reparsed in vain. -/
def broken : Workspace Unit PathSet (Journal PathSet Unit) :=
  (unread.noted brittleEngine .parseIfNeeded 0).noted brittleEngine .forceReparse 0

theorem passing_noted {w : Workspace Unit PathSet (Journal PathSet Unit)}
    (h : Passing (fun unit => unit) [] blank w) (mode : UpdateMode) :
    Passing (fun unit => unit) [] blank (w.noted brittleEngine mode 0) :=
  h.update List.not_mem_nil rfl (fun v => .nothing v) (fun _ _ v => .nothing v)
    (fun _ _ v => (Passing.nothing v).occur (.action (.markDirty 0))) mode

theorem passing_broken : Passing (fun unit => unit) [] blank broken :=
  have hunread : Passing (fun unit => unit) [] blank unread :=
    ((Passing.nothing blank).occur _).occur _
  passing_noted (passing_noted hunread .parseIfNeeded) .forceReparse

/-- It failed, holds no unit, and still has the dependencies of its parse. -/
theorem same_story_broken : ∃ d, broken.documents[0]? = some d ∧
    SameStory (fun unit => unit) (broken.endings 0) d ∧ broken.endings 0 ≠ [] ∧
    d.failed = true ∧ d.handles.unit.resource = none ∧
    d.dependencies = ⟨[⟨"/a.h"⟩, ⟨"/a.c"⟩]⟩ := by
  obtain ⟨d, hd⟩ : ∃ d, broken.documents[0]? = some d := ⟨_, rfl⟩
  have hstory := same_story passing_broken hd
  have hended : broken.endings 0 ≠ [] := nofun
  have hnull : d.handles.unit.resource = none := by
    obtain rfl := Option.some.inj hd
    rfl
  refine ⟨d, hd, hstory, hended, (hstory.after hended).2 hnull, hnull, ?_⟩
  rw [hstory.unparsed hnull]
  obtain rfl := Option.some.inj hd
  decide

end ParseCache
