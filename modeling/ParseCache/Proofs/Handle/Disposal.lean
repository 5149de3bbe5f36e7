/-
  ParseCache.Proofs.Handle.Disposal — every resource is disposed once, in turn.

  What a handle holds says nothing about the resources it held before: one that
  was lost, or disposed twice, leaves no trace in it.  The log does tell, but
  two resources may be equal, and one that is changed in place is not equal to
  what it was.  So every resource gets a name here, the number of the step that
  brings it in.  A step that changes the held resource leaves its name alone,
  and no step looks at names: without them the history is what it was.

  Main results:
    * `map_value_run` — names can be forgotten;
    * `Balanced.close`, `Balanced.hold` — the two moves that every operation is
      made of;
    * `balanced_step`, `balanced_run` — the books stay balanced;
    * `disposed_once` — what a history of operations says about the resources
      that ever entered, at every moment and after the end of the handle.
-/
import Mathlib.Data.List.Infix
import ParseCache.Handle

namespace ParseCache

variable {α β : Type}

/-! ## §1. Resources with names. -/

/-- A resource, and the number of the step that brought it in. -/
structure Named (α : Type) where
  name : Nat
  value : α

/-- The step as number `n`: what it brings in has that name, and what it changes
keeps its own. -/
def HandleStep.named (n : Nat) : HandleStep α → HandleStep (Named α)
  | replace r => replace ⟨n, r⟩
  | getOrInsert r => getOrInsert ⟨n, r⟩
  | modify f => modify fun r => { r with value := f r.value }
  | dispose => dispose
  | renew => renew

/-- The steps, numbered from `n` on. -/
def HandleStep.numbered : Nat → List (HandleStep α) → List (HandleStep (Named α))
  | _, [] => []
  | n, t :: rest => t.named n :: numbered (n + 1) rest

/-- The resource a step makes, if nothing is held. -/
def HandleStep.creates? (null : Bool) : HandleStep α → Option α
  | getOrInsert r => if null then some r else none
  | _ => none

/-- The resource a step brings in. -/
def HandleStep.brings? (null : Bool) : HandleStep α → Option α
  | replace r => some r
  | t => t.creates? null

/-- Whether the event comes with a new resource. -/
def HandleEvent.arrives (e : HandleEvent α) : Bool := e.created?.isSome || e.entered?.isSome

def HandleEvent.map (f : α → β) : HandleEvent α → HandleEvent β
  | created r => created (f r)
  | entered r => entered (f r)
  | disposed r => disposed (f r)

/-- The names of the resources that entered, as the log tells. -/
def entries (log : List (HandleEvent (Named α))) : List Nat :=
  (log.filterMap HandleEvent.entered?).map Named.name

/-- The names of the resources that were disposed, as the log tells. -/
def disposals (log : List (HandleEvent (Named α))) : List Nat :=
  (log.filterMap HandleEvent.disposed?).map Named.name

theorem entries_append (before after : List (HandleEvent (Named α))) :
    entries (before ++ after) = entries before ++ entries after := by
  unfold entries
  rw [List.filterMap_append, List.map_append]

theorem disposals_append (before after : List (HandleEvent (Named α))) :
    disposals (before ++ after) = disposals before ++ disposals after := by
  unfold disposals
  rw [List.filterMap_append, List.map_append]

namespace HandleHistory

/-- The history of other resources, told in the same words. -/
def map (f : α → β) (s : HandleHistory α) : HandleHistory β :=
  ⟨⟨s.handle.resource.map f⟩, s.log.map (HandleEvent.map f)⟩

/-- No step looks at a name. -/
theorem map_value_step (s : HandleHistory (Named α)) (n : Nat) (t : HandleStep α) :
    (s.step (t.named n)).map Named.value = (s.map Named.value).step t := by
  obtain ⟨⟨resource⟩, log⟩ := s
  -- what an operation does depends on whether something is held, and on no more
  cases t <;> cases resource <;>
    simp [HandleStep.named, step, close, note, map, HandleEvent.map, Handle.replace,
      Handle.getOrInsert, Handle.modify, Handle.dispose, Handle.of, Handle.null]

theorem map_value_foldl (steps : List (HandleStep α)) :
    ∀ (n : Nat) (s : HandleHistory (Named α)),
      ((HandleStep.numbered n steps).foldl step s).map Named.value =
        steps.foldl step (s.map Named.value) := by
  induction steps with
  | nil =>
    intro n s
    rfl
  | cons t rest ih =>
    intro n s
    show ((HandleStep.numbered (n + 1) rest).foldl step (s.step (t.named n))).map Named.value = _
    rw [ih, map_value_step]
    rfl

/-- Without the names, the history is the one without names. -/
theorem map_value_run (steps : List (HandleStep α)) :
    (run (HandleStep.numbered 0 steps)).map Named.value = run steps :=
  map_value_foldl steps 0 start

/-- The end of a handle brings nothing in. -/
theorem entries_close (s : HandleHistory (Named α)) : entries s.close.log = entries s.log := by
  show entries (s.log ++ s.handle.resource.toList.map .disposed) = entries s.log
  rw [entries_append]
  cases s.handle.resource with
  | none => exact List.append_nil _
  | some r => exact List.append_nil _

/-- The end of a handle disposes what is held. -/
theorem disposals_close (s : HandleHistory (Named α)) :
    disposals s.close.log = disposals s.log ++ s.handle.resource.toList.map Named.name := by
  show disposals (s.log ++ s.handle.resource.toList.map .disposed) = _
  rw [disposals_append]
  cases s.handle.resource with
  | none => rfl
  | some r => rfl

/-! ## §2. Balanced books. -/

/-- The books are balanced after `n` steps: the resources have different names;
those that entered are those that were disposed and then the one that is held;
and whenever one came, all before it had gone. -/
structure Balanced (n : Nat) (s : HandleHistory (Named α)) : Prop where
  increasing : (entries s.log).Pairwise (· < ·)
  numbered : ∀ name ∈ entries s.log, name < n
  ledger : entries s.log = disposals s.log ++ s.handle.resource.toList.map Named.name
  inTurn : ∀ before e, before ++ [e] <+: s.log → e.arrives = true →
    entries before = disposals before

theorem balanced_start : Balanced 0 (start : HandleHistory (Named α)) where
  increasing := .nil
  numbered _ h := absurd h List.not_mem_nil
  ledger := rfl
  inTurn before e h := by
    have hnil : before ++ [e] = [] := List.prefix_nil.1 h
    exact absurd hnil (by simp)

namespace Balanced

variable {n m : Nat} {s : HandleHistory (Named α)}

theorem mono (h : Balanced n s) (hle : n ≤ m) : Balanced m s where
  increasing := h.increasing
  numbered name hname := Nat.lt_of_lt_of_le (h.numbered name hname) hle
  ledger := h.ledger
  inTurn := h.inTurn

/-- A handle that holds nothing has disposed what entered. -/
theorem of_null (h : Balanced n s) (hnull : s.handle.resource = none) :
    entries s.log = disposals s.log := by
  have hledger := h.ledger
  rw [hnull] at hledger
  simpa using hledger

/-- One more event is the last one, and the others are as they were. -/
theorem inTurn_snoc (h : Balanced n s) {e : HandleEvent (Named α)}
    (he : e.arrives = true → s.handle.resource = none) :
    ∀ before e', before ++ [e'] <+: s.log ++ [e] → e'.arrives = true →
      entries before = disposals before := by
  intro before e' hprefix harrives
  rcases List.prefix_concat_iff.1 hprefix with heq | hprefix
  · obtain ⟨rfl, hlast⟩ := List.append_inj' heq rfl
    cases hlast
    exact h.of_null (he harrives)
  · exact h.inTurn before e' hprefix harrives

/-- What is held is disposed. -/
theorem close (h : Balanced n s) : Balanced n s.close where
  increasing := by
    rw [entries_close]
    exact h.increasing
  numbered := by
    rw [entries_close]
    exact h.numbered
  ledger := by
    show entries s.close.log = disposals s.close.log ++ []
    rw [entries_close, disposals_close, List.append_nil]
    exact h.ledger
  inTurn := by
    show ∀ before e, before ++ [e] <+: s.log ++ s.handle.resource.toList.map .disposed → _
    cases s.handle.resource with
    | none =>
      show ∀ before e, before ++ [e] <+: s.log ++ [] → _
      rw [List.append_nil]
      exact h.inTurn
    | some r => exact h.inTurn_snoc nofun

/-- A handle that holds nothing is told of a resource that was made for it. -/
theorem create (h : Balanced n s) (hnull : s.handle.resource = none) (r : Named α) :
    Balanced n ⟨s.handle, s.log ++ [.created r]⟩ := by
  have hentries : entries (s.log ++ [.created r]) = entries s.log := by
    rw [entries_append]
    exact List.append_nil _
  have hdisposals : disposals (s.log ++ [.created r]) = disposals s.log := by
    rw [disposals_append]
    exact List.append_nil _
  refine ⟨?_, ?_, ?_, h.inTurn_snoc fun _ => hnull⟩
  · rw [hentries]
    exact h.increasing
  · rw [hentries]
    exact h.numbered
  · rw [hentries, hdisposals]
    exact h.ledger

/-- A handle that holds nothing comes to hold a resource with a new name. -/
theorem hold (h : Balanced n s) (hnull : s.handle.resource = none) (r : α) :
    Balanced (n + 1) ⟨.of ⟨n, r⟩, s.log ++ [.entered ⟨n, r⟩]⟩ := by
  have hentries : entries (s.log ++ [.entered ⟨n, r⟩]) = entries s.log ++ [n] :=
    entries_append _ _
  have hdisposals : disposals (s.log ++ [.entered ⟨n, r⟩]) = disposals s.log := by
    rw [disposals_append]
    exact List.append_nil _
  refine ⟨?_, ?_, ?_, h.inTurn_snoc fun _ => hnull⟩
  · rw [hentries, List.pairwise_append]
    refine ⟨h.increasing, List.pairwise_singleton _ _, fun name hname new hnew => ?_⟩
    rw [List.mem_singleton.1 hnew]
    exact h.numbered name hname
  · intro name hname
    rw [hentries, List.mem_append] at hname
    rcases hname with hname | hname
    · exact Nat.lt_succ_of_lt (h.numbered name hname)
    · rw [List.mem_singleton.1 hname]
      exact Nat.lt_succ_self n
  · show entries (s.log ++ [.entered ⟨n, r⟩]) = disposals (s.log ++ [.entered ⟨n, r⟩]) ++ [n]
    rw [hentries, hdisposals, h.of_null hnull]

/-- A change in place leaves the books alone. -/
theorem modify (h : Balanced n s) {f : Named α → Named α} (hf : ∀ r, (f r).name = r.name) :
    Balanced n { s with handle := s.handle.modify f } where
  increasing := h.increasing
  numbered := h.numbered
  ledger := by
    have hname : (s.handle.resource.map f).toList.map Named.name =
        s.handle.resource.toList.map Named.name := by
      cases s.handle.resource with
      | none => rfl
      | some r => exact congrArg (fun name => [name]) (hf r)
    show entries s.log = disposals s.log ++ (s.handle.resource.map f).toList.map Named.name
    rw [hname]
    exact h.ledger
  inTurn := h.inTurn

end Balanced

/-! ## §3. A step, and a run. -/

/-- A resource is replaced in two moves. -/
theorem step_replace (s : HandleHistory α) (r : α) :
    s.step (.replace r) = ⟨.of r, s.close.log ++ [.entered r]⟩ := by
  show (⟨.of r, s.log ++ (s.handle.dispose.2 ++ [.entered r])⟩ : HandleHistory α) = _
  rw [← List.append_assoc]
  rfl

theorem step_getOrInsert_of_some {s : HandleHistory α} {held : α}
    (hheld : s.handle.resource = some held) (r : α) : s.step (.getOrInsert r) = s := by
  obtain ⟨⟨resource⟩, log⟩ := s
  cases hheld
  simp [step, note, Handle.getOrInsert]

theorem step_getOrInsert_of_none {s : HandleHistory α} (hnull : s.handle.resource = none) (r : α) :
    s.step (.getOrInsert r) = ⟨.of r, s.log ++ [.created r] ++ [.entered r]⟩ := by
  simp [step, note, Handle.getOrInsert, hnull]

/-- Every operation keeps the books balanced. -/
theorem balanced_step {n : Nat} {s : HandleHistory (Named α)} (h : Balanced n s)
    (t : HandleStep α) : Balanced (n + 1) (s.step (t.named n)) := by
  cases t with
  | replace r =>
    show Balanced (n + 1) (s.step (.replace ⟨n, r⟩))
    rw [step_replace]
    exact h.close.hold rfl r
  | getOrInsert r =>
    show Balanced (n + 1) (s.step (.getOrInsert ⟨n, r⟩))
    cases hheld : s.handle.resource with
    | some held =>
      rw [step_getOrInsert_of_some hheld]
      exact h.mono (Nat.le_succ n)
    | none =>
      rw [step_getOrInsert_of_none hheld]
      exact (h.create hheld ⟨n, r⟩).hold hheld r
  | modify f =>
    refine Balanced.mono (Balanced.modify h ?_) (Nat.le_succ n)
    intro r
    rfl
  | dispose => exact h.close.mono (Nat.le_succ n)
  | renew => exact h.close.mono (Nat.le_succ n)

theorem balanced_foldl (steps : List (HandleStep α)) :
    ∀ {n : Nat} {s : HandleHistory (Named α)}, Balanced n s →
      Balanced (n + steps.length) ((HandleStep.numbered n steps).foldl step s) := by
  induction steps with
  | nil =>
    intro n s h
    exact h
  | cons t rest ih =>
    intro n s h
    have hrest := ih (balanced_step h t)
    rw [Nat.add_right_comm] at hrest
    exact hrest

/-- The books are balanced after any operations. -/
theorem balanced_run (steps : List (HandleStep α)) :
    Balanced steps.length (run (HandleStep.numbered 0 steps)) := by
  have hrun := balanced_foldl steps (balanced_start (α := α))
  rw [Nat.zero_add] at hrun
  exact hrun

/-! ## §4. What the log tells. -/

/-- A step brings in what it replaces the held resource with, or what it makes
because nothing is held; and it makes nothing else. -/
theorem brought_in (s : HandleHistory α) (t : HandleStep α) :
    (s.step t).entered = s.entered ++ (t.brings? s.handle.isNull).toList ∧
      (s.step t).created = s.created ++ (t.creates? s.handle.isNull).toList := by
  obtain ⟨⟨resource⟩, log⟩ := s
  cases t <;> cases resource <;>
    simp [HandleStep.brings?, HandleStep.creates?, step, close, note, entered, created,
      Handle.replace, Handle.getOrInsert, Handle.modify, Handle.dispose, Handle.isNull,
      HandleEvent.entered?, HandleEvent.created?, List.filterMap_cons]

/-- What steps did to resources, told with names: each resource that entered was
disposed once or is still held, and was gone before the next one came. -/
structure DisposedInTurn (steps : List (HandleStep α)) (s : HandleHistory (Named α)) : Prop where
  /-- Without the names this is what happened. -/
  forgotten : s.map Named.value = run steps ∧ s.close.map Named.value = (run steps).close
  /-- Every further step brings in what it should, and makes a resource only if
  nothing is held. -/
  brought : ∀ t, (run (steps ++ [t])).entered =
      (run steps).entered ++ (t.brings? (run steps).handle.isNull).toList ∧
    (run (steps ++ [t])).created =
      (run steps).created ++ (t.creates? (run steps).handle.isNull).toList
  /-- No two resources have one name. -/
  increasing : (entries s.log).Pairwise (· < ·)
  /-- Those that entered are those that were disposed, and then the one held. -/
  ledger : entries s.log = disposals s.log ++ s.handle.resource.toList.map Named.name
  /-- When one is made or comes to be held, all before it have been disposed. -/
  inTurn : ∀ before e, before ++ [e] <+: s.log → e.arrives = true →
    entries before = disposals before
  /-- With the handle gone, all of them have been disposed, and no others came. -/
  ended : entries s.close.log = entries s.log ∧ disposals s.close.log = entries s.log
  /-- None of them has been disposed twice. -/
  once : (disposals s.close.log).Nodup

/-- After any operations, and after the end of the handle, every resource that
entered was disposed in its turn, once. -/
theorem disposed_once (steps : List (HandleStep α)) :
    DisposedInTurn steps (run (HandleStep.numbered 0 steps)) := by
  have hbalanced := balanced_run steps
  have hended : disposals (run (HandleStep.numbered 0 steps)).close.log =
      entries (run (HandleStep.numbered 0 steps)).log := by
    rw [disposals_close]
    exact hbalanced.ledger.symm
  refine
    { forgotten := ⟨map_value_run steps, ?forgotten⟩
      brought := fun t => ?brought
      increasing := hbalanced.increasing
      ledger := hbalanced.ledger
      inTurn := hbalanced.inTurn
      ended := ⟨entries_close _, hended⟩
      once := ?once }
  case forgotten =>
    rw [← map_value_run steps]
    -- the end of a handle is what `renew` does
    exact map_value_step _ 0 .renew
  case brought =>
    have hrun : run (steps ++ [t]) = (run steps).step t := List.foldl_append
    rw [hrun]
    exact brought_in (run steps) t
  case once =>
    rw [hended]
    exact hbalanced.increasing.imp Nat.ne_of_lt

/-- Two equal resources, the second changed in place and then disposed by the end
of the handle. -/
example :
    (run [.replace 7, .replace 7, .getOrInsert 1, .modify (· + 1)]).close.log =
      [.entered 7, .disposed 7, .entered 7, .disposed 8] := by decide

end HandleHistory

end ParseCache
