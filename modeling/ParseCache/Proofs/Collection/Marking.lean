/-
  ParseCache.Proofs.Collection.Marking — what a round of dirty marks does.

  `Workspace.markDirtyAll` is the loop behind every trigger of the collection:
  changed files, changed buffers and changed project parts all end in it.  The
  relation `Marks` says once what such a loop can do to a workspace, and the
  rest of the theory uses nothing else about it.

  Main results:
    * `marks_markDirtyAll` — the loop changes the clock and the documents it
      returns, and of those only the dirty flag and the dirty point, which
      becomes later than anything issued before;
    * `mem_markDirtyAll` — where the test does not look at dirty marks, the
      loop returns exactly the documents that passed it at the start.
-/
import ParseCache.Collection.Basic

namespace ParseCache

/-! ## §1. Points of time. -/

namespace TimePoint

theorem le_refl (a : TimePoint) : a ≤ a := Nat.le_refl _

theorem le_trans {a b c : TimePoint} (h : a ≤ b) (h' : b ≤ c) : a ≤ c := Nat.le_trans h h'

theorem lt_of_le_of_lt {a b c : TimePoint} (h : a ≤ b) (h' : b < c) : a < c :=
  Nat.lt_of_le_of_lt h h'

theorem lt_of_lt_of_le {a b c : TimePoint} (h : a < b) (h' : b ≤ c) : a < c :=
  Nat.lt_of_lt_of_le h h'

theorem le_of_lt {a b : TimePoint} (h : a < b) : a ≤ b := Nat.le_of_lt h

theorem ne_of_lt {a b : TimePoint} (h : a < b) : a ≠ b := by
  rintro rfl
  exact Nat.lt_irrefl _ h

end TimePoint

namespace Workspace

variable {ι υ σ : Type}

/-! ## §2. One document. -/

/-- Reading the clock changes nothing but the clock. -/
@[simp] theorem now_snd (w : Workspace ι υ σ) :
    w.now.2 = { w with clock := w.clock.now.2 } := rfl

/-- A document that is changed is found changed under its number. -/
theorem getElem?_modify_self {w : Workspace ι υ σ} {n : Nat} {d : Document ι υ}
    (h : w.documents[n]? = some d) (f : Document ι υ → Document ι υ) :
    (w.modify n f).documents[n]? = some (f d) := by
  rw [modify, List.getElem?_modify_eq, h]
  rfl

/-- The other documents are found as they were. -/
theorem getElem?_modify_of_ne (w : Workspace ι υ σ) {n m : Nat} (h : n ≠ m)
    (f : Document ι υ → Document ι υ) :
    (w.modify n f).documents[m]? = w.documents[m]? := by
  show (w.documents.modify n f)[m]? = _
  rw [List.getElem?_modify_ne f _ h]

/-- Whatever document is found after a change was there before. -/
theorem exists_of_modify {w : Workspace ι υ σ} {n m : Nat} {f : Document ι υ → Document ι υ}
    {d' : Document ι υ} (h : (w.modify n f).documents[m]? = some d') :
    ∃ d, w.documents[m]? = some d ∧ (n = m ∧ d' = f d ∨ d' = d) := by
  by_cases hm : n = m
  · subst hm
    cases hd : w.documents[n]? with
    | none =>
      rw [modify, List.getElem?_modify_eq, hd] at h
      cases h
    | some d =>
      rw [getElem?_modify_self hd f] at h
      exact ⟨d, rfl, Or.inl ⟨rfl, (Option.some.inj h).symm⟩⟩
  · rw [getElem?_modify_of_ne w hm] at h
    exact ⟨d', h, Or.inr rfl⟩

/-! ## §3. Marks. -/

/-- From `w` to `w'` the documents `marked` were marked dirty, by events of
their own, and nothing else happened but that time went on. -/
structure Marks (marked : List Nat) (w w' : Workspace ι υ σ) : Prop where
  rest : w' = { w with clock := w'.clock, documents := w'.documents }
  clock : w.clock.last ≤ w'.clock.last
  length : w'.documents.length = w.documents.length
  unmarked : ∀ n, n ∉ marked → w'.documents[n]? = w.documents[n]?
  marked : ∀ n d, n ∈ marked → w.documents[n]? = some d →
    ∃ time, w.clock.last < time ∧ time ≤ w'.clock.last ∧
      w'.documents[n]? = some (d.markDirty time)

namespace Marks

variable {w w' w'' : Workspace ι υ σ} {ns ms : List Nat}

theorem refl (w : Workspace ι υ σ) : Marks [] w w where
  rest := rfl
  clock := TimePoint.le_refl _
  length := rfl
  unmarked _ _ := rfl
  marked _ _ h := absurd h List.not_mem_nil

theorem disk (h : Marks ns w w') : w'.disk = w.disk := by rw [h.rest]

theorem buffers (h : Marks ns w w') : w'.buffers = w.buffers := by rw [h.rest]

theorem parts (h : Marks ns w w') : w'.parts = w.parts := by rw [h.rest]

/-- Marks leave the list of held documents alone, as they do the disk, the
buffers, the parts and the context. -/
theorem held (h : Marks ns w w') : w'.held = w.held := by rw [h.rest]

theorem context (h : Marks ns w w') : w'.context = w.context := by rw [h.rest]

/-- Two rounds of marks are one: a second mark of a document replaces its
first. -/
theorem trans (h : Marks ns w w') (h' : Marks ms w' w'') : Marks (ns ++ ms) w w'' where
  rest := by rw [h'.rest, h.rest]
  clock := TimePoint.le_trans h.clock h'.clock
  length := h'.length.trans h.length
  unmarked n hn := by
    rw [List.mem_append, not_or] at hn
    rw [h'.unmarked n hn.2, h.unmarked n hn.1]
  marked n d hn hd := by
    by_cases hms : n ∈ ms
    · -- the latest mark counts
      by_cases hns : n ∈ ns
      · obtain ⟨time, -, -, hmarked⟩ := h.marked n d hns hd
        obtain ⟨time', hlt, hle, hmarked'⟩ := h'.marked n _ hms hmarked
        exact ⟨time', TimePoint.lt_of_le_of_lt h.clock hlt, hle, hmarked'⟩
      · rw [← h.unmarked n hns] at hd
        obtain ⟨time, hlt, hle, hmarked⟩ := h'.marked n d hms hd
        exact ⟨time, TimePoint.lt_of_le_of_lt h.clock hlt, hle, hmarked⟩
    · have hns : n ∈ ns := (List.mem_append.1 hn).resolve_right hms
      obtain ⟨time, hlt, hle, hmarked⟩ := h.marked n d hns hd
      refine ⟨time, hlt, TimePoint.le_trans hle h'.clock, ?_⟩
      rw [h'.unmarked n hms]
      exact hmarked

/-- A document before the marks and the document it has become. -/
theorem document (h : Marks ns w w') {n : Nat} {d : Document ι υ}
    (hd : w.documents[n]? = some d) :
    ∃ d', w'.documents[n]? = some d' ∧
      (d' = d ∨ ∃ time, w.clock.last < time ∧ time ≤ w'.clock.last ∧ d' = d.markDirty time) := by
  by_cases hn : n ∈ ns
  · obtain ⟨time, hlt, hle, hmarked⟩ := h.marked n d hn hd
    exact ⟨_, hmarked, Or.inr ⟨time, hlt, hle, rfl⟩⟩
  · exact ⟨d, (h.unmarked n hn).trans hd, Or.inl rfl⟩

/-- Every document was there before the marks. -/
theorem before (h : Marks ns w w') {n : Nat} {d' : Document ι υ}
    (hd' : w'.documents[n]? = some d') :
    ∃ d, w.documents[n]? = some d ∧
      (d' = d ∨ ∃ time, w.clock.last < time ∧ time ≤ w'.clock.last ∧ d' = d.markDirty time) := by
  have hlt : n < w.documents.length := by
    rw [← h.length]
    exact (List.getElem?_eq_some_iff.1 hd').1
  refine ⟨_, List.getElem?_eq_getElem hlt, ?_⟩
  obtain ⟨d'', hd'', hmarked⟩ := h.document (List.getElem?_eq_getElem hlt)
  rw [hd'] at hd''
  cases hd''
  exact hmarked

end Marks

/-- A dirty event on a document is a round of one mark, at the time it is
handled. -/
theorem marks_markDirty (w : Workspace ι υ σ) (n : Nat) : Marks [n] w (w.markDirty n) where
  rest := rfl
  clock := TimePoint.le_of_lt w.clock.last_lt_now
  length := by rw [markDirty]; simp [modify]
  unmarked m hm := by
    have hne : n ≠ m := fun h => hm (by rw [h]; exact List.mem_singleton_self m)
    exact getElem?_modify_of_ne _ hne _
  marked m d hm hd := by
    rw [List.mem_singleton.1 hm] at hd ⊢
    exact ⟨w.clock.now.1, w.clock.last_lt_now, TimePoint.le_refl _,
      getElem?_modify_self (w := w.now.2) hd _⟩

/-- One step of the loop: a mark where the test holds. -/
theorem marks_markDirtyIf (w : Workspace ι υ σ) (p : Document ι υ → Bool) (n : Nat) :
    Marks (if (w.markDirtyIf p n).1 then [n] else []) w (w.markDirtyIf p n).2 := by
  unfold markDirtyIf
  split
  · exact marks_markDirty w n
  · exact Marks.refl w

/-- The loop counts a document as marked if the test held of it. -/
theorem markDirtyIf_fst (w : Workspace ι υ σ) (p : Document ι υ → Bool) (n : Nat) :
    (w.markDirtyIf p n).1 = w.documents[n]?.any p := by
  unfold markDirtyIf
  split
  · rename_i h
    exact h.symm
  · rename_i h
    exact (Bool.eq_false_iff.2 h).symm

/-- The whole loop. -/
theorem marks_markDirtyAll (p : Workspace ι υ σ → Document ι υ → Bool) (ns : List Nat) :
    ∀ w : Workspace ι υ σ, Marks (markDirtyAll p ns w).1 w (markDirtyAll p ns w).2 := by
  induction ns with
  | nil => exact Marks.refl
  | cons n rest ih =>
    intro w
    have hone := marks_markDirtyIf w (p w) n
    have hall := hone.trans (ih (w.markDirtyIf (p w) n).2)
    unfold markDirtyAll
    cases hmarked : (w.markDirtyIf (p w) n).1 with
    | true =>
      rw [hmarked] at hall
      simpa [hmarked] using hall
    | false =>
      rw [hmarked] at hall
      simpa [hmarked] using hall

/-! ## §4. Which documents are marked. -/

/-- A test that looks at nothing that a dirty mark changes. -/
structure Unmarking (p : Workspace ι υ σ → Document ι υ → Bool) : Prop where
  surroundings : ∀ {w w' : Workspace ι υ σ}, w'.disk = w.disk → p w' = p w
  document : ∀ (w : Workspace ι υ σ) (d : Document ι υ) (time : TimePoint),
    p w (d.markDirty time) = p w d

/-- What such a test says of a document is the same after a round of marks,
whether the document was marked or not. -/
theorem Unmarking.any_eq {p : Workspace ι υ σ → Document ι υ → Bool} (hp : Unmarking p)
    {ns : List Nat} {w w' : Workspace ι υ σ} (h : Marks ns w w') (n : Nat) :
    w'.documents[n]?.any (p w') = w.documents[n]?.any (p w) := by
  rw [hp.surroundings h.disk]
  cases hd : w.documents[n]? with
  | none =>
    have hlen : w.documents.length ≤ n := List.getElem?_eq_none_iff.1 hd
    rw [List.getElem?_eq_none (by rw [h.length]; exact hlen)]
  | some d =>
    obtain ⟨d', hd', rfl | ⟨time, -, -, rfl⟩⟩ := h.document hd
    · rw [hd']
    · rw [hd']
      exact hp.document w d time

/-- The loop returns what passed the test before it began. -/
theorem mem_markDirtyAll {p : Workspace ι υ σ → Document ι υ → Bool} (hp : Unmarking p)
    (n : Nat) (ns : List Nat) :
    ∀ w : Workspace ι υ σ,
      n ∈ (markDirtyAll p ns w).1 ↔ n ∈ ns ∧ w.documents[n]?.any (p w) = true := by
  induction ns with
  | nil =>
    intro w
    simp [markDirtyAll]
  | cons m rest ih =>
    intro w
    have hone := marks_markDirtyIf w (p w) m
    have hrest := ih (w.markDirtyIf (p w) m).2
    -- the mark of the first document does not change what the test says of `n`
    rw [hp.any_eq hone n] at hrest
    have hmarked := markDirtyIf_fst w (p w) m
    unfold markDirtyAll
    by_cases hm : (w.markDirtyIf (p w) m).1 = true
    · simp only [hm, if_true, List.mem_cons, hrest]
      rw [hm] at hmarked
      constructor
      · rintro (rfl | ⟨hn, hany⟩)
        · exact ⟨Or.inl rfl, hmarked.symm⟩
        · exact ⟨Or.inr hn, hany⟩
      · rintro ⟨rfl | hn, hany⟩
        · exact Or.inl rfl
        · exact Or.inr ⟨hn, hany⟩
    · simp only [hm, if_false, List.mem_cons, hrest, Bool.false_eq_true]
      rw [Bool.not_eq_true] at hm
      rw [hm] at hmarked
      constructor
      · rintro ⟨hn, hany⟩
        exact ⟨Or.inr hn, hany⟩
      · rintro ⟨rfl | hn, hany⟩
        · rw [hany] at hmarked
          cases hmarked
        · exact ⟨hn, hany⟩

/-- Whether a file affects a document is read off its key, its dependencies and
the disk. No mark changes these. -/
theorem unmarking_isAffectedBy (path : Path) :
    Unmarking fun (w : Workspace ι υ σ) d => d.isAffectedBy w.disk path where
  surroundings h := by simp only [h]
  document _ _ _ := rfl

/-- Whether a document is outdated is read off its part and its baseline. -/
theorem unmarking_isOutdated : Unmarking fun (_ : Workspace ι υ σ) d => d.isOutdated where
  surroundings _ := rfl
  document _ _ _ := rfl

/-- A file that changed leaves a round of marks. -/
theorem marks_touch (w : Workspace ι υ σ) (path : Path) :
    Marks (w.touch path).1 w (w.touch path).2 :=
  marks_markDirtyAll _ _ w

/-- A changed file reaches the held documents it affects. -/
theorem mem_touch (w : Workspace ι υ σ) (path : Path) (n : Nat) :
    n ∈ (w.touch path).1 ↔ n ∈ w.held ∧
      w.documents[n]?.any (·.isAffectedBy w.disk path.normalize) = true :=
  mem_markDirtyAll (unmarking_isAffectedBy path.normalize) n w.held w

/-- So does the check for outdated documents after parts have changed. -/
theorem marks_markOutdated (w : Workspace ι υ σ) :
    Marks w.markOutdated.1 w w.markOutdated.2 :=
  marks_markDirtyAll _ _ w

/-- Changed parts reach the held documents that are outdated. -/
theorem mem_markOutdated (w : Workspace ι υ σ) (n : Nat) :
    n ∈ w.markOutdated.1 ↔ n ∈ w.held ∧ w.documents[n]?.any (·.isOutdated) = true :=
  mem_markDirtyAll unmarking_isOutdated n w.held w

end Workspace

end ParseCache
