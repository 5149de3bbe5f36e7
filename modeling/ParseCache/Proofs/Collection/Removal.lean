/-
  ParseCache.Proofs.Collection.Removal — a request to remove documents.

  The collection goes through the entries one by one.  The document of an entry
  goes first, then its watches, then the buffer of its file, and if there was
  one, everybody who depends on the file is told.  Those who are told may be due
  to go themselves, and the buffer may have belonged to a file that has other
  documents; the second entry for a file finds no buffer any more.  What the
  loop comes to can be said without it, because buffers only go for files that
  are listed, and whoever remains was there all the time.

  Main results:
    * `Removed` — what a list of entries comes to;
    * `Removed.trans` — one list after another is the two in a row;
    * `removed_step`, `removed_removeAll` — one entry, and the whole loop;
    * `removed_removeDocuments` — a request is refused and changes nothing, or
      does exactly this, in every state.
-/
import ParseCache.Proofs.Collection.Edits

namespace ParseCache

variable {ι υ σ : Type}

/-! ## §1. What entries name. -/

/-- An entry is for the document with the key. -/
def namesDocument (entries : List FileEntry) (key : DocumentKey) : Bool :=
  entries.any fun e => key.same (Workspace.keyOf e)

/-- An entry is for the file. -/
def namesFile (entries : List FileEntry) (path : Path) : Bool :=
  entries.any fun e => path.same e.path

theorem namesDocument_append (before after : List FileEntry) (key : DocumentKey) :
    namesDocument (before ++ after) key = (namesDocument before key || namesDocument after key) :=
  List.any_append

theorem namesFile_append (before after : List FileEntry) (path : Path) :
    namesFile (before ++ after) path = (namesFile before path || namesFile after path) :=
  List.any_append

namespace Buffers

/-- The entries for files that have a buffer. -/
def unsaved (b : Buffers) (entries : List FileEntry) : List FileEntry :=
  entries.filter fun e => (b.file? e.path).isSome

end Buffers

/-- Whether a document is concerned with the buffers that go can be asked list by
list.  What goes first is not there for the second list, but then the document
was concerned already. -/
theorem Document.concerned_unsaved_append {b b' : Buffers} {before : List FileEntry}
    (hgone : ∀ path, b'.file? path = if namesFile before path then none else b.file? path)
    (d : Document ι υ) (disk : Disk) (after : List FileEntry) :
    d.Concerned disk (b.unsaved (before ++ after)) ↔
      d.Concerned disk (b.unsaved before) ∨ d.Concerned disk (b'.unsaved after) := by
  constructor
  · rintro ⟨e, he, hdepends, hown⟩
    obtain ⟨hmem, hbuffer⟩ := List.mem_filter.1 he
    rcases List.mem_append.1 hmem with hbefore | hafter
    · exact Or.inl ⟨e, List.mem_filter.2 ⟨hbefore, hbuffer⟩, hdepends, hown⟩
    · by_cases hnamed : namesFile before e.path = true
      · -- another spelling of the file came before, and took the buffer
        obtain ⟨e', he', hsame⟩ := List.any_eq_true.1 hnamed
        refine Or.inl ⟨e', List.mem_filter.2 ⟨he', ?_⟩, ?_, fun hown' => ?_⟩
        · rw [Buffers.file?, ← b.files.get?_congr hsame]
          exact hbuffer
        · rw [← PathSet.contains_congr _ hsame]
          exact hdepends
        · exact hown (Path.same_trans hsame hown')
      · have hkept := hgone e.path
        rw [if_neg hnamed] at hkept
        refine Or.inr ⟨e, List.mem_filter.2 ⟨hafter, ?_⟩, hdepends, hown⟩
        rw [hkept]
        exact hbuffer
  · rintro (⟨e, he, hconcerned⟩ | ⟨e, he, hconcerned⟩)
    · obtain ⟨hmem, hbuffer⟩ := List.mem_filter.1 he
      exact ⟨e, List.mem_filter.2 ⟨List.mem_append_left after hmem, hbuffer⟩, hconcerned⟩
    · obtain ⟨hmem, hbuffer⟩ := List.mem_filter.1 he
      have hbuffer : (b'.file? e.path).isSome = true := hbuffer
      refine ⟨e, List.mem_filter.2 ⟨List.mem_append_right before hmem, ?_⟩, hconcerned⟩
      rw [hgone] at hbuffer
      split at hbuffer
      · cases hbuffer
      · exact hbuffer

/-- What a removal makes of the document `d`, which is `held` before it and may
`remain`: if it is concerned with a buffer that goes, it is dirty by an event of
its own, unless it goes itself.  Nothing else of it changes. -/
structure LeftDocument (held remain concerned : Prop) (d d' : Document ι υ) : Prop where
  rest : d' = { d with dirty := d'.dirty, dirtyPoint := d'.dirtyPoint }
  dirtyPoint_le : d.dirtyPoint ≤ d'.dirtyPoint
  marked : remain → concerned → d'.dirty = true ∧ d.dirtyPoint < d'.dirtyPoint
  unmarked : ¬ (held ∧ concerned) → d' = d

namespace LeftDocument

variable {held remain remain' concerned concerned' : Prop} {d d' d'' : Document ι υ}

/-- Who remains after both steps is marked by either of them; who goes in the
first is not reached by the second. -/
theorem trans (h : LeftDocument held remain concerned d d')
    (h' : LeftDocument remain remain' concerned' d' d'') (hheld : remain → held)
    (hremain : remain' → remain) :
    LeftDocument held remain' (concerned ∨ concerned') d d'' where
  rest := by rw [h'.rest, h.rest]
  dirtyPoint_le := TimePoint.le_trans h.dirtyPoint_le h'.dirtyPoint_le
  marked hlast hconcerned := by
    by_cases hlater : concerned'
    · have hmarked := h'.marked hlast hlater
      exact ⟨hmarked.1, TimePoint.lt_of_le_of_lt h.dirtyPoint_le hmarked.2⟩
    · rw [h'.unmarked fun hboth => hlater hboth.2]
      exact h.marked (hremain hlast) (hconcerned.resolve_right hlater)
  unmarked hnot := by
    have hbefore : d' = d := h.unmarked fun hboth => hnot ⟨hboth.1, Or.inl hboth.2⟩
    have hafter : d'' = d' := h'.unmarked fun hboth => hnot ⟨hheld hboth.1, Or.inr hboth.2⟩
    exact hafter.trans hbefore

/-- One entry marks those who remain and are concerned, and leaves the others. -/
theorem single (hheld : remain → held)
    (hmarked : ((remain ∧ concerned) ∧ ∃ time, d.dirtyPoint < time ∧ d' = d.markDirty time) ∨
      ¬ (remain ∧ concerned) ∧ d' = d) : LeftDocument held remain concerned d d' := by
  rcases hmarked with ⟨hreached, time, hlt, rfl⟩ | ⟨hleft, rfl⟩
  · exact ⟨rfl, TimePoint.le_of_lt hlt, fun _ _ => ⟨rfl, hlt⟩,
      fun hnot => absurd ⟨hheld hreached.1, hreached.2⟩ hnot⟩
  · exact ⟨rfl, TimePoint.le_refl _, fun h h' => absurd ⟨h, h'⟩ hleft, fun _ => rfl⟩

end LeftDocument

/-- Where watches only go, the calls of two steps are those from the first state
to the last. -/
theorem WatchEvent.callsBetween_append : ∀ {a b c : Bool}, (b = true → a = true) →
    (c = true → b = true) → callsBetween a b ++ callsBetween b c = callsBetween a c := by
  decide

/-- Where watches only go, no path is reported twice. -/
theorem WatchRegistry.Reported.trans_of_fewer {r r' r'' : WatchRegistry} (h : Reported r r')
    (h' : Reported r' r'') (hfewer : ∀ q, r'.isWatched q = true → r.isWatched q = true)
    (hfewer' : ∀ q, r''.isWatched q = true → r'.isWatched q = true) : Reported r r'' := by
  obtain ⟨later, hevents, hcalls⟩ := h
  obtain ⟨later', hevents', hcalls'⟩ := h'
  refine ⟨later ++ later', by rw [hevents', hevents, List.append_assoc], fun q => ?_⟩
  rw [WatchEvent.callsAbout_append, hcalls, hcalls']
  exact WatchEvent.callsBetween_append (hfewer q) (hfewer' q)

namespace Workspace

/-! ## §2. What a removal comes to. -/

/-- What a list of entries comes to: exactly their documents go, with their
watches and with the buffers of their files.  A path is watched as long as it is
in the set of a document that remains, and the watcher is told of the others.
Who remains is marked if concerned with a buffer that was there. -/
structure Removed (entries : List FileEntry) (w w' : Workspace ι υ σ) : Prop where
  rest : w' = { w with
    clock := w'.clock, buffers := w'.buffers, watches := w'.watches
    documents := w'.documents, held := w'.held }
  held : w'.held =
    w.held.filter fun n => !w.documents[n]?.any fun d => namesDocument entries d.key
  buffers : ∀ path, w'.buffers.file? path =
    if namesFile entries path then none else w.buffers.file? path
  registered : ∀ key, w'.watches.registered.has key =
    (!namesDocument entries key && w.watches.registered.has key)
  sets : ∀ key, w'.watches.sets.get? key =
    if namesDocument entries key then none else w.watches.sets.get? key
  watched : ∀ q, w'.watches.isWatched q = true ↔ ∃ key s, namesDocument entries key = false ∧
    w.watches.sets.get? key = some s ∧ s.contains q = true
  reported : WatchRegistry.Reported w.watches w'.watches
  length : w'.documents.length = w.documents.length
  documents : ∀ (n : Nat) (d : Document ι υ), w.documents[n]? = some d →
    ∃ d', w'.documents[n]? = some d' ∧
      LeftDocument (n ∈ w.held) (n ∈ w'.held) (d.Concerned w.disk (w.buffers.unsaved entries)) d d'

namespace Removed

variable {before after entries : List FileEntry} {w w' w'' : Workspace ι υ σ}

/-- Documents keep their keys. -/
theorem any_key (h : Removed entries w w') (f : DocumentKey → Bool) (n : Nat) :
    (w'.documents[n]?.any fun d => f d.key) = w.documents[n]?.any fun d => f d.key := by
  cases hd : w.documents[n]? with
  | none =>
    have hlen : w.documents.length ≤ n := List.getElem?_eq_none_iff.1 hd
    rw [List.getElem?_eq_none (by rw [h.length]; exact hlen)]
  | some d =>
    obtain ⟨d', hd', hleft⟩ := h.documents n d hd
    rw [hd', Option.any_some, Option.any_some, hleft.rest]

theorem held_of_held (h : Removed entries w w') {n : Nat} (hn : n ∈ w'.held) : n ∈ w.held := by
  rw [h.held] at hn
  exact (List.mem_filter.1 hn).1

/-- A set that is left was there before. -/
theorem fewer (h : Removed entries w w') (hbalanced : w.watches.Balanced) (q : Path)
    (hq : w'.watches.isWatched q = true) : w.watches.isWatched q = true := by
  obtain ⟨key, s, -, hs, hcontains⟩ := (h.watched q).1 hq
  exact (WatchRegistry.isWatched_iff hbalanced q).2 ⟨key, s, hs, hcontains⟩

/-- Two lists, one after the other, come to the list of both. -/
theorem trans (h : Removed before w w') (h' : Removed after w' w'')
    (hbalanced : w.watches.Balanced) (hbalanced' : w'.watches.Balanced) :
    Removed (before ++ after) w w'' where
  rest := by rw [h'.rest, h.rest]
  held := by
    rw [h'.held, h.held, List.filter_filter]
    apply List.filter_congr
    intro n _
    rw [h.any_key (namesDocument after) n, Bool.and_comm]
    cases w.documents[n]? with
    | none => rfl
    | some d => simp [namesDocument_append]
  buffers path := by
    rw [h'.buffers, h.buffers, namesFile_append]
    cases namesFile before path <;> cases namesFile after path <;> rfl
  registered key := by
    rw [h'.registered, h.registered, namesDocument_append]
    cases namesDocument before key <;> cases namesDocument after key <;> rfl
  sets key := by
    rw [h'.sets, h.sets, namesDocument_append]
    cases namesDocument before key <;> cases namesDocument after key <;> rfl
  watched q := by
    rw [h'.watched]
    constructor
    · rintro ⟨key, s, hafter, hs, hq⟩
      rw [h.sets] at hs
      split at hs
      · cases hs
      · rename_i hbefore
        refine ⟨key, s, ?_, hs, hq⟩
        rw [namesDocument_append, hafter, Bool.or_false]
        exact Bool.eq_false_iff.2 hbefore
    · rintro ⟨key, s, hnamed, hs, hq⟩
      rw [namesDocument_append, Bool.or_eq_false_iff] at hnamed
      refine ⟨key, s, hnamed.2, ?_, hq⟩
      rw [h.sets, hnamed.1]
      exact hs
  reported := h.reported.trans_of_fewer h'.reported (h.fewer hbalanced) (h'.fewer hbalanced')
  length := h'.length.trans h.length
  documents n d hd := by
    obtain ⟨d', hd', hleft⟩ := h.documents n d hd
    obtain ⟨d'', hd'', hleft'⟩ := h'.documents n d' hd'
    have hdisk : w'.disk = w.disk := by rw [h.rest]
    have hconcerned : d'.Concerned w'.disk (w'.buffers.unsaved after) ↔
        d.Concerned w.disk (w'.buffers.unsaved after) := by
      rw [hdisk, hleft.rest]
      rfl
    rw [propext hconcerned] at hleft'
    refine ⟨d'', hd'', ?_⟩
    rw [propext (Document.concerned_unsaved_append h.buffers d w.disk after)]
    exact hleft.trans hleft' h.held_of_held h'.held_of_held

end Removed

/-! ## §3. One entry. -/

theorem dropped_rest (w : Workspace ι υ σ) (e : FileEntry) :
    w.dropped e = { w.evict (keyOf e) with
      clock := (w.dropped e).clock, buffers := (w.dropped e).buffers } := by
  unfold dropped
  rcases dropBuffer_cases (w.evict (keyOf e)) e.path with ⟨-, heq⟩ | ⟨-, heq⟩
  · rw [heq]
  · rw [heq]

/-- The buffer of the file is gone, and the others are as they were. -/
theorem file?_dropped (w : Workspace ι υ σ) (e : FileEntry) (path : Path) :
    (w.dropped e).buffers.file? path =
      if path.same e.path then none else w.buffers.file? path := by
  unfold dropped
  rcases dropBuffer_cases (w.evict (keyOf e)) e.path with ⟨-, heq⟩ | ⟨hnone, heq⟩
  · rw [heq]
    exact Buffers.file?_remove _ _ _ _
  · rw [heq]
    show w.buffers.file? path = _
    split
    · rename_i hsame
      rw [Option.isSome_eq_false_iff, Option.isNone_iff_eq_none] at hnone
      exact (Table.get?_congr _ hsame).trans hnone
    · rfl

/-- Everybody who is left and affected is told, if there was a buffer. -/
theorem marks_removeOne (w : Workspace ι υ σ) (e : FileEntry) :
    ∃ ns, Marks ns (w.dropped e) (w.removeOne e) ∧
      ∀ n, n ∈ ns ↔ (w.buffers.file? e.path).isSome = true ∧ n ∈ (w.evict (keyOf e)).held ∧
        w.documents[n]?.any (·.isAffectedBy w.disk e.path.normalize) = true := by
  rcases removeOne_cases w e with ⟨hsome, heq⟩ | ⟨hnone, heq⟩
  · refine ⟨((w.dropped e).touch e.path).1, ?_, fun n => ?_⟩
    · rw [heq]
      exact marks_touch _ e.path
    · rw [mem_touch, dropped_rest]
      exact (and_iff_right hsome).symm
  · refine ⟨[], ?_, fun n => ?_⟩
    · rw [heq]
      exact .refl _
    · refine iff_of_false List.not_mem_nil fun hn => ?_
      exact Bool.false_ne_true (hnone.symm.trans hn.1)

/-- Only the file of the entry counts, and only if it has a buffer. -/
theorem concerned_unsaved_singleton (d : Document ι υ) (disk : Disk) (b : Buffers)
    (e : FileEntry) :
    d.Concerned disk (b.unsaved [e]) ↔
      (b.file? e.path).isSome = true ∧ d.isAffectedBy disk e.path = true := by
  rw [← concerned_singleton]
  cases hbuffer : (b.file? e.path).isSome with
  | true =>
    have hself : b.unsaved [e] = [e] := by simp [Buffers.unsaved, hbuffer]
    rw [hself]
    exact (and_iff_right rfl).symm
  | false =>
    have hnone : b.unsaved [e] = [] := by simp [Buffers.unsaved, hbuffer]
    rw [hnone]
    refine iff_of_false ?_ fun h => Bool.false_ne_true h.1
    rintro ⟨e', he', -⟩
    cases he'

theorem namesDocument_singleton (e : FileEntry) (key : DocumentKey) :
    namesDocument [e] key = key.same (keyOf e) :=
  Bool.or_false _

theorem namesFile_singleton (e : FileEntry) (path : Path) :
    namesFile [e] path = path.same e.path :=
  Bool.or_false _

/-- Telling others leaves the registry alone, so only the watches of the document
go. -/
theorem watches_removeOne (w : Workspace ι υ σ) (e : FileEntry) :
    (w.removeOne e).watches = w.watches.remove (keyOf e) := by
  obtain ⟨ns, hmarks, -⟩ := marks_removeOne w e
  rw [hmarks.rest, dropped_rest]
  rfl

/-- It also leaves alone who is held. -/
theorem held_removeOne (w : Workspace ι υ σ) (e : FileEntry) :
    (w.removeOne e).held = (w.evict (keyOf e)).held := by
  obtain ⟨ns, hmarks, -⟩ := marks_removeOne w e
  rw [hmarks.held, dropped_rest]

/-- The documents that remain and are concerned with the file are marked, if it
had a buffer.  The document of the entry is gone before anybody is told. -/
theorem left_removeOne {w : Workspace ι υ σ} (hdated : w.Dated) {e : FileEntry}
    (hnormal : e.path.normalize.same e.path = true) {n : Nat} {d : Document ι υ}
    (hd : w.documents[n]? = some d) :
    ∃ d', (w.removeOne e).documents[n]? = some d' ∧
      LeftDocument (n ∈ w.held) (n ∈ (w.removeOne e).held)
        (d.Concerned w.disk (w.buffers.unsaved [e])) d d' := by
  obtain ⟨ns, hmarks, hmem⟩ := marks_removeOne w e
  have hthere : (w.dropped e).documents[n]? = some d := by
    rw [dropped_rest]
    exact hd
  have hreached : n ∈ ns ↔
      n ∈ (w.removeOne e).held ∧ d.Concerned w.disk (w.buffers.unsaved [e]) := by
    rw [hmem, hd, Option.any_some, isAffectedBy_congr d w.disk hnormal, held_removeOne,
      concerned_unsaved_singleton]
    exact and_left_comm
  have hremain : n ∈ (w.removeOne e).held → n ∈ w.held := by
    rw [held_removeOne]
    exact fun hn => (mem_held_evict.1 hn).1
  have hdropped : (w.dropped e).Dated :=
    confines_dated.dropped dated_dropBuffer dated_evict w e hdated
  obtain ⟨d', hd', hmarked⟩ := hmarks.marked_or_same hdropped hthere
  rw [hreached] at hmarked
  exact ⟨d', hd', .single hremain hmarked⟩

/-- One turn of the loop does what a list of one entry comes to. -/
theorem removed_step {w : Workspace ι υ σ} (hdated : w.Dated) (hbalanced : w.watches.Balanced)
    {e : FileEntry} (hnormal : e.path.normalize.same e.path = true) :
    Removed [e] w (w.removeOne e) := by
  obtain ⟨ns, hmarks, -⟩ := marks_removeOne w e
  have hrest := dropped_rest w e
  have hwatches := watches_removeOne w e
  refine ⟨?_, ?_, fun path => ?_, fun key => ?_, fun key => ?_, fun q => ?_, ?_, ?_,
    fun n d hd => left_removeOne hdated hnormal hd⟩
  · rw [hmarks.rest, hrest]
    rfl
  · rw [held_removeOne]
    simp only [namesDocument_singleton]
    rfl
  · rw [hmarks.buffers, namesFile_singleton]
    exact file?_dropped w e path
  · rw [hwatches, namesDocument_singleton]
    exact WatchRegistry.has_remove _ _ _
  · rw [hwatches, namesDocument_singleton]
    exact WatchRegistry.get?_remove _ _ _
  · rw [hwatches]
    simp only [namesDocument_singleton]
    exact WatchRegistry.isWatched_remove hbalanced _ q
  · rw [hwatches]
    exact WatchRegistry.reported_remove hbalanced _
  · rw [hmarks.length, hrest]
    rfl

/-! ## §4. The whole request. -/

/-- No entry removes anything. -/
theorem Removed.nil {w : Workspace ι υ σ} (hbalanced : w.watches.Balanced) : Removed [] w w where
  rest := rfl
  held := by
    refine (List.filter_eq_self.2 fun n _ => ?_).symm
    cases w.documents[n]? <;> rfl
  buffers _ := rfl
  registered _ := (Bool.true_and _).symm
  sets _ := rfl
  watched q := by
    rw [WatchRegistry.isWatched_iff hbalanced]
    constructor
    · rintro ⟨key, s, hs, hq⟩
      exact ⟨key, s, rfl, hs, hq⟩
    · rintro ⟨key, s, -, hs, hq⟩
      exact ⟨key, s, hs, hq⟩
  reported := .refl _
  length := rfl
  documents n d hd := by
    refine ⟨d, hd, rfl, TimePoint.le_refl _, fun _ hconcerned => ?_, fun _ => rfl⟩
    obtain ⟨e, he, -⟩ := hconcerned
    cases he

theorem balanced_removeOne {w : Workspace ι υ σ} (h : w.watches.Balanced) (e : FileEntry) :
    (w.removeOne e).watches.Balanced := by
  rw [watches_removeOne]
  exact WatchRegistry.balanced_remove h (keyOf e)

/-- Entry by entry, the loop removes documents. -/
theorem removed_removeAll (entries : List FileEntry) :
    ∀ {w : Workspace ι υ σ}, w.Dated → w.watches.Balanced →
      (∀ e ∈ entries, e.path.normalize.same e.path = true) →
        Removed entries w (entries.foldl removeOne w) := by
  induction entries with
  | nil => exact fun _ hbalanced _ => .nil hbalanced
  | cons e rest ih =>
    intro w hdated hbalanced hnormal
    have hafter := balanced_removeOne hbalanced e
    have hstep := removed_step hdated hbalanced (hnormal e List.mem_cons_self)
    have hnext := confines_dated.removeOne dated_dropBuffer dated_evict w e hdated
    have hrest := ih hnext hafter fun e' he' =>
      hnormal e' (List.mem_cons_of_mem e he')
    exact hstep.trans hrest hbalanced hafter

/-- A request that has an entry without a document is refused for the first one,
and changes nothing.  Any other is accepted, and comes to what its entries say,
also where they repeat each other. -/
theorem removed_removeDocuments {engines : Engine ι υ σ → Prop} {direct : Bool}
    {w : Workspace ι υ σ} (h : Arises engines direct w) {entries : List FileEntry}
    (hnormal : ∀ e ∈ entries, e.path.normalize.same e.path = true) :
    (∀ before e after, entries = before ++ e :: after →
      (∀ e' ∈ before, w.hasDocument (keyOf e') = true) → w.hasDocument (keyOf e) = false →
        w.removeDocuments entries = (.error (.documentDoesNotExist e.path e.part), w)) ∧
    ((∀ e ∈ entries, w.hasDocument (keyOf e) = true) →
      (w.removeDocuments entries).1 = .ok () ∧
        Removed entries w (w.removeDocuments entries).2) := by
  constructor
  · rintro before e after rfl hbefore hnone
    have hfirst : (before ++ e :: after).find? (fun e => !w.hasDocument (keyOf e)) = some e := by
      rw [List.find?_eq_some_iff_append]
      refine ⟨by rw [hnone]; rfl, before, after, rfl, fun e' he' => ?_⟩
      rw [hbefore e' he']
      rfl
    unfold removeDocuments refuseFirst
    rw [hfirst]
  · intro hall
    have hnone : entries.find? (fun e => !w.hasDocument (keyOf e)) = none := by
      rw [List.find?_eq_none]
      intro e he
      rw [hall e he]
      exact Bool.false_ne_true
    have hloop : w.removeDocuments entries = (.ok (), entries.foldl removeOne w) := by
      unfold removeDocuments refuseFirst
      rw [hnone]
    rw [hloop]
    exact ⟨rfl, removed_removeAll entries (dated_of_arises h) (balanced_of_arises h) hnormal⟩

/-- A header under two parts, with a buffer, and a file that includes it; all
three documents were parsed. -/
def includedHeader : Workspace CountingIndex Include.ScannedUnit Unit :=
  [0, 1, 2].foldl (fun w n => w.update Include.engine .asNeeded n)
    ([Action.write ⟨"/a.h"⟩ (.text ""), .write ⟨"/b.c"⟩ (.text "#include \"a.h\"\n"),
      .upsertParts [("p", []), ("q", [])],
      .create [{ FileEntry.new ⟨"/a.h"⟩ "p" with unsaved := some "x" }, .new ⟨"/a.h"⟩ "q",
        .new ⟨"/b.c"⟩ "p"]].foldl Action.perform (.new (.fresh []) false ()))

/-- One of the documents of the header, named twice. -/
def headerTwice : List FileEntry := [.new ⟨"/a.h"⟩ "p", .new ⟨"/a.h"⟩ "p"]

/-- The other document of the header and the one that includes it remain.  Both
are dirty, and the header is still watched for them. -/
theorem removed_headerTwice :
    ((includedHeader.removeDocuments headerTwice).1 = .ok () ∧
      Removed headerTwice includedHeader (includedHeader.removeDocuments headerTwice).2) ∧
    includedHeader.removeDocuments (headerTwice ++ [.new ⟨"/b.c"⟩ "q"]) =
      (.error (.documentDoesNotExist ⟨"/b.c"⟩ "q"), includedHeader) ∧
    (includedHeader.removeDocuments headerTwice).2.dirtyDocuments = [1, 2] ∧
    (includedHeader.removeDocuments headerTwice).2.watches.isWatched ⟨"/a.h"⟩ = true := by
  have harises : Arises (fun _ => True) true includedHeader :=
    .updates_of_looksOn trivial distinct_scanner looksOn_scanner .asNeeded _
      (.acts _ (.start _ _ _))
  have hheld : ∀ e ∈ headerTwice, includedHeader.hasDocument (keyOf e) = true := by
    decide +kernel
  have hnormal : ∀ e ∈ headerTwice ++ [.new ⟨"/b.c"⟩ "q"],
      e.path.normalize.same e.path = true := by
    decide +kernel
  have hremoved := (removed_removeDocuments harises fun e he =>
    hnormal e (List.mem_append_left _ he)).2 hheld
  have hnone : includedHeader.hasDocument (keyOf (.new ⟨"/b.c"⟩ "q")) = false := by
    decide +kernel
  have hrefused := (removed_removeDocuments harises hnormal).1 headerTwice _ [] rfl hheld hnone
  exact ⟨hremoved, hrefused, by decide +kernel, by decide +kernel⟩

end Workspace

end ParseCache
