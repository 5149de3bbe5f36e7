/-
  ParseCache.Proofs.Collection.LateResults — results that arrive when their
  document is no longer held.

  A handle to a document outlives its place in the collection, and an update
  may still be running when the document is evicted.  Its result arrives all
  the same.  The watch registry turns it away if the key of the document is not
  registered; but a key is not a document, and if another one has come under
  the same key in the meantime, the result is taken for its own.

  Main results:
    * `unmoved_setWatched_iff` — when replacing a set makes no difference;
    * `late_result` — in every state a result leaves the watches alone exactly
      if its key is not held, or if it says what is recorded anyway;
    * `stale_result_watched` — the hole: a document that was evicted and created
      anew gets the watches of its predecessor.
-/
import ParseCache.Proofs.Collection.Watches

namespace ParseCache

variable {ι υ σ : Type}

/-! ## §1. Watches that do not move. -/

namespace WatchRegistry

/-- From `r` to `r'` no call was made on the watcher, and every document has
the paths it had. -/
structure Unmoved (r r' : WatchRegistry) : Prop where
  events : r'.events = r.events
  watched : r'.watched = r.watched
  sets : ∀ key q, (r'.setOf key).contains q = (r.setOf key).contains q

theorem Unmoved.refl (r : WatchRegistry) : Unmoved r r := ⟨rfl, rfl, fun _ _ => rfl⟩

/-- A difference is empty if everything in the first set is in the second. -/
theorem diff_eq_nil {s t : PathSet} (h : ∀ q, s.contains q = true → t.contains q = true) :
    s.diff t = [] := by
  refine List.filter_eq_nil_iff.2 fun p hp => ?_
  rw [h p (List.any_eq_true.2 ⟨p, hp, Path.same_refl p⟩)]
  exact Bool.false_ne_true

/-- Replacing the set of a document moves nothing if the document is not
registered or has these paths already, and something otherwise. -/
theorem unmoved_setWatched_iff (r : WatchRegistry) (key : DocumentKey) (paths : PathSet) :
    Unmoved r (r.setWatched key paths).2 ↔
      (r.registered.has key = true → ∀ q, (r.setOf key).contains q = paths.contains q) := by
  cases hkey : r.registered.has key with
  | false =>
    rw [setWatched_of_unregistered hkey]
    exact ⟨fun _ h => absurd h Bool.false_ne_true, fun _ => .refl r⟩
  | true =>
    have hset : ∀ k, (r.setWatched key paths).2.setOf k
        = if k.same key then paths else r.setOf k := by
      intro k
      unfold setOf
      rw [get?_setWatched, hkey, Bool.true_and]
      split <;> rfl
    constructor
    · intro h _ q
      rw [← h.sets, hset, if_pos (DocumentKey.same_refl key)]
    · intro h
      have h := h rfl
      have hgained : paths.diff (r.setOf key) = [] := diff_eq_nil fun q hq => by rw [h, hq]
      have hlost : (r.setOf key).diff paths = [] := diff_eq_nil fun q hq => by rw [← h, hq]
      have hrest : (r.setWatched key paths).2 = { r with sets := r.sets.set key paths } := by
        rw [setWatched_eq hkey, gained, hgained, hlost]
        rfl
      refine ⟨by rw [hrest], by rw [hrest]; rfl, fun k q => ?_⟩
      rw [hset]
      split
      · rename_i hk
        rw [← h, r.setOf_congr hk]
      · rfl

end WatchRegistry

open WatchRegistry

namespace Workspace

/-! ## §2. States. -/

/-- A cache in any state: whatever occurs, documents are updated by orderly
engines, and results are applied wherever they come from. -/
inductive Reached : Workspace ι υ σ → Prop
  | start (disk : Disk) (requireFiles : Bool) (context : σ) :
      Reached (.new disk requireFiles context)
  | meanwhile {w w' : Workspace ι υ σ} (h : Reached w) (hmeanwhile : Meanwhile w w') : Reached w'
  | update {w : Workspace ι υ σ} (h : Reached w) {e : Engine ι υ σ} (he : e.Orderly)
      (mode : UpdateMode) (n : Nat) : Reached (w.update e mode n)
  | incorporate {w : Workspace ι υ σ} (h : Reached w) (n : Nat) (r : UpdateResult) :
      Reached (w.incorporate n r)

/-- The registry belongs to the held documents in every state that is reached.
-/
theorem tidy_of_reached {w : Workspace ι υ σ} (h : Reached w) : w.Tidy := by
  induction h with
  | start disk requireFiles context => exact tidy_new disk requireFiles context
  | meanwhile _ hmeanwhile ih => exact lasting_tidy.meanwhile ih hmeanwhile
  | update _ he mode n ih => exact tidy_update ih he mode n
  | incorporate _ n r ih => exact tidy_incorporate ih n r

/-- A document that is not held any more never will be. -/
theorem lasting_unheld (n : Nat) :
    Lasting fun w : Workspace ι υ σ => w.Tidy ∧ n < w.documents.length ∧ n ∉ w.held where
  named h := h.1.named
  known h := h.1.known
  stays h hstays := by
    refine ⟨tidy_stays h.1 hstays, ?_, ?_⟩
    · rw [hstays.length]
      exact h.2.1
    · rw [hstays.held]
      exact h.2.2
  come d h _ := by
    refine ⟨tidy_come h.1 d, ?_, fun hn => ?_⟩
    · rw [length_come]
      exact Nat.lt_succ_of_lt h.2.1
    · -- what comes gets a number of its own
      rcases mem_held_come.1 hn with rfl | hn
      · exact Nat.lt_irrefl _ h.2.1
      · exact h.2.2 hn
  evict key h := ⟨tidy_evict h.1 key, h.2.1, fun hn => h.2.2 (mem_held_evict.1 hn).1⟩
  withoutParts ids h := ⟨lasting_tidy.withoutParts ids h.1, h.2⟩

/-! ## §3. Results. -/

/-- A result for a document with the key makes no difference to what is to be
watched: it replaces no dependencies, or no held document has the key, or the
document that has it watches these paths. -/
def Harmless (w : Workspace ι υ σ) (key : DocumentKey) (r : UpdateResult) : Prop :=
  Document.installs r = true → w.hasDocument key = true →
    ∀ q, (w.watches.setOf key).contains q = (r.dependencies.insert key.path).contains q

/-- What a result can do to the watches where it arrives. -/
structure Received (w : Workspace ι υ σ) (key : DocumentKey) (r : UpdateResult)
    (after : WatchRegistry) : Prop where
  unmoved_iff : Unmoved w.watches after ↔ w.Harmless key r
  unheld : w.hasDocument key = false → after = w.watches

/-- A result touches the registry in the way described, in every state whose
registry belongs to its documents. -/
theorem received_incorporate {w : Workspace ι υ σ} (h : w.Tidy) {n : Nat} {d : Document ι υ}
    (hd : w.documents[n]? = some d) (r : UpdateResult) :
    w.Received d.key r (w.incorporate n r).watches := by
  rw [watches_incorporate hd]
  cases hinstalls : Document.installs r with
  | false =>
    refine ⟨⟨fun _ hr => ?_, fun _ => .refl _⟩, fun _ => rfl⟩
    rw [hinstalls] at hr
    cases hr
  | true =>
    rw [if_pos rfl]
    refine ⟨?_, fun hkey => ?_⟩
    · rw [unmoved_setWatched_iff, h.registered]
      exact ⟨fun hsame _ => hsame, fun hsame => hsame hinstalls⟩
    · rw [← h.registered] at hkey
      rw [setWatched_of_unregistered hkey]

/-- What a result does to the watches is decided by the key of its document
alone.  It may be applied directly, or arrive at the end of an update; a
document that has been evicted is not held when its result arrives. -/
theorem late_result {w : Workspace ι υ σ} (h : Reached w) {n : Nat} {d : Document ι υ}
    (hd : w.documents[n]? = some d) :
    (∀ r, w.Received d.key r (w.incorporate n r).watches) ∧
    ∀ e : Engine ι υ σ, e.Orderly → ∀ mode,
      (n ∉ w.held → n ∉ (w.outcome e mode d).2.held) ∧
      (w.outcome e mode d).2.Received d.key (w.outcome e mode d).1.result
        (w.update e mode n).watches := by
  have htidy := tidy_of_reached h
  refine ⟨fun r => received_incorporate htidy hd r, fun e he mode => ⟨fun hn => ?_, ?_⟩⟩
  · have hlt : n < w.documents.length := (List.getElem?_eq_some_iff.1 hd).1
    exact ((lasting_unheld n).meanwhile ⟨htidy, hlt, hn⟩
      (Engine.meanwhile_run he _ _ w mode)).2.2
  · have harrived : (w.outcome e mode d).2.Tidy :=
      lasting_tidy.meanwhile htidy (Engine.meanwhile_run he _ _ w mode)
    have hstays := stays_supplied w e mode n d
    obtain ⟨d', hd', hkey'⟩ := key_supplied htidy he mode hd
    have hreceived := received_incorporate (tidy_stays harrived hstays) hd'
      (w.outcome e mode d).1.result
    rw [hkey'] at hreceived
    rw [update_eq_incorporate hd]
    -- the resources that come with a result do not matter to the watches
    refine ⟨?_, fun hkey => ?_⟩
    · have hiff := hreceived.unmoved_iff
      unfold Harmless at hiff ⊢
      rw [hstays.hasDocument_eq, hstays.watches] at hiff
      exact hiff
    · rw [← hstays.hasDocument_eq] at hkey
      exact hreceived.unheld hkey

/-! ## §4. A document and its successor. -/

/-- A document was created, removed, and created again. -/
def createdAgain : Session Unit Unit Unit :=
  [Action.upsertParts [("p", [])], .create [.new ⟨"/a.c"⟩ "p"],
    .removeDocuments [.new ⟨"/a.c"⟩ "p"], .create [.new ⟨"/a.c"⟩ "p"]].foldl Session.act
    (Session.start (.fresh []) false ())

theorem Reached.acts {w : Session ι υ σ} (h : Reached w) (actions : List Action) :
    Reached (actions.foldl Session.act w) :=
  h.meanwhile (Session.meanwhile_acts actions w)

theorem reached_start (disk : Disk) (requireFiles : Bool) (memory : σ) :
    Reached (Session.start disk requireFiles memory : Session ι υ σ) :=
  .start disk requireFiles _

theorem reached_createdAgain : Reached createdAgain := (reached_start _ _ _).acts _

theorem late_result_createdAgain :
    ∃ d, createdAgain.documents[0]? = some d ∧ 0 ∉ createdAgain.held ∧
      (createdAgain.outcome oneHeader.engine .parseIfNeeded d).2.Received d.key
        (createdAgain.outcome oneHeader.engine .parseIfNeeded d).1.result
        (createdAgain.update oneHeader.engine .parseIfNeeded 0).watches := by
  obtain ⟨d, hd⟩ : ∃ d, createdAgain.documents[0]? = some d := ⟨_, rfl⟩
  exact ⟨d, hd, by decide,
    ((late_result reached_createdAgain hd).2 _ orderly_oneHeader .parseIfNeeded).2⟩

/-- The first document is parsed through a handle that was kept.  Its successor
gets the watches. -/
theorem stale_result_watched :
    ¬ ∀ (w : Session Unit Unit Unit) (n : Nat), Reached w → n ∉ w.held →
      Unmoved w.watches (w.update oneHeader.engine .parseIfNeeded n).watches := by
  intro h
  have hevents := (h createdAgain 0 reached_createdAgain (by decide)).events
  revert hevents
  decide

end Workspace

end ParseCache
