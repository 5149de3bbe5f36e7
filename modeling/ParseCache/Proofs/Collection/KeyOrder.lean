/-
  ParseCache.Proofs.Collection.KeyOrder — the held documents stand in key order.

  The collection is a list of numbers, and what comes is put in at the place its
  key belongs.  Keys are compared by path and then by part, and two keys tie
  exactly if they mean the same document; since a key is held once, the list
  increases strictly.  Whatever is picked from the held documents is therefore
  listed in key order, each document once.

  Main results:
    * `compare_eq_iff` — the order of keys, with its class of comparisons;
    * `lasting_ordered` — whatever comes, stays and goes, the order lasts;
    * `lists_documentsOf` — the documents of a file, exactly, in key order.
-/
import ParseCache.Proofs.Collection.Registration
import ParseCache.Proofs.Lists

namespace ParseCache

variable {ι υ σ : Type}

/-! ## §1. The order of keys. -/

namespace DocumentKey

/-- Keys are compared by their paths, and by their parts if these tie. -/
theorem compare_eq_compareLex :
    compare = compareLex (fun a b => a.path.compare b.path) (compareOn DocumentKey.part) := rfl

instance : Std.TransCmp compare := by
  have hpath : Std.TransCmp fun a b : DocumentKey => a.path.compare b.path :=
    { eq_swap := @fun a b => @Std.OrientedCmp.eq_swap _ Path.compare _ a.path b.path
      isLE_trans := @fun a b c => @Std.TransCmp.isLE_trans _ Path.compare _ a.path b.path c.path }
  rw [compare_eq_compareLex]
  infer_instance

/-- The order ties exactly on keys that mean the same document. -/
theorem compare_eq_iff {a b : DocumentKey} : a.compare b = .eq ↔ a.same b = true := by
  have hpart : compareOn DocumentKey.part a b = .eq ↔ a.part = b.part :=
    @Std.LawfulEqCmp.compare_eq_iff_eq _ (Ord.compare : String → String → Ordering) _ _ _
  rw [compare_eq_compareLex, compareLex_eq_eq, Path.compare_eq_iff, hpart, same, Bool.and_eq_true,
    beq_iff_eq]

/-- Of two keys that mean different documents, one comes first. -/
theorem compare_of_not_lt {a b : DocumentKey} (hlt : (a.compare b).isLT = false)
    (hne : a.same b = false) : b.compare a = .lt := by
  rw [@Std.OrientedCmp.eq_swap _ compare _ b a]
  cases hcompare : a.compare b with
  | lt =>
    rw [hcompare] at hlt
    cases hlt
  | eq =>
    rw [compare_eq_iff.1 hcompare] at hne
    cases hne
  | gt => rfl

end DocumentKey

/-! ## §2. Held documents in order. -/

namespace Workspace

/-- The key of document `m` comes before that of document `n`. -/
def Before (w : Workspace ι υ σ) (m n : Nat) : Prop :=
  ∀ d d', w.documents[m]? = some d → w.documents[n]? = some d' → d.key.compare d'.key = .lt

/-- The held documents are listed by increasing keys. -/
def Ordered (w : Workspace ι υ σ) : Prop := w.held.Pairwise w.Before

theorem ordered_new (disk : Disk) (requireFiles : Bool) (context : σ) :
    (new disk requireFiles context : Workspace ι υ σ).Ordered := List.Pairwise.nil

/-- Only the numbers that are held and the keys of their documents count. -/
theorem ordered_of_keys {w w' : Workspace ι υ σ} (h : w.Ordered) (hheld : w'.held = w.held)
    (hbefore : ∀ {n : Nat} {d' : Document ι υ}, w'.documents[n]? = some d' →
      ∃ d, w.documents[n]? = some d ∧ d'.key = d.key) : w'.Ordered := by
  unfold Ordered
  rw [hheld]
  refine h.imp fun hmn d₁ d₂ hd₁ hd₂ => ?_
  obtain ⟨d₁', hd₁', hkey₁⟩ := hbefore hd₁
  obtain ⟨d₂', hd₂', hkey₂⟩ := hbefore hd₂
  rw [hkey₁, hkey₂]
  exact hmn d₁' d₂' hd₁' hd₂'

theorem ordered_stays {w w' : Workspace ι υ σ} (h : w.Ordered) (hstays : Stays w w') :
    w'.Ordered :=
  ordered_of_keys h hstays.held fun hd' =>
    (hstays.before hd').imp fun _ hd => ⟨hd.1, hd.2.1⟩

/-! ## §3. A document comes. -/

theorem precedes_iff {w : Workspace ι υ σ} {key : DocumentKey} {n : Nat} :
    w.precedes key n = true ↔ ∃ d, w.documents[n]? = some d ∧ d.key.compare key = .lt := by
  unfold precedes
  rw [Option.any_eq_true]
  simp only [Ordering.isLT_iff_eq_lt]

/-- With a document that precedes a key, all documents before it precede. -/
theorem pairwise_precedes {w : Workspace ι υ σ} (h : w.Ordered) (hknown : w.Known)
    (key : DocumentKey) :
    w.held.Pairwise fun m n => w.precedes key n = true → w.precedes key m = true := by
  refine h.imp_of_mem fun {m n} hm _ hmn hn => ?_
  have hdm := List.getElem?_eq_getElem (hknown m hm)
  obtain ⟨dn, hdn, hlt⟩ := precedes_iff.1 hn
  apply precedes_iff.2
  exact ⟨_, hdm, @Std.TransCmp.lt_trans _ DocumentKey.compare _ _ _ _ (hmn _ dn hdm hdn) hlt⟩

/-- The documents behind the place of a key that is not held have later keys. -/
theorem compare_of_mem_dropWhile {w : Workspace ι υ σ} (h : w.Ordered) (hknown : w.Known)
    {key : DocumentKey} (hkey : w.hasDocument key = false) {n : Nat}
    (hn : n ∈ w.held.dropWhile (w.precedes key)) {d : Document ι υ}
    (hd : w.documents[n]? = some d) : key.compare d.key = .lt := by
  have hnot := not_of_mem_dropWhile (pairwise_precedes h hknown key) n hn
  apply DocumentKey.compare_of_not_lt
  · unfold precedes at hnot
    rw [hd] at hnot
    exact hnot
  · rw [Bool.eq_false_iff]
    intro hsame
    have hheld : w.hasDocument key = true :=
      hasDocument_iff.2 ⟨n, List.dropWhile_subset _ hn, d, hd, hsame⟩
    rw [hkey] at hheld
    cases hheld

/-- What comes is put between the documents before it and those after it. -/
theorem ordered_come {w : Workspace ι υ σ} (h : w.Ordered) (hknown : w.Known) (d : Document ι υ)
    (hkey : w.hasDocument d.key = false) : (w.come d).Ordered := by
  have hold : ∀ n ∈ w.held, (w.come d).documents[n]? = w.documents[n]? := fun n hn =>
    getElem?_come_of_lt d (hknown n hn)
  have hpairs : w.held.Pairwise (w.come d).Before := by
    refine h.imp_of_mem fun {m n} hm hn hmn => ?_
    unfold Before
    rw [hold m hm, hold n hn]
    exact hmn
  have hearlier : ∀ m ∈ w.held.takeWhile (w.precedes d.key),
      (w.come d).Before m w.documents.length := by
    intro m hm d₁ d₂ hd₁ hd₂
    obtain ⟨dm, hdm, hlt⟩ := precedes_iff.1 (List.all_eq_true.1 List.all_takeWhile m hm)
    rw [hold m (List.takeWhile_subset _ hm), hdm] at hd₁
    rw [getElem?_come_self] at hd₂
    cases hd₁
    cases hd₂
    exact hlt
  have hlater : ∀ n ∈ w.held.dropWhile (w.precedes d.key),
      (w.come d).Before w.documents.length n := by
    intro n hn d₁ d₂ hd₁ hd₂
    rw [getElem?_come_self] at hd₁
    rw [hold n (List.dropWhile_subset _ hn)] at hd₂
    cases hd₁
    exact compare_of_mem_dropWhile h hknown hkey hn hd₂
  show List.Pairwise (w.come d).Before (w.held.takeWhile (w.precedes d.key) ++
    w.documents.length :: w.held.dropWhile (w.precedes d.key))
  rw [← List.takeWhile_append_dropWhile (p := w.precedes d.key) (l := w.held)] at hpairs
  obtain ⟨htake, hdrop, hacross⟩ := List.pairwise_append.1 hpairs
  refine List.pairwise_append.2 ⟨htake, List.pairwise_cons.2 ⟨hlater, hdrop⟩, fun m hm n hn => ?_⟩
  rcases List.mem_cons.1 hn with rfl | hn
  · exact hearlier m hm
  · exact hacross m hm n hn

/-! ## §4. The order lasts. -/

theorem lasting_ordered : Lasting fun w : Workspace ι υ σ => w.Tidy ∧ w.Ordered where
  named h := h.1.named
  known h := h.1.known
  stays h hstays := ⟨tidy_stays h.1 hstays, ordered_stays h.2 hstays⟩
  come d h hkey := ⟨tidy_come h.1 d, ordered_come h.2 h.1.known d hkey⟩
  evict key h := ⟨tidy_evict h.1 key, h.2.filter _⟩
  withoutParts ids h := ⟨lasting_tidy.withoutParts ids h.1, h.2⟩

/-- A result moves no document and changes no key. -/
theorem ordered_incorporate {w : Workspace ι υ σ} (h : w.Ordered) (n : Nat) (r : UpdateResult) :
    (w.incorporate n r).Ordered :=
  ordered_of_keys h (held_incorporate w n r) fun hd' =>
    (before_incorporate hd').imp fun _ hd => ⟨hd.1, hd.2.1⟩

/-! ## §5. Listings. -/

/-- The list `ns` consists of the held documents of the file at `path`, in key
order. -/
structure Lists (w : Workspace ι υ σ) (path : Path) (ns : List Nat) : Prop where
  mem_iff : ∀ n, n ∈ ns ↔
    n ∈ w.held ∧ ∃ d, w.documents[n]? = some d ∧ d.key.path.same path = true
  increasing : ns.Pairwise w.Before

theorem lists_documentsOf {w : Workspace ι υ σ} (h : w.Ordered) (path : Path) :
    w.Lists path (w.documentsOf path) where
  mem_iff n := by
    unfold documentsOf
    rw [mem_heldWhere, Option.any_eq_true]
  increasing := h.filter _

end Workspace

end ParseCache
