/-
  ParseCache.Proofs.Collection.Listing — one listing for each set of documents.

  A path has many spellings, and documents are created, removed and evicted in
  any order.  Neither shows in the listing of a collection.  Keys are compared
  by what they mean, the components of the path and then the bytes of the part,
  and this comparison is a total order that ties on keys that mean the same
  document and on no others.  In every state a cache gets into the documents
  stand in strictly increasing order of their keys, and every look-up agrees
  with where they stand.  A list in strictly increasing order has no choice but
  to be what its members make it.

  Main results:
    * `totally_ordered` — the order of keys;
    * `listed_of_arises` — the listing of a state, and the look-ups in it;
    * `listing_is_canonical` — and two states that hold the same keys list them
      alike.
-/
import Mathlib.Data.List.Sort
import ParseCache.Proofs.Collection.States
import ParseCache.Proofs.Text.ByteOrder

namespace ParseCache

variable {ι υ σ ι' υ' σ' : Type}

/-! ## §1. The order of keys. -/

/-- A component is compared by its kind and then by the bytes of its name. -/
theorem Path.Component.compare_eq_bytes (c d : Path.Component) :
    c.compare d = (Ord.compare c.rank d.rank).then
      (List.compareLex Ord.compare (Path.bytesOf c.label) (Path.bytesOf d.label)) := by
  rw [Path.Component.compare_eq_compareLex, ← compare_eq_compare_bytes]
  rfl

namespace DocumentKey

/-- What a key means: the components of its path, and its part. -/
def meaning (k : DocumentKey) : List Path.Component × String := (k.path.components, k.part)

theorem same_iff_meaning {a b : DocumentKey} : a.same b = true ↔ a.meaning = b.meaning := by
  rw [same_iff, meaning, meaning, Prod.mk.injEq]

/-- The order of keys is total, and it tells exactly those keys apart that do
not mean the same document. -/
structure TotallyOrdered : Prop where
  swap : ∀ a b : DocumentKey, a.compare b = (b.compare a).swap
  trans : ∀ a b c : DocumentKey, (a.compare b).isLE = true → (b.compare c).isLE = true →
    (a.compare c).isLE = true
  /-- Ties, sameness and equal meaning are one thing. -/
  ties : ∀ a b : DocumentKey, a.compare b = .eq ↔ a.meaning = b.meaning
  same : ∀ a b : DocumentKey, a.same b = true ↔ a.meaning = b.meaning
  /-- Keys that mean the same document are hashed alike. -/
  hash : ∀ a b : DocumentKey, a.meaning = b.meaning → a.digest = b.digest
  /-- Paths are compared component by component, parts byte by byte. -/
  lexicographic : ∀ a b : DocumentKey,
    a.compare b = (List.compareLex Path.Component.compare a.meaning.1 b.meaning.1).then
      (List.compareLex Ord.compare (Path.bytesOf a.meaning.2) (Path.bytesOf b.meaning.2))
  components : ∀ c d : Path.Component, c.compare d = (Ord.compare c.rank d.rank).then
    (List.compareLex Ord.compare (Path.bytesOf c.label) (Path.bytesOf d.label))

theorem totally_ordered : TotallyOrdered where
  swap a b := @Std.OrientedCmp.eq_swap _ compare _ a b
  trans a b c := @Std.TransCmp.isLE_trans _ compare _ a b c
  ties a b := compare_eq_iff.trans same_iff_meaning
  same a b := same_iff_meaning
  hash a b h := digest_eq_of_same (same_iff_meaning.2 h)
  lexicographic a b := by
    rw [← compare_eq_compare_bytes]
    rfl
  components := Path.Component.compare_eq_bytes

/-- A key does not come before itself. -/
theorem ne_of_compare_lt {a b : DocumentKey} (h : a.compare b = .lt) : a.meaning ≠ b.meaning := by
  intro heq
  rw [(totally_ordered.ties a b).2 heq] at h
  cases h

/-- Of keys in strictly increasing order no two mean the same document. -/
theorem eq_of_meaning {listed : List DocumentKey}
    (h : listed.Pairwise fun a b => a.compare b = .lt) :
    ∀ a ∈ listed, ∀ b ∈ listed, a.meaning = b.meaning → a = b := by
  refine List.Pairwise.forall_of_forall_of_flip (fun _ _ _ => rfl)
    (h.imp fun {a b} hlt heq => ?_) (h.imp fun {a b} hlt heq => ?_)
  · exact absurd heq (ne_of_compare_lt hlt)
  · exact absurd heq.symm (ne_of_compare_lt hlt)

/-- Keys in strictly increasing order are in the one order that sorting brings
them into. -/
theorem sort_eq_of_perm {keys listed : List DocumentKey}
    (hlisted : listed.Pairwise fun a b => a.compare b = .lt) (hperm : keys.Perm listed) :
    sort keys = listed := by
  have htrans : ∀ a b c : DocumentKey, a.le b = true → b.le c = true → a.le c = true :=
    totally_ordered.trans
  have htotal : ∀ a b : DocumentKey, (a.le b || b.le a) = true := by
    intro a b
    unfold le
    rw [totally_ordered.swap b a]
    cases a.compare b <;> rfl
  have hle : listed.Pairwise fun a b => a.le b = true := by
    refine hlisted.imp fun {a b} hlt => ?_
    unfold le
    rw [hlt]
    rfl
  have hsorted : (sort keys).Perm listed := (List.mergeSort_perm keys le).trans hperm
  refine hsorted.eq_of_pairwise (fun a b ha hb hab hba => ?_)
    (List.pairwise_mergeSort htrans htotal keys) hle
  -- two members that tie are one
  apply eq_of_meaning hlisted a (hsorted.mem_iff.1 ha) b hb
  rw [← totally_ordered.ties]
  unfold le at hab hba
  rw [totally_ordered.swap b a] at hba
  cases hcompare : a.compare b with
  | lt =>
    rw [hcompare] at hba
    cases hba
  | eq => rfl
  | gt =>
    rw [hcompare] at hab
    cases hab

/-- The order of keys, as an order of what they mean. -/
def MeansBefore (m m' : List Path.Component × String) : Prop :=
  (List.compareLex Path.Component.compare m.1 m'.1).then (Ord.compare m.2 m'.2) = .lt

instance : Std.Irrefl MeansBefore where
  irrefl m h := by
    have hpath : List.compareLex Path.Component.compare m.1 m.1 = .eq := Std.ReflCmp.compare_self
    have hpart : Ord.compare m.2 m.2 = .eq := Std.ReflCmp.compare_self
    unfold MeansBefore at h
    rw [hpath, hpart] at h
    cases h

instance : Std.Antisymm MeansBefore where
  antisymm m m' h h' := by
    have hpath : List.compareLex Path.Component.compare m'.1 m.1
        = (List.compareLex Path.Component.compare m.1 m'.1).swap := Std.OrientedCmp.eq_swap
    have hpart : Ord.compare m'.2 m.2 = (Ord.compare m.2 m'.2).swap := Std.OrientedCmp.eq_swap
    unfold MeansBefore at h h'
    rw [hpath, hpart, ← Ordering.swap_then, h] at h'
    cases h'

/-- What increases strictly is determined by its members. -/
theorem map_meaning_eq {keys keys' : List DocumentKey}
    (h : keys.Pairwise fun a b => a.compare b = .lt)
    (h' : keys'.Pairwise fun a b => a.compare b = .lt)
    (hmem : ∀ m, m ∈ keys.map meaning ↔ m ∈ keys'.map meaning) :
    keys.map meaning = keys'.map meaning := by
  have hmap : ∀ {keys : List DocumentKey}, (keys.Pairwise fun a b => a.compare b = .lt) →
      (keys.map meaning).Pairwise MeansBefore := fun h => List.pairwise_map.2 h
  exact (hmap h).eq_of_mem_iff (hmap h') hmem

end DocumentKey

/-! ## §2. What a state lists. -/

namespace Workspace

/-- The keys of the held documents, in the order of the listing. -/
def keys (w : Workspace ι υ σ) : List DocumentKey :=
  w.held.filterMap fun n => w.documents[n]?.map (·.key)

/-- The listing is in order, and every look-up agrees with it. -/
structure Listed (w : Workspace ι υ σ) : Prop where
  /-- Every held number has its document, which is found under its own key. -/
  stored : ∀ n ∈ w.held, ∃ d, w.documents[n]? = some d ∧ w.lookup d.key = .ok n
  /-- Each is listed once, in strictly increasing order of the keys. -/
  once : w.held.Nodup
  increasing : w.keys.Pairwise fun a b => a.compare b = .lt
  length : w.keys.length = w.held.length
  /-- A look-up finds what is listed, and nothing else. -/
  found : ∀ key n, w.lookup key = .ok n
    ↔ n ∈ w.held ∧ ∃ d, w.documents[n]? = some d ∧ d.key.meaning = key.meaning
  missing : ∀ key, w.hasDocument key = false →
    w.lookup key = .error (.documentDoesNotExist key.path key.part)
  has : ∀ key, w.hasDocument key = true ↔ key.meaning ∈ w.keys.map DocumentKey.meaning
  empty : w.held.isEmpty = true ↔ ∀ key, w.hasDocument key = false
  /-- From whatever order the keys are sorted, the listing comes out. -/
  sorted : ∀ keys, keys.Perm w.keys → DocumentKey.sort keys = w.keys

variable {w : Workspace ι υ σ}

theorem mem_keys {key : DocumentKey} :
    key ∈ w.keys ↔ ∃ n ∈ w.held, ∃ d, w.documents[n]? = some d ∧ d.key = key := by
  simp only [keys, List.mem_filterMap, Option.map_eq_some_iff]

theorem hasDocument_iff_meaning (key : DocumentKey) :
    w.hasDocument key = true ↔ key.meaning ∈ w.keys.map DocumentKey.meaning := by
  rw [hasDocument_iff, List.mem_map]
  constructor
  · rintro ⟨n, hn, d, hd, hsame⟩
    exact ⟨d.key, mem_keys.2 ⟨n, hn, d, hd, rfl⟩, DocumentKey.same_iff_meaning.1 hsame⟩
  · rintro ⟨k, hk, hmeaning⟩
    obtain ⟨n, hn, d, hd, rfl⟩ := mem_keys.1 hk
    exact ⟨n, hn, d, hd, DocumentKey.same_iff_meaning.2 hmeaning⟩

/-- Under one key there is at most one document. -/
theorem Ordered.eq_of_same (h : w.Ordered) {m n : Nat} (hm : m ∈ w.held) (hn : n ∈ w.held)
    {d d' : Document ι υ} (hd : w.documents[m]? = some d) (hd' : w.documents[n]? = some d')
    (hmeaning : d.key.meaning = d'.key.meaning) : m = n := by
  have hone : ∀ m ∈ w.held, ∀ n ∈ w.held, ∀ d d' : Document ι υ, w.documents[m]? = some d →
      w.documents[n]? = some d' → d.key.meaning = d'.key.meaning → m = n := by
    refine List.Pairwise.forall_of_forall_of_flip (fun _ _ _ _ _ _ _ => rfl)
      (h.imp fun {m n} hmn d d' hd hd' heq => ?_) (h.imp fun {m n} hmn d d' hd hd' heq => ?_)
    · exact absurd heq (DocumentKey.ne_of_compare_lt (hmn d d' hd hd'))
    · exact absurd heq.symm (DocumentKey.ne_of_compare_lt (hmn d' d hd' hd))
  exact hone m hm n hn d d' hd hd' hmeaning

/-- The numbers of known documents in key order are different. -/
theorem Ordered.nodup (h : w.Ordered) (hknown : w.Known) : w.held.Nodup := by
  refine h.imp_of_mem fun {m n} hm _ hmn heq => ?_
  subst heq
  have hd := List.getElem?_eq_getElem (hknown m hm)
  exact DocumentKey.ne_of_compare_lt (hmn _ _ hd hd) rfl

/-- What a look-up finds is held under the key. -/
theorem held_of_lookup? {key : DocumentKey} {n : Nat} (h : w.lookup? key = some n) :
    n ∈ w.held ∧ ∃ d, w.documents[n]? = some d ∧ d.key.meaning = key.meaning := by
  obtain ⟨hn, hany⟩ := mem_heldWhere.1 (List.mem_of_mem_head? h)
  rw [Option.any_eq_true] at hany
  obtain ⟨d, hd, hsame⟩ := hany
  exact ⟨hn, d, hd, DocumentKey.same_iff_meaning.1 hsame⟩

theorem lookup_eq_ok_iff (h : w.Ordered) (key : DocumentKey) (n : Nat) :
    w.lookup key = .ok n
      ↔ n ∈ w.held ∧ ∃ d, w.documents[n]? = some d ∧ d.key.meaning = key.meaning := by
  unfold lookup
  constructor
  · intro hok
    cases hfound : w.lookup? key with
    | none =>
      rw [hfound] at hok
      cases hok
    | some m =>
      rw [hfound] at hok
      cases hok
      exact held_of_lookup? hfound
  · rintro ⟨hn, d, hd, hmeaning⟩
    have hhas : w.hasDocument key = true :=
      hasDocument_iff.2 ⟨n, hn, d, hd, DocumentKey.same_iff_meaning.2 hmeaning⟩
    obtain ⟨m, hfound⟩ := Option.isSome_iff_exists.1 hhas
    -- whatever was found is the document asked for
    obtain ⟨hm, d', hd', hmeaning'⟩ := held_of_lookup? hfound
    rw [hfound, h.eq_of_same hm hn hd' hd (hmeaning'.trans hmeaning.symm)]

theorem increasing_keys (h : w.Ordered) : w.keys.Pairwise fun a b => a.compare b = .lt := by
  unfold keys
  rw [List.pairwise_filterMap]
  refine h.imp fun {m n} hmn k hk k' hk' => ?_
  obtain ⟨d, hd, rfl⟩ := Option.map_eq_some_iff.1 hk
  obtain ⟨d', hd', rfl⟩ := Option.map_eq_some_iff.1 hk'
  exact hmn d d' hd hd'

theorem listed_of_ordered (hknown : w.Known) (h : w.Ordered) : w.Listed := by
  refine ⟨?stored, h.nodup hknown, increasing_keys h, ?length, lookup_eq_ok_iff h, ?missing,
    hasDocument_iff_meaning, ?empty, fun keys => DocumentKey.sort_eq_of_perm (increasing_keys h)⟩
  case stored =>
    intro n hn
    have hd := List.getElem?_eq_getElem (hknown n hn)
    exact ⟨_, hd, (lookup_eq_ok_iff h _ n).2 ⟨hn, _, hd, rfl⟩⟩
  case length =>
    unfold keys
    rw [List.filterMap_length_eq_length]
    intro n hn
    rw [List.getElem?_eq_getElem (hknown n hn)]
    rfl
  case missing =>
    intro key hmissing
    unfold lookup
    cases hfound : w.lookup? key with
    | none => rfl
    | some n =>
      unfold hasDocument at hmissing
      rw [hfound] at hmissing
      cases hmissing
  case empty =>
    rw [List.isEmpty_iff]
    constructor
    · intro hempty key
      rw [hasDocument_eq_any, hempty]
      rfl
    · intro hnone
      apply List.eq_nil_iff_forall_not_mem.2
      intro n hn
      have hd := List.getElem?_eq_getElem (hknown n hn)
      have hhas := hasDocument_iff.2 ⟨n, hn, _, hd, DocumentKey.same_refl _⟩
      rw [hnone] at hhas
      cases hhas

theorem listed_of_arises {engines : Engine ι υ σ → Prop} {direct : Bool}
    (h : Arises engines direct w) : w.Listed :=
  listed_of_ordered (ordered_of_arises h).1.known (ordered_of_arises h).2

/-- The listing of documents is canonical: keys are totally ordered, every state
lists its documents in strictly increasing order of their keys and looks them up
accordingly, and two states that hold the same keys list the same documents in
the same order, whatever led to them. -/
theorem listing_is_canonical {w : Workspace ι υ σ} {w' : Workspace ι' υ' σ'}
    {engines : Engine ι υ σ → Prop} {engines' : Engine ι' υ' σ' → Prop} {direct direct' : Bool}
    (h : Arises engines direct w) (h' : Arises engines' direct' w') :
    DocumentKey.TotallyOrdered ∧ w.Listed ∧ w'.Listed ∧
      ((∀ key, w.hasDocument key = w'.hasDocument key) →
        w.keys.map DocumentKey.meaning = w'.keys.map DocumentKey.meaning) := by
  have hlisted := listed_of_arises h
  have hlisted' := listed_of_arises h'
  refine ⟨DocumentKey.totally_ordered, hlisted, hlisted', fun hkeys => ?_⟩
  refine DocumentKey.map_meaning_eq hlisted.increasing hlisted'.increasing fun m => ?_
  constructor
  · intro hm
    obtain ⟨key, -, rfl⟩ := List.mem_map.1 hm
    rw [← hlisted'.has, ← hkeys, hlisted.has]
    exact hm
  · intro hm
    obtain ⟨key, -, rfl⟩ := List.mem_map.1 hm
    rw [← hlisted.has, hkeys, hlisted'.has]
    exact hm

/-- Three documents, one of which goes again. -/
def straight : Workspace Unit Unit Unit :=
  [.upsertParts [("p", [])], .create [.new ⟨"/s/a.c"⟩ "p", .new ⟨"/s/b.c"⟩ "p"],
    .create [.new ⟨"/s"⟩ "p"], .removeDocuments [.new ⟨"/s/"⟩ "p"]].foldl
      Action.perform (.new (.fresh []) false ())

/-- The same two documents in the other order and in other spellings, with a
third that is evicted with its part. -/
def detour : Workspace Unit Unit Unit :=
  [.upsertParts [("q", []), ("p", [])], .create [.new ⟨"/s/a.c"⟩ "q", .new ⟨"//s/./b.c"⟩ "p"],
    .create [.new ⟨"/s//a.c"⟩ "p"], .removeParts ["q"]].foldl
      Action.perform (.new (.fresh []) false ())

theorem listing_is_canonical_detour :
    straight.held = [0, 1] ∧ detour.held = [2, 1] ∧
      DocumentKey.TotallyOrdered ∧ straight.Listed ∧ detour.Listed ∧
      straight.keys.map DocumentKey.meaning = detour.keys.map DocumentKey.meaning := by
  have hstraight : Arises (fun _ => True) true straight := (Arises.start _ _ _).acts _
  have hdetour : Arises (fun _ => True) true detour := (Arises.start _ _ _).acts _
  obtain ⟨htotal, hlisted, hlisted', hsame⟩ := listing_is_canonical hstraight hdetour
  refine ⟨by decide +kernel, by decide +kernel, htotal, hlisted, hlisted', hsame fun key => ?_⟩
  rw [Bool.eq_iff_iff, hasDocument_iff_meaning, hasDocument_iff_meaning,
    show straight.keys.map DocumentKey.meaning = detour.keys.map DocumentKey.meaning by
      decide +kernel]

end Workspace

end ParseCache
