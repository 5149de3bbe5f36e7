/-
  ParseCache.Proofs.Collection.Turnover — documents come, stay and go.

  To know which documents are held, and under which keys, most of what an
  operation does can be forgotten: dirty marks, buffers, new versions of parts
  and editor state leave a document where it is.  What remains are three things
  that can happen, one after the other, and the operations of the collection
  are put together from them.

  Main results:
    * `Stays` — nothing comes or goes, and no document changes its key or its
      dependencies;
    * `hasDocument_come`, `hasDocument_evict` — the keys that are held when a
      document has come or gone;
    * `Turnover` — documents came, stayed and went;
    * `turnover_perform` — that is all an occurrence can do, once the parts it
      removes are gone from the registry;
    * `Lasting.perform` — what outlasts these three outlasts every occurrence.
-/
import ParseCache.Proofs.Collection.Action

namespace ParseCache

variable {ι υ σ : Type}

/-- What happens to a cache besides updates: an action, or the registration of
parts that may have been built at any time. -/
inductive Occurrence
  | action (a : Action)
  | upsertParts (parts : List ProjectPart)
deriving Repr, DecidableEq

/-- Makes it happen. -/
def Occurrence.perform (w : Workspace ι υ σ) : Occurrence → Workspace ι υ σ
  | action a => a.perform w
  | upsertParts parts => (w.upsertParts parts).2

namespace Workspace

/-! ## §1. Documents that stay. -/

/-- Nothing comes or goes, parts are only added, and the documents keep their
keys and their dependencies. -/
structure Stays (w w' : Workspace ι υ σ) : Prop where
  held : w'.held = w.held
  watches : w'.watches = w.watches
  named : w.parts.Named → w'.parts.Named
  parts : ∀ id, w.parts.has id = true → w'.parts.has id = true
  length : w'.documents.length = w.documents.length
  document : ∀ (n : Nat) (d : Document ι υ), w.documents[n]? = some d →
    ∃ d', w'.documents[n]? = some d' ∧ d'.key = d.key ∧ d'.dependencies = d.dependencies

namespace Stays

variable {w w' w'' : Workspace ι υ σ}

/-- Where documents, parts and watches are left alone, there is nothing to
show. -/
theorem of_eq (hheld : w'.held = w.held) (hwatches : w'.watches = w.watches)
    (hparts : w'.parts = w.parts) (hdocuments : w'.documents = w.documents) : Stays w w' where
  held := hheld
  watches := hwatches
  named h := by rwa [hparts]
  parts _ h := by rwa [hparts]
  length := by rw [hdocuments]
  document n d hd := ⟨d, by rw [hdocuments, hd], rfl, rfl⟩

theorem refl (w : Workspace ι υ σ) : Stays w w := of_eq rfl rfl rfl rfl

/-- What two operations leave in place, one after the other, they leave in place
together. -/
theorem trans (h : Stays w w') (h' : Stays w' w'') : Stays w w'' where
  held := h'.held.trans h.held
  watches := h'.watches.trans h.watches
  named hw := h'.named (h.named hw)
  parts id hid := h'.parts id (h.parts id hid)
  length := h'.length.trans h.length
  document n d hd := by
    obtain ⟨d', hd', hkey, hdependencies⟩ := h.document n d hd
    obtain ⟨d'', hd'', hkey', hdependencies'⟩ := h'.document n d' hd'
    exact ⟨d'', hd'', hkey'.trans hkey, hdependencies'.trans hdependencies⟩

/-- Dirty marks move nothing: a marked document keeps its key and the unit its
dependencies come from. -/
theorem of_marks {ns : List Nat} (h : Marks ns w w') : Stays w w' where
  held := h.held
  watches := by rw [h.rest]
  named hw := by rwa [h.parts]
  parts _ hid := by rwa [h.parts]
  length := h.length
  document n d hd := by
    obtain ⟨d', hd', rfl | ⟨time, -, -, rfl⟩⟩ := h.document hd
    · exact ⟨d', hd', rfl, rfl⟩
    · exact ⟨_, hd', rfl, rfl⟩

/-- A document may be changed in place, as long as its key and its dependencies
are not. -/
theorem modify (h : Stays w w') (n : Nat) {f : Document ι υ → Document ι υ}
    (hf : ∀ d, (f d).key = d.key ∧ (f d).dependencies = d.dependencies) :
    Stays w (w'.modify n f) where
  held := h.held
  watches := h.watches
  named := h.named
  parts := h.parts
  length := (List.length_modify f _ n).trans h.length
  document m d hd := by
    obtain ⟨d', hd', hkey, hdependencies⟩ := h.document m d hd
    by_cases hm : n = m
    · subst hm
      exact ⟨f d', getElem?_modify_self hd' f, (hf d').1.trans hkey, (hf d').2.trans hdependencies⟩
    · exact ⟨d', (getElem?_modify_of_ne w' hm f).trans hd', hkey, hdependencies⟩

theorem modifyAll {f : Document ι υ → Document ι υ}
    (hf : ∀ d, (f d).key = d.key ∧ (f d).dependencies = d.dependencies) (ns : List Nat) :
    ∀ {w' : Workspace ι υ σ}, Stays w w' → Stays w (ns.foldl (fun w n => w.modify n f) w') := by
  induction ns with
  | nil =>
    intro w' h
    exact h
  | cons n rest ih =>
    intro w' h
    exact ih (h.modify n hf)

end Stays

theorem stays_now (w : Workspace ι υ σ) : Stays w w.now.2 := .of_eq rfl rfl rfl rfl

theorem stays_touch (w : Workspace ι υ σ) (path : Path) : Stays w (w.touch path).2 :=
  .of_marks (marks_touch w path)

theorem stays_dropBuffer (w : Workspace ι υ σ) (path : Path) : Stays w (w.dropBuffer path).2 := by
  rcases dropBuffer_cases w path with ⟨-, heq⟩ | ⟨-, heq⟩
  · rw [heq]
    exact .of_eq rfl rfl rfl rfl
  · rw [heq]
    exact .refl w

/-- Whatever requests do besides making documents and letting them go, nothing
comes or goes, and no document changes its key. -/
theorem confines_stays : Confines (Stays : Workspace ι υ σ → Workspace ι υ σ → Prop) where
  refl := .refl
  trans := .trans
  putBuffer _ _ _ := .of_eq rfl rfl rfl rfl
  touch := stays_touch
  revise w n _ := (Stays.refl w).modify n fun _ => ⟨rfl, rfl⟩

theorem stays_modifyHeld (w : Workspace ι υ σ) {f : Document ι υ → Document ι υ}
    (hf : ∀ d, (f d).key = d.key ∧ (f d).dependencies = d.dependencies) :
    Stays w (w.modifyHeld f) :=
  (Stays.refl w).modifyAll hf w.held

/-- A document that takes over a version of its part keeps its key, where the id
of the part stands, and its dependencies, which come from its unit. -/
theorem setPart_key (d : Document ι υ) (part : ProjectPart) :
    (d.setPart part).key = d.key ∧ (d.setPart part).dependencies = d.dependencies := by
  unfold Document.setPart
  split <;> exact ⟨rfl, rfl⟩

end Workspace

namespace ProjectParts

/-- A part that is registered stays so when another is put into the table. -/
theorem has_set (r : ProjectParts) (id id' : String) (part : ProjectPart)
    (h : r.has id' = true) : has ⟨r.parts.set id part⟩ id' = true := by
  unfold has at h ⊢
  rw [Table.has_eq_isSome_get?] at h ⊢
  rw [get?_set]
  split
  · rfl
  · exact h

/-- Registering parts loses none, and keeps every part under its own id. -/
theorem named_upsert (parts : List ProjectPart) :
    ∀ (r : ProjectParts) (clock : Clock),
      (r.Named → (upsert parts r clock).2.1.Named) ∧
      ∀ id, r.has id = true → (upsert parts r clock).2.1.has id = true := by
  induction parts with
  | nil =>
    intro r clock
    exact ⟨fun h => h, fun _ h => h⟩
  | cons part rest ih =>
    intro r clock
    obtain ⟨hnamed, hhas⟩ := ih (r.upsertOne part clock).2.1 (r.upsertOne part clock).2.2
    suffices hone : (r.Named → (r.upsertOne part clock).2.1.Named) ∧
        ∀ id, r.has id = true → (r.upsertOne part clock).2.1.has id = true from
      ⟨fun h => hnamed (hone.1 h), fun id h => hhas id (hone.2 id h)⟩
    unfold upsertOne
    cases hknown : r.parts.get? part.id with
    | none => exact ⟨fun h => named_set h part, fun id h => has_set r part.id id part h⟩
    | some known =>
      simp only
      split
      · exact ⟨fun h => h, fun _ h => h⟩
      · refine ⟨fun h => ?_, fun id hid => has_set r part.id id _ hid⟩
        -- the updated part keeps the id it was registered under
        have hid := h part.id known hknown
        show Named ⟨r.parts.set part.id _⟩
        rw [← hid]
        exact named_set h { known with arguments := part.arguments, changed := clock.now.1 }

end ProjectParts

namespace Workspace

/-- The documents of a part take over its current version and stay where they
are. -/
theorem stays_installPart (w : Workspace ι υ σ) (id : String) : Stays w (w.installPart id) := by
  unfold installPart
  split
  · exact .refl w
  · exact (Stays.refl w).modifyAll (fun d => setPart_key d _) _

theorem stays_installParts (ids : List String) :
    ∀ w : Workspace ι υ σ, Stays w (ids.foldl installPart w) := by
  induction ids with
  | nil => exact Stays.refl
  | cons id rest ih =>
    intro w
    exact (stays_installPart w id).trans (ih _)

/-- Registering parts moves no document: the table only grows, the documents
take over new versions, and the outdated ones are marked. -/
theorem stays_upsertParts (w : Workspace ι υ σ) (parts : List ProjectPart) :
    Stays w (w.upsertParts parts).2 := by
  obtain ⟨hnamed, hhas⟩ := ProjectParts.named_upsert parts w.parts w.clock
  have hregister : Stays w (w.registerParts parts).2 :=
    ⟨rfl, rfl, hnamed, hhas, rfl, fun n d hd => ⟨d, hd, rfl, rfl⟩⟩
  exact (hregister.trans (stays_installParts _ _)).trans (.of_marks (marks_markOutdated _))

/-! ## §2. Keys that are held. -/

/-- Looking a key up is a search through the documents that are held. -/
theorem hasDocument_eq_any (w : Workspace ι υ σ) (key : DocumentKey) :
    w.hasDocument key = w.held.any fun n => w.documents[n]?.any fun d => d.key.same key := by
  unfold hasDocument lookup? heldWhere
  rw [List.head?_filter, List.isSome_find?]

/-- A key is held if a held document has it, up to the spelling of its path. -/
theorem hasDocument_iff {w : Workspace ι υ σ} {key : DocumentKey} :
    w.hasDocument key = true ↔
      ∃ n ∈ w.held, ∃ d, w.documents[n]? = some d ∧ d.key.same key = true := by
  rw [hasDocument_eq_any, List.any_eq_true]
  simp only [Option.any_eq_true]

/-- A document that is held has its number. -/
def Known (w : Workspace ι υ σ) : Prop := ∀ n ∈ w.held, n < w.documents.length

theorem Stays.known {w w' : Workspace ι υ σ} (h : Stays w w') (hw : w.Known) : w'.Known := by
  unfold Known
  rw [h.held, h.length]
  exact hw

/-- What is held under which key depends on numbers and keys only. -/
theorem hasDocument_eq_of_keys {w w' : Workspace ι υ σ} (hheld : w'.held = w.held)
    (hlength : w'.documents.length = w.documents.length)
    (hkeys : ∀ (n : Nat) (d : Document ι υ), w.documents[n]? = some d →
      ∃ d', w'.documents[n]? = some d' ∧ d'.key = d.key) (key : DocumentKey) :
    w'.hasDocument key = w.hasDocument key := by
  rw [hasDocument_eq_any, hasDocument_eq_any, hheld]
  congr 1
  funext n
  cases hd : w.documents[n]? with
  | none =>
    have hlen : w.documents.length ≤ n := List.getElem?_eq_none_iff.1 hd
    rw [List.getElem?_eq_none (by rw [hlength]; exact hlen)]
  | some d =>
    obtain ⟨d', hd', hkey⟩ := hkeys n d hd
    rw [hd', Option.any_some, Option.any_some, hkey]

/-- Where documents only stay, the same keys are held. -/
theorem Stays.hasDocument_eq {w w' : Workspace ι υ σ} (h : Stays w w') (key : DocumentKey) :
    w'.hasDocument key = w.hasDocument key :=
  hasDocument_eq_of_keys h.held h.length
    (fun n d hd => (h.document n d hd).imp fun _ hd' => ⟨hd'.1, hd'.2.1⟩) key

/-- A document that stays was there before. -/
theorem Stays.before {w w' : Workspace ι υ σ} (h : Stays w w') {n : Nat} {d' : Document ι υ}
    (hd' : w'.documents[n]? = some d') :
    ∃ d, w.documents[n]? = some d ∧ d'.key = d.key ∧ d'.dependencies = d.dependencies := by
  have hlt : n < w.documents.length := by
    rw [← h.length]
    exact (List.getElem?_eq_some_iff.1 hd').1
  obtain ⟨d'', hd'', hsame⟩ := h.document n _ (List.getElem?_eq_getElem hlt)
  rw [hd'] at hd''
  cases hd''
  exact ⟨_, List.getElem?_eq_getElem hlt, hsame⟩

/-- What has come is held, beside everything that was. At which place in the
list it stands does not matter here. -/
theorem mem_held_come {w : Workspace ι υ σ} {d : Document ι υ} {n : Nat} :
    n ∈ (w.come d).held ↔ n = w.documents.length ∨ n ∈ w.held := by
  show n ∈ w.held.takeWhile _ ++ w.documents.length :: w.held.dropWhile _ ↔ _
  rw [List.mem_append, List.mem_cons, or_left_comm, ← List.mem_append,
    List.takeWhile_append_dropWhile]

/-- The documents that were there are left as they are by one that comes. -/
theorem getElem?_come_of_lt {w : Workspace ι υ σ} (d : Document ι υ) {n : Nat}
    (hn : n < w.documents.length) : (w.come d).documents[n]? = w.documents[n]? :=
  List.getElem?_append_left hn

theorem getElem?_come_self (w : Workspace ι υ σ) (d : Document ι υ) :
    (w.come d).documents[w.documents.length]? = some d := List.getElem?_concat_length

theorem length_come (w : Workspace ι υ σ) (d : Document ι υ) :
    (w.come d).documents.length = w.documents.length + 1 := List.length_append

theorem known_come {w : Workspace ι υ σ} (h : w.Known) (d : Document ι υ) : (w.come d).Known := by
  intro n hn
  rw [length_come]
  rcases mem_held_come.1 hn with rfl | hn
  · exact Nat.lt_succ_self _
  · exact Nat.lt_succ_of_lt (h n hn)

/-- The keys that are held when a document has come are its own and those held
before. -/
theorem hasDocument_come {w : Workspace ι υ σ} (h : w.Known) (d : Document ι υ)
    (key : DocumentKey) :
    (w.come d).hasDocument key = (d.key.same key || w.hasDocument key) := by
  rw [Bool.eq_iff_iff, Bool.or_eq_true, hasDocument_iff, hasDocument_iff]
  constructor
  · rintro ⟨n, hn, d', hd', hkey⟩
    rcases mem_held_come.1 hn with rfl | hn
    · rw [getElem?_come_self] at hd'
      cases hd'
      exact Or.inl hkey
    · rw [getElem?_come_of_lt d (h n hn)] at hd'
      exact Or.inr ⟨n, hn, d', hd', hkey⟩
  · rintro (hkey | ⟨n, hn, d', hd', hkey⟩)
    · exact ⟨_, mem_held_come.2 (Or.inl rfl), d, getElem?_come_self w d, hkey⟩
    · refine ⟨n, mem_held_come.2 (Or.inr hn), d', ?_, hkey⟩
      rw [getElem?_come_of_lt d (h n hn)]
      exact hd'

/-- Held after an eviction is what was held under another key. -/
theorem mem_held_evict {w : Workspace ι υ σ} {key : DocumentKey} {n : Nat} :
    n ∈ (w.evict key).held ↔ n ∈ w.held ∧ w.documents[n]?.any (·.key.same key) = false := by
  show n ∈ w.held.filter _ ↔ _
  rw [List.mem_filter, Bool.not_eq_true']

/-- The keys that are held after an eviction are those held before, less the
evicted one. -/
theorem hasDocument_evict (w : Workspace ι υ σ) (key k : DocumentKey) :
    (w.evict key).hasDocument k = (!k.same key && w.hasDocument k) := by
  rw [Bool.eq_iff_iff, Bool.and_eq_true, Bool.not_eq_true', hasDocument_iff, hasDocument_iff]
  constructor
  · rintro ⟨n, hn, d, hd, hk⟩
    have hd : w.documents[n]? = some d := hd
    obtain ⟨hn, hany⟩ := mem_held_evict.1 hn
    rw [hd, Option.any_some, DocumentKey.same_congr hk] at hany
    exact ⟨hany, n, hn, d, hd, hk⟩
  · rintro ⟨hkey, n, hn, d, hd, hk⟩
    refine ⟨n, mem_held_evict.2 ⟨hn, ?_⟩, d, hd, hk⟩
    rw [hd, Option.any_some, DocumentKey.same_congr hk]
    exact hkey

/-! ## §3. Turnover. -/

/-- Documents came, stayed and went.  Whatever comes has a key that is not
held, and a part that is registered. -/
inductive Turnover : Workspace ι υ σ → Workspace ι υ σ → Prop
  | stay {w w' : Workspace ι υ σ} (h : Stays w w') : Turnover w w'
  | come (w : Workspace ι υ σ) (d : Document ι υ) (hkey : w.hasDocument d.key = false)
      (hpart : w.parts.has d.key.part = true) : Turnover w (w.come d)
  | go (w : Workspace ι υ σ) (key : DocumentKey) : Turnover w (w.evict key)
  | trans {w w' w'' : Workspace ι υ σ} (h : Turnover w w') (h' : Turnover w' w'') : Turnover w w''

theorem Turnover.refl (w : Workspace ι υ σ) : Turnover w w := .stay (.refl w)

/-- Documents that stay are part of any turnover. -/
theorem confines_turnover : Confines (Turnover : Workspace ι υ σ → Workspace ι υ σ → Prop) where
  refl := .refl
  trans := .trans
  putBuffer w path content := .stay (confines_stays.putBuffer w path content)
  touch w path := .stay (stays_touch w path)
  revise w n revision := .stay (confines_stays.revise w n revision)

/-! ## §4. Documents are created. -/

/-- Where parts are registered under their own ids, what comes for an entry has
the key the entry names. -/
theorem createOne_stays_or_come {w : Workspace ι υ σ} (hnamed : w.parts.Named) (e : FileEntry) :
    (∃ refusal, (w.createOne e).1 = .error refusal ∧ Stays w (w.createOne e).2) ∨
    (∃ d, d.key = keyOf e ∧ w.parts.has d.key.part = true ∧
      w.createOne e = (.ok w.documents.length, w.now.2.come d)) := by
  rcases w.createOne_cases e with ⟨-, heq⟩ | ⟨part, -, -, -, heq⟩ | ⟨part, hpart, -, heq⟩
  · rw [heq]
    exact Or.inl ⟨_, rfl, .refl w⟩
  · rw [heq]
    exact Or.inl ⟨_, rfl, stays_now w⟩
  · have hid : part.id = e.part := hnamed e.part part hpart
    refine Or.inr ⟨w.madeFor e part, ?_, ?_, heq⟩
    · show (⟨e.path, part.id⟩ : DocumentKey) = ⟨e.path, e.part⟩
      rw [hid]
    · show w.parts.has part.id = true
      rw [hid, ProjectParts.has, Table.has_eq_isSome_get?, hpart]
      rfl

/-- The entries of a request that may be created have keys that are not held,
and are not keys of each other. -/
theorem requireNew_ok (entries : List FileEntry) :
    ∀ {w : Workspace ι υ σ} {seen : List DocumentKey}, w.requireNew entries seen = .ok () →
      (∀ e ∈ entries, w.hasDocument (keyOf e) = false ∧ ∀ key ∈ seen, (keyOf e).same key = false) ∧
      entries.Pairwise fun e e' => (keyOf e').same (keyOf e) = false := by
  induction entries with
  | nil =>
    intro w seen _
    exact ⟨fun e he => absurd he List.not_mem_nil, .nil⟩
  | cons e rest ih =>
    intro w seen h
    unfold requireNew at h
    split at h
    · cases h
    · rename_i hnew
      rw [Bool.or_eq_true, not_or, Bool.not_eq_true, Bool.not_eq_true] at hnew
      obtain ⟨hrest, hpairs⟩ := ih h
      refine ⟨fun e' he' => ?_, List.pairwise_cons.2 ⟨fun e' he' => ?_, hpairs⟩⟩
      · rcases List.mem_cons.1 he' with rfl | he'
        · refine ⟨hnew.1, fun key hkey => ?_⟩
          rw [← Bool.not_eq_true]
          exact List.any_eq_false.1 hnew.2 key hkey
        · obtain ⟨hheld, hseen⟩ := hrest e' he'
          exact ⟨hheld, fun key hkey => hseen key (List.mem_cons_of_mem _ hkey)⟩
      · exact (hrest e' he').2 (keyOf e) List.mem_cons_self

/-- Entries with keys that are held neither by documents nor by each other are
created one by one, by induction: each document that comes leaves the keys of
the others free. An entry that is refused ends the run. -/
theorem turnover_createAll (entries : List FileEntry) :
    ∀ {w : Workspace ι υ σ}, w.parts.Named → w.Known →
      (∀ e ∈ entries, w.hasDocument (keyOf e) = false) →
      (entries.Pairwise fun e e' => (keyOf e').same (keyOf e) = false) →
      Turnover w (createAll entries w).2 := by
  induction entries with
  | nil =>
    intro w _ _ _ _
    exact .refl w
  | cons e rest ih =>
    intro w hnamed hknown hnew hpairs
    have hannounce := confines_stays.announce w e
    have hnamed' := hannounce.named hnamed
    rw [createAll_cons]
    rcases createOne_stays_or_come hnamed' e with
      ⟨refusal, hrefused, hstays⟩ | ⟨d, hkey, hpart, hcreated⟩
    · rw [hrefused]
      exact .stay (hannounce.trans hstays)
    · rw [hcreated]
      have hstays := hannounce.trans (stays_now (w.announce e))
      have hfree : (w.announce e).now.2.hasDocument d.key = false := by
        rw [hstays.hasDocument_eq, hkey]
        exact hnew e List.mem_cons_self
      obtain ⟨hapart, hpairs⟩ := List.pairwise_cons.1 hpairs
      refine ((Turnover.stay hstays).trans (.come _ d hfree hpart)).trans
        (ih hnamed' (known_come (hstays.known hknown) d) (fun e' he' => ?_) hpairs)
      -- the document that has come does not stand in the way of the others
      rw [hasDocument_come (hstays.known hknown), hkey, DocumentKey.same_comm, hapart e' he',
        hstays.hasDocument_eq]
      exact hnew e' (List.mem_cons_of_mem _ he')

/-- A request to create documents is refused at the first look, or its documents
come until one of them is refused. -/
theorem turnover_create {w : Workspace ι υ σ} (hnamed : w.parts.Named) (hknown : w.Known)
    (entries : List FileEntry) : Turnover w (w.create entries).2 := by
  unfold create
  split
  · exact .refl w
  · split
    · exact .refl w
    · rename_i hnew
      obtain ⟨hheld, hpairs⟩ := requireNew_ok entries hnew
      exact turnover_createAll entries hnamed hknown (fun e he => (hheld e he).1) hpairs

/-! ## §5. Everything that can occur. -/

/-- The workspace in which documents come, stay and go: parts that are to be
removed are gone first. -/
def cleared (w : Workspace ι υ σ) : Occurrence → Workspace ι υ σ
  | .action (.removeParts ids) => w.withoutParts ids
  | _ => w

/-- Every occurrence comes down to documents that come, stay and go, once the
parts it removes are gone from the registry. -/
theorem turnover_perform {w : Workspace ι υ σ} (hnamed : w.parts.Named) (hknown : w.Known)
    (o : Occurrence) : Turnover (w.cleared o) (o.perform w) := by
  cases o with
  | upsertParts parts => exact .stay (stays_upsertParts w parts)
  | action a =>
    cases a with
    | create entries => exact turnover_create hnamed hknown entries
    | updateEntries entries => exact .stay (confines_stays.updateEntries w entries)
    | removeDocuments entries =>
      have hdropped : ∀ (w : Workspace ι υ σ) (path : Path), Turnover w (w.dropBuffer path).2 :=
        fun w path => .stay (stays_dropBuffer w path)
      exact confines_turnover.removeDocuments hdropped .go w entries
    | upsertParts given =>
      have hbuilt : Stays w { w with clock := (ProjectPart.newList given w.clock).2 } :=
        .of_eq rfl rfl rfl rfl
      exact .stay (hbuilt.trans (stays_upsertParts _ _))
    | removeParts ids =>
      show Turnover (w.withoutParts ids) (w.removeParts ids).2
      rcases removeParts_cases w ids with ⟨refusal, -, heq⟩ | ⟨-, heq⟩
      · rw [heq]
        exact .refl _
      · rw [heq]
        exact confines_turnover.foldl .go _ _
    | touch path => exact .stay (stays_touch w path)
    | markOutdated => exact .stay (.of_marks (marks_markOutdated w))
    | focus path => exact .stay (stays_modifyHeld w fun _ => ⟨rfl, rfl⟩)
    | reveal paths => exact .stay (stays_modifyHeld w fun _ => ⟨rfl, rfl⟩)
    | markDirty n => exact .stay (.of_marks (marks_markDirty w n))
    | markIfOutdated n => exact .stay (.of_marks (marks_markDirtyIf w _ n))
    | markIfDepends n path => exact .stay (.of_marks (marks_markDirtyIf w _ n))
    | setPart n id arguments => exact .stay ((stays_now w).modify n fun d => setPart_key d _)
    | setRevision n revision => exact .stay ((Stays.refl w).modify n fun _ => ⟨rfl, rfl⟩)
    | setUsed n on => exact .stay ((Stays.refl w).modify n fun _ => ⟨rfl, rfl⟩)
    | setVisible n on => exact .stay ((Stays.refl w).modify n fun _ => ⟨rfl, rfl⟩)
    | write path node => exact .stay (.of_eq rfl rfl rfl rfl)
    | erase path => exact .stay (.of_eq rfl rfl rfl rfl)

/-! ## §6. What lasts. -/

/-- A property that outlasts whatever comes, stays and goes. -/
structure Lasting (P : Workspace ι υ σ → Prop) : Prop where
  named : ∀ {w}, P w → w.parts.Named
  known : ∀ {w}, P w → w.Known
  stays : ∀ {w w'}, P w → Stays w w' → P w'
  come : ∀ {w} (d : Document ι υ), P w → w.hasDocument d.key = false → P (w.come d)
  evict : ∀ {w} (key : DocumentKey), P w → P (w.evict key)
  withoutParts : ∀ {w} (ids : List String), P w → P (w.withoutParts ids)

/-- What outlasts each of the three outlasts them in any order, by induction on
the turnover. -/
theorem Lasting.turnover {P : Workspace ι υ σ → Prop} (h : Lasting P) {w w' : Workspace ι υ σ}
    (hturnover : Turnover w w') : P w → P w' := by
  induction hturnover with
  | stay hstays => exact fun hw => h.stays hw hstays
  | come w d hkey _ => exact fun hw => h.come d hw hkey
  | go w key => exact h.evict key
  | trans _ _ ih ih' => exact fun hw => ih' (ih hw)

/-- Every occurrence is outlasted. -/
theorem Lasting.perform {P : Workspace ι υ σ → Prop} (h : Lasting P) {w : Workspace ι υ σ}
    (hw : P w) (o : Occurrence) : P (o.perform w) := by
  refine h.turnover (turnover_perform (h.named hw) (h.known hw) o) ?_
  unfold cleared
  split
  · exact h.withoutParts _ hw
  · exact hw

end Workspace

end ParseCache
