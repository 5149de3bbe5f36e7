/-
  ParseCache.Proofs.Collection.Loading — a valid configuration is loaded.

  A configuration is checked before anything is registered: its part ids are
  distinct, and its documents belong to parts of it.  The collection asks again,
  in its own terms: whether a part is registered, whether a document is held
  already, whether a file exists.  The first question is settled by the check.
  The second is not, because two paths may be spelled differently and come down
  to the same file once they are resolved.  The third is about the disk.

  Main results:
    * `Config.validate_eq_ok_iff` — what the check comes to;
    * `filled_createAll` — what entries without unsaved content leave;
    * `setUp_of_read` — when a valid configuration is loaded, what stops it, and
      what it leaves.
-/
import ParseCache.Command.Run
import ParseCache.Proofs.Collection.Refusal
import ParseCache.Proofs.Collection.Registering
import ParseCache.Proofs.Lists
import Mathlib.Data.List.Forall2

namespace ParseCache

variable {ι υ σ : Type}

/-! ## §1. Valid configurations. -/

namespace Config

theorem repeatedId?_eq_none_iff (parts : List PartConfig) :
    ∀ seen : List String, repeatedId? parts seen = none ↔
      (parts.map (·.id)).Nodup ∧ ∀ part ∈ parts, part.id ∉ seen := by
  induction parts with
  | nil =>
    intro seen
    exact ⟨fun _ => ⟨List.nodup_nil, nofun⟩, fun _ => rfl⟩
  | cons part rest ih =>
    intro seen
    rw [repeatedId?, List.map_cons, List.nodup_cons]
    by_cases hseen : part.id ∈ seen
    · rw [if_pos (List.contains_iff_mem.2 hseen)]
      exact ⟨nofun, fun h => absurd hseen (h.2 part List.mem_cons_self)⟩
    · rw [if_neg (fun h => hseen (List.contains_iff_mem.1 h)), ih]
      constructor
      · rintro ⟨hdistinct, hnew⟩
        refine ⟨⟨fun hmem => ?_, hdistinct⟩, fun p hp => ?_⟩
        · obtain ⟨p, hp, hid⟩ := List.mem_map.1 hmem
          exact hnew p hp (hid ▸ List.mem_cons_self)
        · rcases List.mem_cons.1 hp with rfl | hp
          · exact hseen
          · exact fun hmem => hnew p hp (List.mem_cons_of_mem _ hmem)
      · rintro ⟨⟨hfirst, hdistinct⟩, hnew⟩
        refine ⟨hdistinct, fun p hp hmem => ?_⟩
        rcases List.mem_cons.1 hmem with hid | hmem
        · exact hfirst (List.mem_map.2 ⟨p, hp, hid⟩)
        · exact hnew p (List.mem_cons_of_mem _ hp) hmem

/-- A configuration is valid if its ids are distinct and its documents belong to
parts of it. -/
theorem validate_eq_ok_iff (c : Config) :
    c.validate = .ok () ↔
      (c.parts.map (·.id)).Nodup ∧ ∀ d ∈ c.documents, ∃ p ∈ c.parts, p.id = d.part := by
  have hrepeated := repeatedId?_eq_none_iff c.parts []
  have hunknown : (c.documents.find? fun d => !(c.parts.any fun p => p.id == d.part)) = none ↔
      ∀ d ∈ c.documents, ∃ p ∈ c.parts, p.id = d.part := by
    simp only [List.find?_eq_none, Bool.not_eq_true', Bool.not_eq_false, List.any_eq_true,
      beq_iff_eq]
  unfold validate
  cases hid : repeatedId? c.parts [] with
  | some id =>
    refine ⟨nofun, fun h => ?_⟩
    rw [hrepeated.2 ⟨h.1, fun _ _ => List.not_mem_nil⟩] at hid
    cases hid
  | none =>
    have hdistinct := (hrepeated.1 hid).1
    cases hd : c.documents.find? fun d => !(c.parts.any fun p => p.id == d.part) with
    | some d =>
      refine ⟨nofun, fun h => ?_⟩
      rw [hunknown.2 h.2] at hd
      cases hd
    | none => exact ⟨fun _ => ⟨hdistinct, hunknown.1 hd⟩, fun _ => rfl⟩

/-- What is read is valid. -/
theorem validate_of_read {text : String} {c : Config} (h : read text = .ok c) :
    c.validate = .ok () := by
  unfold read at h
  cases hread : (Json.read? text).bind ofJson? with
  | none =>
    rw [hread] at h
    cases h
  | some c' =>
    rw [hread] at h
    obtain ⟨_, hvalid, hreturned⟩ := ok_of_bind h
    cases hreturned
    exact hvalid

/-- No two documents of a part come down to the same file. -/
def Distinct (c : Config) : Prop :=
  c.documents.Pairwise fun d e =>
    ¬ (d.part = e.part ∧ (c.resolve d.path).same (c.resolve e.path) = true)

end Config

/-- The first of some files that is missing, if files have to exist. -/
def missing? (required : Bool) (disk : Disk) (files : List Path) : Option Path :=
  if required then files.find? fun file => !disk.holds file else none

/-! ## §2. Entries without unsaved content. -/

/-- A document just made for an entry, under the part that is registered for it,
after the last change of that part. -/
def ProjectParts.Makes (r : ProjectParts) (e : FileEntry) (d : Document ι υ) : Prop :=
  ∃ part time, r.find e.part = .ok part ∧ part.changed < time ∧
    d = { Document.new e.path part e.arguments time with revision := e.revision }

namespace Workspace

variable {w w' : Workspace ι υ σ}

/-- The document of an entry that was not refused. -/
theorem createOne_of_ok {e : FileEntry} {n : Nat} (hpast : w.parts.Past w.clock.last)
    (h : (w.createOne e).1 = .ok n) :
    n = w.documents.length ∧
      ∃ d : Document ι υ, w.parts.Makes e d ∧ (w.createOne e).2 = w.now.2.come d := by
  rcases w.createOne_cases e with ⟨-, heq⟩ | ⟨_, -, -, -, heq⟩ | ⟨part, hget, -, heq⟩
  · rw [heq] at h
    cases h
  · rw [heq] at h
    cases h
  · have hpart : w.parts.find e.part = .ok part := by rw [ProjectParts.find, hget]
    have hlater : part.changed < w.now.1 :=
      TimePoint.lt_of_le_of_lt (hpast _ part hget) w.clock.last_lt_now
    rw [heq] at h ⊢
    cases h
    exact ⟨rfl, _, ⟨part, _, hpart, hlater, rfl⟩, rfl⟩

/-- What a list of entries leaves: a document each, in their order, and all of
them held. -/
structure Filled (w : Workspace ι υ σ) (entries : List FileEntry) (ns : List Nat)
    (w' : Workspace ι υ σ) : Prop where
  numbers : ns = List.range' w.documents.length entries.length
  documents : ∃ ds, w'.documents = w.documents ++ ds ∧ List.Forall₂ w.parts.Makes entries ds
  held : w'.held.Perm (ns ++ w.held)
  disk : w'.disk = w.disk
  buffers : w'.buffers = w.buffers

/-- What comes takes its place among what is held. -/
theorem held_come (w : Workspace ι υ σ) (d : Document ι υ) :
    (w.come d).held.Perm (w.documents.length :: w.held) := by
  show (w.held.takeWhile _ ++ w.documents.length :: w.held.dropWhile _).Perm _
  refine List.perm_middle.trans ?_
  rw [List.takeWhile_append_dropWhile]

theorem filled_createAll (entries : List FileEntry) :
    ∀ {w : Workspace ι υ σ} {ns : List Nat}, (∀ e ∈ entries, e.unsaved = none) →
      w.parts.Past w.clock.last → (createAll entries w).1 = .ok ns →
      w.Filled entries ns (createAll entries w).2 := by
  induction entries with
  | nil =>
    intro w ns _ _ h
    cases h
    exact ⟨rfl, ⟨[], (List.append_nil _).symm, .nil⟩, .refl _, rfl, rfl⟩
  | cons e rest ih =>
    intro w ns hplain hpast h
    -- without unsaved content nothing is announced, so only documents come
    have hannounce : w.announce e = w := by
      unfold announce
      rw [hplain e List.mem_cons_self]
    cases hone : (w.createOne e).1 with
    | error refusal =>
      have hstop : (createAll (e :: rest) w).1 = .error refusal := by
        rw [createAll_eq, hannounce, ← Prod.eta (w.createOne e), hone]
      rw [hstop] at h
      cases h
    | ok n =>
      obtain ⟨rfl, d, hmakes, hcome⟩ := createOne_of_ok hpast hone
      have hcons := createAll_of_ok (by rw [hannounce]; exact hone) rest
      rw [hannounce, hcome] at hcons
      rw [hcons] at h ⊢
      cases hrest : (createAll rest (w.now.2.come d)).1 with
      | error refusal =>
        rw [hrest] at h
        cases h
      | ok ns' =>
        rw [hrest] at h
        cases h
        have hlater : w.parts.Past w.now.2.clock.last :=
          hpast.later (TimePoint.le_of_lt w.clock.last_lt_now)
        obtain ⟨hnumbers, ⟨ds, hdocuments, hmade⟩, hheld, hdisk, hbuffers⟩ :=
          ih (w := w.now.2.come d) (fun e' he' => hplain e' (List.mem_cons_of_mem _ he')) hlater
            hrest
        rw [length_come] at hnumbers
        refine ⟨?_, ⟨d :: ds, ?_, .cons hmakes hmade⟩, ?_, hdisk, hbuffers⟩
        · rw [hnumbers, List.length_cons, List.range'_succ]
          rfl
        · rw [hdocuments]
          show w.documents ++ [d] ++ ds = _
          rw [List.append_assoc, List.singleton_append]
        · refine hheld.trans (((held_come w.now.2 d).append_left ns').trans ?_)
          exact List.perm_middle

/-! ## §3. Refusals. -/

/-- Entries that are not held and whose keys differ are not refused for their
keys. -/
theorem requireNew_eq_ok {entries : List FileEntry} :
    ∀ {seen : List DocumentKey},
      (∀ e ∈ entries, w.hasDocument (keyOf e) = false ∧
        ∀ key ∈ seen, (keyOf e).same key = false) →
      (entries.Pairwise fun e e' => (keyOf e').same (keyOf e) = false) →
      w.requireNew entries seen = .ok () := by
  induction entries with
  | nil =>
    intro seen _ _
    rfl
  | cons e rest ih =>
    intro seen hnew hpairs
    obtain ⟨hheld, hseen⟩ := hnew e List.mem_cons_self
    obtain ⟨hfirst, hpairs⟩ := List.pairwise_cons.1 hpairs
    have hnone : (w.hasDocument (keyOf e) || seen.any (keyOf e).same) = false := by
      rw [hheld, Bool.false_or, List.any_eq_false]
      intro key hkey
      rw [hseen key hkey]
      exact Bool.false_ne_true
    rw [requireNew, hnone]
    refine ih (fun e' he' => ⟨(hnew e' (List.mem_cons_of_mem _ he')).1, fun key hkey => ?_⟩) hpairs
    rcases List.mem_cons.1 hkey with rfl | hkey
    · exact hfirst e' he'
    · exact (hnew e' (List.mem_cons_of_mem _ he')).2 key hkey

/-- Where nothing is held, only equal keys are refused. -/
theorem requireNew_eq_ok_iff (hheld : w.held = []) (entries : List FileEntry) :
    w.requireNew entries [] = .ok () ↔
      entries.Pairwise fun e e' => (keyOf e').same (keyOf e) = false := by
  refine ⟨fun h => (requireNew_ok entries h).2, fun h => requireNew_eq_ok (fun e _ => ?_) h⟩
  refine ⟨?_, nofun⟩
  rw [hasDocument_eq_any, hheld, List.any_nil]

theorem requireParts_eq_ok {entries : List FileEntry} (h : w.Placed entries) :
    w.requireParts entries = .ok () := by
  induction entries with
  | nil => rfl
  | cons e rest ih =>
    obtain ⟨part, hpart⟩ := h e List.mem_cons_self
    rw [requireParts, hpart]
    exact ih fun e' he' => h e' (List.mem_cons_of_mem _ he')

/-- Entries of registered parts are refused for their keys, or have their turn. -/
theorem create_of_placed {entries : List FileEntry} (h : w.Placed entries) :
    (w.requireNew entries [] ≠ .ok () ∧ ∃ path part,
      w.create entries = (.error (.documentAlreadyExists path part), w)) ∨
    (w.requireNew entries [] = .ok () ∧ w.create entries = createAll entries w) := by
  unfold create
  rw [requireParts_eq_ok h]
  rcases w.requireNew_cases entries [] with ⟨path, part, hnew⟩ | hnew
  · simp only [hnew]
    exact Or.inl ⟨nofun, path, part, rfl⟩
  · simp only [hnew]
    exact Or.inr ⟨trivial, trivial⟩

/-- The first missing file stops entries of registered parts, and nothing else
does. -/
theorem createAll_of_placed (htidy : w.Tidy) {entries : List FileEntry} (h : w.Placed entries) :
    (∃ file, missing? w.requireFiles w.disk (entries.map (·.path)) = some file ∧
      (createAll entries w).1 = .error (.fileDoesNotExist file)) ∨
    (missing? w.requireFiles w.disk (entries.map (·.path)) = none ∧
      ∃ ns, (createAll entries w).1 = .ok ns) := by
  cases houtcome : (createAll entries w).1 with
  | error refusal =>
    obtain ⟨before, e, after, rfl, rfl, hstopped⟩ := createAll_refused entries h houtcome
    obtain ⟨ns, hcreated⟩ := hstopped.created
    have hfound := (created_createAll before htidy.named htidy.known hcreated).files
      hstopped.required
    have hbefore : (before.map (·.path)).find? (fun file => !w.disk.holds file) = none := by
      rw [List.find?_eq_none]
      intro file hfile
      obtain ⟨e', he', rfl⟩ := List.mem_map.1 hfile
      rw [hfound e' he']
      exact Bool.false_ne_true
    refine Or.inl ⟨e.path, ?_, rfl⟩
    rw [missing?, if_pos hstopped.required, List.map_append, List.find?_append, hbefore,
      Option.none_or, List.map_cons, List.find?_cons_of_pos]
    rw [hstopped.missing]
    rfl
  | ok ns =>
    refine Or.inr ⟨?_, ns, rfl⟩
    unfold missing?
    split
    · rename_i hrequired
      have hfound := (created_createAll entries htidy.named htidy.known houtcome).files hrequired
      rw [List.find?_eq_none]
      intro file hfile
      obtain ⟨e, he, rfl⟩ := List.mem_map.1 hfile
      rw [hfound e he]
      exact Bool.false_ne_true
    · rfl

/-! ## §4. Loading. -/

/-- A configuration is loaded: its parts are registered, and its documents
created. -/
def setUp (w : Workspace ι υ σ) (c : Config) :
    Except DocumentError (List Nat) × Workspace ι υ σ :=
  (w.upsertFresh c.resolvedParts).2.create c.entries

/-- Where there was nothing before, the listed parts are registered, and that is
all there is. -/
structure Ready (disk : Disk) (requireFiles : Bool) (given : List (String × List String))
    (w : Workspace ι υ σ) : Prop where
  tidy : w.Tidy
  dated : w.Dated
  disk_eq : w.disk = disk
  requireFiles_eq : w.requireFiles = requireFiles
  held_eq : w.held = []
  documents_eq : w.documents = []
  files_eq : w.buffers.files = .empty
  arguments?_eq : ∀ id, w.parts.arguments? id = lastArguments? given id

theorem ready_upsertFresh (disk : Disk) (requireFiles : Bool) (context : σ)
    (given : List (String × List String)) :
    Ready disk requireFiles given
      ((new disk requireFiles context : Workspace ι υ σ).upsertFresh given).2 := by
  have hreached : Reached ((new disk requireFiles context : Workspace ι υ σ).upsertFresh given).2 :=
    (Reached.start disk requireFiles context).meanwhile
      (.occur .nothing (.action (.upsertParts given)))
  have hbegun : (new disk requireFiles context : Workspace ι υ σ).Begun := by
    intro n d hd
    cases hd
  have hcarried : (new disk requireFiles context : Workspace ι υ σ).Carried := by
    intro n hn
    cases hn
  have hspec := reconfigured_upsertFresh (tidy_new disk requireFiles context) hbegun given
    (ordered_new disk requireFiles context) (dated_new disk requireFiles context) hcarried
  have hheld : ((new disk requireFiles context : Workspace ι υ σ).upsertFresh given).2.held = [] :=
    congrArg Workspace.held hspec.rest
  refine ⟨tidy_of_reached hreached,
    dated_perform (dated_new disk requireFiles context) (.upsertParts given),
    congrArg Workspace.disk hspec.rest, congrArg Workspace.requireFiles hspec.rest, hheld, ?_,
    congrArg (fun w : Workspace ι υ σ => w.buffers.files) hspec.rest, fun id => ?_⟩
  · apply List.ext_getElem?
    intro n
    refine hspec.others n fun hn => ?_
    have hmem := ((hspec.returned n).1 hn).1
    rw [hheld] at hmem
    cases hmem
  · rw [hspec.arguments]
    exact Option.or_none

end Workspace

namespace Config

/-- The document with this number is the one that an entry of the configuration
asks for: up to date, and to be parsed with the arguments of its part and its
own. -/
def Loads (c : Config) (w : Workspace ι υ σ) (d : DocumentConfig) (n : Nat) : Prop :=
  ∃ part ∈ c.parts, part.id = d.part ∧ ∃ document, w.documents[n]? = some document ∧
    document.key = ⟨c.resolve d.path, d.part⟩ ∧ document.dirty = false ∧
    document.isOutdated = false ∧
    (document.snapshot w.buffers).arguments = c.resolveArguments part.arguments ++ d.arguments

variable {c : Config} {w : Workspace ι υ σ}

/-- The parts of a valid configuration are registered with their own arguments. -/
theorem lastArguments?_resolvedParts (hc : c.validate = .ok ()) {part : PartConfig}
    (hpart : part ∈ c.parts) :
    lastArguments? c.resolvedParts part.id = some (c.resolveArguments part.arguments) := by
  have hids : c.resolvedParts.map Prod.fst = c.parts.map (·.id) := by
    rw [resolvedParts, List.map_map]
    rfl
  have hdistinct := (validate_eq_ok_iff c).1 hc |>.1
  rw [← hids] at hdistinct
  exact lastArguments?_of_mem hdistinct (List.mem_map_of_mem hpart)

/-- The part of a document is found, with the arguments it is listed with. -/
theorem find_of_ready {disk : Disk} {requireFiles : Bool} (hc : c.validate = .ok ())
    (hready : w.Ready disk requireFiles c.resolvedParts) {d : DocumentConfig}
    (hd : d ∈ c.documents) :
    ∃ part ∈ c.parts, part.id = d.part ∧ ∃ registered, w.parts.find d.part = .ok registered ∧
      registered.id = d.part ∧ registered.arguments = c.resolveArguments part.arguments := by
  obtain ⟨part, hpart, hid⟩ := ((validate_eq_ok_iff c).1 hc).2 d hd
  have hlisted := hready.arguments?_eq part.id
  rw [lastArguments?_resolvedParts hc hpart, hid, ProjectParts.arguments?,
    Option.map_eq_some_iff] at hlisted
  obtain ⟨registered, hget, harguments⟩ := hlisted
  refine ⟨part, hpart, hid, registered, ?_, hready.tidy.named _ _ hget, harguments⟩
  rw [ProjectParts.find, hget]

theorem placed_entries {disk : Disk} {requireFiles : Bool} (hc : c.validate = .ok ())
    (hready : w.Ready disk requireFiles c.resolvedParts) : w.Placed c.entries := by
  intro e he
  obtain ⟨d, hd, rfl⟩ := List.mem_map.1 he
  obtain ⟨-, -, -, registered, hfind, -⟩ := find_of_ready hc hready hd
  exact ⟨registered, hfind⟩

/-- The keys of the entries differ if the documents do. -/
theorem pairwise_entries_iff (c : Config) :
    (c.entries.Pairwise fun e e' =>
        (Workspace.keyOf e').same (Workspace.keyOf e) = false) ↔ c.Distinct := by
  unfold entries Distinct
  rw [List.pairwise_map]
  have hiff : ∀ d e : DocumentConfig, (⟨c.resolve e.path, e.part⟩ : DocumentKey).same
      ⟨c.resolve d.path, d.part⟩ = false ↔
      ¬ (d.part = e.part ∧ (c.resolve d.path).same (c.resolve e.path) = true) := by
    intro d e
    rw [DocumentKey.same_comm, DocumentKey.same, Bool.and_eq_false_iff, not_and_or,
      beq_eq_false_iff_ne, Bool.not_eq_true, or_comm]
  exact ⟨fun h => h.imp fun {d e} hde => (hiff d e).1 hde,
    fun h => h.imp fun {d e} hde => (hiff d e).2 hde⟩

/-- The documents that come are those the configuration lists. -/
theorem loads_of_filled {disk : Disk} {requireFiles : Bool} (hc : c.validate = .ok ())
    (hready : w.Ready disk requireFiles c.resolvedParts) {ns : List Nat}
    {w' : Workspace ι υ σ} (h : w.Filled c.entries ns w') :
    List.Forall₂ (c.Loads w') c.documents ns := by
  obtain ⟨ds, hdocuments, hmade⟩ := h.documents
  rw [hready.documents_eq, List.nil_append] at hdocuments
  have hnumbers := h.numbers
  rw [hready.documents_eq] at hnumbers
  rw [List.forall₂_iff_get] at hmade ⊢
  obtain ⟨hlength, hmade⟩ := hmade
  have hentries : c.entries.length = c.documents.length := List.length_map _
  refine ⟨by rw [hnumbers, List.length_range', hentries], fun i hi hi' => ?_⟩
  have hnumber : ns.get ⟨i, hi'⟩ = i := by
    simp only [hnumbers, List.get_eq_getElem, List.getElem_range', List.length_nil]
    omega
  have hbound : i < ds.length := by
    rw [← hlength, hentries]
    exact hi
  have hentry : c.entries.get ⟨i, hentries ▸ hi⟩ =
      { FileEntry.new (c.resolve (c.documents.get ⟨i, hi⟩).path) (c.documents.get ⟨i, hi⟩).part with
        arguments := (c.documents.get ⟨i, hi⟩).arguments } := List.getElem_map _
  obtain ⟨registered, time, hfind, hlater, hdocument⟩ := hmade i (hentries ▸ hi) hbound
  rw [hentry] at hfind hdocument
  obtain ⟨part, hpart, hid, registered', hfind', hname, harguments⟩ :=
    find_of_ready hc hready (c.documents.get_mem ⟨i, hi⟩)
  have hsame : registered' = registered := Except.ok.inj (hfind'.symm.trans hfind)
  subst hsame
  have hnew : registered'.changed < time := hlater
  rw [hnumber]
  refine ⟨part, hpart, hid, ds.get ⟨i, hbound⟩, ?_, ?_, ?_, ?_, ?_⟩
  · rw [hdocuments]
    exact List.getElem?_eq_getElem hbound
  · rw [hdocument]
    exact congrArg (DocumentKey.mk _) hname
  · rw [hdocument]
    rfl
  · rw [hdocument]
    exact decide_eq_false (Nat.not_le_of_lt hnew)
  · rw [hdocument, ← harguments]
    rfl

end Config

namespace Workspace

/-- What becomes of a valid configuration.  Documents that come down to the same
file stop it before anything is created, the first missing file stops it at its
turn, and nothing else does. -/
theorem setUp_cases {c : Config} (hvalid : c.validate = .ok ()) (disk : Disk) (context : σ) :
    let missing := missing? c.requireFiles disk (c.documents.map fun d => c.resolve d.path)
    let outcome := (new disk c.requireFiles context : Workspace ι υ σ).setUp c
    (¬ c.Distinct ∧ outcome.2.held = [] ∧ outcome.2.documents = [] ∧
      ∃ path part, outcome.1 = .error (.documentAlreadyExists path part)) ∨
    (c.Distinct ∧ ∃ file, missing = some file ∧ outcome.1 = .error (.fileDoesNotExist file)) ∨
    (c.Distinct ∧ missing = none ∧ ∃ ns, outcome.1 = .ok ns ∧ outcome.2.held.Perm ns ∧
      ns.Nodup ∧ List.Forall₂ (c.Loads outcome.2) c.documents ns) := by
  intro missing outcome
  have hready := ready_upsertFresh (ι := ι) (υ := υ) disk c.requireFiles context c.resolvedParts
  have hplaced := Config.placed_entries hvalid hready
  have hdistinct := (requireNew_eq_ok_iff hready.held_eq c.entries).trans c.pairwise_entries_iff
  have houtcome : outcome = (((new disk c.requireFiles context : Workspace ι υ σ).upsertFresh
    c.resolvedParts).2).create c.entries := rfl
  rcases create_of_placed hplaced with ⟨hnew, path, part, hrefused⟩ | ⟨hnew, hcreates⟩
  · rw [hrefused] at houtcome
    refine Or.inl ⟨fun hd => hnew (hdistinct.2 hd), ?_⟩
    rw [houtcome]
    exact ⟨hready.held_eq, hready.documents_eq, path, part, rfl⟩
  · rw [hcreates] at houtcome
    have hfiles : c.entries.map (·.path) = c.documents.map fun d => c.resolve d.path :=
      List.map_map
    have hstopped := createAll_of_placed hready.tidy hplaced
    rw [hready.requireFiles_eq, hready.disk_eq, hfiles, ← houtcome] at hstopped
    rcases hstopped with hmissing | ⟨hmissing, ns, hcreated⟩
    · exact Or.inr (Or.inl ⟨hdistinct.1 hnew, hmissing⟩)
    · refine Or.inr (Or.inr ⟨hdistinct.1 hnew, hmissing, ns, hcreated, ?_⟩)
      rw [houtcome] at hcreated ⊢
      have hfilled := filled_createAll c.entries (fun e he => by
        obtain ⟨d, -, rfl⟩ := List.mem_map.1 he
        rfl) hready.dated.registered hcreated
      have hheld := hfilled.held
      rw [hready.held_eq, List.append_nil] at hheld
      refine ⟨hheld, ?_, Config.loads_of_filled hvalid hready hfilled⟩
      rw [hfilled.numbers]
      exact List.nodup_range'

/-- A valid configuration is loaded exactly if its documents are distinct and the
files that have to exist do.  No part is unknown.  Documents that come down to
the same file stop it before anything is created; the first missing file stops
it at its turn.  Otherwise there is one document for each entry, up to date, to
be parsed with the arguments of its part and then its own. -/
theorem setUp_of_read {text : String} {c : Config} (h : Config.read text = .ok c)
    (base : Option Path) (disk : Disk) (context : σ) :
    let based := { c with base := base }
    let files := based.documents.map fun d => based.resolve d.path
    let missing := missing? based.requireFiles disk files
    let outcome := (new disk based.requireFiles context : Workspace ι υ σ).setUp based
    (∀ id, outcome.1 ≠ .error (.projectPartDoesNotExist id)) ∧
    ((∃ path part, outcome.1 = .error (.documentAlreadyExists path part)) ↔ ¬ based.Distinct) ∧
    ((∃ path part, outcome.1 = .error (.documentAlreadyExists path part)) →
      outcome.2.held = [] ∧ outcome.2.documents = []) ∧
    (∀ path, outcome.1 = .error (.fileDoesNotExist path) ↔
      based.Distinct ∧ missing = some path) ∧
    ((∃ ns, outcome.1 = .ok ns) ↔ based.Distinct ∧ missing = none) ∧
    (∀ ns, outcome.1 = .ok ns → outcome.2.held.Perm ns ∧ ns.Nodup ∧
      List.Forall₂ (based.Loads outcome.2) based.documents ns) := by
  intro based files missing outcome
  have hvalid : based.validate = .ok () := by
    show c.validate = .ok ()
    exact Config.validate_of_read h
  rcases setUp_cases (ι := ι) (υ := υ) hvalid disk context with
    ⟨hcollides, hheld, hdocuments, path, part, hrefused⟩ | ⟨hd, file, hmissing, hrefused⟩ |
    ⟨hd, hmissing, ns, hcreated, hheld, hnodup, hloads⟩
  · have hrefused : outcome.1 = .error (.documentAlreadyExists path part) := hrefused
    rw [hrefused]
    exact ⟨nofun, ⟨fun _ => hcollides, fun _ => ⟨path, part, rfl⟩⟩, fun _ => ⟨hheld, hdocuments⟩,
      fun _ => ⟨nofun, fun hall => absurd hall.1 hcollides⟩,
      ⟨nofun, fun hall => absurd hall.1 hcollides⟩, nofun⟩
  · have hrefused : outcome.1 = .error (.fileDoesNotExist file) := hrefused
    have hmissing : missing = some file := hmissing
    rw [hrefused, hmissing]
    refine ⟨nofun, ⟨nofun, absurd hd⟩, nofun, fun path => ⟨?_, ?_⟩, ⟨nofun, nofun⟩, nofun⟩
    · rintro ⟨⟩
      exact ⟨hd, rfl⟩
    · rintro ⟨-, ⟨⟩⟩
      rfl
  · have hcreated : outcome.1 = .ok ns := hcreated
    have hmissing : missing = none := hmissing
    rw [hcreated, hmissing]
    refine ⟨nofun, ⟨nofun, absurd hd⟩, nofun, fun path => ⟨nofun, nofun⟩,
      ⟨fun _ => ⟨hd, rfl⟩, fun _ => ⟨ns, rfl⟩⟩, ?_⟩
    rintro ns' ⟨⟩
    exact ⟨hheld, hnodup, hloads⟩

/-- Two documents of two parts, as a text lists them. -/
def listedText : String :=
  "\x7b\"project_parts\":[\x7b\"id\":\"p\",\"arguments\":[\"-Iinc\",\"-DX\"]\x7d,"
  ++ "\x7b\"id\":\"q\"\x7d],\"documents\":[\x7b\"path\":\"./a.c\",\"project_part\":\"p\","
  ++ "\"arguments\":[\"-O2\"]\x7d,\x7b\"path\":\"/w/a.c\",\"project_part\":\"q\"\x7d]\x7d"

/-- What the text stands for. -/
def listed : Config where
  parts := [⟨"p", ["-Iinc", "-DX"]⟩, ⟨"q", []⟩]
  documents := [⟨⟨"./a.c"⟩, "p", ["-O2"]⟩, ⟨⟨"/w/a.c"⟩, "q", []⟩]
  requireFiles := true
  base := none

/-- Both documents come down to one file, which exists, under two parts. -/
theorem setUp_of_read_listed :
    Config.read listedText = .ok listed ∧
    ∃ ns, ((new ((Disk.fresh []).write ⟨"/w/a.c"⟩ (.text "")) true () :
      Workspace Unit Unit Unit).setUp { listed with base := some ⟨"/w"⟩ }).1 = .ok ns := by
  have hread : Config.read listedText = .ok listed := by decide +kernel
  refine ⟨hread, (setUp_of_read hread (some ⟨"/w"⟩) _ ()).2.2.2.2.1.2 ⟨?_, ?_⟩⟩
  · unfold Config.Distinct
    decide +kernel
  · decide +kernel

end Workspace

end ParseCache
