/-
  ParseCache.Proofs.Collection.Registering — what an upsert of parts comes to.

  A list of parts is registered entry by entry, and each entry is compared with
  what is registered at that moment, which may be what an earlier entry has just
  brought.  A part may thus be stamped more than once, and also if in the end it
  has the arguments it had at first.  Only when the list is through are the parts
  that changed handed to their documents, under the version they have then; and
  the sweep that follows finds every document that is outdated, whatever made it
  so.

  Main results:
    * `arguments?_upsert`, `mem_upsert_iff` — what is registered afterwards, and
      which ids changed on the way, told from the list alone;
    * `getElem?_installParts` — what handing out makes of a document;
    * `reconfigured_upsertFresh` — the whole upsert, for a cache whose documents
      carry what is registered;
    * `upsertFresh_of_registered` — parts that are registered as listed are left
      alone.
-/
import ParseCache.Proofs.Collection.KeyOrder
import ParseCache.Proofs.Collection.Stamps

namespace ParseCache

variable {ι υ σ : Type}

/-! ## §1. The list. -/

/-- The arguments that are listed last for a part. -/
def lastArguments? (given : List (String × List String)) (id : String) : Option (List String) :=
  ((given.filter (·.1 == id)).map (·.2)).getLast?

theorem lastArguments?_append (before after : List (String × List String)) (id : String) :
    lastArguments? (before ++ after) id =
      (lastArguments? after id).or (lastArguments? before id) := by
  unfold lastArguments?
  rw [List.filter_append, List.map_append, List.getLast?_append]

theorem lastArguments?_singleton (id' : String) (arguments : List String) (id : String) :
    lastArguments? [(id', arguments)] id = if id' = id then some arguments else none := by
  unfold lastArguments?
  by_cases hid : id' = id
  · simp [hid]
  · simp [hid]

/-- An id that is not listed has no arguments. -/
theorem lastArguments?_of_notMem {given : List (String × List String)} {id : String}
    (h : id ∉ given.map Prod.fst) : lastArguments? given id = none := by
  have hnone : given.filter (·.1 == id) = [] := by
    rw [List.filter_eq_nil_iff]
    intro e he hid
    exact h (List.mem_map.2 ⟨e, he, beq_iff_eq.1 hid⟩)
  rw [lastArguments?, hnone]
  rfl

/-- An id that is listed once has the arguments it is listed with. -/
theorem lastArguments?_of_mem {given : List (String × List String)}
    (hdistinct : (given.map Prod.fst).Nodup) {e : String × List String} (he : e ∈ given) :
    lastArguments? given e.1 = some e.2 := by
  obtain ⟨before, after, hlist⟩ := List.append_of_mem he
  have hnotMem : e.1 ∉ after.map Prod.fst := by
    rw [hlist, List.map_append, List.map_cons] at hdistinct
    exact (List.nodup_cons.1 (List.nodup_append.1 hdistinct).2.1).1
  have hone : e :: after = [e] ++ after := rfl
  rw [hlist, lastArguments?_append, hone, lastArguments?_append,
    lastArguments?_of_notMem hnotMem, lastArguments?_singleton, if_pos rfl]
  rfl

/-- What a list of parts says. -/
def ProjectPart.listing (part : ProjectPart) : String × List String := (part.id, part.arguments)

theorem ProjectPart.map_listing_newList (given : List (String × List String)) :
    ∀ clock : Clock, (newList given clock).1.map listing = given := by
  induction given with
  | nil => exact fun _ => rfl
  | cons e rest ih =>
    intro clock
    exact congrArg (List.cons e) (ih clock.now.2)

/-! ## §2. The registry. -/

namespace ProjectParts

/-- The arguments a part is registered with. -/
def arguments? (r : ProjectParts) (id : String) : Option (List String) :=
  (r.parts.get? id).map (·.arguments)

/-- Some entry for the part differs from what is registered when its turn has
come: the last entry before it, or what was there to begin with.  An id that is
new differs from nothing. -/
def Changes (r : ProjectParts) (given : List (String × List String)) (id : String) : Prop :=
  ∃ before arguments after, given = before ++ (id, arguments) :: after ∧
    (lastArguments? before id).or (r.arguments? id) ≠ some arguments

variable {r r' : ProjectParts} {id : String}

/-- The first entry differs from what is registered, or a later one from what
is registered after it. -/
theorem changes_cons {e : String × List String} {rest : List (String × List String)}
    (hnext : r'.arguments? id = (lastArguments? [e] id).or (r.arguments? id)) :
    r.Changes (e :: rest) id ↔ (e.1 = id ∧ r.arguments? id ≠ some e.2) ∨ r'.Changes rest id := by
  have hbefore : ∀ before, (lastArguments? (e :: before) id).or (r.arguments? id) =
      (lastArguments? before id).or (r'.arguments? id) := by
    intro before
    rw [hnext, ← Option.or_assoc, ← lastArguments?_append]
    rfl
  constructor
  · rintro ⟨before, arguments, after, hlist, hdiffers⟩
    cases before with
    | nil =>
      cases hlist
      exact Or.inl ⟨rfl, hdiffers⟩
    | cons e' before =>
      cases hlist
      rw [hbefore] at hdiffers
      exact Or.inr ⟨before, arguments, after, rfl, hdiffers⟩
  · rintro (⟨rfl, hdiffers⟩ | ⟨before, arguments, after, rfl, hdiffers⟩)
    · exact ⟨[], e.2, rest, rfl, hdiffers⟩
    · refine ⟨e :: before, arguments, after, rfl, ?_⟩
      rw [hbefore]
      exact hdiffers

theorem arguments?_set (r : ProjectParts) (id' : String) (part : ProjectPart) (id : String) :
    arguments? ⟨r.parts.set id' part⟩ id =
      if id = id' then some part.arguments else r.arguments? id := by
  unfold arguments?
  rw [get?_set]
  split <;> rfl

/-- A part that is registered as given is left alone, and any other is put in
with the arguments that are given. -/
theorem upsertOne_cases (r : ProjectParts) (part : ProjectPart) (clock : Clock) :
    (r.arguments? part.id = some part.arguments ∧ r.upsertOne part clock = (false, r, clock)) ∨
    (r.arguments? part.id ≠ some part.arguments ∧ ∃ part' clock',
      part'.arguments = part.arguments ∧
        r.upsertOne part clock = (true, ⟨r.parts.set part.id part'⟩, clock')) := by
  unfold upsertOne arguments?
  cases hknown : r.parts.get? part.id with
  | none => exact Or.inr ⟨nofun, part, clock, rfl, rfl⟩
  | some known =>
    simp only
    by_cases hsame : known.arguments = part.arguments
    · rw [if_pos hsame]
      exact Or.inl ⟨congrArg some hsame, rfl⟩
    · rw [if_neg hsame]
      exact Or.inr ⟨fun heq => hsame (Option.some.inj heq),
        (known.setArguments part.arguments clock).1, (known.setArguments part.arguments clock).2,
        rfl, rfl⟩

/-- After one entry the part has the arguments of the entry. -/
theorem arguments?_upsertOne (r : ProjectParts) (part : ProjectPart) (clock : Clock)
    (id : String) : (r.upsertOne part clock).2.1.arguments? id =
      (lastArguments? [part.listing] id).or (r.arguments? id) := by
  have hlisted : lastArguments? [part.listing] id =
      if part.id = id then some part.arguments else none :=
    lastArguments?_singleton part.id part.arguments id
  rw [hlisted]
  rcases upsertOne_cases r part clock with ⟨hsame, heq⟩ | ⟨-, part', clock', harguments, heq⟩
  · rw [heq]
    by_cases hid : part.id = id
    · rw [if_pos hid, ← hid, hsame]
      rfl
    · rw [if_neg hid]
      rfl
  · rw [heq]
    show arguments? ⟨r.parts.set part.id part'⟩ id = _
    rw [arguments?_set, harguments]
    by_cases hid : part.id = id
    · rw [if_pos hid, if_pos hid.symm]
      rfl
    · rw [if_neg hid, if_neg (Ne.symm hid)]
      rfl

theorem upsertOne_fst (r : ProjectParts) (part : ProjectPart) (clock : Clock) :
    (r.upsertOne part clock).1 = true ↔ r.arguments? part.id ≠ some part.arguments := by
  rcases upsertOne_cases r part clock with ⟨hsame, heq⟩ | ⟨hdiffers, _, _, -, heq⟩
  · rw [heq]
    exact iff_of_false Bool.false_ne_true fun hne => hne hsame
  · rw [heq]
    exact iff_of_true rfl hdiffers

/-- The last entry for a part counts. -/
theorem arguments?_upsert (parts : List ProjectPart) (id : String) :
    ∀ (r : ProjectParts) (clock : Clock), (upsert parts r clock).2.1.arguments? id =
      (lastArguments? (parts.map ProjectPart.listing) id).or (r.arguments? id) := by
  induction parts with
  | nil => exact fun _ _ => rfl
  | cons part rest ih =>
    intro r clock
    have hone := arguments?_upsertOne r part clock id
    have hrest := ih (r.upsertOne part clock).2.1 (r.upsertOne part clock).2.2
    rw [hone, ← Option.or_assoc, ← lastArguments?_append] at hrest
    exact hrest

theorem upsert_cons_fst (part : ProjectPart) (rest : List ProjectPart) (r : ProjectParts)
    (clock : Clock) : (upsert (part :: rest) r clock).1 =
      if (r.upsertOne part clock).1 then
        part.id :: (upsert rest (r.upsertOne part clock).2.1 (r.upsertOne part clock).2.2).1
      else (upsert rest (r.upsertOne part clock).2.1 (r.upsertOne part clock).2.2).1 := rfl

/-- The ids that are returned are those that changed on the way. -/
theorem mem_upsert_iff (parts : List ProjectPart) (id : String) :
    ∀ (r : ProjectParts) (clock : Clock),
      id ∈ (upsert parts r clock).1 ↔ r.Changes (parts.map ProjectPart.listing) id := by
  induction parts with
  | nil =>
    intro r clock
    refine iff_of_false List.not_mem_nil ?_
    rintro ⟨before, arguments, after, hlist, -⟩
    cases before <;> cases hlist
  | cons part rest ih =>
    intro r clock
    have hchanged := upsertOne_fst r part clock
    have hrest := ih (r.upsertOne part clock).2.1 (r.upsertOne part clock).2.2
    rw [List.map_cons, changes_cons (arguments?_upsertOne r part clock id), ← hrest,
      upsert_cons_fst]
    show _ ↔ (part.id = id ∧ r.arguments? id ≠ some part.arguments) ∨ _
    by_cases hone : (r.upsertOne part clock).1 = true
    · rw [if_pos hone, List.mem_cons]
      refine or_congr_left ⟨?_, fun h => h.1.symm⟩
      rintro rfl
      exact ⟨rfl, hchanged.1 hone⟩
    · rw [if_neg hone]
      refine ⟨Or.inr, fun h => h.resolve_left ?_⟩
      rintro ⟨rfl, hdiffers⟩
      exact hone (hchanged.2 hdiffers)

/-- A part that did not change is left alone, with its stamp. -/
theorem get?_upsert_of_notMem (parts : List ProjectPart) :
    ∀ (r : ProjectParts) (clock : Clock), id ∉ (upsert parts r clock).1 →
      (upsert parts r clock).2.1.parts.get? id = r.parts.get? id := by
  induction parts with
  | nil => exact fun _ _ _ => rfl
  | cons part rest ih =>
    intro r clock hid
    have hrest := ih (r.upsertOne part clock).2.1 (r.upsertOne part clock).2.2
    rw [upsert_cons_fst] at hid
    rcases upsertOne_cases r part clock with ⟨-, heq⟩ | ⟨-, part', clock', -, heq⟩
    · rw [heq] at hid hrest
      rw [upsert, heq]
      exact hrest hid
    · rw [heq] at hid hrest
      rw [if_pos rfl, List.mem_cons, not_or] at hid
      rw [upsert, heq]
      refine (hrest hid.2).trans ?_
      rw [get?_set, if_neg hid.1]

/-- Where every part is registered as listed, nothing happens. -/
theorem upsert_of_registered (parts : List ProjectPart) (r : ProjectParts) (clock : Clock)
    (h : ∀ part ∈ parts, r.arguments? part.id = some part.arguments) :
    upsert parts r clock = ([], r, clock) := by
  induction parts with
  | nil => rfl
  | cons part rest ih =>
    have hone : r.upsertOne part clock = (false, r, clock) := by
      rcases upsertOne_cases r part clock with ⟨-, heq⟩ | ⟨hdiffers, -⟩
      · exact heq
      · exact absurd (h part List.mem_cons_self) hdiffers
    have hrest := ih fun part' hpart' => h part' (List.mem_cons_of_mem part hpart')
    rw [upsert, hone]
    simp only [hrest]
    rfl

end ProjectParts

namespace Workspace

/-! ## §3. The documents. -/

/-- Held documents carry the version of their part that is registered. -/
def Carried (w : Workspace ι υ σ) : Prop :=
  ∀ n ∈ w.held, ∀ d, w.documents[n]? = some d →
    ∀ part, w.parts.parts.get? d.key.part = some part → d.part = part

/-- No document was parsed ahead of time. -/
def Begun (w : Workspace ι υ σ) : Prop :=
  ∀ (n : Nat) (d : Document ι υ), w.documents[n]? = some d → d.baseline ≤ w.clock.last

/-- A document that is handed the parts `ids` has what is registered, if its own
is among them. -/
theorem getElem?_installPart {w : Workspace ι υ σ} (hnamed : w.parts.Named) (id : String)
    {n : Nat} {d : Document ι υ} (hn : n ∈ w.held) (hd : w.documents[n]? = some d) :
    (w.installPart id).documents[n]? = some { d with
      part := if d.key.part = id then (w.parts.parts.get? id).getD d.part else d.part } := by
  unfold Workspace.installPart ProjectParts.find
  cases hget : w.parts.parts.get? id with
  | none =>
    simp only [Option.getD_none, ite_self]
    exact hd
  | some part =>
    have hname : part.id = id := hnamed id part hget
    have hset : ∀ d : Document ι υ, d.setPart part =
        { d with part := if d.key.part = id then part else d.part } := by
      intro d
      unfold Document.setPart
      rw [hname]
      by_cases hid : d.key.part = id
      · rw [if_pos hid.symm, if_pos hid]
      · rw [if_neg (Ne.symm hid), if_neg hid]
    by_cases hid : d.key.part = id
    · have hmem : n ∈ w.heldWhere fun d => d.key.part == id := by
        rw [mem_heldWhere, hd]
        exact ⟨hn, beq_iff_eq.2 hid⟩
      have htwice : (d.setPart part).setPart part = d.setPart part := by
        have hdef : d.setPart part = { d with part := part } := by rw [hset, if_pos hid]
        rw [hdef, Document.setPart, if_pos (hname.trans hid.symm)]
      have hgot := getElem?_modifyAll (f := fun d => d.setPart part) htwice _ w hmem hd
      rw [hset] at hgot
      exact hgot
    · have hsame : d.setPart part = d := by rw [hset, if_neg hid]
      have hkept := getElem?_modifyAll_of_fixed (f := fun d => d.setPart part) hsame
        (w.heldWhere fun d => d.key.part == id) w hd
      rw [if_neg hid]
      exact hkept

theorem getElem?_installParts {n : Nat} (ids : List String) :
    ∀ {w : Workspace ι υ σ} {d : Document ι υ}, w.parts.Named → n ∈ w.held →
      w.documents[n]? = some d →
      (ids.foldl Workspace.installPart w).documents[n]? = some { d with
        part := if d.key.part ∈ ids then (w.parts.parts.get? d.key.part).getD d.part
          else d.part } := by
  induction ids with
  | nil => exact fun _ _ hd => hd
  | cons id rest ih =>
    intro w d hnamed hn hd
    have hone := getElem?_installPart hnamed id hn hd
    have hrest := w.installPart_rest id
    have hnext := ih (w := w.installPart id) (by rwa [hrest]) (by rwa [hrest]) hone
    rw [List.foldl_cons, hnext, hrest]
    -- the last hand-out of the part counts, and they are all the same
    by_cases hid : d.key.part = id
    · simp only [hid, List.mem_cons, true_or, if_true]
      cases w.parts.parts.get? id <;> simp
    · simp only [hid, List.mem_cons, false_or, if_false]

/-- Documents that are not held are not handed anything. -/
theorem getElem?_installParts_of_notMem {n : Nat} (ids : List String) :
    ∀ {w : Workspace ι υ σ}, n ∉ w.held →
      (ids.foldl Workspace.installPart w).documents[n]? = w.documents[n]? := by
  induction ids with
  | nil => exact fun _ => rfl
  | cons id rest ih =>
    intro w hn
    have hrest := w.installPart_rest id
    have hone : (w.installPart id).documents[n]? = w.documents[n]? := by
      unfold Workspace.installPart
      split
      · rfl
      · exact getElem?_modifyAll_of_notMem _ _ _ fun hmem => hn (mem_heldWhere.1 hmem).1
    exact (ih (by rwa [hrest])).trans hone

/-- The parts are registered, and those that changed are handed out. -/
def handed (w : Workspace ι υ σ) (parts : List ProjectPart) : Workspace ι υ σ :=
  (w.registerParts parts).1.foldl Workspace.installPart (w.registerParts parts).2

theorem handed_rest (w : Workspace ι υ σ) (parts : List ProjectPart) :
    w.handed parts = { w with
      clock := (w.registerParts parts).2.clock
      parts := (w.registerParts parts).2.parts
      documents := (w.handed parts).documents } :=
  installParts_rest _ _

theorem getElem?_handed {w : Workspace ι υ σ} (hnamed : w.parts.Named) (parts : List ProjectPart)
    {n : Nat} {d : Document ι υ} (hn : n ∈ w.held) (hd : w.documents[n]? = some d) :
    (w.handed parts).documents[n]? = some { d with
      part := if d.key.part ∈ (w.registerParts parts).1 then
        ((w.handed parts).parts.parts.get? d.key.part).getD d.part else d.part } := by
  have hregistered : (w.registerParts parts).2.parts.Named :=
    (ProjectParts.named_upsert parts w.parts w.clock).1 hnamed
  have hgot := getElem?_installParts (w.registerParts parts).1 hregistered hn hd
  rw [handed_rest]
  exact hgot

/-- Afterwards the documents carry what is registered then. -/
theorem carried_handed {w : Workspace ι υ σ} (hnamed : w.parts.Named) (h : w.Carried)
    (hknown : w.Known) (parts : List ProjectPart) : (w.handed parts).Carried := by
  intro n hn d' hd' part hpart
  have hn : n ∈ w.held := by
    rw [handed_rest] at hn
    exact hn
  obtain ⟨d, hd⟩ : ∃ d, w.documents[n]? = some d := ⟨_, List.getElem?_eq_getElem (hknown n hn)⟩
  rw [getElem?_handed hnamed parts hn hd] at hd'
  cases hd'
  have hpart : (w.handed parts).parts.parts.get? d.key.part = some part := hpart
  by_cases hid : d.key.part ∈ (w.registerParts parts).1
  · simp only [if_pos hid, hpart, Option.getD_some]
  · -- its part did not change, and the document had it before
    simp only [if_neg hid]
    refine h n hn d hd part ?_
    rw [handed_rest] at hpart
    exact (ProjectParts.get?_upsert_of_notMem parts w.parts w.clock hid).symm.trans hpart

theorem Carried.marks {w w' : Workspace ι υ σ} {ns : List Nat} (h : w.Carried)
    (hmarks : Marks ns w w') : w'.Carried := by
  intro n hn d' hd' part hpart
  rw [hmarks.held] at hn
  rw [hmarks.parts] at hpart
  obtain ⟨d, hd, rfl | ⟨time, -, -, rfl⟩⟩ := hmarks.before hd'
  · exact h n hn d' hd part hpart
  · exact h n hn d hd part hpart

/-! ## §4. The whole upsert. -/

/-- The loop goes through the documents in order. -/
theorem sublist_markDirtyAll (p : Workspace ι υ σ → Document ι υ → Bool) (ns : List Nat) :
    ∀ w : Workspace ι υ σ, (markDirtyAll p ns w).1.Sublist ns := by
  induction ns with
  | nil => exact fun _ => .slnil
  | cons n rest ih =>
    intro w
    have hrest := ih (w.markDirtyIf (p w) n).2
    show (if (w.markDirtyIf (p w) n).1 then n :: _ else _ : List Nat).Sublist _
    split
    · exact hrest.cons_cons n
    · exact hrest.cons n

/-- What a list of parts comes to, and the documents `ns` that are returned.  Parts are
registered as listed last, and stamped anew exactly if they changed on the way.
Held documents carry what is registered; those that are outdated then are
returned in key order, among them all whose part changed, and each of them is
dirty by an event of its own.  Nothing else happens. -/
structure Reconfigured (given : List (String × List String)) (w w' : Workspace ι υ σ)
    (ns : List Nat) : Prop where
  rest : w' = { w with clock := w'.clock, parts := w'.parts, documents := w'.documents }
  arguments : ∀ id, w'.parts.arguments? id =
    (lastArguments? given id).or (w.parts.arguments? id)
  stamped : ∀ id, w.parts.Changes given id →
    ∃ part, w'.parts.parts.get? id = some part ∧ w.clock.last < part.changed ∧
      ∀ old, w.parts.parts.get? id = some old → old.changed < part.changed
  unstamped : ∀ id, ¬ w.parts.Changes given id →
    w'.parts.parts.get? id = w.parts.parts.get? id
  carried : w'.Carried
  returned : ∀ n, n ∈ ns ↔ n ∈ w'.held ∧
    ∃ d', w'.documents[n]? = some d' ∧ d'.baseline ≤ d'.part.changed
  order : ns.Pairwise w'.Before
  reached : ∀ n ∈ w.held, ∀ d, w.documents[n]? = some d →
    w.parts.Changes given d.key.part → n ∈ ns
  marked : ∀ n ∈ ns, ∀ d, w.documents[n]? = some d →
    ∃ d', w'.documents[n]? = some d' ∧ d'.dirty = true ∧ d.dirtyPoint < d'.dirtyPoint ∧
      d' = { d with part := d'.part, dirty := d'.dirty, dirtyPoint := d'.dirtyPoint } ∧
      (¬ w.parts.Changes given d.key.part → d'.part = d.part)
  others : ∀ n, n ∉ ns → w'.documents[n]? = w.documents[n]?

/-- The clock has gone on while the parts were built. -/
def building (w : Workspace ι υ σ) (given : List (String × List String)) : Workspace ι υ σ :=
  { w with clock := (ProjectPart.newList given w.clock).2 }

/-- The parts are registered and handed out, and the sweep is still to come. -/
def unswept (w : Workspace ι υ σ) (given : List (String × List String)) :
    Workspace ι υ σ :=
  (w.building given).handed (ProjectPart.newList given w.clock).1

theorem upsertFresh_eq_unswept (w : Workspace ι υ σ) (given : List (String × List String)) :
    w.upsertFresh given = (w.unswept given).markOutdated := rfl

theorem unswept_rest (w : Workspace ι υ σ) (given : List (String × List String)) :
    w.unswept given = { w with
      clock := (w.registerFresh given).2.clock
      parts := (w.registerFresh given).2.parts
      documents := (w.unswept given).documents } :=
  handed_rest _ _

theorem mem_registerFresh (w : Workspace ι υ σ) (given : List (String × List String))
    (id : String) : id ∈ (w.registerFresh given).1 ↔ w.parts.Changes given id := by
  have hmem := ProjectParts.mem_upsert_iff (ProjectPart.newList given w.clock).1 id w.parts
    (w.building given).clock
  rw [ProjectPart.map_listing_newList] at hmem
  exact hmem

/-- A part is stamped while the list is registered, or left alone. -/
theorem get?_unswept_of_not (w : Workspace ι υ σ) (given : List (String × List String))
    {id : String} (hid : ¬ w.parts.Changes given id) :
    (w.unswept given).parts.parts.get? id = w.parts.parts.get? id := by
  rw [unswept_rest]
  exact ProjectParts.get?_upsert_of_notMem _ _ _ fun hmem =>
    hid ((w.mem_registerFresh given id).1 hmem)

theorem stamped_unswept (w : Workspace ι υ σ) (given : List (String × List String))
    {id : String} (hid : w.parts.Changes given id) :
    ∃ part, (w.unswept given).parts.parts.get? id = some part ∧
      w.clock.last < part.changed := by
  obtain ⟨-, -, -, hstamped⟩ := registerFresh_spec w given
  obtain ⟨part, hget, hlt, -⟩ := hstamped id ((w.mem_registerFresh given id).2 hid)
  refine ⟨part, ?_, hlt⟩
  rw [unswept_rest]
  exact hget

section

variable {w : Workspace ι υ σ} (htidy : w.Tidy) (hbegun : w.Begun)
  (given : List (String × List String))

include htidy

theorem getElem?_unswept {n : Nat} {d : Document ι υ} (hn : n ∈ w.held)
    (hd : w.documents[n]? = some d) :
    (w.unswept given).documents[n]? = some { d with
      part := if d.key.part ∈ (w.registerFresh given).1 then
        ((w.unswept given).parts.parts.get? d.key.part).getD d.part else d.part } :=
  getElem?_handed (w := w.building given) htidy.named _ hn hd

include hbegun

/-- The sweep finds the documents whose part changed, because they were parsed
before. -/
theorem mem_upsertFresh_of_changes {n : Nat} {d : Document ι υ} (hn : n ∈ w.held)
    (hd : w.documents[n]? = some d) (hid : w.parts.Changes given d.key.part) :
    n ∈ (w.upsertFresh given).1 := by
  obtain ⟨part, hget, hlt⟩ := stamped_unswept w given hid
  rw [upsertFresh_eq_unswept, mem_markOutdated, getElem?_unswept htidy given hn hd,
    if_pos ((w.mem_registerFresh given _).2 hid), hget]
  have hlater : d.baseline ≤ part.changed :=
    TimePoint.le_trans (hbegun n d hd) (TimePoint.le_of_lt hlt)
  refine ⟨?_, decide_eq_true hlater⟩
  rw [unswept_rest]
  exact hn

/-- A document that the sweep does not find was not handed anything. -/
theorem getElem?_upsertFresh_of_notMem {n : Nat} (hn : n ∉ (w.upsertFresh given).1) :
    (w.upsertFresh given).2.documents[n]? = w.documents[n]? := by
  have hmarks := marks_markOutdated (w.unswept given)
  rw [upsertFresh_eq_unswept, hmarks.unmarked n hn]
  by_cases hheld : n ∈ w.held
  · obtain ⟨d, hd⟩ : ∃ d, w.documents[n]? = some d :=
      ⟨_, List.getElem?_eq_getElem (htidy.known n hheld)⟩
    have hkept : d.key.part ∉ (w.registerFresh given).1 := fun hmem =>
      hn (mem_upsertFresh_of_changes htidy hbegun given hheld hd
        ((w.mem_registerFresh given _).1 hmem))
    rw [getElem?_unswept htidy given hheld hd, if_neg hkept, hd]
  · exact getElem?_installParts_of_notMem (w := (w.registerFresh given).2) _ hheld

theorem reconfigured_upsertFresh (hordered : w.Ordered) (hdated : w.Dated)
    (hcarried : w.Carried) :
    Reconfigured given w (w.upsertFresh given).2 (w.upsertFresh given).1 := by
  have hmarks := marks_markOutdated (w.unswept given)
  have hrest := w.unswept_rest given
  have hstays : Stays w (w.upsertFresh given).2 := by
    have hbuilt : Stays w (w.building given) := .of_eq rfl rfl rfl rfl
    exact hbuilt.trans (stays_upsertParts _ _)
  have hheld : (w.unswept given).held = w.held := by rw [hrest]
  have hclock : w.clock.last ≤ (w.unswept given).clock.last := by
    rw [hrest]
    exact (registerFresh_spec w given).1.clock
  rw [upsertFresh_eq_unswept] at hstays ⊢
  refine ⟨?_, fun id => ?_, fun id hid => ?_, fun id hid => ?_, ?_, fun n => ?_, ?_,
    fun n hn d hd hid => mem_upsertFresh_of_changes htidy hbegun given hn hd hid,
    fun n hn d hd => ?_, fun n hn => getElem?_upsertFresh_of_notMem htidy hbegun given hn⟩
  · rw [hmarks.rest, hrest]
  · have hlast := ProjectParts.arguments?_upsert (ProjectPart.newList given w.clock).1 id w.parts
      (w.building given).clock
    rw [ProjectPart.map_listing_newList] at hlast
    rw [hmarks.parts, hrest]
    exact hlast
  · obtain ⟨part, hget, hlt⟩ := stamped_unswept w given hid
    refine ⟨part, by rw [hmarks.parts]; exact hget, hlt, fun old hold => ?_⟩
    exact TimePoint.lt_of_le_of_lt (hdated.registered id old hold) hlt
  · rw [hmarks.parts]
    exact get?_unswept_of_not w given hid
  · exact (carried_handed (w := w.building given) htidy.named hcarried htidy.known _).marks
      hmarks
  · -- a mark does not make a document outdated, nor does it keep one from being it
    rw [mem_markOutdated, ← unmarking_isOutdated.any_eq hmarks n, hmarks.held, Option.any_eq_true]
    exact and_congr_right' (exists_congr fun d' => and_congr_right' decide_eq_true_iff)
  · have hsublist : (w.unswept given).markOutdated.1.Sublist w.held := by
      rw [← hheld]
      exact sublist_markDirtyAll _ _ _
    have hlast := ordered_stays hordered hstays
    unfold Ordered at hlast
    rw [hstays.held] at hlast
    exact hlast.sublist hsublist
  · have hn' : n ∈ w.held := by
      rw [← hheld]
      exact ((mem_markOutdated _ n).1 hn).1
    have hgot := getElem?_unswept htidy given hn' hd
    obtain ⟨time, hlt, -, hmarked⟩ := hmarks.marked n _ hn hgot
    have hpast := (hdated.documents n d hd).dirtyPoint
    refine ⟨_, hmarked, rfl,
      TimePoint.lt_of_le_of_lt (TimePoint.le_trans hpast hclock) hlt, rfl, fun hid => ?_⟩
    exact if_neg fun hmem => hid ((w.mem_registerFresh given _).1 hmem)

end

/-! ## §5. A list that is registered already. -/

/-- Where every part is registered as listed, only the sweep is left. -/
theorem upsertFresh_of_registered {w : Workspace ι υ σ} {given : List (String × List String)}
    (h : ∀ e ∈ given, w.parts.arguments? e.1 = some e.2) :
    w.upsertFresh given = (w.building given).markOutdated := by
  have hsame := ProjectParts.upsert_of_registered (ProjectPart.newList given w.clock).1 w.parts
    (w.building given).clock fun part hpart => by
      have hlisted := List.mem_map_of_mem (f := ProjectPart.listing) hpart
      rw [ProjectPart.map_listing_newList] at hlisted
      exact h _ hlisted
  have hregistered : (w.building given).registerParts (ProjectPart.newList given w.clock).1 =
      ([], w.building given) := by
    unfold registerParts
    have hparts : (w.building given).parts = w.parts := rfl
    rw [hparts, hsame]
    rfl
  rw [upsertFresh_eq_unswept, unswept, handed, hregistered]
  rfl

/-- A list that names every part once is registered as listed afterwards, so a
second time it changes neither a part nor what a document has of it. -/
theorem Reconfigured.again {w w' : Workspace ι υ σ} {given : List (String × List String)}
    {ns : List Nat} (h : Reconfigured given w w' ns) (hdistinct : (given.map Prod.fst).Nodup) :
    (w'.upsertFresh given).2.parts = w'.parts ∧
      ∀ (n : Nat) (d : Document ι υ), w'.documents[n]? = some d →
        ∃ d', (w'.upsertFresh given).2.documents[n]? = some d' ∧ d'.part = d.part := by
  have hregistered : ∀ e ∈ given, w'.parts.arguments? e.1 = some e.2 := by
    intro e he
    rw [h.arguments, lastArguments?_of_mem hdistinct he]
    rfl
  have hmarks := marks_markOutdated (w'.building given)
  rw [upsertFresh_of_registered hregistered]
  refine ⟨hmarks.parts, fun n d hd => ?_⟩
  obtain ⟨d', hd', rfl | ⟨time, -, -, rfl⟩⟩ := hmarks.document (w := w'.building given) hd
  · exact ⟨d', hd', rfl⟩
  · exact ⟨_, hd', rfl⟩

end Workspace

end ParseCache
