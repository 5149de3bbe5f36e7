/-
  ParseCache.Proofs.Command.Running — what a command does to the documents.

  A command is prepared, which may go wrong, and then finished, which cannot.  To
  prepare it, the configuration is loaded, the collection built, and the documents
  chosen that are parsed first.  To finish it, those documents are parsed; `touch`
  goes on and brings the documents that the changed file reaches up to date.

  While a command runs nothing changes on disk, and there are no buffers.  So the
  documents only ever come nearer to what a scan finds: at first no update has been
  through, and from the first one on a document shows its verdict.

  Main results:
    * `run_eq` — a run is its two halves;
    * `fresh_openCache` — the collection a configuration leaves;
    * `advances_updateEach` — what a list of updates makes of each document;
    * `finish_document` — what a whole command makes of each document.
-/
import ParseCache.Proofs.Collection.Loading
import ParseCache.Proofs.Include.Verdict
import ParseCache.Proofs.Update.Independence

namespace ParseCache

open Include

namespace Command

/-! ## §1. The two halves of a run. -/

/-- The files whose documents are parsed first; none means all. -/
def files : Command → List Path
  | .deps files => files
  | .status => []
  | .touch _ files => files

/-- The collection a command works on, and the documents that are parsed first. -/
def prepare (disk : Disk) (i : Invocation) : Except CommandError (ScanCache × List Nat) := do
  let w ← openCache disk (← openConfig disk i.config)
  let documents ← select w i.command.files
  return (w, documents)

/-- The documents that a changed file reaches, and the collection in which they
are dirty. -/
def reached (path : Path) (w : ScanCache) (documents : List Nat) : List Nat × ScanCache :=
  (updateEach .parseIfNeeded documents w).touch (resolve w.disk path)

/-- What a command does with the documents. -/
def finish (w : ScanCache) (documents : List Nat) : Command → Finished
  | .touch path _ =>
    ⟨updateEach .asNeeded (reached path w documents).1 (reached path w documents).2,
      (reached path w documents).1⟩
  | _ => ⟨updateEach .parseIfNeeded documents w, documents⟩

theorem runOn_eq (w : ScanCache) (c : Command) :
    runOn w c = (select w c.files).map fun documents => finish w documents c := by
  cases c with
  | deps files =>
    show (select w files).bind _ = (select w files).map _
    cases select w files with
    | error cause => rfl
    | ok documents => rfl
  | status => rfl
  | touch path files =>
    show (select w files).bind _ = (select w files).map _
    cases select w files with
    | error cause => rfl
    | ok documents => rfl

theorem run_eq (disk : Disk) (i : Invocation) :
    run disk i = (prepare disk i).map fun s => finish s.1 s.2 i.command := by
  unfold run prepare
  cases openConfig disk i.config with
  | error cause => rfl
  | ok c =>
    show (openCache disk c).bind _ = ((openCache disk c).bind _).map _
    cases openCache disk c with
    | error cause => rfl
    | ok w =>
      show runOn w i.command = ((select w i.command.files).bind _).map _
      rw [runOn_eq]
      cases select w i.command.files with
      | error cause => rfl
      | ok documents => rfl

/-! ## §2. What is prepared. -/

/-- A collection that no update has been through, on a disk without buffers. -/
structure Fresh (disk : Disk) (w : ScanCache) : Prop where
  disk_eq : w.disk = disk
  files_eq : w.buffers.files = .empty
  known : w.Known
  documents : ∀ (n : Nat) (d : ScannedDocument), w.documents[n]? = some d →
    d.Unscanned ∧ d.dirty = false

/-- A document that was just made. -/
theorem unscanned_of_makes {r : ProjectParts} {e : FileEntry} {d : ScannedDocument}
    (h : r.Makes e d) : d.Unscanned ∧ d.dirty = false := by
  obtain ⟨part, time, -, -, rfl⟩ := h
  exact ⟨⟨rfl, rfl, rfl⟩, rfl⟩

theorem openCache_eq (disk : Disk) (c : Config) :
    openCache disk c =
      match (Workspace.new disk c.requireFiles () : ScanCache).setUp c with
      | (.ok _, w) => .ok w
      | (.error cause, _) => .error (.document cause) := rfl

theorem fresh_openCache {disk : Disk} {c : Config} {w : ScanCache} (h : openCache disk c = .ok w) :
    Fresh disk w := by
  have hready := Workspace.ready_upsertFresh (ι := CountingIndex) (υ := ScannedUnit) disk
    c.requireFiles () c.resolvedParts
  rw [openCache_eq, Workspace.setUp] at h
  generalize ((Workspace.new disk c.requireFiles () : ScanCache).upsertFresh c.resolvedParts).2 = w₀
    at h hready
  rcases w₀.create_cases c.entries with ⟨refusal, -, hrefused⟩ | ⟨-, -, hcreates⟩
  · rw [hrefused] at h
    cases h
  rw [hcreates] at h
  cases hcreated : (Workspace.createAll c.entries w₀).1 with
  | error refusal =>
    rw [← Prod.eta (Workspace.createAll c.entries w₀), hcreated] at h
    cases h
  | ok ns =>
    rw [← Prod.eta (Workspace.createAll c.entries w₀), hcreated] at h
    cases h
    have hfilled := Workspace.filled_createAll c.entries (fun e he => by
      obtain ⟨d, -, rfl⟩ := List.mem_map.1 he
      rfl) hready.dated.registered hcreated
    obtain ⟨ds, hdocuments, hmade⟩ := hfilled.documents
    rw [hready.documents_eq, List.nil_append] at hdocuments
    -- nothing was there before, so every document is one that was just made
    refine ⟨hfilled.disk.trans hready.disk_eq, ?_, fun n hn => ?_, fun n d hd => ?_⟩
    · rw [hfilled.buffers]
      exact hready.files_eq
    · have hmem := hfilled.held.mem_iff.1 hn
      rw [hready.held_eq, List.append_nil, hfilled.numbers, hready.documents_eq] at hmem
      have hlt := List.mem_range'_1.1 hmem
      rw [hdocuments, ← hmade.length_eq]
      simpa using hlt.2
    · rw [hdocuments] at hd
      obtain ⟨hlt, rfl⟩ := List.getElem?_eq_some_iff.1 hd
      have hlt' : n < c.entries.length := by
        rw [hmade.length_eq]
        exact hlt
      exact unscanned_of_makes ((List.forall₂_iff_get.1 hmade).2 n hlt' hlt)

/-- Documents that are chosen are held. -/
theorem mem_held_of_select {w : ScanCache} {files : List Path} {ns : List Nat}
    (h : select w files = .ok ns) : ∀ n ∈ ns, n ∈ w.held := by
  have hfiles : ∀ (files : List Path) {ns : List Nat}, documentsOf w files = .ok ns →
      ∀ n ∈ ns, n ∈ w.held := by
    intro files
    induction files with
    | nil =>
      intro ns h n hn
      cases h
      cases hn
    | cons file rest ih =>
      intro ns h n hn
      unfold documentsOf at h
      split at h
      · cases h
      · rename_i found hfound
        cases hrest : documentsOf w rest with
        | error cause =>
          rw [hrest] at h
          cases h
        | ok later =>
          rw [hrest] at h
          cases h
          rcases List.mem_append.1 hn with hn | hn
          · exact (List.mem_filter.1 hn).1
          · exact ih hrest n hn
  cases files with
  | nil =>
    cases h
    exact fun n hn => hn
  | cons file rest => exact hfiles (file :: rest) h

/-- What is prepared is a fresh collection, and documents that it holds. -/
theorem fresh_of_prepare {disk : Disk} {i : Invocation} {w : ScanCache} {ns : List Nat}
    (h : prepare disk i = .ok (w, ns)) : Fresh disk w ∧ select w i.command.files = .ok ns := by
  obtain ⟨c, -, h⟩ := ok_of_bind h
  obtain ⟨w', hcache, h⟩ := ok_of_bind h
  obtain ⟨ns', hselect, h⟩ := ok_of_bind h
  cases h
  exact ⟨fresh_openCache hcache, hselect⟩

/-! ## §3. What happens to a document. -/

/-- A document on its way to the verdict of its scan.  If `updated`, it has arrived
there, and if `reparsed`, it owes nothing any more. -/
structure Advances (S : Sources) (updated reparsed : Prop) (d d' : ScannedDocument) : Prop where
  entry : d.SameEntry d'
  follows : d'.Follows S
  shows : updated ∨ d.Shows S → d'.Shows S
  clean : reparsed ∨ d.dirty = false → d'.dirty = false

variable {S : Sources} {w : ScanCache}

theorem Advances.refl {d : ScannedDocument} (h : d.Follows S) : Advances S False False d d :=
  ⟨.refl d, h, fun h => h.resolve_left id, fun h => h.resolve_left id⟩

theorem Advances.trans {p p' q q' : Prop} {d d' d'' : ScannedDocument}
    (h : Advances S p q d d') (h' : Advances S p' q' d' d'') :
    Advances S (p ∨ p') (q ∨ q') d d'' where
  entry := h.entry.trans h'.entry
  follows := h'.follows
  shows := by
    rintro ((hp | hp') | hshows)
    · exact h'.shows (Or.inr (h.shows (Or.inl hp)))
    · exact h'.shows (Or.inl hp')
    · exact h'.shows (Or.inr (h.shows (Or.inr hshows)))
  clean := by
    rintro ((hq | hq') | hclean)
    · exact h'.clean (Or.inr (h.clean (Or.inl hq)))
    · exact h'.clean (Or.inl hq')
    · exact h'.clean (Or.inr (h.clean (Or.inr hclean)))

/-- One update. -/
theorem advances_update (mode : UpdateMode) (hmode : mode ≠ .forceReparse) (m : Nat) {n : Nat}
    {d : ScannedDocument} (hS : sourcesOf w = S) (hd : w.documents[n]? = some d)
    (hfollows : d.Follows S) :
    ∃ d', (w.update engine mode m).documents[n]? = some d' ∧
      Advances S (n = m) (mode = .asNeeded ∧ n = m) d d' := by
  subst hS
  by_cases hm : n = m
  · subst hm
    have hshows := shows_settle hmode hfollows
    refine ⟨_, Workspace.getElem?_update_self Workspace.looksOn_scanner mode hd,
      Document.sameEntry_settle _ d, Or.inr hshows, fun _ => hshows, fun h => ?_⟩
    rcases h with ⟨rfl, -⟩ | hclean
    · exact clean_asNeeded w d
    · exact clean_of_clean _ hclean
  · refine ⟨d, ?_, .refl d, hfollows, fun h => h.resolve_left hm,
      fun h => h.resolve_left fun hreparsed => hm hreparsed.2⟩
    rw [Workspace.getElem?_update_of_ne Workspace.looksOn_scanner mode w (Ne.symm hm)]
    exact hd

/-- Updates in a row. -/
theorem advances_updateEach (mode : UpdateMode) (hmode : mode ≠ .forceReparse) (ns : List Nat)
    {n : Nat} :
    ∀ {w : ScanCache} {d : ScannedDocument}, sourcesOf w = S → w.documents[n]? = some d →
      d.Follows S →
      ∃ d', (updateEach mode ns w).documents[n]? = some d' ∧
        Advances S (n ∈ ns) (mode = .asNeeded ∧ n ∈ ns) d d' := by
  induction ns with
  | nil =>
    intro w d _ hd hfollows
    refine ⟨d, hd, ?_⟩
    simpa only [List.not_mem_nil, and_false] using Advances.refl hfollows
  | cons m rest ih =>
    intro w d hS hd hfollows
    have hS' : sourcesOf (w.update engine mode m) = S := by
      rw [← hS, Workspace.rest_update Workspace.looksOn_scanner mode w m]
      rfl
    obtain ⟨d₁, hd₁, hone⟩ := advances_update mode hmode m hS hd hfollows
    obtain ⟨d', hd', hrest⟩ := ih hS' hd₁ hone.follows
    refine ⟨d', hd', ?_⟩
    rw [List.mem_cons, and_or_left]
    exact hone.trans hrest

/-- Updates leave what is scanned, and what is held. -/
theorem updateEach_rest (mode : UpdateMode) (ns : List Nat) (w : ScanCache) :
    sourcesOf (updateEach mode ns w) = sourcesOf w ∧ (updateEach mode ns w).held = w.held := by
  have hrest := Workspace.rest_updateEach Workspace.readsDisk_scanner mode ns w
  rw [← Workspace.updateEach_eq] at hrest
  rw [hrest]
  exact ⟨rfl, rfl⟩

/-- A document that a changed file may have reached. -/
theorem follows_touch {n : Nat} {d : ScannedDocument} (hd : w.documents[n]? = some d)
    (hfollows : d.Follows S) (path : Path) :
    ∃ d', (w.touch path).2.documents[n]? = some d' ∧ d.SameEntry d' ∧ d'.Follows S ∧
      (d.Shows S → d'.Shows S) ∧ (n ∉ (w.touch path).1 → d' = d) := by
  have hmarks := Workspace.marks_touch w path
  obtain ⟨d', hd', hmarked⟩ := hmarks.document hd
  refine ⟨d', hd', ?_, ?_, ?_, fun hn => ?_⟩
  · rcases hmarked with rfl | ⟨time, -, -, rfl⟩
    · exact .refl d'
    · exact ⟨rfl, rfl, rfl⟩
  · rcases hmarked with rfl | ⟨time, -, -, rfl⟩
    · exact hfollows
    · exact hfollows.markDirty time
  · intro hshows
    rcases hmarked with rfl | ⟨time, -, -, rfl⟩
    · exact hshows
    · exact hshows.markDirty time
  · rw [hmarks.unmarked n hn, hd] at hd'
    exact (Option.some.inj hd').symm

/-! ## §4. Whole commands. -/

variable {disk : Disk} {ns : List Nat}

/-- The disk and the buffers stay as they are. -/
theorem sourcesOf_reached (path : Path) (w : ScanCache) (ns : List Nat) :
    sourcesOf (reached path w ns).2 = sourcesOf w := by
  have htouched := sourcesOf_touch (updateEach .parseIfNeeded ns w) (resolve w.disk path)
  exact htouched.trans (updateEach_rest .parseIfNeeded ns w).1

theorem sourcesOf_finish (w : ScanCache) (ns : List Nat) (c : Command) :
    sourcesOf (finish w ns c).cache = sourcesOf w := by
  cases c with
  | deps files => exact (updateEach_rest .parseIfNeeded ns w).1
  | status => exact (updateEach_rest .parseIfNeeded ns w).1
  | touch path files =>
    exact (updateEach_rest .asNeeded _ _).1.trans (sourcesOf_reached path w ns)

/-- When a command is through, no document is dirty, and those that were updated
show their verdicts. -/
theorem finish_document (hfresh : Fresh disk w) (ns : List Nat) (c : Command) {n : Nat}
    {d : ScannedDocument} (hd : w.documents[n]? = some d) :
    ∃ d', (finish w ns c).cache.documents[n]? = some d' ∧ d.SameEntry d' ∧ d'.dirty = false ∧
      (n ∈ ns ∨ n ∈ (finish w ns c).printed → d'.Shows (sourcesOf w)) := by
  obtain ⟨hunscanned, hclean⟩ := hfresh.documents n d hd
  obtain ⟨d₁, hd₁, hparsed⟩ := advances_updateEach .parseIfNeeded nofun ns rfl hd
    (Or.inl hunscanned)
  cases c with
  | deps files =>
    exact ⟨d₁, hd₁, hparsed.entry, hparsed.clean (Or.inr hclean),
      fun h => hparsed.shows (Or.inl (h.elim id id))⟩
  | status =>
    exact ⟨d₁, hd₁, hparsed.entry, hparsed.clean (Or.inr hclean),
      fun h => hparsed.shows (Or.inl (h.elim id id))⟩
  | touch path files =>
    obtain ⟨d₂, hd₂, hentry, hfollows, hshows, hsame⟩ :=
      follows_touch hd₁ hparsed.follows (resolve w.disk path)
    obtain ⟨d₃, hd₃, hupdated⟩ := advances_updateEach .asNeeded nofun
      (reached path w ns).1 (sourcesOf_reached path w ns) hd₂ hfollows
    refine ⟨d₃, hd₃, (hparsed.entry.trans hentry).trans hupdated.entry, ?_, fun h => ?_⟩
    · apply hupdated.clean
      by_cases hn : n ∈ (reached path w ns).1
      · exact Or.inl ⟨rfl, hn⟩
      · -- the change did not reach it, so it is as clean as before
        have hunmarked : d₂ = d₁ := hsame hn
        rw [hunmarked]
        exact Or.inr (hparsed.clean (Or.inr hclean))
    · rcases h with hn | hn
      · exact hupdated.shows (Or.inr (hshows (hparsed.shows (Or.inl hn))))
      · exact hupdated.shows (Or.inl hn)

/-- What is printed is held. -/
theorem mem_held_of_printed (hns : ∀ n ∈ ns, n ∈ w.held) (c : Command) :
    ∀ n ∈ (finish w ns c).printed, n ∈ w.held := by
  cases c with
  | deps files => exact hns
  | status => exact hns
  | touch path files =>
    intro n hn
    have hreached := ((Workspace.mem_touch _ _ n).1 hn).1
    rw [(updateEach_rest .parseIfNeeded ns w).2] at hreached
    exact hreached

/-- Where a command has run, it was prepared, and every document that it parsed or
printed was there from the beginning. -/
theorem prepared_of_run {i : Invocation} {f : Finished} (h : run disk i = .ok f) :
    ∃ w ns, prepare disk i = .ok (w, ns) ∧ f = finish w ns i.command ∧ Fresh disk w ∧
      ∀ n, n ∈ ns ∨ n ∈ f.printed → ∃ d, w.documents[n]? = some d := by
  rw [run_eq] at h
  cases hprepare : prepare disk i with
  | error cause =>
    rw [hprepare] at h
    cases h
  | ok s =>
    obtain ⟨w, ns⟩ := s
    rw [hprepare] at h
    cases h
    obtain ⟨hfresh, hselect⟩ := fresh_of_prepare hprepare
    have hns := mem_held_of_select hselect
    refine ⟨w, ns, rfl, rfl, hfresh, fun n hn => ?_⟩
    have hheld : n ∈ w.held := hn.elim (hns n) (mem_held_of_printed hns i.command n)
    exact ⟨_, List.getElem?_eq_getElem (hfresh.known n hheld)⟩

end Command

end ParseCache
