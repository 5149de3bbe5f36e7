/-
  ParseCache.Proofs.Include.Verdict — a scanned document shows what a scan finds.

  A document reaches its state on many ways.  It is parsed, or reparsed, or parsed
  again because it failed; a unit may be kept or replaced.  While disk, buffers and
  configuration stay as they are, the way does not matter: there is one scan that
  speaks about the document, and once an update has been through, the document
  shows its verdict, in every field that is reported.

  A document that failed is not left without dependencies.  It keeps those it had,
  and if it has never been parsed with success that is its own file.

  Main results:
    * `shows_settle` — whatever an update does, the document shows the verdict
      afterwards;
    * `clean_asNeeded`, `clean_of_clean` — and owes no reparse;
    * `ofDocument_eq` — two documents that show one verdict have one report;
    * `any_dependencies` — a report lists a path exactly if a change of it
      reaches the document.
-/
import ParseCache.Command.Report
import ParseCache.Proofs.Collection.Coherence
import ParseCache.Proofs.Include.Updates
import ParseCache.Proofs.Path.Sets
import ParseCache.Proofs.Update.Settling

namespace ParseCache

open Include

/-- A document whose file is scanned. -/
abbrev ScannedDocument := Document CountingIndex ScannedUnit

namespace Document

/-! ## §1. Verdicts. -/

/-- What a scan of the file finds, under the arguments of the document. -/
def verdict (S : Sources) (d : ScannedDocument) : Except EngineError Scanned :=
  scan S d.key.path (d.part.arguments ++ d.arguments)

/-- The only dependency of the document is its own file. -/
def Alone (d : ScannedDocument) : Prop := d.dependencies = PathSet.empty.insert d.key.path

/-- No update has been through yet. -/
structure Unscanned (d : ScannedDocument) : Prop where
  failed : d.failed = false
  alone : d.Alone
  unit : d.handles.unit = .null

/-- What a success leaves. -/
structure Holds (d : ScannedDocument) (found : Scanned) : Prop where
  failed : d.failed = false
  dependencies : d.dependencies = (PathSet.ofList found.includes).insert d.key.path
  unit : ∃ unit, d.handles.unit = .of unit ∧ unit.file = d.key.path ∧
    unit.arguments = d.part.arguments ++ d.arguments ∧ unit.found = found

/-- What a failure leaves where there was no success before. -/
structure Bereft (d : ScannedDocument) : Prop where
  failed : d.failed = true
  alone : d.Alone
  unit : d.handles.unit = .null

/-- The document shows what a scan finds. -/
structure Shows (S : Sources) (d : ScannedDocument) : Prop where
  ok : ∀ found, d.verdict S = .ok found → d.Holds found
  error : ∀ cause, d.verdict S = .error cause → d.Bereft

/-- No update has been through, or the document shows its verdict. -/
def Follows (S : Sources) (d : ScannedDocument) : Prop := d.Unscanned ∨ d.Shows S

variable {S : Sources} {d d' : ScannedDocument}

/-- A unit of the document was scanned from its file with its arguments, and holds
what a scan finds. -/
theorem Follows.of_unit (h : d.Follows S) {unit : ScannedUnit} (hunit : d.handles.unit = .of unit) :
    unit.file = d.key.path ∧ unit.arguments = d.part.arguments ++ d.arguments ∧
      d.verdict S = .ok unit.found ∧ d.Holds unit.found := by
  have hnotNull : d.handles.unit ≠ .null := by
    rw [hunit]
    nofun
  rcases h with h | h
  · exact absurd h.unit hnotNull
  · cases hverdict : d.verdict S with
    | error cause => exact absurd (h.error cause hverdict).unit hnotNull
    | ok found =>
      have hholds := h.ok found hverdict
      obtain ⟨unit', hunit', hfile, harguments, hfound⟩ := hholds.unit
      rw [hunit] at hunit'
      obtain rfl : unit = unit' := Option.some.inj (congrArg Handle.resource hunit')
      rw [hfound]
      exact ⟨hfile, harguments, rfl, hholds⟩

/-- Without a unit, the document depends on its file alone. -/
theorem Follows.alone_of_error (h : d.Follows S) {cause : EngineError}
    (hverdict : d.verdict S = .error cause) : d.Alone := by
  rcases h with h | h
  · exact h.alone
  · exact (h.error cause hverdict).alone

/-- A dirty event changes nothing of it. -/
theorem Shows.markDirty (h : d.Shows S) (time : TimePoint) : (d.markDirty time).Shows S where
  ok found hverdict :=
    ⟨(h.ok found hverdict).failed, (h.ok found hverdict).dependencies, (h.ok found hverdict).unit⟩
  error cause hverdict :=
    ⟨(h.error cause hverdict).failed, (h.error cause hverdict).alone, (h.error cause hverdict).unit⟩

theorem Follows.markDirty (h : d.Follows S) (time : TimePoint) : (d.markDirty time).Follows S :=
  h.imp (fun h => ⟨h.failed, h.alone, h.unit⟩) (·.markDirty time)

theorem Shows.of_ok {found : Scanned} (hverdict : d.verdict S = .ok found) (h : d.Holds found) :
    d.Shows S where
  ok found' hok := by
    rw [hverdict] at hok
    cases hok
    exact h
  error cause herror := by
    rw [hverdict] at herror
    cases herror

theorem Shows.of_error {cause : EngineError} (hverdict : d.verdict S = .error cause)
    (h : d.Bereft) : d.Shows S where
  ok found hok := by
    rw [hverdict] at hok
    cases hok
  error _ _ := h

/-- Where the verdict is shown, a failure is the verdict. -/
theorem Shows.failed_iff (h : d.Shows S) :
    d.failed = true ↔ ∃ cause, d.verdict S = .error cause := by
  cases hverdict : d.verdict S with
  | ok found =>
    rw [(h.ok found hverdict).failed]
    exact ⟨nofun, nofun⟩
  | error cause => exact ⟨fun _ => ⟨cause, rfl⟩, fun _ => (h.error cause hverdict).failed⟩

end Document

/-! ## §2. Updates. -/

namespace Include

variable {σ : Type} {w : Cache σ} {d : ScannedDocument} {mode : UpdateMode}

theorem parse_eq_error {request : Request} {disk : Disk} {cause : EngineError}
    (h : parse request disk = .error cause) :
    scan ⟨disk, request.buffers⟩ request.file request.arguments = .error cause := by
  unfold parse at h
  split at h
  · cases h
  · rename_i hscan
    cases h
    exact hscan

theorem reparse_eq_error {request : Request} {disk : Disk} {unit : ScannedUnit}
    {cause : EngineError} (h : reparse request unit disk = .error cause) :
    scan ⟨disk, request.buffers⟩ unit.file unit.arguments = .error cause := by
  unfold reparse at h
  split at h
  · cases h
  · rename_i hscan
    cases h
    exact hscan

/-- What the first half of an update cannot parse, a scan cannot read. -/
theorem verdict_of_failed_first
    (hfailed : (engine.parseIfNeeded (d.snapshot w.buffers) d.handles w).1.result.failed = true) :
    ∃ cause, d.verdict (sourcesOf w) = .error cause := by
  obtain ⟨houtcome, -⟩ :=
    parseCall_spec (d.snapshot w.buffers) { d.handles with unit := .null } w
  rcases engine.parseIfNeeded_cases (d.snapshot w.buffers) d.handles w with
    ⟨unit, -, -, heq⟩ | heq
  · rw [heq] at hfailed
    cases hfailed
  · rw [heq] at hfailed
    rcases engine.parseStep_cases (d.snapshot w.buffers) { d.handles with unit := .null } w with
      ⟨unit, -, heq⟩ | ⟨cause, hcall, -⟩
    · rw [heq] at hfailed
      cases hfailed
    · rw [houtcome] at hcall
      have hscan := parse_eq_error hcall
      exact ⟨cause, hscan⟩

/-- A unit that an update leaves, or its first half, was scanned from the file of
the document with its arguments. -/
theorem request_of_yields (hd : d.Follows (sourcesOf w))
    {p : Progress CountingIndex ScannedUnit} {w' : Cache σ}
    (h : Yields (d.snapshot w.buffers) d.handles w p w') {unit : ScannedUnit}
    (hunit : p.handles.unit = .of unit) :
    unit.file = d.key.path ∧ unit.arguments = d.part.arguments ++ d.arguments := by
  rcases h.unit unit hunit with ⟨hbefore, -⟩ | hscanned
  · exact ⟨(hd.of_unit hbefore).1, (hd.of_unit hbefore).2.1⟩
  · rcases hscanned.origin with ⟨-, hfile, harguments⟩ |
      ⟨-, before, hbefore, hfile, harguments⟩
    · exact ⟨hfile, harguments⟩
    · obtain ⟨hfile', harguments', -⟩ := hd.of_unit hbefore
      exact ⟨hfile.trans hfile', harguments.trans harguments'⟩

/-- What an update cannot read, a scan cannot read.  A reparse on its own may also
fail because there is no unit. -/
theorem verdict_of_failed (hmode : mode ≠ .forceReparse) (hd : d.Follows (sourcesOf w))
    (hfailed : (w.outcome engine mode d).1.result.failed = true) :
    ∃ cause, d.verdict (sourcesOf w) = .error cause := by
  have hyields := yields_parseIfNeeded (d.snapshot w.buffers) d.handles w
  have hends := engine.ends_parseIfNeeded (d.snapshot w.buffers) d.handles w
  unfold Workspace.outcome at hfailed
  rcases engine.run_cases mode (d.snapshot w.buffers) d.handles w with
    ⟨-, heq⟩ | ⟨-, hfirst, heq⟩ | ⟨hforced, -⟩
  · rw [heq] at hfailed
    exact verdict_of_failed_first hfailed
  · rw [heq] at hfailed
    rcases engine.reparseStep_cases (d.snapshot w.buffers)
        (engine.parseIfNeeded (d.snapshot w.buffers) d.handles w).1
        (engine.parseIfNeeded (d.snapshot w.buffers) d.handles w).2 with
      ⟨_, _, -, -, hstep⟩ | ⟨unit, cause, hunit, hcall, -⟩ | ⟨hnull, -⟩
    · rw [hstep, Engine.reparseBegun] at hfailed
      have hsame :
          (engine.parseIfNeeded (d.snapshot w.buffers) d.handles w).1.result.failed = true :=
        hfailed
      rw [hfirst] at hsame
      cases hsame
    · have hcall : reparse (d.snapshot w.buffers).request unit
          (engine.parseIfNeeded (d.snapshot w.buffers) d.handles w).2.disk = .error cause := hcall
      have hdisk : (engine.parseIfNeeded (d.snapshot w.buffers) d.handles w).2.disk = w.disk := by
        rw [hyields.rest]
      obtain ⟨hfile, harguments⟩ := request_of_yields hd hyields hunit
      have hscan := reparse_eq_error hcall
      rw [hdisk, hfile, harguments] at hscan
      exact ⟨cause, hscan⟩
    · -- a first half that succeeds leaves a unit
      have hnone := hends.failed
      rw [hnull, hfirst] at hnone
      cases hnone
  · exact absurd hforced hmode

theorem failed_settle (p : Progress CountingIndex ScannedUnit) (d : ScannedDocument) :
    (p.settle d).failed = p.result.failed := by
  unfold Progress.settle Document.incorporate
  cases p.result.failed with
  | true => rfl
  | false => rfl

/-- An update that fails leaves a document that cannot be read. -/
theorem bereft_settle (hmode : mode ≠ .forceReparse) (hd : d.Follows (sourcesOf w))
    (hfailed : (w.outcome engine mode d).1.result.failed = true) :
    ∃ cause, d.verdict (sourcesOf w) = .error cause ∧
      ((w.outcome engine mode d).1.settle d).Bereft := by
  obtain ⟨cause, herror⟩ := verdict_of_failed hmode hd hfailed
  have hnone := (engine.ends_run (d.snapshot w.buffers) d.handles w mode).failed
  have hunit : (w.outcome engine mode d).1.handles.unit = .null :=
    congrArg Handle.mk (Option.isNone_iff_eq_none.1 (hnone.symm.trans hfailed))
  refine ⟨cause, herror, ?_⟩
  rw [Workspace.settle_of_failed hfailed]
  exact ⟨rfl, hd.alone_of_error herror, hunit⟩

/-- An update that succeeds leaves a document that holds what a scan finds. -/
theorem holds_settle (hd : d.Follows (sourcesOf w))
    (hfailed : (w.outcome engine mode d).1.result.failed = false) :
    ∃ found, d.verdict (sourcesOf w) = .ok found ∧
      ((w.outcome engine mode d).1.settle d).Holds found := by
  have hyields := yields_run mode (d.snapshot w.buffers) d.handles w
  have hnone := (engine.ends_run (d.snapshot w.buffers) d.handles w mode).failed
  have hrest := settle_rest (w.outcome engine mode d).1 d
  obtain ⟨unit, hunit⟩ : ∃ unit, (w.outcome engine mode d).1.handles.unit = .of unit := by
    have hsome := Option.isNone_eq_false_iff.1 (hnone.symm.trans hfailed)
    obtain ⟨unit, hunit⟩ := Option.isSome_iff_exists.1 hsome
    exact ⟨unit, congrArg Handle.mk hunit⟩
  have hdependencies := Told.dependencies_settle (w.outcome engine mode d).1 d
  obtain ⟨hfile, harguments⟩ := request_of_yields hd hyields hunit
  suffices hshown : d.verdict (sourcesOf w) = .ok unit.found ∧
      ((w.outcome engine mode d).1.settle d).dependencies =
        (PathSet.ofList unit.found.includes).insert d.key.path by
    obtain ⟨hok, hset⟩ := hshown
    refine ⟨unit.found, hok, ?_, ?_, unit, ?_, ?_, ?_, rfl⟩
    · rw [failed_settle, hfailed]
    · rw [hrest.1, hset]
    · rw [hrest.2.2.2.2]
      exact hunit
    · rw [hrest.1, hfile]
    · rw [hrest.2.1, hrest.2.2.1, harguments]
  rcases hyields.unit unit hunit with ⟨hbefore, hnothing⟩ | hscanned
  · -- the unit was kept, and nothing was done
    obtain ⟨-, -, hok, hholds⟩ := hd.of_unit hbefore
    have hnothing : (w.outcome engine mode d).1.result = .nothing := hnothing
    refine ⟨hok, ?_⟩
    rw [hdependencies, hnothing, ← hholds.dependencies]
    rfl
  · have hfound := hscanned.found
    rw [hfile, harguments] at hfound
    have hinstalls : Document.installs (w.outcome engine mode d).1.result = true :=
      hscanned.installs
    have hset : (w.outcome engine mode d).1.result.dependencies =
        (PathSet.ofList unit.found.includes).insert d.key.path := hscanned.dependencies
    refine ⟨hfound, ?_⟩
    rw [hdependencies, if_pos hinstalls, hset, Told.insert_insert]

/-- Whatever an update does, the document shows the verdict afterwards. -/
theorem shows_settle (hmode : mode ≠ .forceReparse) (hd : d.Follows (sourcesOf w)) :
    ((w.outcome engine mode d).1.settle d).Shows (sourcesOf w) := by
  have hrest := settle_rest (w.outcome engine mode d).1 d
  have hverdict : ((w.outcome engine mode d).1.settle d).verdict (sourcesOf w) =
      d.verdict (sourcesOf w) := by
    unfold Document.verdict
    rw [hrest.1, hrest.2.1, hrest.2.2.1]
  cases hfailed : (w.outcome engine mode d).1.result.failed with
  | true =>
    obtain ⟨cause, herror, hbereft⟩ := bereft_settle hmode hd hfailed
    exact .of_error (hverdict.trans herror) hbereft
  | false =>
    obtain ⟨found, hok, hholds⟩ := holds_settle hd hfailed
    exact .of_ok (hverdict.trans hok) hholds

/-- An update that reparses where that is owed leaves nothing to reparse. -/
theorem clean_asNeeded (w : Cache σ) (d : ScannedDocument) :
    ((w.outcome engine .asNeeded d).1.settle d).dirty = false := by
  cases hfailed : (w.outcome engine .asNeeded d).1.result.failed with
  | true => rw [Workspace.settle_of_failed hfailed]
  | false =>
    apply Progress.clean_settle hfailed
    intro hdirty
    exact engine.reparsed_of_ok (d.snapshot w.buffers) d.handles w hdirty hfailed

/-- No update makes a document dirty. -/
theorem clean_of_clean (p : Progress CountingIndex ScannedUnit) (hd : d.dirty = false) :
    (p.settle d).dirty = false := by
  cases hfailed : p.result.failed with
  | true => rw [Workspace.settle_of_failed hfailed]
  | false =>
    apply Progress.clean_settle hfailed
    rw [hd]
    nofun

end Include

/-! ## §3. Reports. -/

/-- What a report says beyond the verdict. -/
structure Document.SameEntry (d d' : ScannedDocument) : Prop where
  key : d'.key = d.key
  arguments : d'.part.arguments ++ d'.arguments = d.part.arguments ++ d.arguments
  revision : d'.revision = d.revision

namespace Document

variable {S : Sources} {d d' : ScannedDocument}

theorem SameEntry.refl (d : ScannedDocument) : d.SameEntry d := ⟨rfl, rfl, rfl⟩

theorem SameEntry.symm (h : d.SameEntry d') : d'.SameEntry d :=
  ⟨h.key.symm, h.arguments.symm, h.revision.symm⟩

theorem SameEntry.trans {d'' : ScannedDocument} (h : d.SameEntry d') (h' : d'.SameEntry d'') :
    d.SameEntry d'' :=
  ⟨h'.key.trans h.key, h'.arguments.trans h.arguments, h'.revision.trans h.revision⟩

theorem SameEntry.verdict (h : d.SameEntry d') (S : Sources) : d'.verdict S = d.verdict S := by
  unfold Document.verdict
  rw [h.key, h.arguments]

/-- Updates leave the entry of a document alone. -/
theorem sameEntry_settle (p : Progress CountingIndex ScannedUnit) (d : ScannedDocument) :
    d.SameEntry (p.settle d) := by
  obtain ⟨hkey, harguments, hpart, -, -⟩ := settle_rest p d
  refine ⟨hkey, ?_, ?_⟩
  · rw [hpart, harguments]
  · unfold Progress.settle Document.incorporate
    split
    · rfl
    · rfl

/-- Two documents of one entry that show its verdict have the same report, if
they are both clean or both dirty. -/
theorem ofDocument_eq (hentry : d.SameEntry d') (h : d.Shows S) (h' : d'.Shows S)
    (hdirty : d'.dirty = d.dirty) (disk : Disk) :
    DocumentReport.ofDocument disk d' = DocumentReport.ofDocument disk d := by
  have hverdict := hentry.verdict S
  -- the fields that come from the verdict
  have hshown : d'.failed = d.failed ∧ d'.dependencies = d.dependencies ∧
      (d'.handles.unit.resource.map (·.found)) = d.handles.unit.resource.map (·.found) := by
    cases hscan : d.verdict S with
    | ok found =>
      have hholds := h.ok found hscan
      have hholds' := h'.ok found (hverdict.trans hscan)
      obtain ⟨unit, hunit, -, -, hfound⟩ := hholds.unit
      obtain ⟨unit', hunit', -, -, hfound'⟩ := hholds'.unit
      refine ⟨hholds'.failed.trans hholds.failed.symm, ?_, ?_⟩
      · rw [hholds'.dependencies, hholds.dependencies, hentry.key]
      · rw [hunit, hunit']
        show some unit'.found = some unit.found
        rw [hfound, hfound']
    | error cause =>
      have hbereft := h.error cause hscan
      have hbereft' := h'.error cause (hverdict.trans hscan)
      refine ⟨hbereft'.failed.trans hbereft.failed.symm, ?_, ?_⟩
      · rw [hbereft'.alone, hbereft.alone, hentry.key]
      · rw [hbereft.unit, hbereft'.unit]
  obtain ⟨hfailed, hdependencies, hfound⟩ := hshown
  have hunresolved : ∀ d : ScannedDocument, (DocumentReport.ofDocument disk d).unresolved =
      ((d.handles.unit.resource.map (·.found)).map (·.unresolved)).getD [] := by
    intro d
    unfold DocumentReport.ofDocument
    cases d.handles.unit.resource with
    | none => rfl
    | some unit => rfl
  have hfile : d'.fileExists disk = d.fileExists disk := by
    unfold fileExists
    rw [hentry.key]
  have hlast : (DocumentReport.ofDocument disk d').unresolved =
      (DocumentReport.ofDocument disk d).unresolved := by
    rw [hunresolved, hunresolved, hfound]
  unfold DocumentReport.ofDocument isIntact dependencies? at hlast ⊢
  simp only at hlast ⊢
  rw [hlast, hentry.key, hentry.revision, hdirty, hfailed, hdependencies, hfile]

/-- A file that is scanned is there, unless it is a buffer. -/
theorem fileExists_of_verdict {disk : Disk} {buffers : Buffers}
    (hbuffer : buffers.content? d.key.path = none) {found : Scanned}
    (hscan : d.verdict ⟨disk, buffers⟩ = .ok found) : d.fileExists disk = true := by
  unfold verdict scan Sources.read at hscan
  rw [hbuffer] at hscan
  unfold fileExists Disk.holds
  unfold Disk.read at hscan
  cases hfind : disk.find d.key.path with
  | ok at_ => rfl
  | error cause =>
    rw [hfind] at hscan
    cases hscan

/-- What depends on its own file alone hears of that file, while it is there. -/
theorem Alone.isAffectedBy (h : d.Alone) (disk : Disk) (path : Path) :
    d.isAffectedBy disk path = (path.same d.key.path && d.fileExists disk) := by
  unfold Document.isAffectedBy
  rw [h, PathSet.contains_insert]
  show ((path.same d.key.path || false) && (!path.same d.key.path || d.fileExists disk)) = _
  cases path.same d.key.path with
  | true => rfl
  | false => rfl

/-- A report lists a path exactly if a change of it reaches the document.  Where
its own file is gone, a document has failed and lists nothing, and nothing
reaches it. -/
theorem any_dependencies {disk : Disk} {buffers : Buffers} (h : d.Shows ⟨disk, buffers⟩)
    (hbuffer : buffers.content? d.key.path = none) (path : Path) :
    (DocumentReport.ofDocument disk d).dependencies.any path.same = d.isAffectedBy disk path := by
  unfold DocumentReport.ofDocument dependencies?
  cases hfile : d.fileExists disk with
  | true =>
    unfold Document.isAffectedBy
    rw [hfile, Bool.or_true, Bool.and_true]
    exact (List.mergeSort_perm d.dependencies.paths Path.le).any_eq
  | false =>
    have halone : d.Alone := by
      cases hscan : d.verdict ⟨disk, buffers⟩ with
      | ok found =>
        rw [fileExists_of_verdict hbuffer hscan] at hfile
        cases hfile
      | error cause => exact (h.error cause hscan).alone
    rw [halone.isAffectedBy, hfile, Bool.and_false]
    rfl

end Document

end ParseCache
