/-
  ParseCache.Proofs.Command.Touch — what is printed after a file has changed.

  `status` parses every document and prints them all.  `touch` parses every
  document too, but then reports a change, and what it prints are the documents
  that the change has reached, after they have been updated once more.  They were
  reparsed, or parsed afresh where they had failed; on a disk that has not changed
  neither finds anything new.

  A change reaches the documents that depend on the path.  A report lists what a
  document depends on, so the reports of `touch` can be picked out of those of
  `status`.  Where a file is gone the report lists nothing, while the document
  still depends on its own path; but a document hears of its own file only while
  that exists.

  Main results:
    * `touch_fst` — the documents a change reaches, in key order;
    * `touch_reports` — the reports of `touch` among those of `status`;
    * `touch_prints_affected` — this from the command line, and that nothing dirty
      is ever printed.
-/
import ParseCache.Proofs.Command.Running
import ParseCache.Proofs.Path.Canonical

namespace ParseCache

open Include

variable {ι υ σ : Type}

namespace Workspace

/-! ## §1. The documents a change reaches. -/

/-- The loop returns what passed the test, in the order of the list. -/
theorem markDirtyAll_fst {p : Workspace ι υ σ → Document ι υ → Bool} (hp : Unmarking p)
    (ns : List Nat) :
    ∀ w : Workspace ι υ σ,
      (markDirtyAll p ns w).1 = ns.filter fun n => w.documents[n]?.any (p w) := by
  induction ns with
  | nil => exact fun _ => rfl
  | cons n rest ih =>
    intro w
    have hone := marks_markDirtyIf w (p w) n
    have hrest := ih (w.markDirtyIf (p w) n).2
    -- the first mark does not change what the test says of the others
    have hsame : (fun m =>
        (w.markDirtyIf (p w) n).2.documents[m]?.any (p (w.markDirtyIf (p w) n).2)) =
          fun m => w.documents[m]?.any (p w) := funext fun m => hp.any_eq hone m
    rw [hsame] at hrest
    have hstep : (markDirtyAll p (n :: rest) w).1 =
        if (w.markDirtyIf (p w) n).1 then n :: (markDirtyAll p rest (w.markDirtyIf (p w) n).2).1
        else (markDirtyAll p rest (w.markDirtyIf (p w) n).2).1 := rfl
    rw [hstep, hrest, markDirtyIf_fst, List.filter_cons]

theorem touch_fst (w : Workspace ι υ σ) (path : Path) :
    (w.touch path).1 =
      w.held.filter fun n => w.documents[n]?.any (·.isAffectedBy w.disk path.normalize) :=
  markDirtyAll_fst (unmarking_isAffectedBy path.normalize) w.held w

end Workspace

namespace Command

/-! ## §2. Reports. -/

/-- The report on a document. -/
def report? (w : ScanCache) (n : Nat) : Option DocumentReport :=
  w.documents[n]?.map (.ofDocument w.disk)

theorem reports_eq (f : Finished) : f.reports = f.printed.filterMap (report? f.cache) := by
  unfold Finished.reports Finished.documents
  rw [List.map_filterMap]
  rfl

/-- Reports are made of documents that are printed. -/
theorem mem_reports {f : Finished} {r : DocumentReport} (h : r ∈ f.reports) :
    ∃ n ∈ f.printed, ∃ d, f.cache.documents[n]? = some d ∧ r = .ofDocument f.cache.disk d := by
  rw [reports_eq] at h
  obtain ⟨n, hn, hreport⟩ := List.mem_filterMap.1 h
  obtain ⟨d, hd, rfl⟩ := Option.map_eq_some_iff.1 hreport
  exact ⟨n, hn, d, hd, rfl⟩

/-- A path on the command line is read once and for all. -/
theorem normalize_resolve (disk : Disk) (path : Path) :
    (resolve disk path).normalize = resolve disk path :=
  Path.normalize_normalize _

variable {disk : Disk} {w : ScanCache}

/-- There is no buffer. -/
theorem Fresh.content? (hfresh : Fresh disk w) (path : Path) : w.buffers.content? path = none := by
  unfold Buffers.content? Buffers.file?
  rw [hfresh.files_eq]
  rfl

/-- The report on a document when a command is through. -/
theorem report?_finish (hfresh : Fresh disk w) (ns : List Nat) (c : Command) {n : Nat}
    {d : ScannedDocument} (hd : w.documents[n]? = some d) :
    ∃ d', d.SameEntry d' ∧ d'.dirty = false ∧
      (n ∈ ns ∨ n ∈ (finish w ns c).printed → d'.Shows (sourcesOf w)) ∧
      (finish w ns c).cache.documents[n]? = some d' ∧
      report? (finish w ns c).cache n = some (.ofDocument w.disk d') := by
  obtain ⟨d', hd', hentry, hclean, hshows⟩ := finish_document hfresh ns c hd
  refine ⟨d', hentry, hclean, hshows, hd', ?_⟩
  have hdisk : (finish w ns c).cache.disk = w.disk :=
    congrArg Sources.disk (sourcesOf_finish w ns c)
  rw [report?, hd', hdisk]
  rfl

/-- The documents that `touch` prints, told from the collection that `status`
leaves. -/
theorem printed_touch (w : ScanCache) (path : Path) (files : List Path) (ns : List Nat) :
    (finish w ns (.touch path files)).printed = w.held.filter fun n =>
      (updateEach .parseIfNeeded ns w).documents[n]?.any
        (·.isAffectedBy w.disk (resolve w.disk path)) := by
  obtain ⟨hsources, hheld⟩ := updateEach_rest .parseIfNeeded ns w
  have hdisk : (updateEach .parseIfNeeded ns w).disk = w.disk := congrArg Sources.disk hsources
  show ((updateEach .parseIfNeeded ns w).touch (resolve w.disk path)).1 = _
  rw [Workspace.touch_fst, hheld, hdisk, normalize_resolve]

/-- Among the reports of `status`, those of `touch` are the ones that list the
path. -/
theorem touch_reports (hfresh : Fresh disk w) (path : Path) :
    (finish w w.held (.touch path [])).reports =
      (finish w w.held .status).reports.filter fun r =>
        r.dependencies.any (resolve disk path).same := by
  rw [reports_eq, reports_eq, List.filter_filterMap, printed_touch, List.filterMap_filter]
  -- document by document: the two reports are the same, and so are the two tests
  apply List.filterMap_congr
  intro n hn
  obtain ⟨d, hd⟩ : ∃ d, w.documents[n]? = some d :=
    ⟨_, List.getElem?_eq_getElem (hfresh.known n hn)⟩
  obtain ⟨d₁, hentry₁, hclean₁, hshows₁, hd₁, hreport₁⟩ := report?_finish hfresh w.held .status hd
  obtain ⟨d₂, hentry₂, hclean₂, hshows₂, -, hreport₂⟩ :=
    report?_finish hfresh w.held (.touch path []) hd
  have hsame : DocumentReport.ofDocument w.disk d₂ = .ofDocument w.disk d₁ :=
    Document.ofDocument_eq (hentry₁.symm.trans hentry₂) (hshows₁ (Or.inl hn)) (hshows₂ (Or.inl hn))
      (hclean₂.trans hclean₁.symm) w.disk
  have hreaches := Document.any_dependencies (hshows₁ (Or.inl hn)) (hfresh.content? d₁.key.path)
    (resolve disk path)
  have hd₁ : (updateEach .parseIfNeeded w.held w).documents[n]? = some d₁ := hd₁
  rw [hreport₁, hreport₂, hsame, hd₁, Option.any_some, hfresh.disk_eq, Option.filter_some]
  rw [hfresh.disk_eq] at hreaches
  rw [hreaches]

/-! ## §3. From the command line. -/

/-- Nothing that is printed is dirty. -/
theorem clean_of_mem_reports {i : Invocation} {f : Finished} (h : run disk i = .ok f)
    {r : DocumentReport} (hr : r ∈ f.reports) : r.dirty = false := by
  obtain ⟨w, ns, -, rfl, hfresh, hthere⟩ := prepared_of_run h
  obtain ⟨n, hn, d', hd', rfl⟩ := mem_reports hr
  obtain ⟨d, hd⟩ := hthere n (Or.inr hn)
  obtain ⟨d'', hd'', -, hclean, -⟩ := finish_document hfresh ns i.command hd
  rw [hd'] at hd''
  cases hd''
  exact hclean

/-- Where a configuration loads, `touch` prints exactly those reports of `status`
whose dependencies include the path, in the same order.  No command ever prints a
report that says dirty. -/
theorem touch_prints_affected {config : Option Path} {c : Config}
    (hconfig : openConfig disk config = .ok c) (hcache : openCache disk c = .ok w) (path : Path) :
    (∃ f g, run disk ⟨config, .json, .status⟩ = .ok f ∧
      run disk ⟨config, .json, .touch path []⟩ = .ok g ∧
      g.reports = f.reports.filter (fun r => r.dependencies.any (resolve disk path).same) ∧
      (outcome disk ⟨config, .json, .status⟩).output = DocumentReport.jsonText f.reports ∧
      (outcome disk ⟨config, .json, .touch path []⟩).output = DocumentReport.jsonText g.reports) ∧
    ∀ i f, run disk i = .ok f → ∀ r ∈ f.reports, r.dirty = false := by
  refine ⟨?_, fun i f hrun r hr => clean_of_mem_reports hrun hr⟩
  have hstatus : run disk ⟨config, .json, .status⟩ = .ok (finish w w.held .status) := by
    rw [run_eq, prepare, hconfig]
    show ((openCache disk c).bind _).map _ = _
    rw [hcache]
    rfl
  have htouch : run disk ⟨config, .json, .touch path []⟩ =
      .ok (finish w w.held (.touch path [])) := by
    rw [run_eq, prepare, hconfig]
    show ((openCache disk c).bind _).map _ = _
    rw [hcache]
    rfl
  refine ⟨_, _, hstatus, htouch, touch_reports (fresh_openCache hcache) path, ?_, ?_⟩
  · rw [outcome, hstatus]
    rfl
  · rw [outcome, htouch]
    rfl

/-- Two files share a header; a third one is gone. -/
def sharedTree : Disk :=
  [("/w/unitcache.json", "\x7b\"check_file_exists\":false,\"project_parts\":[\x7b\"id\":\"p\"\x7d],"
      ++ "\"documents\":[\x7b\"path\":\"b.c\",\"project_part\":\"p\"\x7d,"
      ++ "\x7b\"path\":\"c.c\",\"project_part\":\"p\"\x7d,"
      ++ "\x7b\"path\":\"gone.c\",\"project_part\":\"p\"\x7d]\x7d"),
    ("/w/b.c", "#include \"a.h\"\n"), ("/w/c.c", "#include \"a.h\"\n"), ("/w/a.h", "")].foldl
      (fun disk file => disk.write ⟨file.1⟩ (.text file.2)) (.fresh ["w"])

/-- What its configuration file stands for. -/
def sharedConfig : Config where
  parts := [⟨"p", []⟩]
  documents := [⟨⟨"b.c"⟩, "p", []⟩, ⟨⟨"c.c"⟩, "p", []⟩, ⟨⟨"gone.c"⟩, "p", []⟩]
  requireFiles := false
  base := some ⟨"/w"⟩

theorem touch_prints_affected_header :
    openConfig sharedTree none = .ok sharedConfig ∧
    ∃ f g, run sharedTree ⟨none, .json, .status⟩ = .ok f ∧
      run sharedTree ⟨none, .json, .touch ⟨"x/../a.h"⟩ []⟩ = .ok g ∧
      g.reports = f.reports.filter fun r =>
        r.dependencies.any (resolve sharedTree ⟨"x/../a.h"⟩).same := by
  have hconfig : openConfig sharedTree none = .ok sharedConfig := by decide +kernel
  have hloads : (openCache sharedTree sharedConfig).toOption.isSome = true := by decide +kernel
  cases hcache : openCache sharedTree sharedConfig with
  | error cause =>
    rw [hcache] at hloads
    cases hloads
  | ok w =>
    obtain ⟨f, g, hstatus, htouch, hreports, -⟩ :=
      (touch_prints_affected hconfig hcache ⟨"x/../a.h"⟩).1
    exact ⟨hconfig, f, g, hstatus, htouch, hreports⟩

end Command

end ParseCache
