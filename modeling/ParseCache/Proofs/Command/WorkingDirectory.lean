/-
  ParseCache.Proofs.Command.WorkingDirectory — where a command is run from.

  The configuration file is given by a path that starts at the root, so its directory
  starts there too, and the files of the documents and the include directories of the
  parts are resolved against it.  The include directories among a document's own
  arguments are not: the scanner takes them as they stand, and reads them from the
  working directory.

  Where these start at the root as well, a run from here and a run from there go
  alike.  Both prepare the same collection, but for the disk it stands on.  How a
  document is then updated does not matter: in the end it shows the verdict of one
  scan, and that is the same from both directories.

  Main results:
    * `prepare_seenFrom` — what a command is prepared with;
    * `anchored_of_prepare` — no document depends on the working directory;
    * `reports_seenFrom` — what is printed;
    * `answer_seenFrom` — this from the command line;
    * `answer_depends_on_directory` — a document's own `-Iinc`.
-/
import ParseCache.Proofs.Collection.Viewpoint
import ParseCache.Proofs.Command.Touch
import ParseCache.Proofs.Include.Following

namespace ParseCache

open Include

/-! ## §1. Configurations. -/

namespace Config

/-- The include directories that the documents add to those of their parts start at
the root. -/
def Anchored (c : Config) : Prop :=
  ∀ d ∈ c.documents, ∀ part ∈ c.parts, part.id = d.part →
    ∀ directory ∈ addedPaths part.arguments d.arguments, directory.isAbsolute = true

instance (c : Config) : Decidable c.Anchored :=
  inferInstanceAs (Decidable (∀ d ∈ c.documents, ∀ part ∈ c.parts, part.id = d.part →
    ∀ directory ∈ addedPaths part.arguments d.arguments, directory.isAbsolute = true))

variable {c : Config} {disk : Disk} {path : Path}

theorem load_seenFrom (habs : path.isAbsolute = true) (place : Place) :
    load (disk.seenFrom place) path = load disk path := by
  unfold load
  rw [disk.read_seenFrom place habs]

/-- What is loaded from a path that starts at the root is valid, and its base
directory starts there too. -/
theorem base_of_load (habs : path.isAbsolute = true) (h : load disk path = .ok c) :
    c.validate = .ok () ∧ ∃ base, c.base = some base ∧ base.isAbsolute = true := by
  unfold load at h
  cases hread : disk.read path with
  | error cause =>
    rw [hread] at h
    cases h
  | ok content =>
    rw [hread] at h
    obtain ⟨c', hc', h⟩ := ok_of_bind h
    cases h
    have hvalid : c'.validate = .ok () := validate_of_read hc'
    exact ⟨hvalid, Disk.parent?_of_read habs hread⟩

end Config

namespace Command

variable {disk : Disk} {c : Config} {base : Path} {w : ScanCache} (place : Place)

section

variable (hbase : c.base = some base) (hroot : base.isAbsolute = true)

include hbase hroot

theorem openCache_seenFrom (disk : Disk) :
    openCache (disk.seenFrom place) c = (openCache disk c).map (·.seenFrom place) := by
  have hentries : ∀ e ∈ c.entries, e.path.isAbsolute = true ∧ e.unsaved = none := by
    intro e he
    obtain ⟨d, -, rfl⟩ := List.mem_map.1 he
    exact ⟨(Config.rooted_resolve hbase hroot d.path).1, rfl⟩
  have hnew : (Workspace.new (disk.seenFrom place) c.requireFiles () : ScanCache) =
      (Workspace.new disk c.requireFiles ()).seenFrom place := rfl
  rw [openCache_eq, openCache_eq, Workspace.setUp, Workspace.setUp, hnew,
    Workspace.upsertFresh_seenFrom, Workspace.create_seenFrom place hentries]
  rcases (((Workspace.new disk c.requireFiles () : ScanCache).upsertFresh c.resolvedParts).2).create
    c.entries with ⟨refusal | ns, w⟩ <;> rfl

/-- The documents of a configuration are anchored if it is. -/
theorem anchored_of_openCache (hvalid : c.validate = .ok ()) (hown : c.Anchored)
    (h : openCache disk c = .ok w) :
    ∀ n ∈ w.held, ∃ d, w.documents[n]? = some d ∧ d.Anchored := by
  rw [openCache_eq] at h
  have hcases := Workspace.setUp_cases (ι := CountingIndex) (υ := ScannedUnit) hvalid disk ()
  generalize (Workspace.new disk c.requireFiles () : ScanCache).setUp c = outcome at h hcases
  obtain ⟨refusal | ns, w'⟩ := outcome
  · cases h
  cases h
  rcases hcases with ⟨-, -, -, path, part, hrefused⟩ | ⟨-, file, -, hrefused⟩ |
    ⟨-, -, ns', hcreated, hheld, -, hloads⟩
  · cases hrefused
  · cases hrefused
  cases hcreated
  intro n hn
  obtain ⟨i, rfl⟩ := List.get_of_mem (hheld.mem_iff.1 hn)
  obtain ⟨hlength, hloads⟩ := List.forall₂_iff_get.1 hloads
  have hi : i.1 < c.documents.length := by
    rw [hlength]
    exact i.2
  obtain ⟨part, hpart, hid, d, hd, hkey, -, -, harguments⟩ := hloads i hi i.2
  have hfile : d.key.path.Rooted := by
    rw [hkey]
    exact Config.rooted_resolve hbase hroot _
  have harguments : d.part.arguments ++ d.arguments = _ := harguments
  refine ⟨d, hd, hfile, ?_⟩
  rw [harguments]
  exact (forall_isAbsolute_iff hbase hroot _ _).2
    (hown _ (List.get_mem _ _) part hpart hid)

end

/-! ## §2. Commands. -/

/-- The paths a command names. -/
def paths : Command → List Path
  | .deps files => files
  | .status => []
  | .touch path files => path :: files

theorem mem_paths_of_mem_files (command : Command) {p : Path} (h : p ∈ files command) :
    p ∈ paths command := by
  cases command with
  | deps files => exact h
  | status => exact h
  | touch path files => exact List.mem_cons_of_mem _ h

theorem resolve_seenFrom (disk : Disk) {p : Path} (h : p.isAbsolute = true) :
    resolve (disk.seenFrom place) p = resolve disk p := by
  unfold resolve Path.resolve Path.join
  rw [if_pos h, if_pos h]

theorem select_seenFrom (w : ScanCache) {named : List Path}
    (h : ∀ p ∈ named, p.isAbsolute = true) :
    select (w.seenFrom place) named = select w named := by
  have hdocuments : documentsOf (w.seenFrom place) named = documentsOf w named := by
    induction named with
    | nil => rfl
    | cons file rest ih =>
      have hfile : resolve (w.seenFrom place).disk file = resolve w.disk file :=
        resolve_seenFrom place w.disk (h file List.mem_cons_self)
      unfold documentsOf
      rw [hfile, ih fun p hp => h p (List.mem_cons_of_mem _ hp)]
      rfl
  cases named with
  | nil => rfl
  | cons file rest => exact hdocuments

/-- A configuration file that is given from the root is the one that is loaded. -/
theorem openConfig_of_isAbsolute (disk : Disk) {config : Path} (h : config.isAbsolute = true) :
    openConfig disk (some config) =
      match Config.load disk config with
      | .ok c => .ok c
      | .error cause => .error (.config cause) := by
  have hjoin : disk.workPath.join config = config := by rw [Path.join, if_pos h]
  have hpath : configPath disk (some config) = .ok config := congrArg Except.ok hjoin
  unfold openConfig
  rw [hpath]
  rfl

/-- Whatever goes wrong while a command is prepared goes wrong from everywhere, and
otherwise it is prepared with the same documents. -/
theorem prepare_seenFrom {i : Invocation} {config : Path} (hconfig : i.config = some config)
    (habs : config.isAbsolute = true) (hpaths : ∀ p ∈ paths i.command, p.isAbsolute = true) :
    prepare (disk.seenFrom place) i =
      (prepare disk i).map fun s => (s.1.seenFrom place, s.2) := by
  unfold prepare
  rw [hconfig, openConfig_of_isAbsolute _ habs, openConfig_of_isAbsolute _ habs,
    Config.load_seenFrom habs]
  cases hload : Config.load disk config with
  | error cause => rfl
  | ok c =>
    obtain ⟨-, base, hbase, hroot⟩ := Config.base_of_load habs hload
    show (openCache (disk.seenFrom place) c).bind _ = ((openCache disk c).bind _).map _
    rw [openCache_seenFrom place hbase hroot]
    cases openCache disk c with
    | error cause => rfl
    | ok w =>
      show (select (w.seenFrom place) (files i.command)).bind _ =
        ((select w (files i.command)).bind _).map _
      rw [select_seenFrom place w fun p hp => hpaths p (mem_paths_of_mem_files i.command hp)]
      cases select w (files i.command) <;> rfl

/-- What a command is prepared with is anchored if the configuration is. -/
theorem anchored_of_prepare {i : Invocation} {config : Path} {ns : List Nat}
    (hconfig : i.config = some config) (habs : config.isAbsolute = true)
    (hown : ∀ c, Config.load disk config = .ok c → c.Anchored)
    (h : prepare disk i = .ok (w, ns)) :
    ∀ n ∈ w.held, ∃ d, w.documents[n]? = some d ∧ d.Anchored := by
  obtain ⟨c, hc, h⟩ := ok_of_bind h
  obtain ⟨w', hcache, h⟩ := ok_of_bind h
  obtain ⟨ns', -, h⟩ := ok_of_bind h
  cases h
  rw [hconfig, openConfig_of_isAbsolute _ habs] at hc
  cases hload : Config.load disk config with
  | error cause =>
    rw [hload] at hc
    cases hc
  | ok c' =>
    rw [hload] at hc
    cases hc
    obtain ⟨hvalid, base, hbase, hroot⟩ := Config.base_of_load habs hload
    exact anchored_of_openCache hbase hroot hvalid (hown c hload) hcache

section

variable {ns : List Nat} (hfresh : Fresh disk w)
  (hanchored : ∀ n ∈ w.held, ∃ d, w.documents[n]? = some d ∧ d.Anchored)
  (hns : ∀ n ∈ ns, n ∈ w.held)

theorem Fresh.seenFrom (h : Fresh disk w) (place : Place) :
    Fresh (disk.seenFrom place) (w.seenFrom place) :=
  ⟨congrArg (·.seenFrom place) h.disk_eq, h.files_eq, h.known, h.documents⟩

include hfresh

/-- The report on an anchored document that a command has parsed or updated. -/
theorem report?_seenFrom (c : Command) {n : Nat} {d : ScannedDocument}
    (hd : w.documents[n]? = some d) (hanchored : d.Anchored)
    (hn : n ∈ ns ∨ n ∈ (finish w ns c).printed)
    (hn' : n ∈ ns ∨ n ∈ (finish (w.seenFrom place) ns c).printed) :
    report? (finish (w.seenFrom place) ns c).cache n = report? (finish w ns c).cache n := by
  -- d₁ is the document at the end of the run from here, d₂ that of the run from there
  obtain ⟨d₁, hentry₁, hclean₁, hshows₁, -, hreport₁⟩ := report?_finish hfresh ns c hd
  obtain ⟨d₂, hentry₂, hclean₂, hshows₂, -, hreport₂⟩ :=
    report?_finish (hfresh.seenFrom place) ns c hd
  have hverdict : d₂.verdict (sourcesOf w) = d₂.verdict (sourcesOf (w.seenFrom place)) := by
    rw [hentry₂.verdict, hentry₂.verdict]
    exact (Document.verdict_seenFrom w.disk place hanchored w.buffers).symm
  have hsame : DocumentReport.ofDocument w.disk d₂ = .ofDocument w.disk d₁ :=
    Document.ofDocument_eq (hentry₁.symm.trans hentry₂) (hshows₁ hn)
      ((hshows₂ hn').of_verdict_eq hverdict) (hclean₂.trans hclean₁.symm) w.disk
  have hfile : d₂.key.path.isAbsolute = true := by
    rw [hentry₂.key]
    exact hanchored.file.1
  rw [hreport₁, hreport₂, ← hsame]
  exact congrArg some (Document.ofDocument_seenFrom w.disk place hfile)

include hanchored

/-- The same documents are printed. -/
theorem printed_seenFrom (c : Command) (hpaths : ∀ p ∈ paths c, p.isAbsolute = true) :
    (finish (w.seenFrom place) ns c).printed = (finish w ns c).printed := by
  cases c with
  | deps named => rfl
  | status => rfl
  | touch path named =>
    have hpath : resolve (w.seenFrom place).disk path = resolve w.disk path :=
      resolve_seenFrom place w.disk (hpaths path List.mem_cons_self)
    rw [printed_touch, printed_touch, hpath]
    apply List.filter_congr
    intro n hn
    obtain ⟨d, hd, hanchored⟩ := hanchored n hn
    by_cases hmem : n ∈ ns
    · -- once it is parsed, the change reaches it if its report lists the path
      have hsame := report?_seenFrom place hfresh .status hd hanchored (Or.inl hmem) (Or.inl hmem)
      obtain ⟨d₁, -, -, hshows₁, hd₁, hreport₁⟩ := report?_finish hfresh ns .status hd
      obtain ⟨d₂, -, -, hshows₂, hd₂, hreport₂⟩ :=
        report?_finish (hfresh.seenFrom place) ns .status hd
      have hreaches₁ := Document.any_dependencies (hshows₁ (Or.inl hmem))
        (hfresh.content? d₁.key.path) (resolve w.disk path)
      have hreaches₂ := Document.any_dependencies (hshows₂ (Or.inl hmem))
        (hfresh.content? d₂.key.path) (resolve w.disk path)
      have hd₁ : (updateEach .parseIfNeeded ns w).documents[n]? = some d₁ := hd₁
      have hd₂ : (updateEach .parseIfNeeded ns (w.seenFrom place)).documents[n]? = some d₂ := hd₂
      rw [hreport₁, hreport₂] at hsame
      have hdisk : DocumentReport.ofDocument (w.seenFrom place).disk d₂ =
          .ofDocument w.disk d₁ := Option.some.inj hsame
      rw [hd₁, hd₂, Option.any_some, Option.any_some, ← hreaches₁, ← hdisk]
      exact hreaches₂.symm
    · -- otherwise it is as it was made
      have hleft : ∀ w : ScanCache,
          (updateEach .parseIfNeeded ns w).documents[n]? = w.documents[n]? := by
        intro w
        rw [Workspace.updateEach_eq]
        exact Workspace.getElem?_updateEach_of_notMem Workspace.readsDisk_scanner _ ns w hmem
      have hd' : (w.seenFrom place).documents[n]? = some d := hd
      rw [hleft, hleft, hd, hd', Option.any_some, Option.any_some]
      exact Document.isAffectedBy_seenFrom w.disk place hanchored.file.1 _

include hns

/-- The same reports are printed. -/
theorem reports_seenFrom (c : Command) (hpaths : ∀ p ∈ paths c, p.isAbsolute = true) :
    (finish (w.seenFrom place) ns c).reports = (finish w ns c).reports := by
  have hprinted : (finish (w.seenFrom place) ns c).printed = (finish w ns c).printed :=
    printed_seenFrom place hfresh hanchored c hpaths
  rw [reports_eq, reports_eq, hprinted]
  apply List.filterMap_congr
  intro n hn
  have hn' : n ∈ (finish (w.seenFrom place) ns c).printed := by
    rw [hprinted]
    exact hn
  obtain ⟨d, hd, hanchored⟩ := hanchored n (mem_held_of_printed hns c n hn)
  exact report?_seenFrom place hfresh c hd hanchored (Or.inr hn) (Or.inr hn')

end

/-! ## §3. From the command line. -/

/-- Failures are told from the reports. -/
theorem hasFailures_eq_any (f : Finished) : f.hasFailures = f.reports.any (·.failed) := by
  unfold Finished.hasFailures Finished.reports
  rw [List.any_map]
  rfl

/-- What is prepared alike comes out alike. -/
theorem outcome_seenFrom {i : Invocation} {config : Path} (hconfig : i.config = some config)
    (habs : config.isAbsolute = true) (hpaths : ∀ p ∈ paths i.command, p.isAbsolute = true)
    (hown : ∀ c, Config.load disk config = .ok c → c.Anchored) :
    outcome (disk.seenFrom place) i = outcome disk i := by
  unfold outcome
  rw [run_eq, run_eq, prepare_seenFrom place hconfig habs hpaths]
  cases hprepare : prepare disk i with
  | error cause => rfl
  | ok s =>
    obtain ⟨w, ns⟩ := s
    obtain ⟨hfresh, hselect⟩ := fresh_of_prepare hprepare
    have hreports := reports_seenFrom place hfresh
      (anchored_of_prepare hconfig habs hown hprepare) (mem_held_of_select hselect)
      i.command hpaths
    show (⟨if (finish (w.seenFrom place) ns i.command).hasFailures then 1 else 0,
        text i.command i.format (finish (w.seenFrom place) ns i.command).reports, none⟩ : Outcome) =
      ⟨if (finish w ns i.command).hasFailures then 1 else 0,
        text i.command i.format (finish w ns i.command).reports, none⟩
    rw [hasFailures_eq_any, hasFailures_eq_any, hreports]

theorem answer_of_read {arguments : List String} {i : Invocation}
    (hread : CommandLine.read arguments = .ok i) (disk : Disk) :
    answer disk arguments = outcome disk i := by
  unfold answer
  rw [hread]

/-- A command line that gives its configuration file and all its paths from the root
is answered alike from every working directory, if the include directories that the
documents add to those of their parts start at the root as well. -/
theorem answer_seenFrom {arguments : List String} {i : Invocation} {config : Path}
    (hread : CommandLine.read arguments = .ok i) (hconfig : i.config = some config)
    (habs : config.isAbsolute = true) (hpaths : ∀ p ∈ paths i.command, p.isAbsolute = true)
    (hown : ∀ c, Config.load disk config = .ok c → c.Anchored) (here there : Place) :
    answer (disk.seenFrom here) arguments = answer (disk.seenFrom there) arguments := by
  rw [answer_of_read hread, answer_of_read hread,
    outcome_seenFrom here hconfig habs hpaths hown,
    outcome_seenFrom there hconfig habs hpaths hown]

/-- A source, its header in a directory of its own, and a configuration that names
that directory among the arguments of the document. -/
def headerTree (argument : String) : Disk :=
  [("/w/unitcache.json", "\x7b\"project_parts\":[\x7b\"id\":\"p\"\x7d],"
      ++ "\"documents\":[\x7b\"path\":\"a.c\",\"project_part\":\"p\","
      ++ "\"arguments\":[\"" ++ argument ++ "\"]\x7d]\x7d"),
    ("/w/a.c", "#include <x.h>\n"), ("/w/inc/x.h", "")].foldl
      (fun disk file => disk.write ⟨file.1⟩ (.text file.2)) (.fresh ["w"])

/-- With the directory given from the root, `touch` finds the header from everywhere. -/
theorem answer_seenFrom_touch :
    CommandLine.read ["--config", "/w/unitcache.json", "touch", "/w/inc/x.h"] =
      .ok ⟨some ⟨"/w/unitcache.json"⟩, .text, .touch ⟨"/w/inc/x.h"⟩ []⟩ ∧
    (∃ c, Config.load (headerTree "-I/w/inc") ⟨"/w/unitcache.json"⟩ = .ok c ∧ c.Anchored) ∧
    answer ((headerTree "-I/w/inc").seenFrom ["w"])
        ["--config", "/w/unitcache.json", "touch", "/w/inc/x.h"] =
      answer ((headerTree "-I/w/inc").seenFrom ["w", "inc"])
        ["--config", "/w/unitcache.json", "touch", "/w/inc/x.h"] := by
  have hread : CommandLine.read ["--config", "/w/unitcache.json", "touch", "/w/inc/x.h"] =
      .ok ⟨some ⟨"/w/unitcache.json"⟩, .text, .touch ⟨"/w/inc/x.h"⟩ []⟩ := by decide +kernel
  have hloads : (Config.load (headerTree "-I/w/inc") ⟨"/w/unitcache.json"⟩).toOption.any
      (fun c => decide c.Anchored) = true := by decide +kernel
  cases hload : Config.load (headerTree "-I/w/inc") ⟨"/w/unitcache.json"⟩ with
  | error cause =>
    rw [hload] at hloads
    cases hloads
  | ok c =>
    rw [hload] at hloads
    have hanchored : c.Anchored := of_decide_eq_true hloads
    have hown : ∀ c', Config.load (headerTree "-I/w/inc") ⟨"/w/unitcache.json"⟩ = .ok c' →
        c'.Anchored := by
      intro c' hc'
      rw [hload] at hc'
      cases hc'
      exact hanchored
    exact ⟨hread, ⟨c, rfl, hanchored⟩, answer_seenFrom hread rfl (by decide +kernel)
      (by decide +kernel) hown ["w"] ["w", "inc"]⟩

/-- The report on a document, with its dependencies in the order they were found. -/
def unsorted (disk : Disk) (d : ScannedDocument) : DocumentReport :=
  { DocumentReport.ofDocument disk d with
    dependencies :=
      match d.dependencies? disk with
      | .ok paths => paths.paths
      | .error _ => [] }

/-- The list of states tells how many dependencies there are, not which. -/
theorem statusText_unsorted (disk : Disk) (documents : List ScannedDocument) :
    DocumentReport.statusText (documents.map (.ofDocument disk)) =
      DocumentReport.statusText (documents.map (unsorted disk)) := by
  have hlength : ∀ d : ScannedDocument,
      (DocumentReport.ofDocument disk d).dependencies.length =
        (unsorted disk d).dependencies.length := by
    intro d
    unfold unsorted DocumentReport.ofDocument
    cases d.dependencies? disk with
    | ok paths => exact List.length_mergeSort paths.paths
    | error refusal => rfl
  have hline : ∀ d : ScannedDocument,
      (DocumentReport.ofDocument disk d).statusLine = (unsorted disk d).statusLine := by
    intro d
    unfold DocumentReport.statusLine
    rw [hlength]
    rfl
  unfold DocumentReport.statusText DocumentReport.summaryLine
  rw [List.map_map, List.map_map, List.countP_map, List.countP_map, List.countP_map,
    List.countP_map, List.length_map, List.length_map,
    show DocumentReport.statusLine ∘ DocumentReport.ofDocument disk =
      DocumentReport.statusLine ∘ unsorted disk from funext hline]
  rfl

theorem statusOutput_eq (disk : Disk) (config : Option Path) :
    (outcome disk ⟨config, .text, .status⟩).output =
      match run disk ⟨config, .text, .status⟩ with
      | .ok f => DocumentReport.statusText (f.documents.map (unsorted f.cache.disk))
      | .error _ => "" := by
  unfold outcome
  cases run disk ⟨config, .text, .status⟩ with
  | error cause => rfl
  | ok f => exact statusText_unsorted f.cache.disk f.documents

/-- With the directory given as `-Iinc`, `status` counts the header in the directory
of the configuration, and misses it in another one. -/
theorem answer_depends_on_directory :
    ¬ ∀ (disk : Disk) (here there : Place) (arguments : List String) (i : Invocation)
        (config : Path),
      CommandLine.read arguments = .ok i → i.config = some config → config.isAbsolute = true →
      (∀ p ∈ paths i.command, p.isAbsolute = true) →
      disk.node? here = some .directory → disk.node? there = some .directory →
      (answer (disk.seenFrom here) arguments).output =
          (answer (disk.seenFrom there) arguments).output ∧
        (answer (disk.seenFrom here) arguments).code =
          (answer (disk.seenFrom there) arguments).code := by
  intro h
  have hread : CommandLine.read ["--config", "/w/unitcache.json", "status"] =
      .ok ⟨some ⟨"/w/unitcache.json"⟩, .text, .status⟩ := by decide +kernel
  have hsame := (h (headerTree "-Iinc") ["w"] ["w", "inc"] _ _ _ hread rfl (by decide +kernel)
    nofun (by decide +kernel) (by decide +kernel)).1
  rw [answer_of_read hread, answer_of_read hread, statusOutput_eq, statusOutput_eq] at hsame
  revert hsame
  decide +kernel

end Command

end ParseCache
