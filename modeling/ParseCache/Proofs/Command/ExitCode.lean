/-
  ParseCache.Proofs.Command.ExitCode — what the exit code tells.

  A command answers 2 if it could not be prepared.  Otherwise it owes a 1 if one
  of the documents it has parsed or updated is failed in the end, and a 0 if none
  is.  `deps` and `status` print what they parse, so they owe what they answer.

  `touch` counts the documents it prints only, and these are the ones the change
  reached.  A document that cannot be read depends on nothing but its own file, so
  the change reaches it only if that is the file that changed, and only while that
  is there.  A failure of any other document that was parsed first is not told.

  Main results:
    * `failed_finish` — in the end a document is failed if it cannot be read;
    * `printed_unreadable` — the unreadable documents that `touch` prints;
    * `code_of_read` — the exit code of every command line, and the one case in
      which it is not the one that is owed.
-/
import ParseCache.Proofs.Command.Touch

namespace ParseCache

open Include

namespace Command

/-! ## §1. The code that is owed. -/

/-- One of these documents has failed. -/
def someFailed (w : ScanCache) (documents : List Nat) : Bool :=
  documents.any fun n => w.documents[n]?.any (·.failed)

/-- The code a command owes: 2 if it cannot be prepared, and otherwise whether a
document that it parsed first or printed is failed when it is through. -/
def dueCode (disk : Disk) (i : Invocation) : UInt32 :=
  match prepare disk i, run disk i with
  | .ok (_, parsed), .ok f => if someFailed f.cache (parsed ++ f.printed) then 1 else 0
  | _, _ => 2

/-- A document whose file cannot be scanned. -/
def Unreadable (w : ScanCache) (n : Nat) : Prop :=
  ∃ d cause, w.documents[n]? = some d ∧ d.verdict (sourcesOf w) = .error cause

/-- The path is that of the document's own file, which is there. -/
def OwnFile (w : ScanCache) (path : Path) (n : Nat) : Prop :=
  ∃ d, w.documents[n]? = some d ∧ path.same d.key.path = true ∧ d.fileExists w.disk = true

/-- A failure that is not told: a document that was parsed first cannot be read,
and the changed file is not the file of such a document, or it is gone. -/
def Hushed (w : ScanCache) (parsed : List Nat) : Command → Prop
  | .touch path _ => (∃ n ∈ parsed, Unreadable w n) ∧
      ¬ ∃ n ∈ w.held, Unreadable w n ∧ OwnFile w (resolve w.disk path) n
  | _ => False

variable {disk : Disk} {w : ScanCache} {ns : List Nat}

/-- What is counted is printed. -/
theorem hasFailures_eq (f : Finished) : f.hasFailures = someFailed f.cache f.printed := by
  unfold Finished.hasFailures Finished.documents someFailed
  rw [List.any_filterMap]
  rfl

theorem someFailed_append (w : ScanCache) (ns ms : List Nat) :
    someFailed w (ns ++ ms) = (someFailed w ns || someFailed w ms) :=
  List.any_append

/-! ## §2. Which documents fail. -/

/-- What a command has parsed or updated is failed in the end exactly if it cannot
be read. -/
theorem failed_finish (hfresh : Fresh disk w) (c : Command) {n : Nat} (hheld : n ∈ w.held)
    (hn : n ∈ ns ∨ n ∈ (finish w ns c).printed) :
    (finish w ns c).cache.documents[n]?.any (·.failed) = true ↔ Unreadable w n := by
  have hd := List.getElem?_eq_getElem (hfresh.known n hheld)
  obtain ⟨d', hd', hentry, -, hshows⟩ := finish_document hfresh ns c hd
  rw [hd', Option.any_some, (hshows hn).failed_iff, hentry.verdict]
  constructor
  · rintro ⟨cause, hverdict⟩
    exact ⟨_, cause, hd, hverdict⟩
  · rintro ⟨d, cause, hd₂, hverdict⟩
    rw [hd] at hd₂
    cases hd₂
    exact ⟨cause, hverdict⟩

theorem someFailed_finish (hfresh : Fresh disk w) (c : Command) {ms : List Nat}
    (hheld : ∀ n ∈ ms, n ∈ w.held)
    (hms : ∀ n ∈ ms, n ∈ ns ∨ n ∈ (finish w ns c).printed) :
    someFailed (finish w ns c).cache ms = true ↔ ∃ n ∈ ms, Unreadable w n := by
  unfold someFailed
  rw [List.any_eq_true]
  constructor
  · rintro ⟨n, hn, hfailed⟩
    exact ⟨n, hn, (failed_finish hfresh c (hheld n hn) (hms n hn)).1 hfailed⟩
  · rintro ⟨n, hn, hunreadable⟩
    exact ⟨n, hn, (failed_finish hfresh c (hheld n hn) (hms n hn)).2 hunreadable⟩

/-- Of the documents that cannot be read, `touch` prints those whose own file has
changed and is there. -/
theorem printed_unreadable (hfresh : Fresh disk w) (path : Path) (files : List Path) {n : Nat}
    (hheld : n ∈ w.held) (hunreadable : Unreadable w n) :
    n ∈ (finish w ns (.touch path files)).printed ↔ OwnFile w (resolve w.disk path) n := by
  obtain ⟨d, cause, hd, hverdict⟩ := hunreadable
  obtain ⟨d', hd', hparsed⟩ := advances_updateEach .parseIfNeeded nofun ns rfl hd
    (Or.inl (hfresh.documents n d hd).1)
  -- it has not been parsed with success, so its file is all it depends on
  have halone : d'.Alone :=
    hparsed.follows.alone_of_error ((hparsed.entry.verdict _).trans hverdict)
  have hreaches := halone.isAffectedBy w.disk (resolve w.disk path)
  have hfile : d'.fileExists w.disk = d.fileExists w.disk := by
    unfold Document.fileExists
    rw [hparsed.entry.key]
  rw [hparsed.entry.key, hfile] at hreaches
  rw [printed_touch, List.mem_filter, hd', Option.any_some, hreaches, Bool.and_eq_true]
  constructor
  · rintro ⟨-, hsame, hexists⟩
    exact ⟨d, hd, hsame, hexists⟩
  · rintro ⟨d₂, hd₂, hsame, hexists⟩
    rw [hd] at hd₂
    cases hd₂
    exact ⟨hheld, hsame, hexists⟩

/-- A failure is not told exactly if it is among the documents parsed first and
not among those that are printed. -/
theorem hushed_iff (hfresh : Fresh disk w) (hns : ∀ n ∈ ns, n ∈ w.held) (c : Command) :
    Hushed w ns c ↔ someFailed (finish w ns c).cache ns = true ∧
      someFailed (finish w ns c).cache (finish w ns c).printed = false := by
  have hparsed := someFailed_finish hfresh c hns fun n hn => Or.inl hn
  have hprinted := someFailed_finish hfresh c (mem_held_of_printed hns c) fun n hn => Or.inr hn
  cases c with
  -- these print what they parse
  | deps files => exact ⟨nofun, fun h => nomatch h.1.symm.trans h.2⟩
  | status => exact ⟨nofun, fun h => nomatch h.1.symm.trans h.2⟩
  | touch path files =>
    rw [hparsed, ← Bool.not_eq_true, hprinted]
    apply and_congr_right'
    apply not_congr
    constructor
    · rintro ⟨n, hheld, hunreadable, hown⟩
      exact ⟨n, (printed_unreadable hfresh path files hheld hunreadable).2 hown, hunreadable⟩
    · rintro ⟨n, hn, hunreadable⟩
      have hheld := mem_held_of_printed hns (.touch path files) n hn
      exact ⟨n, hheld, hunreadable, (printed_unreadable hfresh path files hheld hunreadable).1 hn⟩

/-! ## §3. Exit codes. -/

/-- What cannot be prepared is answered with 2. -/
theorem code_of_error {i : Invocation} {cause : CommandError}
    (hprepare : prepare disk i = .error cause) :
    (outcome disk i).code = 2 ∧ dueCode disk i = 2 := by
  have hrun : run disk i = .error cause := by
    rw [run_eq, hprepare]
    rfl
  unfold outcome dueCode
  rw [hrun, hprepare]
  exact ⟨rfl, rfl⟩

/-- What is prepared is answered by the documents printed, and owes an answer by
those parsed first as well. -/
theorem code_of_ok {i : Invocation} (hprepare : prepare disk i = .ok (w, ns)) :
    let f := finish w ns i.command
    (outcome disk i).code = (if someFailed f.cache f.printed then 1 else 0) ∧
      dueCode disk i =
        if someFailed f.cache ns || someFailed f.cache f.printed then 1 else 0 := by
  intro f
  have hrun : run disk i = .ok f := by
    rw [run_eq, hprepare]
    rfl
  constructor
  · unfold outcome
    rw [hrun, ← hasFailures_eq]
  · unfold dueCode
    rw [hprepare, hrun, ← someFailed_append]

/-- Every command line that asks for a command is answered with 2 if the command
cannot be prepared, and with 0 or 1 if it can.  That is what it owes, but for the
failures that `touch` does not tell: then it answers 0 and owes 1. -/
theorem code_of_read {arguments : List String} {i : Invocation}
    (hread : CommandLine.read arguments = .ok i) :
    (∀ cause, prepare disk i = .error cause →
      (answer disk arguments).code = 2 ∧ dueCode disk i = 2) ∧
    ∀ w parsed, prepare disk i = .ok (w, parsed) →
      ((answer disk arguments).code = 0 ∨ (answer disk arguments).code = 1) ∧
      (Hushed w parsed i.command → (answer disk arguments).code = 0 ∧ dueCode disk i = 1) ∧
      (¬ Hushed w parsed i.command → (answer disk arguments).code = dueCode disk i) := by
  have hanswer : answer disk arguments = outcome disk i := by
    unfold answer
    rw [hread]
  rw [hanswer]
  refine ⟨fun cause hprepare => code_of_error hprepare, fun w ns hprepare => ?_⟩
  obtain ⟨hfresh, hselect⟩ := fresh_of_prepare hprepare
  obtain ⟨hcode, hdue⟩ := code_of_ok hprepare
  rw [hcode, hdue, hushed_iff hfresh (mem_held_of_select hselect)]
  -- one of the parsed documents has failed or none, and of the printed ones
  cases someFailed (finish w ns i.command).cache ns with
  | false =>
    refine ⟨?_, fun h => (nomatch h.1), fun _ => rfl⟩
    cases someFailed (finish w ns i.command).cache (finish w ns i.command).printed with
    | false => exact Or.inl rfl
    | true => exact Or.inr rfl
  | true =>
    cases someFailed (finish w ns i.command).cache (finish w ns i.command).printed with
    | false => exact ⟨Or.inl rfl, fun _ => ⟨rfl, rfl⟩, fun h => absurd ⟨rfl, rfl⟩ h⟩
    | true => exact ⟨Or.inr rfl, fun h => (nomatch h.2), fun _ => rfl⟩

/-- `status` tells that a file is gone. -/
theorem code_of_read_status :
    CommandLine.read ["status"] = .ok ⟨none, .text, .status⟩ ∧
    (answer sharedTree ["status"]).code = dueCode sharedTree ⟨none, .text, .status⟩ := by
  have hread : CommandLine.read ["status"] = .ok ⟨none, .text, .status⟩ := by decide +kernel
  refine ⟨hread, ?_⟩
  cases hprepare : prepare sharedTree ⟨none, .text, .status⟩ with
  | error cause =>
    obtain ⟨hcode, hdue⟩ := (code_of_read hread).1 cause hprepare
    exact hcode.trans hdue.symm
  | ok s => exact ((code_of_read hread).2 s.1 s.2 hprepare).2.2 nofun

/-- `touch` does not, where the header of other documents has changed. -/
theorem failure_not_told :
    ¬ ∀ (disk : Disk) (arguments : List String) (i : Invocation),
      CommandLine.read arguments = .ok i → (answer disk arguments).code = dueCode disk i := by
  intro h
  have hread : CommandLine.read ["touch", "a.h"] = .ok ⟨none, .text, .touch ⟨"a.h"⟩ []⟩ := by
    decide +kernel
  have htold := h sharedTree _ _ hread
  revert htold
  decide +kernel

end Command

end ParseCache
