/-
  ParseCache.Proofs.Include.Resolving — include directories of resolved
  arguments.

  The arguments of a project part are walked through twice.  `resolveArguments`
  rewrites every include directory, and later `searchPaths` collects the
  directories from the result.  The two walks agree on what an argument means,
  so the scanner reads the resolved directories, provided that an argument
  still means the same once it was rewritten.  One does not: a directory joined
  to its flag that resolves to the empty path leaves the bare flag, and a bare
  flag takes the next argument for its directory.

  Main results:
    * `read_written` — what is read back where a flag was written with a
      directory;
    * `resolveArguments_eq` — the first walk rewrites word by word;
    * `searchPaths_resolve_iff` — the resolved directories are read exactly if
      every directory that vanishes is followed by an empty argument, and the
      other arguments keep their places in any case;
    * `legible_of_base` — nothing vanishes below an absolute base directory;
    * `vanished_directory` — without a base directory `-I.` vanishes.
-/
import ParseCache.Config
import ParseCache.Proofs.Path.Canonical

namespace ParseCache

namespace Include

/-! ## §1. Single arguments. -/

namespace Argument

theorem readAs_append (flag : Flag) (text : String) :
    readAs flag (flag.text ++ text) = if text = "" then .alone flag else .joined flag text := by
  have hopening : (flag.text ++ text).toList = flag.text.toList ++ text.toList :=
    String.toList_append
  unfold readAs
  simp only [hopening, List.isPrefixOf_iff_prefix, List.prefix_append, if_true, List.drop_left]
  by_cases hempty : text = ""
  · rw [hempty]
    rfl
  · rw [if_neg hempty]
    split
    · rename_i hnil
      exact absurd (String.toList_eq_nil_iff.1 hnil) hempty
    · rw [String.ofList_toList]

/-- An argument that does not open with a flag is nothing to it. -/
theorem readAs_cases (flag : Flag) (argument : String) :
    readAs flag argument = .other ∨ ∃ text, argument = flag.text ++ text := by
  by_cases hopen : flag.text.toList <+: argument.toList
  · obtain ⟨rest, hrest⟩ := hopen
    refine Or.inr ⟨String.ofList rest, ?_⟩
    rw [← String.toList_inj, String.toList_append, String.toList_ofList, hrest]
  · left
    unfold readAs
    simp only [List.isPrefixOf_iff_prefix, hopen, if_false]

/-- A flag written with a directory is read back as such, unless nothing of the
directory was written. -/
theorem read_written (flag : Flag) (text : String) :
    read (flag.text ++ text) = if text = "" then .alone flag else .joined flag text := by
  unfold read
  cases flag with
  | user =>
    rw [readAs_append]
    by_cases hempty : text = ""
    · rw [if_pos hempty]
    · rw [if_neg hempty]
  | system =>
    -- the two flags differ in their second letter
    have huser : readAs .user (Flag.system.text ++ text) = .other := by
      unfold readAs
      rw [String.toList_append]
      rfl
    rw [huser]
    exact readAs_append .system text

theorem read_flag (flag : Flag) : read flag.text = .alone flag := by
  have h := read_written flag ""
  rwa [String.append_empty, if_pos rfl] at h

/-- Only flags are read as anything. -/
theorem read_cases (argument : String) :
    read argument = .other ∨ ∃ (flag : Flag) (text : String), argument = flag.text ++ text := by
  rcases readAs_cases .user argument with huser | ⟨text, htext⟩
  · rcases readAs_cases .system argument with hsystem | ⟨text, htext⟩
    · left
      unfold read
      rw [huser]
      exact hsystem
    · exact Or.inr ⟨.system, text, htext⟩
  · exact Or.inr ⟨.user, text, htext⟩

theorem eq_of_read_alone {argument : String} {flag : Flag} (h : read argument = .alone flag) :
    argument = flag.text := by
  rcases read_cases argument with hother | ⟨flag', text, rfl⟩
  · rw [hother] at h
    cases h
  · rw [read_written] at h
    split at h
    · rename_i hempty
      cases h
      rw [hempty, String.append_empty]
    · cases h

theorem eq_of_read_joined {argument directory : String} {flag : Flag}
    (h : read argument = .joined flag directory) :
    argument = flag.text ++ directory ∧ directory ≠ "" := by
  rcases read_cases argument with hother | ⟨flag', text, rfl⟩
  · rw [hother] at h
    cases h
  · rw [read_written] at h
    split at h
    · cases h
    · rename_i hempty
      cases h
      exact ⟨rfl, hempty⟩

end Argument

/-! ## §2. Argument lists. -/

/-- An argument and the part it plays in its list. -/
inductive Word
  /-- It has nothing to do with include directories. -/
  | plain (text : String)
  /-- A flag that stands alone. -/
  | flag (flag : Flag)
  /-- The directory of the flag before it. -/
  | directory (text : String)
  /-- A flag and its directory. -/
  | joined (flag : Flag) (directory : String)
deriving Repr, DecidableEq

namespace Word

/-- The argument. -/
def text : Word → String
  | .plain text => text
  | .flag f => f.text
  | .directory text => text
  | .joined f text => f.text ++ text

/-- The word with its directory read from the base directory. -/
def resolve (c : Config) : Word → Word
  | .directory text => .directory (c.resolveText text)
  | .joined f text => .joined f (c.resolveText text)
  | word => word

/-- Nothing is left of the directory that is joined to the flag. -/
def Vanishes (c : Config) (word : Word) : Prop :=
  ∃ flag text, word = .joined flag text ∧ c.resolveText text = ""

end Word

/-- The parts that the arguments of a list play. -/
def words : List String → List Word
  | [] => []
  | argument :: rest =>
    match Argument.read argument with
    | .other => .plain argument :: words rest
    | .joined flag directory => .joined flag directory :: words rest
    | .alone flag =>
      match rest with
      | [] => [.flag flag]
      | directory :: rest => .flag flag :: .directory directory :: words rest

/-- The words are the arguments. -/
theorem text_words (arguments : List String) : (words arguments).map Word.text = arguments := by
  fun_induction words arguments with
  | case1 => rfl
  | case2 argument rest hread ih =>
    rw [List.map_cons, ih]
    rfl
  | case3 argument rest flag directory hread ih =>
    rw [List.map_cons, ih, (Argument.eq_of_read_joined hread).1]
    rfl
  | case4 argument flag hread =>
    rw [Argument.eq_of_read_alone hread]
    rfl
  | case5 argument flag hread directory rest ih =>
    rw [List.map_cons, List.map_cons, ih, Argument.eq_of_read_alone hread]
    rfl

theorem searchPaths_cons (argument : String) (rest : List String) :
    searchPaths (argument :: rest) =
      match Argument.read argument with
      | .other => searchPaths rest
      | .joined _ directory => ⟨directory⟩ :: searchPaths rest
      | .alone _ =>
        match rest with
        | [] => []
        | directory :: rest => ⟨directory⟩ :: searchPaths rest :=
  searchPaths.eq_def (argument :: rest)

theorem searchPaths_alone {argument : String} {flag : Flag}
    (h : Argument.read argument = .alone flag) (directory : String) (rest : List String) :
    searchPaths (argument :: directory :: rest) = ⟨directory⟩ :: searchPaths rest := by
  rw [searchPaths_cons, h]

theorem resolveArguments_cons (c : Config) (argument : String) (rest : List String) :
    c.resolveArguments (argument :: rest) =
      match Argument.read argument with
      | .other => argument :: c.resolveArguments rest
      | .joined flag directory =>
        (flag.text ++ c.resolveText directory) :: c.resolveArguments rest
      | .alone flag =>
        match rest with
        | [] => [flag.text]
        | directory :: rest =>
          flag.text :: c.resolveText directory :: c.resolveArguments rest :=
  Config.resolveArguments.eq_def c (argument :: rest)

/-- Resolving goes word by word. -/
theorem resolveArguments_eq (c : Config) (arguments : List String) :
    c.resolveArguments arguments = (words arguments).map fun word => (word.resolve c).text := by
  fun_induction words arguments with
  | case1 => rfl
  | case2 argument rest hread ih =>
    rw [resolveArguments_cons, hread]
    exact congrArg (_ :: ·) ih
  | case3 argument rest flag directory hread ih =>
    rw [resolveArguments_cons, hread]
    exact congrArg (_ :: ·) ih
  | case4 argument flag hread =>
    rw [resolveArguments_cons, hread]
    rfl
  | case5 argument flag hread directory rest ih =>
    rw [resolveArguments_cons, hread]
    exact congrArg (_ :: _ :: ·) ih

/-! ## §3. Resolved arguments, read again. -/

/-- Every directory that vanishes is followed by an empty argument, which the
bare flag that is left takes for it. -/
def Legible (c : Config) (ws : List Word) : Prop :=
  ∀ i word, ws[i]? = some word → word.Vanishes c → ws[i + 1]? = some (.plain "")

theorem legible_cons {c : Config} {word : Word} {ws : List Word} :
    Legible c (word :: ws) ↔
      (word.Vanishes c → ws.head? = some (.plain "")) ∧ Legible c ws := by
  constructor
  · intro h
    refine ⟨fun hvanishes => ?_, fun i word' hword' => h (i + 1) word' hword'⟩
    rw [List.head?_eq_getElem?]
    exact h 0 word rfl hvanishes
  · rintro ⟨hhead, htail⟩ i word' hword'
    cases i with
    | zero =>
      cases hword'
      intro hvanishes
      show ws[0]? = _
      rw [← List.head?_eq_getElem?]
      exact hhead hvanishes
    | succ i => exact htail i word' hword'

theorem Word.not_vanishes {c : Config} {word : Word} (h : ∀ flag text, word ≠ .joined flag text) :
    ¬ word.Vanishes c := by
  rintro ⟨flag, text, hword, -⟩
  exact h flag text hword

/-- An argument that has to do with include directories leaves a first argument
that is not empty, and its first word is not plain. -/
theorem resolved_of_read (c : Config) {argument : String} (rest : List String)
    (h : Argument.read argument ≠ .other) :
    (∃ text next, c.resolveArguments (argument :: rest) = text :: next ∧ text ≠ "") ∧
      ∀ text, (words (argument :: rest)).head? ≠ some (.plain text) := by
  have hflag : ∀ (flag : Flag) (text : String), flag.text ++ text ≠ "" := by
    intro flag text hempty
    have hletters := congrArg String.toList hempty
    rw [String.toList_append] at hletters
    cases flag <;> cases hletters
  have hbare : ∀ flag : Flag, flag.text ≠ "" := by
    intro flag
    have h := hflag flag ""
    rwa [String.append_empty] at h
  have hwords := words.eq_def (argument :: rest)
  rw [resolveArguments_cons]
  rcases hread : Argument.read argument with flag | ⟨flag, directory⟩ | _
  · cases rest with
    | nil =>
      simp only [hread] at hwords
      rw [hwords]
      exact ⟨⟨flag.text, [], rfl, hbare flag⟩, nofun⟩
    | cons directory rest =>
      simp only [hread] at hwords
      rw [hwords]
      exact ⟨⟨flag.text, _, rfl, hbare flag⟩, nofun⟩
  · simp only [hread] at hwords
    rw [hwords]
    exact ⟨⟨_, _, rfl, hflag flag _⟩, nofun⟩
  · exact absurd hread h

/-- A bare flag reads the empty directory out of resolved arguments exactly if
the first of them is plain and empty. -/
theorem searchPaths_bare_iff (c : Config) (flag : Flag) {rest : List String}
    (ih : searchPaths (c.resolveArguments rest) = (searchPaths rest).map c.resolve ↔
      Legible c (words rest)) :
    searchPaths (flag.text :: c.resolveArguments rest)
        = ⟨""⟩ :: (searchPaths rest).map c.resolve ↔
      (words rest).head? = some (.plain "") ∧ Legible c (words rest) := by
  have htaken := searchPaths_alone (Argument.read_flag flag)
  cases rest with
  | nil =>
    -- there is nothing for the flag to take
    rw [Config.resolveArguments, searchPaths_cons, Argument.read_flag]
    simp [words]
  | cons argument rest =>
    by_cases hread : Argument.read argument = .other
    · have hwords : words (argument :: rest) = .plain argument :: words rest := by
        rw [words, hread]
      have hresolved : c.resolveArguments (argument :: rest)
          = argument :: c.resolveArguments rest := by rw [resolveArguments_cons, hread]
      rw [← ih, hwords, hresolved, htaken, searchPaths_cons argument, searchPaths_cons argument,
        hread]
      simp
    · obtain ⟨⟨text, next, hresolved, htext⟩, hplain⟩ := resolved_of_read c rest hread
      rw [hresolved, htaken]
      simp [htext, hplain]

/-- The scanner reads the resolved directories as long as nothing vanishes. -/
theorem searchPaths_resolveArguments_iff (c : Config) (arguments : List String) :
    searchPaths (c.resolveArguments arguments) = (searchPaths arguments).map c.resolve ↔
      Legible c (words arguments) := by
  fun_induction words arguments with
  | case1 =>
    refine ⟨fun _ i word hword => ?_, fun _ => rfl⟩
    cases hword
  | case2 argument rest hread ih =>
    have hresolved : searchPaths (c.resolveArguments (argument :: rest))
        = searchPaths (c.resolveArguments rest) := by
      rw [resolveArguments_cons, hread, searchPaths_cons, hread]
    rw [hresolved, searchPaths_cons, hread, legible_cons, ih]
    simp [Word.not_vanishes]
  | case3 argument rest flag directory hread ih =>
    have hresolved : c.resolveArguments (argument :: rest)
        = (flag.text ++ c.resolveText directory) :: c.resolveArguments rest := by
      rw [resolveArguments_cons, hread]
    have hpaths : (searchPaths (argument :: rest)).map c.resolve
        = ⟨c.resolveText directory⟩ :: (searchPaths rest).map c.resolve := by
      rw [searchPaths_cons, hread]
      rfl
    rw [hresolved, hpaths, legible_cons]
    by_cases hempty : c.resolveText directory = ""
    · have hvanishes : (Word.joined flag directory).Vanishes c := ⟨flag, directory, rfl, hempty⟩
      rw [hempty, String.append_empty, searchPaths_bare_iff c flag ih]
      simp [hvanishes]
    · have hstays : ¬ (Word.joined flag directory).Vanishes c := by
        rintro ⟨_, _, hword, hnone⟩
        cases hword
        exact hempty hnone
      rw [searchPaths_cons, Argument.read_written, if_neg hempty]
      simp [hstays, ih]
  | case4 argument flag hread =>
    have hresolved : c.resolveArguments [argument] = [flag.text] := by
      rw [resolveArguments_cons, hread]
    rw [hresolved, searchPaths_cons, searchPaths_cons, Argument.read_flag, hread, legible_cons]
    simp [Word.not_vanishes, Legible]
  | case5 argument flag hread directory rest ih =>
    have hresolved : c.resolveArguments (argument :: directory :: rest)
        = flag.text :: c.resolveText directory :: c.resolveArguments rest := by
      rw [resolveArguments_cons, hread]
    rw [hresolved, searchPaths_alone (Argument.read_flag flag), searchPaths_alone hread,
      legible_cons, legible_cons, ← ih]
    simp [Word.not_vanishes, Config.resolveText]

/-- The scanner reads the resolved include directories, in their order, exactly
if every directory that vanishes is followed by an empty argument.  Whatever
vanishes, no argument is added or lost, and those that are neither flags nor
directories stay as they are, in their places. -/
theorem searchPaths_resolve_iff (c : Config) (arguments : List String) :
    (searchPaths (c.resolveArguments arguments) = (searchPaths arguments).map c.resolve ↔
      Legible c (words arguments)) ∧
    (c.resolveArguments arguments).length = arguments.length ∧
    ∀ (i : Nat) (text : String), (words arguments)[i]? = some (.plain text) →
      arguments[i]? = some text ∧ (c.resolveArguments arguments)[i]? = some text := by
  refine ⟨searchPaths_resolveArguments_iff c arguments, ?_, fun i text hplain => ?_⟩
  · rw [resolveArguments_eq, List.length_map, ← List.length_map Word.text, text_words]
  · have hargument : arguments[i]? = some text := by
      rw [← text_words arguments, List.getElem?_map, hplain]
      rfl
    refine ⟨hargument, ?_⟩
    rw [resolveArguments_eq, List.getElem?_map, hplain]
    rfl

/-- Below a base directory that starts at the root, nothing vanishes. -/
theorem legible_of_base {c : Config} {base : Path} (hbase : c.base = some base)
    (hroot : base.isAbsolute = true) (arguments : List String) : Legible c (words arguments) := by
  rintro i word - ⟨flag, text, -, hempty⟩
  have habsolute : (c.resolve ⟨text⟩).isAbsolute = true := by
    unfold Config.resolve
    rw [hbase]
    simp only
    split
    · rename_i hpath
      exact Path.isAbsolute_normalize hpath
    · exact Path.isAbsolute_resolve hroot ⟨text⟩
  -- a path that starts at the root has a text
  have hnone : c.resolve ⟨text⟩ = ⟨""⟩ := congrArg Path.mk hempty
  rw [hnone] at habsolute
  cases habsolute

/-- Without a base directory the working directory vanishes, and the flag takes
the argument after it. -/
theorem vanished_directory :
    ¬ ∀ (c : Config) (arguments : List String),
      searchPaths (c.resolveArguments arguments) = (searchPaths arguments).map c.resolve := by
  intro h
  have hpaths := h .empty ["-I.", "-DX"]
  revert hpaths
  decide

end Include

end ParseCache
