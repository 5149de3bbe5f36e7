/-
  ParseCache.Proofs.Include.Following — arguments that follow others.

  A document is parsed with the arguments of its part and then its own, and the
  scanner walks through both as one list.  Only those of the part were resolved
  before.  What the others add to the include directories is taken as it stands,
  and where the part ends in a flag without a directory, their first argument
  becomes that directory.

  Main results:
    * `searchPaths_append` — the directories of two lists, one after the other;
    * `searchPaths_resolved_append` — the same where the first list was resolved;
    * `forall_isAbsolute_iff` — below a base directory that starts at the root,
      every directory starts there if those that are added do.
-/
import ParseCache.Proofs.Include.Resolving
import ParseCache.Proofs.Include.SourceChange

namespace ParseCache

/-- Below a base directory that starts at the root, a path of the configuration
does so too. -/
theorem Config.rooted_resolve {c : Config} {base : Path} (hbase : c.base = some base)
    (hroot : base.isAbsolute = true) (p : Path) : (c.resolve p).Rooted := by
  unfold Config.resolve
  rw [hbase]
  simp only
  split
  · rename_i hpath
    exact ⟨Path.isAbsolute_normalize hpath, Path.normalize_normalize p⟩
  · exact Path.rooted_resolve hroot p

namespace Include

/-- The flag that an argument list ends in, if its directory is still to come. -/
def openFlag? : List String → Option Flag
  | [] => none
  | argument :: rest =>
    match Argument.read argument with
    | .alone flag =>
      match rest with
      | [] => some flag
      | _ :: rest => openFlag? rest
    | _ => openFlag? rest

/-- The include directories that arguments add where they follow others. -/
def addedPaths (before own : List String) : List Path :=
  searchPaths ((openFlag? before).toList.map Flag.text ++ own)

theorem openFlag?_cons (argument : String) (rest : List String) :
    openFlag? (argument :: rest) =
      match Argument.read argument with
      | .alone flag =>
        match rest with
        | [] => some flag
        | _ :: rest => openFlag? rest
      | _ => openFlag? rest :=
  openFlag?.eq_def (argument :: rest)

/-- A flag that has its directory is not left open. -/
theorem openFlag?_alone {argument : String} {flag : Flag}
    (h : Argument.read argument = .alone flag) (directory : String) (rest : List String) :
    openFlag? (argument :: directory :: rest) = openFlag? rest := by
  rw [openFlag?_cons, h]

/-- The directories of two lists are those of the first, and those that the second
adds. -/
theorem searchPaths_append (before own : List String) :
    searchPaths (before ++ own) = searchPaths before ++ addedPaths before own := by
  unfold addedPaths
  fun_induction words before with
  | case1 => rfl
  | case2 argument rest hread ih =>
    rw [List.cons_append, searchPaths_cons, searchPaths_cons, openFlag?_cons, hread]
    exact ih
  | case3 argument rest flag directory hread ih =>
    rw [List.cons_append, searchPaths_cons, searchPaths_cons, openFlag?_cons, hread]
    exact congrArg (_ :: ·) ih
  | case4 argument flag hread =>
    -- the flag is still open, and what follows is read as it would be after it
    rw [searchPaths_cons argument [], openFlag?_cons, hread, Argument.eq_of_read_alone hread]
    rfl
  | case5 argument flag hread directory rest ih =>
    rw [List.cons_append, List.cons_append, searchPaths_alone hread, searchPaths_alone hread,
      openFlag?_alone hread]
    exact congrArg (_ :: ·) ih

/-- A flag at the end of the first list takes an argument of the second for its
directory. -/
example : addedPaths ["-I", "/w/a", "-isystem"] ["-O2", "-Ib"] = [⟨"-O2"⟩, ⟨"b"⟩] := by decide

variable {c : Config} {base : Path}

section

variable (hbase : c.base = some base) (hroot : base.isAbsolute = true)

include hbase hroot

/-- Below a base directory that starts at the root, a directory that is resolved has
a text. -/
theorem resolveText_ne_empty (directory : String) : c.resolveText directory ≠ "" := by
  intro hempty
  have habs := (Config.rooted_resolve hbase hroot ⟨directory⟩).1
  have hnone : c.resolve ⟨directory⟩ = ⟨""⟩ := congrArg Path.mk hempty
  rw [hnone] at habs
  cases habs

/-- A list that is resolved ends as it did. -/
theorem openFlag?_resolveArguments (arguments : List String) :
    openFlag? (c.resolveArguments arguments) = openFlag? arguments := by
  fun_induction words arguments with
  | case1 => rfl
  | case2 argument rest hread ih =>
    rw [resolveArguments_cons, hread, openFlag?_cons, openFlag?_cons, hread]
    exact ih
  | case3 argument rest flag directory hread ih =>
    have hwritten : Argument.read (flag.text ++ c.resolveText directory) =
        .joined flag (c.resolveText directory) := by
      rw [Argument.read_written, if_neg (resolveText_ne_empty hbase hroot directory)]
    rw [resolveArguments_cons, hread, openFlag?_cons, openFlag?_cons, hread, hwritten]
    exact ih
  | case4 argument flag hread =>
    rw [resolveArguments_cons, hread, openFlag?_cons, openFlag?_cons, hread, Argument.read_flag]
  | case5 argument flag hread directory rest ih =>
    rw [resolveArguments_cons, hread, openFlag?_alone hread]
    exact (openFlag?_alone (Argument.read_flag flag) _ _).trans ih

/-- Where the first list was resolved, its directories are, and the second adds what
it would have added. -/
theorem searchPaths_resolved_append (before own : List String) :
    searchPaths (c.resolveArguments before ++ own) =
      (searchPaths before).map c.resolve ++ addedPaths before own := by
  have hresolved := (searchPaths_resolveArguments_iff c before).2
    (legible_of_base hbase hroot before)
  rw [searchPaths_append, hresolved, addedPaths, openFlag?_resolveArguments hbase hroot]
  rfl

/-- So it is for the second list to keep the directories independent of the place
they are read from. -/
theorem forall_isAbsolute_iff (before own : List String) :
    (∀ directory ∈ searchPaths (c.resolveArguments before ++ own),
        directory.isAbsolute = true) ↔
      ∀ directory ∈ addedPaths before own, directory.isAbsolute = true := by
  rw [searchPaths_resolved_append hbase hroot]
  constructor
  · intro h directory hadded
    exact h directory (List.mem_append_right _ hadded)
  · intro h directory hmem
    rcases List.mem_append.1 hmem with hresolved | hadded
    · obtain ⟨text, -, rfl⟩ := List.mem_map.1 hresolved
      exact (Config.rooted_resolve hbase hroot text).1
    · exact h directory hadded

end

end Include

end ParseCache
