/-
  ParseCache.Proofs.Include.Recognition — which lines are include directives.

  The reader takes a directive off a line piece by piece and never goes back: it
  drops white space, asks for a `#`, drops white space, asks for `include`, and so
  on.  What it accepts is written down here as a form to be filled in, with white
  space of any length, a name and what follows it.  That both agree needs three
  things: dropping white space cannot take too much, because no piece of the form
  starts with white space; a name ends where the reader ends it, because it does
  not hold its closing delimiter; and in quotes, but not in brackets, the end of
  the line closes the name as well.

  Main results:
    * `readName?_eq_some_iff` — the delimited name;
    * `ofLine?_text`, `ofLine?_eq_some_iff` — what is filled in is read back, and
      nothing is read on any other line;
    * `extracts_iff` — a list of lines;
    * `recognised_exactly` — the directives of a whole text.
-/
import ParseCache.Include.Directive
import ParseCache.Proofs.Lists
import ParseCache.Proofs.Text.Lines

namespace ParseCache

/-- White space of any length. -/
abbrev Text.Blanks := { text : List Char // text.all Text.isBlank = true }

namespace Include

/-! ## §1. How directives are written. -/

/-- What stands before a name. -/
def Form.opening : Form → Char
  | quoted => '"'
  | angled => '<'

/-- What stands behind a name, and never in it. -/
def Form.closing : Form → Char
  | quoted => '"'
  | angled => '>'

/-- The rest of a line behind a name: its closing delimiter and then anything.
A name in quotes may also be the last thing on its line. -/
inductive Form.MayFollow : Form → List Char → Prop
  | closing (form : Form) (tail : List Char) : MayFollow form (form.closing :: tail)
  | lineEnd : MayFollow quoted []

/-- A directive with everything else that stands on its line. -/
structure DirectiveLine where
  /-- White space before the `#`. -/
  indent : Text.Blanks
  /-- White space between `#` and `include`. -/
  gap : Text.Blanks
  /-- White space before the name. -/
  space : Text.Blanks
  directive : Directive
  name_ne_nil : directive.name ≠ []
  closing_notMem : directive.form.closing ∉ directive.name
  rest : List Char
  mayFollow : directive.form.MayFollow rest

/-- The name of a directive with its delimiters, and the rest of the line. -/
def DirectiveLine.delimited (l : DirectiveLine) : List Char :=
  l.directive.form.opening :: (l.directive.name ++ l.rest)

/-- The line as it is written. -/
def DirectiveLine.text (l : DirectiveLine) : List Char :=
  l.indent.1 ++ '#' :: (l.gap.1 ++ ("include".toList ++ (l.space.1 ++ l.delimited)))

/-! ## §2. The pieces of a line. -/

/-- White space is dropped, and nothing after it. -/
theorem trimStart_blanks (blanks : Text.Blanks) {c : Char} (hc : Text.isBlank c = false)
    (rest : List Char) : Text.trimStart (blanks.1 ++ c :: rest) = c :: rest := by
  unfold Text.trimStart
  rw [List.dropWhile_append_of_pos (List.all_eq_true.1 blanks.2)]
  exact List.dropWhile_cons_of_neg (by simp [hc])

/-- What is dropped is white space. -/
theorem exists_blanks (line : List Char) :
    ∃ blanks : Text.Blanks, line = blanks.1 ++ Text.trimStart line := by
  refine ⟨⟨line.takeWhile Text.isBlank, List.all_takeWhile⟩, ?_⟩
  exact List.takeWhile_append_dropWhile.symm

theorem strip?_append (opening rest : List Char) :
    strip? opening (opening ++ rest) = some rest := by
  unfold strip?
  have hopens : opening.isPrefixOf (opening ++ rest) = true := by
    rw [List.isPrefixOf_iff_prefix]
    exact List.prefix_append opening rest
  rw [if_pos hopens, List.drop_left]

theorem strip?_eq_some_iff {opening text rest : List Char} :
    strip? opening text = some rest ↔ text = opening ++ rest := by
  constructor
  · intro h
    unfold strip? at h
    by_cases hopens : opening.isPrefixOf text = true
    · obtain ⟨tail, rfl⟩ := List.isPrefixOf_iff_prefix.1 hopens
      rw [if_pos hopens, List.drop_left] at h
      cases h
      rfl
    · rw [if_neg hopens] at h
      cases h
  · rintro rfl
    exact strip?_append opening rest

theorem directive?_eq_some_iff {form : Form} {name : List Char} {d : Directive} :
    directive? form name = some d ↔ name ≠ [] ∧ d = ⟨form, name⟩ := by
  cases name with
  | nil => simp [directive?]
  | cons c name => simp [directive?, eq_comm]

/-- What is taken for a name does not hold the delimiter.  The delimiter comes
next, or the text has none. -/
theorem name_cases (text : List Char) (closing : Char) :
    closing ∉ text.takeWhile (· ≠ closing) ∧
      ((closing ∉ text ∧ text = text.takeWhile (· ≠ closing)) ∨
        ∃ tail, text = text.takeWhile (· ≠ closing) ++ closing :: tail) := by
  by_cases hmem : closing ∈ text
  · obtain ⟨name, tail, rfl, hname⟩ := List.eq_append_cons_of_mem hmem
    rw [takeWhile_ne_append hname]
    exact ⟨hname, Or.inr ⟨tail, rfl⟩⟩
  · rw [takeWhile_ne_of_notMem hmem]
    exact ⟨hmem, Or.inl ⟨hmem, rfl⟩⟩

/-- A delimited name, with what may follow it, is read as a directive. -/
theorem readName?_delimited {d : Directive} {rest : List Char} (hne : d.name ≠ [])
    (hclosing : d.form.closing ∉ d.name) (hfollow : d.form.MayFollow rest) :
    readName? (d.form.opening :: (d.name ++ rest)) = some d := by
  obtain ⟨form, name⟩ := d
  have hread : directive? form name = some ⟨form, name⟩ := directive?_eq_some_iff.2 ⟨hne, rfl⟩
  cases form with
  | quoted =>
    have hquote : '"' ∉ name := hclosing
    show directive? .quoted ((name ++ rest).takeWhile (· ≠ '"')) = _
    cases hfollow with
    | closing _ tail =>
      show directive? .quoted ((name ++ '"' :: tail).takeWhile (· ≠ '"')) = _
      rw [takeWhile_ne_append hquote, hread]
    | lineEnd => rw [List.append_nil, takeWhile_ne_of_notMem hquote, hread]
  | angled =>
    have hbracket : '>' ∉ name := hclosing
    cases hfollow with
    | closing _ tail =>
      have hcontains : (name ++ '>' :: tail).contains '>' = true := by simp
      show (if (name ++ '>' :: tail).contains '>' then
        directive? .angled ((name ++ '>' :: tail).takeWhile (· ≠ '>')) else none) = _
      rw [if_pos hcontains, takeWhile_ne_append hbracket, hread]

/-- The reader of names accepts a delimited name that is not empty, with what
may follow it, and nothing else. -/
theorem readName?_eq_some_iff {text : List Char} {d : Directive} :
    readName? text = some d ↔
      ∃ rest, text = d.form.opening :: (d.name ++ rest) ∧ d.form.MayFollow rest ∧
        d.name ≠ [] ∧ d.form.closing ∉ d.name := by
  constructor
  · intro h
    unfold readName? at h
    split at h
    case h_1 body =>
      obtain ⟨hne, rfl⟩ := directive?_eq_some_iff.1 h
      obtain ⟨hclosing, ⟨-, hbody⟩ | ⟨tail, hbody⟩⟩ := name_cases body '"'
      · refine ⟨[], ?_, .lineEnd, hne, hclosing⟩
        rw [List.append_nil]
        exact congrArg _ hbody
      · exact ⟨'"' :: tail, congrArg _ hbody, .closing .quoted tail, hne, hclosing⟩
    case h_2 body =>
      by_cases hcontains : body.contains '>' = true
      · rw [if_pos hcontains] at h
        obtain ⟨hne, rfl⟩ := directive?_eq_some_iff.1 h
        obtain ⟨hclosing, ⟨hmissing, -⟩ | ⟨tail, hbody⟩⟩ := name_cases body '>'
        · -- the bracket was looked for before the name was taken
          exact absurd (List.contains_iff_mem.1 hcontains) hmissing
        · exact ⟨'>' :: tail, congrArg _ hbody, .closing .angled tail, hne, hclosing⟩
      · rw [if_neg hcontains] at h
        cases h
    case h_3 => cases h
  · rintro ⟨rest, rfl, hfollow, hne, hclosing⟩
    exact readName?_delimited hne hclosing hfollow

/-! ## §3. A line. -/

theorem isBlank_opening (form : Form) : Text.isBlank form.opening = false := by
  cases form <;> decide

/-- However a directive is written, it is read back. -/
theorem ofLine?_text (l : DirectiveLine) : ofLine? l.text = some l.directive := by
  -- after each run of white space comes a character that is none
  have hhash : Text.trimStart l.text =
      '#' :: (l.gap.1 ++ ("include".toList ++ (l.space.1 ++ l.delimited))) :=
    trimStart_blanks l.indent (by decide) _
  have hword : Text.trimStart (l.gap.1 ++ ("include".toList ++ (l.space.1 ++ l.delimited))) =
      "include".toList ++ (l.space.1 ++ l.delimited) :=
    trimStart_blanks l.gap (c := 'i') (by decide) _
  have hspace : Text.trimStart (l.space.1 ++ l.delimited) = l.delimited :=
    trimStart_blanks l.space (isBlank_opening l.directive.form) _
  have hname : readName? l.delimited = some l.directive :=
    readName?_delimited l.name_ne_nil l.closing_notMem l.mayFollow
  show (strip? ['#'] (Text.trimStart l.text)).bind (fun rest =>
    (strip? "include".toList (Text.trimStart rest)).bind fun rest =>
      readName? (Text.trimStart rest)) = _
  rw [hhash]
  show (strip? "include".toList (Text.trimStart (l.gap.1 ++ _))).bind _ = _
  rw [hword, strip?_append]
  show readName? (Text.trimStart (l.space.1 ++ l.delimited)) = _
  rw [hspace, hname]

/-- A line holds a directive exactly if it is written in one of these ways. -/
theorem ofLine?_eq_some_iff {line : List Char} {d : Directive} :
    ofLine? line = some d ↔ ∃ l : DirectiveLine, l.text = line ∧ l.directive = d := by
  constructor
  · intro h
    obtain ⟨afterHash, hhash, h⟩ := Option.bind_eq_some_iff.1 h
    obtain ⟨afterWord, hword, hname⟩ := Option.bind_eq_some_iff.1 h
    -- what was dropped on the way fills in the form
    obtain ⟨indent, hindent⟩ := exists_blanks line
    obtain ⟨gap, hgap⟩ := exists_blanks afterHash
    obtain ⟨space, hspace⟩ := exists_blanks afterWord
    rw [strip?_eq_some_iff] at hhash hword
    obtain ⟨rest, hdelimited, hfollow, hne, hclosing⟩ := readName?_eq_some_iff.1 hname
    refine ⟨⟨indent, gap, space, d, hne, hclosing, rest, hfollow⟩, ?_, rfl⟩
    show indent.1 ++ '#' :: (gap.1 ++ ("include".toList ++ (space.1 ++ _))) = line
    rw [hindent, hhash, List.singleton_append, hgap, hword, hspace, hdelimited]
    rfl
  · rintro ⟨l, rfl, rfl⟩
    exact ofLine?_text l

/-- Other directives that open alike, a name without its bracket, and an empty
name are not read. -/
example :
    ["#include_next <a.h>", "#include <a.h", "#include \"\" \"a.h\"", "#includes \"a.h\""].map
      (fun line => ofLine? line.toList) = [none, none, none, none] := by decide

/-! ## §4. A text. -/

/-- The directives on a list of lines, one for each line that holds one. -/
inductive Extracts : List (List Char) → List Directive → Prop
  | nil : Extracts [] []
  | directive (l : DirectiveLine) {lines : List (List Char)} {found : List Directive}
      (hrest : Extracts lines found) : Extracts (l.text :: lines) (l.directive :: found)
  | other {line : List Char} {lines : List (List Char)} {found : List Directive}
      (hother : ∀ l : DirectiveLine, l.text ≠ line) (hrest : Extracts lines found) :
      Extracts (line :: lines) found

theorem ofLine?_eq_none_iff {line : List Char} :
    ofLine? line = none ↔ ∀ l : DirectiveLine, l.text ≠ line := by
  rw [Option.eq_none_iff_forall_ne_some]
  constructor
  · intro hnone l hl
    exact hnone l.directive (ofLine?_eq_some_iff.2 ⟨l, hl, rfl⟩)
  · intro hother d hd
    obtain ⟨l, hl, -⟩ := ofLine?_eq_some_iff.1 hd
    exact hother l hl

theorem extracts_filterMap (lines : List (List Char)) :
    Extracts lines (lines.filterMap ofLine?) := by
  induction lines with
  | nil => exact .nil
  | cons line rest ih =>
    rw [List.filterMap_cons]
    cases hline : ofLine? line with
    | none => exact .other (ofLine?_eq_none_iff.1 hline) ih
    | some d =>
      obtain ⟨l, rfl, rfl⟩ := ofLine?_eq_some_iff.1 hline
      exact .directive l ih

theorem extracts_iff {lines : List (List Char)} {found : List Directive} :
    Extracts lines found ↔ lines.filterMap ofLine? = found := by
  constructor
  · intro h
    induction h with
    | nil => rfl
    | directive l _ ih => rw [List.filterMap_cons, ofLine?_text, ih]
    | other hother _ ih => rw [List.filterMap_cons, ofLine?_eq_none_iff.2 hother, ih]
  · rintro rfl
    exact extracts_filterMap lines

theorem directives_eq_iff {source : String} {found : List Directive} :
    directives source = found ↔
      ∃ lines, Text.LinesOf source.toList lines ∧ Extracts lines found := by
  unfold directives
  constructor
  · rintro rfl
    exact ⟨_, Text.linesOf_lines source.toList, extracts_filterMap _⟩
  · rintro ⟨lines, hlines, hfound⟩
    rw [hlines.lines_eq, extracts_iff.1 hfound]

/-- The directives of a text are those on its lines, in order.  What is written
on a line as a directive is read back as that directive, however it is written and
wherever in a text the line stands. -/
theorem recognised_exactly :
    (∀ source found, directives source = found ↔
      ∃ lines, Text.LinesOf source.toList lines ∧ Extracts lines found) ∧
    ∀ l : DirectiveLine, ofLine? l.text = some l.directive ∧
      ∀ source before after, Text.LinesOf source.toList (before ++ l.text :: after) →
        directives source =
          before.filterMap ofLine? ++ l.directive :: after.filterMap ofLine? := by
  refine ⟨fun source found => directives_eq_iff, fun l => ⟨ofLine?_text l, ?_⟩⟩
  intro source before after hlines
  unfold directives
  rw [hlines.lines_eq, List.filterMap_append, List.filterMap_cons, ofLine?_text]

/-- A line with a no-break space in front, a tab in the middle, a bracket in the
name, and a comment that looks like a name. -/
def commented : DirectiveLine where
  indent := ⟨[' ', '\u00a0'], by decide⟩
  gap := ⟨['\t'], by decide⟩
  space := ⟨[], by decide⟩
  directive := ⟨.quoted, "a>b.h".toList⟩
  name_ne_nil := by decide
  closing_notMem := by decide
  rest := "\" // <c.h>".toList
  mayFollow := .closing .quoted " // <c.h>".toList

/-- The line between two others, the last of which lacks its bracket and its end. -/
def commentedText : String := "x\n \u00a0#\tinclude\"a>b.h\" // <c.h>\r\n#include <d.h"

theorem recognised_exactly_commented :
    Text.LinesOf commentedText.toList
      (["x".toList] ++ commented.text :: ["#include <d.h".toList]) ∧
    directives commentedText = [⟨.quoted, "a>b.h".toList⟩] := by
  have hlines : Text.LinesOf commentedText.toList
      (["x".toList] ++ commented.text :: ["#include <d.h".toList]) :=
    Text.lines_eq_iff.1 (by decide)
  have hread := (recognised_exactly.2 commented).2 commentedText _ _ hlines
  refine ⟨hlines, hread.trans ?_⟩
  decide

end Include

end ParseCache
