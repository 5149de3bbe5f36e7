/-
  ParseCache.Proofs.Json.RoundTrip — what is written is read back.

  Values are written without white space, and every value ends where the next
  comma or closing bracket stands.  So the reader is followed along the text,
  value by value, by induction on what was written: the text behind a value is
  left as it was.  A value needs no more steps than it has characters, hence a
  whole text is never given too few.

  Records leave out what they do not need: an entry without unsaved content has
  no such field, and the base directory of a configuration is never written.
  Reading fills in exactly what was left out.

  Main results:
    * `Plain.readBack` — a value in front of any text;
    * `read?_render` — a whole text;
    * `FileEntry.ofJson?_toJson`, `Config.ofJson?_toJson` — records;
    * `renderings_read_back` — entries and valid configurations.
-/
import ParseCache.Config
import ParseCache.Proofs.Json.Tokens
import ParseCache.Proofs.Lists

namespace ParseCache

namespace Json

/-! ## §1. Values that have a text of their own. -/

/-- A value whose strings are whole and whose numbers are whole numbers. -/
inductive Plain : Json → Prop
  | null : Plain .null
  | bool (b : Bool) : Plain (.bool b)
  | whole (n : Nat) : Plain (.ofNat n)
  | string (s : String) : Plain (.string s)
  | array {items : List Json} (hitems : ∀ item ∈ items, Plain item) : Plain (.array items)
  | object {fields : List (String × Json)} (hfields : ∀ f ∈ fields, Plain f.2) :
      Plain (.object fields)

/-- Texts are plain. -/
theorem Plain.ofTexts (texts : List String) : Plain (.ofTexts texts) := by
  apply Plain.array
  intro item hitem
  obtain ⟨s, -, rfl⟩ := List.mem_map.mp hitem
  exact Plain.string s

theorem skip_cons {c : Char} (hc : isSpace c = false) (cs : List Char) :
    skip (c :: cs) = c :: cs := by
  rw [skip, List.dropWhile_cons, hc]
  rfl

theorem isSpace_of_isDigit {c : Char} (hc : c.isDigit = true) : isSpace c = false := by
  have hnot : ∀ d : Char, d.isDigit = false → c ≠ d := by
    rintro d hd rfl
    rw [hc] at hd
    cases hd
  simp only [isSpace, Bool.or_eq_false_iff, beq_eq_false_iff_ne]
  exact ⟨⟨⟨hnot _ rfl, hnot _ rfl⟩, hnot _ rfl⟩, hnot _ rfl⟩

/-- A text begins with a character that is neither white space nor a closing bracket. -/
theorem Plain.chars_eq_cons {v : Json} (hv : v.Plain) :
    ∃ c cs, v.chars = c :: cs ∧ isSpace c = false ∧ c ≠ ']' ∧ c ≠ '\x7d' := by
  cases hv with
  | null => exact ⟨'n', _, rfl, by decide, by decide, by decide⟩
  | bool b =>
    cases b with
    | true => exact ⟨'t', _, rfl, by decide, by decide, by decide⟩
    | false => exact ⟨'f', _, rfl, by decide, by decide, by decide⟩
  | whole n =>
    obtain ⟨d, ds, hd, heq⟩ := toDigits_eq_cons n
    refine ⟨d, ds, heq, isSpace_of_isDigit hd, ?_, ?_⟩
    · rintro rfl
      exact absurd hd (by decide)
    · rintro rfl
      exact absurd hd (by decide)
  | string s => exact ⟨'"', _, rfl, by decide, by decide, by decide⟩
  | @array items _ =>
    cases items with
    | nil => exact ⟨'[', _, rfl, by decide, by decide, by decide⟩
    | cons item items => exact ⟨'[', _, rfl, by decide, by decide, by decide⟩
  | @object fields _ =>
    cases fields with
    | nil => exact ⟨'\x7b', _, rfl, by decide, by decide, by decide⟩
    | cons field fields => exact ⟨'\x7b', _, rfl, by decide, by decide, by decide⟩

/-! ## §2. Steps of the reader. -/

theorem value?_string {n : Nat} {text rest : List Char} {pieces : List Piece}
    (h : pieces? text = some (pieces, rest)) :
    value? (n + 1) ('"' :: text) = some (stringOf pieces, rest) := by
  rw [value?, skip_cons (by decide)]
  simp only [h, Option.bind_eq_bind, Option.bind_some, Option.pure_def]

theorem value?_number {n : Nat} {d : Char} {ds rest written : List Char}
    (hd : d.isDigit = true) (h : number? (d :: ds) = some (written, rest)) :
    value? (n + 1) (d :: ds) = some (.number written, rest) := by
  have hother : ∀ {c : Char} {cs : List Char}, d :: ds = c :: cs → c.isDigit = true := by
    rintro c cs ⟨⟩
    exact hd
  rw [value?, skip_cons (isSpace_of_isDigit hd)]
  split
  · exact absurd (hother ‹_›) (by decide)
  · exact absurd (hother ‹_›) (by decide)
  · exact absurd (hother ‹_›) (by decide)
  · exact absurd (hother ‹_›) (by decide)
  · exact absurd (hother ‹_›) (by decide)
  · exact absurd (hother ‹_›) (by decide)
  · rw [h, Option.map_some]

/-- An array that is not empty is read item by item. -/
theorem value?_array {n : Nat} {c : Char} {cs rest : List Char} {items : List Json}
    (hspace : isSpace c = false) (hbracket : c ≠ ']')
    (h : items? n (c :: cs) = some (items, rest)) :
    value? (n + 1) ('[' :: c :: cs) = some (.array items, rest) := by
  rw [value?, skip_cons (by decide)]
  simp only [skip_cons hspace]
  split
  · rename_i heq
    cases heq
    exact absurd rfl hbracket
  · simp only [h, Option.bind_eq_bind, Option.bind_some, Option.pure_def]

theorem items?_last {n : Nat} {text rest : List Char} {item : Json}
    (h : value? n text = some (item, ']' :: rest)) :
    items? (n + 1) text = some ([item], rest) := by
  rw [items?, h]
  rfl

theorem items?_cons {n : Nat} {text more rest : List Char} {item : Json} {items : List Json}
    (h : value? n text = some (item, ',' :: more)) (hmore : items? n more = some (items, rest)) :
    items? (n + 1) text = some (item :: items, rest) := by
  rw [items?, h]
  show (items? n more).bind _ = _
  rw [hmore]
  rfl

theorem fields?_last {n : Nat} (name : String) {value rest : List Char} {v : Json}
    (hvalue : value? n value = some (v, '\x7d' :: rest)) :
    fields? (n + 1) (quote name ++ ':' :: value) = some ([(.string name, v)], rest) := by
  obtain ⟨pieces, hquote, hread, hname⟩ := pieces?_quote name (':' :: value)
  rw [hquote, fields?, skip_cons (by decide)]
  show (pieces? _).bind _ = _
  rw [hread]
  show (value? n value).bind _ = _
  rw [hvalue, ← hname]
  rfl

theorem fields?_cons {n : Nat} (name : String) {value more rest : List Char} {v : Json}
    {fields : List (Json × Json)} (hvalue : value? n value = some (v, ',' :: more))
    (hmore : fields? n more = some (fields, rest)) :
    fields? (n + 1) (quote name ++ ':' :: value) = some ((.string name, v) :: fields, rest) := by
  obtain ⟨pieces, hquote, hread, hname⟩ := pieces?_quote name (':' :: value)
  rw [hquote, fields?, skip_cons (by decide)]
  show (pieces? _).bind _ = _
  rw [hread]
  show (value? n value).bind _ = _
  rw [hvalue]
  show (fields? n more).bind _ = _
  rw [hmore, ← hname]
  rfl

/-- An object that is not empty is read field by field. -/
theorem value?_object {n : Nat} (name : String) {text rest : List Char}
    {fields : List (Json × Json)} (h : fields? n (quote name ++ text) = some (fields, rest)) :
    value? (n + 1) ('\x7b' :: (quote name ++ text)) = some (objectOf fields, rest) := by
  rw [value?, skip_cons (by decide)]
  show (fields? n (quote name ++ text)).bind _ = _
  rw [h]
  rfl

/-- Fields whose names are whole make an object. -/
theorem objectOf_map (fields : List (String × Json)) :
    objectOf (fields.map fun f => (.string f.1, f.2)) = .object fields := by
  unfold objectOf
  rw [mapM_map_eq_some]
  intro f _
  rfl

/-! ## §3. Values. -/

/-- With a step for each of its characters, a value is read as it was written, and
the text behind it is left. -/
def ReadBack (v : Json) : Prop :=
  ∀ n rest, v.chars.length ≤ n → Ends rest → value? n (v.chars ++ rest) = some (v, rest)

/-- There is a character, hence a step. -/
theorem readBack_of_step {v : Json} (hv : v.Plain)
    (h : ∀ n rest, v.chars.length ≤ n + 1 → Ends rest →
      value? (n + 1) (v.chars ++ rest) = some (v, rest)) :
    ReadBack v := by
  intro n rest hn hends
  obtain ⟨c, cs, heq, -⟩ := hv.chars_eq_cons
  cases n with
  | zero =>
    rw [heq, List.length_cons] at hn
    omega
  | succ n => exact h n rest hn hends

theorem readBack_null : ReadBack .null :=
  readBack_of_step Plain.null fun _ _ _ _ => rfl

theorem readBack_bool (b : Bool) : ReadBack (.bool b) := by
  apply readBack_of_step (Plain.bool b)
  intro n rest _ _
  cases b with
  | true => rfl
  | false => rfl

theorem readBack_ofNat (n : Nat) : ReadBack (.ofNat n) := by
  apply readBack_of_step (Plain.whole n)
  intro steps rest _ h
  obtain ⟨d, ds, hd, heq⟩ := toDigits_eq_cons n
  have hnumber := number?_toDigits n h
  have hchars : (Json.ofNat n).chars = Nat.toDigits 10 n := by
    rw [ofNat, chars]
  rw [heq, List.cons_append] at hnumber
  rw [hchars, heq, List.cons_append, value?_number hd hnumber, ofNat, heq]

theorem readBack_string (s : String) : ReadBack (.string s) := by
  apply readBack_of_step (Plain.string s)
  intro n rest _ _
  obtain ⟨pieces, hquote, hread, hstring⟩ := pieces?_quote s rest
  rw [chars, hquote, value?_string hread, hstring]

/-- The items of an array, up to its closing bracket. -/
theorem items?_chars {item : Json} {items : List Json} (h : ReadBack item)
    (hitems : ∀ i ∈ items, ReadBack i) (n : Nat) (rest : List Char)
    (hn : (chars item).length + (itemsChars items).length < n) :
    items? n (chars item ++ (itemsChars items ++ ']' :: rest)) = some (item :: items, rest) := by
  -- on the items that follow: the last one ends at the bracket, the others at a comma
  induction items generalizing item n with
  | nil =>
    obtain ⟨n, rfl⟩ := Nat.exists_eq_add_one_of_ne_zero (Nat.ne_zero_of_lt hn)
    rw [itemsChars, List.nil_append]
    apply items?_last
    exact h n _ (by omega) (ends_cons (Or.inr (Or.inl rfl)) rest)
  | cons next items ih =>
    obtain ⟨n, rfl⟩ := Nat.exists_eq_add_one_of_ne_zero (Nat.ne_zero_of_lt hn)
    rw [itemsChars, List.length_cons, List.length_append] at hn
    rw [itemsChars, List.cons_append, List.append_assoc]
    have hmore := ih (hitems next List.mem_cons_self)
      (fun i hi => hitems i (List.mem_cons_of_mem next hi)) n (by omega)
    exact items?_cons (h n _ (by omega) (ends_cons (Or.inl rfl) _)) hmore

theorem readBack_array {items : List Json} (hplain : Plain (.array items))
    (hitems : ∀ item ∈ items, ReadBack item) : ReadBack (.array items) := by
  apply readBack_of_step hplain
  intro n rest hn h
  cases items with
  | nil => rfl
  | cons item items =>
    cases hplain with
    | array hplain =>
    -- the first character of the first item tells the array from an empty one
    obtain ⟨c, cs, heq, hspace, hbracket, -⟩ := (hplain item List.mem_cons_self).chars_eq_cons
    have hread := items?_chars (hitems item List.mem_cons_self)
      (fun i hi => hitems i (List.mem_cons_of_mem item hi)) n rest (by
        rw [chars, List.length_cons, List.length_append, List.length_append] at hn
        simp only [List.length_cons, List.length_nil] at hn
        omega)
    rw [heq, List.cons_append] at hread
    have hread' := value?_array hspace hbracket hread
    rw [chars, heq]
    simpa only [List.cons_append, List.append_assoc, List.nil_append] using hread'

/-- The fields of an object, up to its closing brace. -/
theorem fields?_chars (name : String) {value : Json} {fields : List (String × Json)}
    (h : ReadBack value) (hfields : ∀ f ∈ fields, ReadBack f.2) (n : Nat) (rest : List Char)
    (hn : (chars value).length + (fieldsChars fields).length < n) :
    fields? n (quote name ++ ':' :: (chars value ++ (fieldsChars fields ++ '\x7d' :: rest))) =
      some (((name, value) :: fields).map fun f => (.string f.1, f.2), rest) := by
  induction fields generalizing name value n with
  | nil =>
    obtain ⟨n, rfl⟩ := Nat.exists_eq_add_one_of_ne_zero (Nat.ne_zero_of_lt hn)
    rw [fieldsChars, List.nil_append]
    exact fields?_last name (h n _ (by omega) (ends_cons (Or.inr (Or.inr rfl)) rest))
  | cons next fields ih =>
    obtain ⟨nextName, next⟩ := next
    obtain ⟨n, rfl⟩ := Nat.exists_eq_add_one_of_ne_zero (Nat.ne_zero_of_lt hn)
    rw [fieldsChars, List.length_cons, List.length_append, List.length_append,
      List.length_cons] at hn
    rw [fieldsChars]
    simp only [List.cons_append, List.append_assoc]
    have hnext : ReadBack next := hfields _ List.mem_cons_self
    have hmore := ih nextName hnext (fun f hf => hfields f (List.mem_cons_of_mem _ hf)) n
      (by omega)
    exact fields?_cons name (h n _ (by omega) (ends_cons (Or.inl rfl) _)) hmore

theorem readBack_object {fields : List (String × Json)}
    (hfields : ∀ f ∈ fields, Plain f.2 ∧ ReadBack f.2) : ReadBack (.object fields) := by
  apply readBack_of_step (Plain.object fun f hf => (hfields f hf).1)
  intro n rest hn h
  cases fields with
  | nil => rfl
  | cons field fields =>
    obtain ⟨name, value⟩ := field
    have hvalue : ReadBack value := (hfields _ List.mem_cons_self).2
    have hread := fields?_chars name hvalue
      (fun f hf => (hfields f (List.mem_cons_of_mem _ hf)).2) n rest (by
        rw [chars] at hn
        simp only [List.length_cons, List.length_append, List.length_nil] at hn
        omega)
    rw [chars]
    simp only [List.cons_append, List.append_assoc, List.nil_append]
    rw [value?_object name hread, objectOf_map]

/-- Every plain value is read as it was written. -/
theorem Plain.readBack {v : Json} (hv : v.Plain) : ReadBack v := by
  induction hv with
  | null => exact readBack_null
  | bool b => exact readBack_bool b
  | whole n => exact readBack_ofNat n
  | string s => exact readBack_string s
  | array hitems ih => exact readBack_array (Plain.array hitems) ih
  | object hfields ih => exact readBack_object fun f hf => ⟨hfields f hf, ih f hf⟩

/-- A whole text is read as the value it was written for. -/
theorem read?_render {v : Json} (hv : v.Plain) : read? v.render = some v := by
  have hlength : v.chars.length ≤ 2 * v.render.length + 2 := by
    rw [render, String.length_ofList]
    omega
  have hvalue := hv.readBack _ [] hlength ends_nil
  rw [List.append_nil] at hvalue
  rw [read?, render, String.toList_ofList]
  rw [render] at hvalue
  rw [hvalue]
  rfl

/-! ## §4. Records. -/

theorem asList_ofTexts (texts : List String) : asList asText (ofTexts texts) = some texts :=
  mapM_map_eq_some fun _ _ => rfl

end Json

/-- Absent content is left out, and what is left out is absent. -/
theorem FileEntry.ofJson?_toJson (e : FileEntry) : ofJson? e.toJson = some e := by
  obtain ⟨path, part, arguments, unsaved, revision⟩ := e
  cases unsaved with
  | none =>
    show (Json.asList Json.asText (.ofTexts arguments)).bind _ = _
    rw [Json.asList_ofTexts]
    show (Json.asWord (.ofNat revision.toNat)).bind _ = _
    rw [Json.asWord_ofNat]
    rfl
  | some content =>
    show (Json.asList Json.asText (.ofTexts arguments)).bind _ = _
    rw [Json.asList_ofTexts]
    show (Json.asWord (.ofNat revision.toNat)).bind _ = _
    rw [Json.asWord_ofNat]
    rfl

theorem PartConfig.ofJson?_toJson (p : PartConfig) : ofJson? p.toJson = some p := by
  obtain ⟨id, arguments⟩ := p
  show (Json.asList Json.asText (.ofTexts arguments)).bind _ = _
  rw [Json.asList_ofTexts]
  rfl

theorem DocumentConfig.ofJson?_toJson (d : DocumentConfig) : ofJson? d.toJson = some d := by
  obtain ⟨path, part, arguments⟩ := d
  show (Json.asList Json.asText (.ofTexts arguments)).bind _ = _
  rw [Json.asList_ofTexts]
  rfl

/-- The base directory is not written, hence not read. -/
theorem Config.ofJson?_toJson (c : Config) : ofJson? c.toJson = some { c with base := none } := by
  obtain ⟨parts, documents, requireFiles, base⟩ := c
  have hparts : Json.asList PartConfig.ofJson? (.array (parts.map PartConfig.toJson)) =
      some parts := mapM_map_eq_some fun p _ => p.ofJson?_toJson
  have hdocuments : Json.asList DocumentConfig.ofJson?
      (.array (documents.map DocumentConfig.toJson)) = some documents :=
    mapM_map_eq_some fun d _ => d.ofJson?_toJson
  show (Json.asList PartConfig.ofJson? (.array (parts.map PartConfig.toJson))).bind _ = _
  rw [hparts]
  show (Json.asList DocumentConfig.ofJson? (.array (documents.map DocumentConfig.toJson))).bind _
    = _
  rw [hdocuments]
  rfl

/-! ## §5. Entries and configurations. -/

theorem FileEntry.plain_toJson (e : FileEntry) : e.toJson.Plain := by
  apply Json.Plain.object
  intro f hf
  rcases List.mem_append.mp hf with hf | hf
  · rcases List.mem_append.mp hf with hf | hf
    · simp only [List.mem_cons, List.not_mem_nil, or_false] at hf
      rcases hf with rfl | rfl | rfl
      · exact Json.Plain.string _
      · exact Json.Plain.string _
      · exact Json.Plain.ofTexts _
    · rw [Option.mem_toList, Option.map_eq_some_iff] at hf
      obtain ⟨content, -, rfl⟩ := hf
      exact Json.Plain.string _
  · rw [List.mem_singleton] at hf
    subst hf
    exact Json.Plain.whole _

theorem PartConfig.plain_toJson (p : PartConfig) : p.toJson.Plain := by
  apply Json.Plain.object
  intro f hf
  simp only [List.mem_cons, List.not_mem_nil, or_false] at hf
  rcases hf with rfl | rfl
  · exact Json.Plain.string _
  · exact Json.Plain.ofTexts _

theorem DocumentConfig.plain_toJson (d : DocumentConfig) : d.toJson.Plain := by
  apply Json.Plain.object
  intro f hf
  simp only [List.mem_cons, List.not_mem_nil, or_false] at hf
  rcases hf with rfl | rfl | rfl
  · exact Json.Plain.string _
  · exact Json.Plain.string _
  · exact Json.Plain.ofTexts _

theorem Config.plain_toJson (c : Config) : c.toJson.Plain := by
  apply Json.Plain.object
  intro f hf
  simp only [List.mem_cons, List.not_mem_nil, or_false] at hf
  rcases hf with rfl | rfl | rfl
  · apply Json.Plain.array
    intro item hitem
    obtain ⟨p, -, rfl⟩ := List.mem_map.mp hitem
    exact p.plain_toJson
  · apply Json.Plain.array
    intro item hitem
    obtain ⟨d, -, rfl⟩ := List.mem_map.mp hitem
    exact d.plain_toJson
  · exact Json.Plain.bool _

/-- An entry is read from its text. -/
theorem FileEntry.read?_render (e : FileEntry) : read? e.render = some e := by
  rw [read?, render, Json.read?_render e.plain_toJson, Option.bind_some, ofJson?_toJson]

/-- The verdict over a configuration does not depend on where it was loaded from. -/
theorem Config.validate_base (c : Config) (base : Option Path) :
    ({ c with base := base } : Config).validate = c.validate := rfl

/-- A valid configuration is read from its text, except for its base directory. -/
theorem Config.read_render {c : Config} (hc : c.validate = .ok ()) :
    read c.render = .ok { c with base := none } := by
  rw [read, render, Json.read?_render c.plain_toJson, Option.bind_some, ofJson?_toJson]
  show ({ c with base := none } : Config).validate.bind _ = _
  rw [Config.validate_base, hc]
  rfl

/-- Whatever an entry holds, it is read from its text; an entry without unsaved
content and the same entry with empty content have different texts.  Whatever a
valid configuration holds, its text is accepted, and what is read is the same
configuration without a base directory. -/
theorem renderings_read_back :
    (∀ e : FileEntry, FileEntry.read? e.render = some e) ∧
    (∀ e : FileEntry,
      ({ e with unsaved := none } : FileEntry).render ≠
        ({ e with unsaved := some "" } : FileEntry).render) ∧
    (∀ c : Config, c.validate = .ok () → Config.read c.render = .ok { c with base := none }) := by
  refine ⟨FileEntry.read?_render, ?_, fun c => Config.read_render⟩
  intro e heq
  have habsent := FileEntry.read?_render { e with unsaved := none }
  rw [heq, FileEntry.read?_render] at habsent
  cases habsent

/-- A part whose id has a quote, a document whose path has none of the letters of
this text, arguments with control characters. -/
def quotedConfig : Config :=
  { parts := [⟨"a \"b\"", ["-I", "C:\\inc", "-D\tX=\n\x00"]⟩]
    documents := [⟨⟨"ä/日本.c"⟩, "a \"b\"", ["\x1f\x7f", ""]⟩]
    requireFiles := false
    base := some ⟨"/work"⟩ }

theorem renderings_read_back_quoted :
    quotedConfig.validate = .ok () ∧
    Config.read quotedConfig.render = .ok { quotedConfig with base := none } := by
  have hvalid : quotedConfig.validate = .ok () := by decide +kernel
  exact ⟨hvalid, renderings_read_back.2.2 quotedConfig hvalid⟩

end ParseCache
