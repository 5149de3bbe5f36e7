/-
  ParseCache.Proofs.Json.Tokens — strings and numbers are read as they are
  written.

  A written string may hold any character: quotes, backslashes and control
  characters are escaped, everything else stands for itself.  The reader takes
  such a text for a list of pieces and puts the pieces together afterwards, since
  half of a surrogate pair is no character.  What is written never needs a
  surrogate: only control characters are written as units, and these are small.

  A number ends where the next character is no part of one.  After a value there
  stands nothing, or a comma, or a closing bracket.

  Main results:
    * `pieces?_escape` — one character is one piece;
    * `pieces?_quoted` — the inside of a string, up to its closing quote;
    * `number?_toDigits` — a whole number, and no more;
    * `asWord_ofNat` — the 32-bit number that was written.
-/
import ParseCache.Json.Printer
import ParseCache.Json.Reader
import ParseCache.Json.Record
import Mathlib.Data.List.Basic

namespace ParseCache.Json

/-! ## §1. Characters of a string. -/

/-- In a string, the piece is the character. -/
def Piece.StandsFor (piece : Piece) (c : Char) : Prop :=
  ∀ rest, assemble? (piece :: rest) = (assemble? rest).map (c :: ·)

theorem Piece.standsFor_char (c : Char) : (Piece.char c).StandsFor c := by
  intro rest
  rw [assemble?]

/-- A unit below the surrogates is the character with its number. -/
theorem Piece.standsFor_unit {c : Char} (hc : c.toNat < 0x20) :
    (Piece.unit c.toNat).StandsFor c := by
  intro rest
  have hhigh : isHigh c.toNat = false := by
    have hnot : ¬ 0xD800 ≤ c.toNat := by omega
    rw [isHigh, decide_eq_false hnot, Bool.false_and]
  have hlow : isLow c.toNat = false := by
    have hnot : ¬ 0xDC00 ≤ c.toNat := by omega
    rw [isLow, decide_eq_false hnot, Bool.false_and]
  rw [assemble?.eq_def]
  simp only [hhigh, hlow, Bool.false_eq_true, if_false, Char.ofNat_toNat]

/-- Reads one piece in front of what is read of the rest. -/
def withPiece (piece : Piece) (rest : Option (List Piece × List Char)) :
    Option (List Piece × List Char) :=
  rest.map fun r => (piece :: r.1, r.2)

theorem pieces?_letter {e c : Char} (he : e ≠ 'u') (hescaped : escaped? e = some c)
    (rest : List Char) : pieces? ('\\' :: e :: rest) = withPiece (.char c) (pieces? rest) := by
  -- the case for numbers comes first in the definition, and asks for a `u`
  rw [pieces?.eq_4 e rest fun _ _ _ _ _ hu _ => he hu, hescaped]
  cases pieces? rest <;> rfl

theorem pieces?_plain {c : Char} (hquote : c ≠ '"') (hslash : c ≠ '\\')
    (hcontrol : ¬ c.toNat < 0x20) (rest : List Char) :
    pieces? (c :: rest) = withPiece (.char c) (pieces? rest) := by
  have hnot : ¬ (c.toNat < 0x20 ∨ c = '\\') := by
    rw [not_or]
    exact ⟨hcontrol, hslash⟩
  rw [pieces?.eq_5 c rest hquote (fun _ _ _ _ _ h _ => hslash h) fun _ _ h _ => hslash h,
    if_neg hnot]
  cases pieces? rest <;> rfl

theorem hexValue?_hexDigit {n : Nat} (hn : n < 16) : hexValue? (hexDigit n) = some n := by
  have hall : ∀ n < 16, hexValue? (hexDigit n) = some n := by decide
  exact hall n hn

/-- The four digits of a control character. -/
theorem hex4?_hexDigit {n : Nat} (hn : n < 0x20) :
    hex4? '0' '0' (hexDigit (n / 16)) (hexDigit (n % 16)) = some n := by
  have hzero : hexValue? '0' = some 0 := by decide
  have hhigh : hexValue? (hexDigit (n / 16)) = some (n / 16) := hexValue?_hexDigit (by omega)
  have hlow : hexValue? (hexDigit (n % 16)) = some (n % 16) := hexValue?_hexDigit (by omega)
  have hvalue : ((0 * 16 + 0) * 16 + n / 16) * 16 + n % 16 = n := by omega
  unfold hex4?
  rw [hzero, hhigh, hlow]
  exact congrArg some hvalue

theorem pieces?_unit {n : Nat} (hn : n < 0x20) (rest : List Char) :
    pieces? ('\\' :: 'u' :: '0' :: '0' :: hexDigit (n / 16) :: hexDigit (n % 16) :: rest) =
      withPiece (.unit n) (pieces? rest) := by
  rw [pieces?.eq_3, hex4?_hexDigit hn]
  cases pieces? rest <;> rfl

/-- A character is written with a letter, with its number, or as it is. -/
theorem escape_cases (c : Char) :
    (∃ e, e ≠ 'u' ∧ escaped? e = some c ∧ escape c = ['\\', e]) ∨
    (c.toNat < 0x20 ∧ escape c =
      ['\\', 'u', '0', '0', hexDigit (c.toNat / 16), hexDigit (c.toNat % 16)]) ∨
    (c ≠ '"' ∧ c ≠ '\\' ∧ ¬ c.toNat < 0x20 ∧ escape c = [c]) := by
  have hletter : ∀ {e : Char}, e ≠ 'u' → ∀ d, escaped? e = some d → c = d →
      ∃ e', e' ≠ 'u' ∧ escaped? e' = some c ∧ ['\\', e] = ['\\', e'] := by
    rintro e he d hd rfl
    exact ⟨e, he, hd, rfl⟩
  unfold escape
  -- the five tests in the middle compare with single control characters
  by_cases hquote : c = '"'
  · rw [if_pos hquote]
    exact Or.inl (hletter (by decide) _ rfl hquote)
  rw [if_neg hquote]
  by_cases hslash : c = '\\'
  · rw [if_pos hslash]
    exact Or.inl (hletter (by decide) _ rfl hslash)
  rw [if_neg hslash]
  split
  · exact Or.inl (hletter (by decide) _ rfl ‹_›)
  split
  · exact Or.inl (hletter (by decide) _ rfl ‹_›)
  split
  · exact Or.inl (hletter (by decide) _ rfl ‹_›)
  split
  · exact Or.inl (hletter (by decide) _ rfl ‹_›)
  split
  · exact Or.inl (hletter (by decide) _ rfl ‹_›)
  by_cases hcontrol : c.toNat < 0x20
  · rw [if_pos hcontrol]
    exact Or.inr (Or.inl ⟨hcontrol, rfl⟩)
  · rw [if_neg hcontrol]
    exact Or.inr (Or.inr ⟨hquote, hslash, hcontrol, rfl⟩)

/-- What is written for a character is read as one piece that stands for it. -/
theorem pieces?_escape (c : Char) :
    ∃ piece : Piece, piece.StandsFor c ∧
      ∀ rest, pieces? (escape c ++ rest) = withPiece piece (pieces? rest) := by
  rcases escape_cases c with ⟨e, he, hescaped, heq⟩ | ⟨hcontrol, heq⟩ |
    ⟨hquote, hslash, hcontrol, heq⟩
  · rw [heq]
    exact ⟨.char c, Piece.standsFor_char c, pieces?_letter he hescaped⟩
  · rw [heq]
    exact ⟨.unit c.toNat, Piece.standsFor_unit hcontrol, pieces?_unit hcontrol⟩
  · rw [heq]
    exact ⟨.char c, Piece.standsFor_char c, pieces?_plain hquote hslash hcontrol⟩

/-! ## §2. Strings. -/

/-- The inside of a string is read up to its closing quote, and its pieces are the
characters that were written. -/
theorem pieces?_quoted (cs rest : List Char) :
    ∃ pieces, pieces? (cs.flatMap escape ++ '"' :: rest) = some (pieces, rest) ∧
      assemble? pieces = some cs := by
  induction cs with
  | nil => exact ⟨[], pieces?.eq_2 rest, rfl⟩
  | cons c cs ih =>
    obtain ⟨pieces, hread, hassembled⟩ := ih
    obtain ⟨piece, hstands, hpiece⟩ := pieces?_escape c
    refine ⟨piece :: pieces, ?_, ?_⟩
    · rw [List.flatMap_cons, List.append_assoc, hpiece, hread]
      rfl
    · rw [hstands, hassembled]
      rfl

/-- A string is read as it was written. -/
theorem pieces?_quote (s : String) (rest : List Char) :
    ∃ pieces, quote s ++ rest = '"' :: (s.toList.flatMap escape ++ '"' :: rest) ∧
      pieces? (s.toList.flatMap escape ++ '"' :: rest) = some (pieces, rest) ∧
      stringOf pieces = .string s := by
  obtain ⟨pieces, hread, hassembled⟩ := pieces?_quoted s.toList rest
  refine ⟨pieces, ?_, hread, ?_⟩
  · rw [quote, List.cons_append, List.append_assoc]
    rfl
  · rw [stringOf, hassembled]
    exact congrArg Json.string String.ofList_toList

/-! ## §3. Numbers. -/

/-- What may stand behind a value: nothing, a comma, or a closing bracket. -/
def Ends (rest : List Char) : Prop := ∀ c ∈ rest.head?, c = ',' ∨ c = ']' ∨ c = '\x7d'

theorem ends_nil : Ends [] := nofun

theorem ends_cons {c : Char} (hc : c = ',' ∨ c = ']' ∨ c = '\x7d') (rest : List Char) :
    Ends (c :: rest) := by
  intro d hd
  cases hd
  exact hc

/-- None of it is part of a number. -/
theorem Ends.number {rest : List Char} (h : Ends rest) :
    rest.takeWhile Char.isDigit = [] ∧ rest.dropWhile Char.isDigit = rest ∧
      fraction? rest = some ([], rest) ∧ exponent? rest = some ([], rest) := by
  cases rest with
  | nil => exact ⟨rfl, rfl, rfl, rfl⟩
  | cons c rest =>
    rcases h c rfl with rfl | rfl | rfl
    · exact ⟨rfl, rfl, rfl, rfl⟩
    · exact ⟨rfl, rfl, rfl, rfl⟩
    · exact ⟨rfl, rfl, rfl, rfl⟩

theorem digits?_append {digits rest : List Char} (hne : digits ≠ [])
    (hdigits : ∀ c ∈ digits, c.isDigit = true) (h : Ends rest) :
    digits? (digits ++ rest) = some (digits, rest) := by
  obtain ⟨htake, hdrop, -⟩ := h.number
  obtain ⟨d, ds, rfl⟩ := List.exists_cons_of_ne_nil hne
  unfold digits?
  rw [List.takeWhile_append_of_pos hdigits, List.dropWhile_append_of_pos hdigits, htake, hdrop,
    List.append_nil]

/-- The digits of a number other than zero do not begin with a zero. -/
theorem head?_toDigits {n : Nat} (hn : n ≠ 0) (rest : List Char) :
    (Nat.toDigits 10 n ++ rest).head? ≠ some '0' := by
  -- the digits before the last are those of the number divided by ten
  induction n using Nat.strongRecOn generalizing rest with
  | ind n ih =>
    by_cases hsmall : n < 10
    · have hall : ∀ n < 10, n ≠ 0 → n.digitChar ≠ '0' := by decide
      rw [Nat.toDigits_of_lt_base hsmall]
      intro hhead
      exact hall n hsmall hn (Option.some.inj hhead)
    · rw [Nat.toDigits_of_base_le (by decide) (by omega), List.append_assoc]
      exact ih (n / 10) (by omega) (by omega) _

/-- The first character of a number is a digit. -/
theorem toDigits_eq_cons (n : Nat) :
    ∃ d ds, d.isDigit = true ∧ Nat.toDigits 10 n = d :: ds := by
  obtain ⟨d, ds, heq⟩ := List.exists_cons_of_ne_nil (Nat.toDigits_ne_nil (n := n) (b := 10))
  refine ⟨d, ds, ?_, heq⟩
  apply Nat.isDigit_of_mem_toDigits (b := 10) (n := n) (by decide) (by decide)
  rw [heq]
  exact List.mem_cons_self

theorem whole?_toDigits (n : Nat) {rest : List Char} (h : Ends rest) :
    whole? (Nat.toDigits 10 n ++ rest) = some (Nat.toDigits 10 n, rest) := by
  by_cases hn : n = 0
  · subst hn
    rfl
  · have hzero : ∀ rest', Nat.toDigits 10 n ++ rest = '0' :: rest' → False := by
      intro rest' heq
      apply head?_toDigits hn rest
      rw [heq, List.head?_cons]
    rw [whole?.eq_2 _ hzero]
    apply digits?_append Nat.toDigits_ne_nil _ h
    intro c hc
    exact Nat.isDigit_of_mem_toDigits (by decide) (by decide) hc

/-- A number without a sign is its whole part where nothing else follows. -/
theorem number?_of_whole? {text written rest : List Char} (hsign : text.head? ≠ some '-')
    (h : Ends rest) (hwhole : whole? text = some (written, rest)) :
    number? text = some (written, rest) := by
  obtain ⟨-, -, hfraction, hexponent⟩ := h.number
  unfold number?
  split
  rename_i sign unsigned heq
  have hunsigned : ([], text) = (sign, unsigned) := by
    rw [← heq]
    split
    · exact absurd rfl hsign
    · rfl
  cases hunsigned
  simp only [hwhole, hfraction, hexponent, Option.bind_eq_bind, Option.bind_some,
    List.nil_append, List.append_nil, Option.pure_def]

/-- A whole number is read to its last digit. -/
theorem number?_toDigits (n : Nat) {rest : List Char} (h : Ends rest) :
    number? (Nat.toDigits 10 n ++ rest) = some (Nat.toDigits 10 n, rest) := by
  apply number?_of_whole? _ h (whole?_toDigits n h)
  obtain ⟨d, ds, hd, heq⟩ := toDigits_eq_cons n
  rw [heq, List.cons_append, List.head?_cons]
  intro hminus
  cases hminus
  exact absurd hd (by decide)

/-- A 32-bit number is the one that was written. -/
theorem asWord_ofNat (r : UInt32) : asWord (.ofNat r.toNat) = some r := by
  have hdigits : (Nat.toDigits 10 r.toNat).all Char.isDigit = true := by
    rw [List.all_eq_true]
    intro c hc
    exact Nat.isDigit_of_mem_toDigits (by decide) (by decide) hc
  have hvalue : (Nat.toDigits 10 r.toNat).foldl
      (fun n c => n * 10 + (c.toNat - '0'.toNat)) 0 = r.toNat := by
    have hfold := Nat.ofDigitChars_ten_toDigits (n := r.toNat)
    rw [Nat.ofDigitChars_eq_foldl] at hfold
    simpa only [Nat.mul_comm 10] using hfold
  show (if _ ∧ _ then _ else _) = _
  rw [if_pos ⟨Nat.toDigits_ne_nil, hdigits⟩, hvalue]
  show (if _ < _ then _ else _) = _
  rw [if_pos r.toNat_lt, UInt32.ofNat_toNat]

end ParseCache.Json
