/-
  ParseCache.Proofs.Text.ByteOrder — the order of texts is that of their bytes.

  Names and part ids are compared as texts, character by character.  A system
  that keeps texts as bytes compares them byte by byte, and the bytes of a
  character are one to four in number.  The two orders agree: the first byte of
  an encoding grows with the number of bytes, and among encodings of one length
  the bytes are the digits of the character, the highest first.

  Main results:
    * `compareLex_utf8EncodeChar` — one character in front of any bytes;
    * `compare_eq_compare_bytes` — two texts.
-/
import ParseCache.Document.Digest

namespace ParseCache

/-! ## §1. Bytes as digits. -/

theorem compare_byte {a b : Nat} (ha : a < 256) (hb : b < 256) :
    compare (UInt8.ofNat a) (UInt8.ofNat b) = compare a b := by
  have hlt : UInt8.ofNat a < UInt8.ofNat b ↔ a < b := by
    rw [UInt8.lt_iff_toNat_lt, UInt8.toNat_ofNat_of_lt' ha, UInt8.toNat_ofNat_of_lt' hb]
  have heq : UInt8.ofNat a = UInt8.ofNat b ↔ a = b := by
    rw [← UInt8.toNat_inj, UInt8.toNat_ofNat_of_lt' ha, UInt8.toNat_ofNat_of_lt' hb]
  show compareOfLessAndEq _ _ = compareOfLessAndEq _ _
  simp only [compareOfLessAndEq, hlt, heq]

/-- Numbers are compared by their higher digits and then by the last. -/
theorem compare_digits (v v' : Nat) :
    compare v v' = (compare (v / 64) (v' / 64)).then (compare (v % 64) (v' % 64)) := by
  rcases Nat.lt_trichotomy (v / 64) (v' / 64) with h | h | h
  · rw [Nat.compare_eq_lt.2 h, Nat.compare_eq_lt.2 (by omega)]
    rfl
  · rw [Nat.compare_eq_eq.2 h]
    rcases Nat.lt_trichotomy (v % 64) (v' % 64) with h' | h' | h'
    · rw [Nat.compare_eq_lt.2 h', Nat.compare_eq_lt.2 (by omega)]
      rfl
    · rw [Nat.compare_eq_eq.2 h', Nat.compare_eq_eq.2 (by omega)]
      rfl
    · rw [Nat.compare_eq_gt.2 h', Nat.compare_eq_gt.2 (by omega)]
      rfl
  · rw [Nat.compare_eq_gt.2 h, Nat.compare_eq_gt.2 (by omega)]
    rfl

/-- A digit is compared as such when it stands in a byte with its mark. -/
theorem compare_marked {m mark : Nat} (hm : 0 < m) (hbyte : m + mark ≤ 256) (v v' : Nat) :
    compare (UInt8.ofNat (v % m + mark)) (UInt8.ofNat (v' % m + mark))
      = compare (v % m) (v' % m) := by
  have hv := Nat.mod_lt v hm
  have hv' := Nat.mod_lt v' hm
  rw [compare_byte (by omega) (by omega)]
  show compareOfLessAndEq _ _ = compareOfLessAndEq _ _
  simp only [compareOfLessAndEq, Nat.add_lt_add_iff_right, Nat.add_right_cancel_iff]

/-! ## §2. Encodings of characters. -/

theorem compare_char (c d : Char) : compare c d = compare c.toNat d.toNat := by
  have heq : c = d ↔ c.toNat = d.toNat := Char.toNat_inj.symm
  show compareOfLessAndEq _ _ = compareOfLessAndEq _ _
  simp only [compareOfLessAndEq, heq]
  rfl

/-- The bytes of a character, by its number. -/
def encoding (v : Nat) : List UInt8 :=
  if v ≤ 0x7f then [UInt8.ofNat v]
  else if v ≤ 0x7ff then [UInt8.ofNat (v / 64 % 0x20 + 0xc0), UInt8.ofNat (v % 0x40 + 0x80)]
  else if v ≤ 0xffff then
    [UInt8.ofNat (v / 4096 % 0x10 + 0xe0), UInt8.ofNat (v / 64 % 0x40 + 0x80),
      UInt8.ofNat (v % 0x40 + 0x80)]
  else
    [UInt8.ofNat (v / 262144 % 0x08 + 0xf0), UInt8.ofNat (v / 4096 % 0x40 + 0x80),
      UInt8.ofNat (v / 64 % 0x40 + 0x80), UInt8.ofNat (v % 0x40 + 0x80)]

/-- One to four bytes, of which the first tells how many. -/
theorem encoding_cases (v : Nat) :
    (v ≤ 0x7f ∧ encoding v = [UInt8.ofNat v])
    ∨ (0x7f < v ∧ v ≤ 0x7ff
        ∧ encoding v = [UInt8.ofNat (v / 64 % 0x20 + 0xc0), UInt8.ofNat (v % 0x40 + 0x80)])
    ∨ (0x7ff < v ∧ v ≤ 0xffff
        ∧ encoding v = [UInt8.ofNat (v / 4096 % 0x10 + 0xe0), UInt8.ofNat (v / 64 % 0x40 + 0x80),
            UInt8.ofNat (v % 0x40 + 0x80)])
    ∨ (0xffff < v
        ∧ encoding v = [UInt8.ofNat (v / 262144 % 0x08 + 0xf0),
            UInt8.ofNat (v / 4096 % 0x40 + 0x80), UInt8.ofNat (v / 64 % 0x40 + 0x80),
            UInt8.ofNat (v % 0x40 + 0x80)]) := by
  unfold encoding
  by_cases h1 : v ≤ 0x7f
  · exact Or.inl ⟨h1, if_pos h1⟩
  · rw [if_neg h1]
    by_cases h2 : v ≤ 0x7ff
    · exact Or.inr (Or.inl ⟨by omega, h2, if_pos h2⟩)
    · rw [if_neg h2]
      by_cases h3 : v ≤ 0xffff
      · exact Or.inr (Or.inr (Or.inl ⟨by omega, h3, if_pos h3⟩))
      · exact Or.inr (Or.inr (Or.inr ⟨by omega, if_neg h3⟩))

theorem utf8EncodeChar_eq_encoding (c : Char) : String.utf8EncodeChar c = encoding c.toNat := rfl

section

variable {v v' : Nat} (l l' : List UInt8)

/-- A smaller first byte decides. -/
theorem compareLex_of_lt {a b : Nat} (hlt : a < b) (hb : b < 256) (hv : v < v')
    (rest : Ordering) :
    List.compareLex compare (UInt8.ofNat a :: l) (UInt8.ofNat b :: l')
      = (compare v v').then rest := by
  rw [List.compareLex_cons_cons, compare_byte (by omega) hb, Nat.compare_eq_lt.2 hlt,
    Nat.compare_eq_lt.2 hv]
  rfl

/-- So does a larger one. -/
theorem compareLex_of_gt {a b : Nat} (hgt : b < a) (ha : a < 256) (hv : v' < v)
    (rest : Ordering) :
    List.compareLex compare (UInt8.ofNat a :: l) (UInt8.ofNat b :: l')
      = (compare v v').then rest := by
  rw [List.compareLex_cons_cons, compare_byte ha (by omega), Nat.compare_eq_gt.2 hgt,
    Nat.compare_eq_gt.2 hv]
  rfl

/-- One more digit behind digits that are compared already. -/
theorem compareLex_digit :
    (compare (v / 64) (v' / 64)).then
        (List.compareLex compare (UInt8.ofNat (v % 0x40 + 0x80) :: l)
          (UInt8.ofNat (v' % 0x40 + 0x80) :: l'))
      = (compare v v').then (List.compareLex compare l l') := by
  rw [List.compareLex_cons_cons, compare_marked (by decide) (by decide), compare_digits v v',
    Ordering.then_assoc]

/-- The first byte of an encoding, where `m` numbers have a place in it. -/
theorem compareLex_lead {m mark : Nat} (hbyte : m + mark ≤ 256) (hv : v < m) (hv' : v' < m) :
    List.compareLex compare (UInt8.ofNat (v % m + mark) :: l) (UInt8.ofNat (v' % m + mark) :: l')
      = (compare v v').then (List.compareLex compare l l') := by
  rw [List.compareLex_cons_cons, compare_marked (by omega) hbyte, Nat.mod_eq_of_lt hv,
    Nat.mod_eq_of_lt hv']

end

/-- What stands behind two different characters does not count. -/
theorem compareLex_encoding {v v' : Nat} (hv : v < 0x200000) (hv' : v' < 0x200000)
    (l l' : List UInt8) :
    List.compareLex compare (encoding v ++ l) (encoding v' ++ l')
      = (compare v v').then (List.compareLex compare l l') := by
  have hdiv : v / 64 / 64 = v / 4096 ∧ v / 4096 / 64 = v / 262144 := by omega
  have hdiv' : v' / 64 / 64 = v' / 4096 ∧ v' / 4096 / 64 = v' / 262144 := by omega
  rcases encoding_cases v with ⟨h, heq⟩ | ⟨h, h1, heq⟩ | ⟨h, h1, heq⟩ | ⟨h, heq⟩
  · rcases encoding_cases v' with ⟨h', heq'⟩ | ⟨h', h1', heq'⟩ | ⟨h', h1', heq'⟩ | ⟨h', heq'⟩
    all_goals rw [heq, heq']
    · show List.compareLex compare (UInt8.ofNat v :: l) (UInt8.ofNat v' :: l') = _
      rw [List.compareLex_cons_cons, compare_byte (by omega) (by omega)]
    · exact compareLex_of_lt _ _ (by omega) (by omega) (by omega) _
    · exact compareLex_of_lt _ _ (by omega) (by omega) (by omega) _
    · exact compareLex_of_lt _ _ (by omega) (by omega) (by omega) _
  · rcases encoding_cases v' with ⟨h', heq'⟩ | ⟨h', h1', heq'⟩ | ⟨h', h1', heq'⟩ | ⟨h', heq'⟩
    all_goals rw [heq, heq']
    · exact compareLex_of_gt _ _ (by omega) (by omega) (by omega) _
    · exact (compareLex_lead _ _ (by decide) (by omega) (by omega)).trans
        (compareLex_digit l l')
    · exact compareLex_of_lt _ _ (by omega) (by omega) (by omega) _
    · exact compareLex_of_lt _ _ (by omega) (by omega) (by omega) _
  · rcases encoding_cases v' with ⟨h', heq'⟩ | ⟨h', h1', heq'⟩ | ⟨h', h1', heq'⟩ | ⟨h', heq'⟩
    all_goals rw [heq, heq']
    · exact compareLex_of_gt _ _ (by omega) (by omega) (by omega) _
    · exact compareLex_of_gt _ _ (by omega) (by omega) (by omega) _
    · refine (compareLex_lead _ _ (by decide) (by omega) (by omega)).trans ?_
      rw [← hdiv.1, ← hdiv'.1]
      exact (compareLex_digit _ _).trans (compareLex_digit l l')
    · exact compareLex_of_lt _ _ (by omega) (by omega) (by omega) _
  · rcases encoding_cases v' with ⟨h', heq'⟩ | ⟨h', h1', heq'⟩ | ⟨h', h1', heq'⟩ | ⟨h', heq'⟩
    all_goals rw [heq, heq']
    · exact compareLex_of_gt _ _ (by omega) (by omega) (by omega) _
    · exact compareLex_of_gt _ _ (by omega) (by omega) (by omega) _
    · exact compareLex_of_gt _ _ (by omega) (by omega) (by omega) _
    · refine (compareLex_lead _ _ (by decide) (by omega) (by omega)).trans ?_
      rw [← hdiv.2, ← hdiv'.2, ← hdiv.1, ← hdiv'.1]
      exact (compareLex_digit _ _).trans ((compareLex_digit _ _).trans (compareLex_digit l l'))

/-- Two characters in front of any bytes: they decide, unless they are equal. -/
theorem compareLex_utf8EncodeChar (c d : Char) (l l' : List UInt8) :
    List.compareLex compare (String.utf8EncodeChar c ++ l) (String.utf8EncodeChar d ++ l')
      = (compare c d).then (List.compareLex compare l l') := by
  have hbound : ∀ c : Char, c.toNat < 0x200000 := by
    intro c
    have hvalid := c.valid
    unfold UInt32.isValidChar Nat.isValidChar at hvalid
    show c.val.toNat < _
    omega
  rw [utf8EncodeChar_eq_encoding, utf8EncodeChar_eq_encoding,
    compareLex_encoding (hbound c) (hbound d), compare_char]

/-! ## §3. Texts. -/

theorem utf8EncodeChar_ne_nil (c : Char) : String.utf8EncodeChar c ≠ [] := by
  rw [utf8EncodeChar_eq_encoding]
  rcases encoding_cases c.toNat with ⟨-, heq⟩ | ⟨-, -, heq⟩ | ⟨-, -, heq⟩ | ⟨-, heq⟩ <;>
    simp [heq]

theorem compareLex_flatMap (l : List Char) :
    ∀ l' : List Char,
      List.compareLex compare (l.flatMap String.utf8EncodeChar)
          (l'.flatMap String.utf8EncodeChar)
        = List.compareLex compare l l' := by
  induction l with
  | nil =>
    intro l'
    cases l' with
    | nil => rfl
    | cons d l' =>
      obtain ⟨x, r, hd⟩ := List.exists_cons_of_ne_nil (utf8EncodeChar_ne_nil d)
      rw [List.flatMap_cons, hd]
      rfl
  | cons c l ih =>
    intro l'
    cases l' with
    | nil =>
      obtain ⟨x, r, hc⟩ := List.exists_cons_of_ne_nil (utf8EncodeChar_ne_nil c)
      rw [List.flatMap_cons, hc]
      rfl
    | cons d l' =>
      rw [List.flatMap_cons, List.flatMap_cons, compareLex_utf8EncodeChar, ih,
        List.compareLex_cons_cons]

/-- Lists of characters are compared like words, and so are texts. -/
theorem compareLex_toList (l : List Char) :
    ∀ l' : List Char, List.compareLex compare l l' = compareOfLessAndEq l l' := by
  induction l with
  | nil =>
    intro l'
    cases l' <;> simp [List.compareLex_nil_nil, List.compareLex_nil_cons, compareOfLessAndEq]
  | cons c l ih =>
    intro l'
    cases l' with
    | nil => simp [List.compareLex_cons_nil, compareOfLessAndEq]
    | cons d l' =>
      rw [List.compareLex_cons_cons, ih l']
      show (compareOfLessAndEq c d).then _ = _
      simp only [compareOfLessAndEq, List.cons_lt_cons_iff, List.cons.injEq]
      by_cases hlt : c < d
      · simp [hlt]
      · by_cases heq : c = d
        · simp [heq]
        · simp [hlt, heq]

theorem compare_eq_compareLex_toList (a b : String) :
    compare a b = List.compareLex compare a.toList b.toList := by
  rw [compareLex_toList]
  show (if a.toList < b.toList then _ else if a = b then _ else _) = _
  simp only [compareOfLessAndEq, String.toList_inj]

theorem toList_loop (bytes : ByteArray) (i : Nat) (r : List UInt8) :
    ByteArray.toList.loop bytes i r = r.reverse ++ bytes.data.toList.drop i := by
  fun_induction ByteArray.toList.loop bytes i r with
  | case1 i r h ih =>
    have hi : i < bytes.data.toList.length := by simpa using h
    rw [ih, List.drop_eq_getElem_cons hi]
    simp [ByteArray.get!, h]
  | case2 i r h =>
    rw [List.drop_eq_nil_of_le (by simpa using Nat.le_of_not_lt h), List.append_nil]

/-- The bytes of a text are those of its characters, one after the other. -/
theorem bytesOf_eq_flatMap (text : String) :
    Path.bytesOf text = text.toList.flatMap String.utf8EncodeChar := by
  rw [Path.bytesOf, String.toUTF8_eq_toByteArray, ← String.utf8Encode_toList]
  show ByteArray.toList.loop (text.toList.flatMap String.utf8EncodeChar).toByteArray 0 [] = _
  rw [toList_loop, List.toList_data_toByteArray]
  rfl

/-- Texts are compared as their bytes are. -/
theorem compare_eq_compare_bytes (a b : String) :
    compare a b = List.compareLex compare (Path.bytesOf a) (Path.bytesOf b) := by
  rw [bytesOf_eq_flatMap, bytesOf_eq_flatMap, compareLex_flatMap, compare_eq_compareLex_toList]

end ParseCache
