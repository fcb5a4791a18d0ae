import Newcoin.BaseUInt.SetHex
import Newcoin.Json.Reads

/-!
# The texts of a value

`Spells`: the texts of JSON values, by their grammar, with blanks and comments between their parts.  The reader
reads every such text as the value that it stands for (`parse_spells`); characters are those of Unicode, and numbers
too large for an integer are what `sscanf` makes of them.
-/

namespace Newcoin.Json

open Reader

variable {R : Type}

/-! ### The grammar -/

/-- What may follow a backslash, and the character it stands for. -/
def escapes : List (UInt8 × UInt8) := [(34, 34), (92, 92), (47, 47), (98, 8), (102, 12), (110, 10), (114, 13), (116, 9)]

/-- Four hexadecimal digits, and the number they denote. -/
def IsHex4 (t : Bytes) (n : ℕ) : Prop := t.length = 4 ∧ (∀ c ∈ t, BaseUInt.isHexDigit c) ∧ BaseUInt.hexValue t = n

/-- The text of a string between the quotes, and the string in UTF-8. -/
inductive StringText : Bytes → Bytes → Prop
  | nil : StringText [] []
  | char {c : UInt8} {t s : Bytes} (hquote : c ≠ 34) (hescape : c ≠ 92) (h : StringText t s) :
      StringText (c :: t) (c :: s)
  | escape {e c : UInt8} {t s : Bytes} (he : (e, c) ∈ escapes) (h : StringText t s) :
      StringText (92 :: e :: t) (c :: s)
  | unicode {digits t s : Bytes} {c : Char} (hc : IsHex4 digits c.toNat) (h : StringText t s) :
      StringText (92 :: 117 :: (digits ++ t)) (String.utf8EncodeChar c ++ s)
  | surrogates {high low t s : Bytes} {c : Char} {hi lo : ℕ} (hhigh : IsHex4 high (0xD800 + hi))
      (hlow : IsHex4 low (0xDC00 + lo)) (hhi : hi < 0x400) (hlo : lo < 0x400)
      (hc : c.toNat = 0x10000 + 0x400 * hi + lo) (h : StringText t s) :
      StringText (92 :: 117 :: (high ++ 92 :: 117 :: (low ++ t))) (String.utf8EncodeChar c ++ s)

/-- Decimal digits, and the number they denote. -/
def IsDecimal (t : Bytes) (n : ℕ) : Prop :=
  t ≠ [] ∧ (∀ c ∈ t, 48 ≤ c ∧ c ≤ 57) ∧ Lib.value 10 (t.map fun c => c.toNat - 48) = n

/-- A number with a fraction or an exponent, as far as the reader looks. -/
def IsReal (t : Bytes) : Prop :=
  ∃ c t', t = c :: t' ∧ ((48 ≤ c ∧ c ≤ 57) ∨ c = 45) ∧ (∀ d ∈ t', isNumberChar d) ∧
    ∃ d ∈ t', d = 46 ∨ d = 101 ∨ d = 69 ∨ d = 43 ∨ d = 45

variable (D : Doubles R)

/-- The text of a number. -/
inductive NumberText : Bytes → Value R → Prop
  | int {t : Bytes} {n : ℕ} (h : IsDecimal t n) (hn : n < 2147483648) : NumberText t (.int (Int32.ofNat n))
  | negative {t : Bytes} {n : ℕ} (h : IsDecimal t n) (hn : n < 2147483640) :
      NumberText (45 :: t) (.int (-Int32.ofNat n))
  | uint {t : Bytes} {n : ℕ} (h : IsDecimal t n) (hn : 2147483648 ≤ n) (hn' : n < 4294967290) :
      NumberText t (.uint (UInt32.ofNat n))
  | large {t : Bytes} {n : ℕ} {r : R} (h : IsDecimal t n) (hn : 4294967290 ≤ n) (hlength : t.length ≠ 32)
      (hr : D.sscanf t = some r) : NumberText t (.real r)
  | largeNegative {t : Bytes} {n : ℕ} {r : R} (h : IsDecimal t n) (hn : 2147483640 ≤ n) (hlength : t.length ≠ 31)
      (hr : D.sscanf (45 :: t) = some r) : NumberText (45 :: t) (.real r)
  | real {t : Bytes} {r : R} (h : IsReal t) (hlength : t.length ≠ 32) (hr : D.sscanf t = some r) :
      NumberText t (.real r)

/-- Blanks, and comments if they are allowed. -/
inductive Gap (comments : Bool) : Bytes → Prop
  | nil : Gap comments []
  | blank {c : UInt8} {g : Bytes} (hc : isBlank c) (h : Gap comments g) : Gap comments (c :: g)
  | cStyle {body g : Bytes} (hcomments : comments) (hbody : ¬ [42, 47] <:+: body) (h : Gap comments g) :
      Gap comments (47 :: 42 :: (body ++ 42 :: 47 :: g))
  | cppStyle {body g : Bytes} {c : UInt8} (hcomments : comments) (hbody : ∀ d ∈ body, d ≠ 13 ∧ d ≠ 10)
      (hc : c = 13 ∨ c = 10) (h : Gap comments g) : Gap comments (47 :: 47 :: (body ++ c :: g))

/-- A value, the values of an array, or the members of an object in the order of the text. -/
inductive Item (R : Type)
  | value (v : Value R)
  | elements (values : List (Value R))
  | members (members : Members R)

/-- The texts of an item. -/
inductive Spells (comments : Bool) : Item R → Bytes → Prop
  | null : Spells comments (.value .null) (cString "null")
  | true : Spells comments (.value (.boolean true)) (cString "true")
  | false : Spells comments (.value (.boolean false)) (cString "false")
  | number {t : Bytes} {v : Value R} (h : NumberText D t v) : Spells comments (.value v) t
  | string {t s : Bytes} (h : StringText t s) : Spells comments (.value (.string (.ofBytes s))) (34 :: (t ++ [34]))
  | emptyArray {g : Bytes} (h : Gap Bool.false g) : Spells comments (.value (.array [])) (91 :: (g ++ [93]))
  | array {t : Bytes} {values : List (Value R)} (h : Spells comments (.elements values) t) :
      Spells comments (.value (.array values)) (91 :: (t ++ [93]))
  | object {t : Bytes} {members : Members R} (h : Spells comments (.members members) t) :
      Spells comments (.value (.object (assignAll members []))) (123 :: (t ++ [125]))
  | lastElement {g t g' : Bytes} {v : Value R} (hg : Gap comments g) (h : Spells comments (.value v) t)
      (hg' : Gap comments g') : Spells comments (.elements [v]) (g ++ (t ++ g'))
  | element {g t g' ts : Bytes} {v : Value R} {values : List (Value R)} (hg : Gap comments g)
      (h : Spells comments (.value v) t) (hg' : Gap comments g') (hs : Spells comments (.elements values) ts) :
      Spells comments (.elements (v :: values)) (g ++ (t ++ (g' ++ 44 :: ts)))
  | noMember {g : Bytes} (hg : Gap comments g) : Spells comments (.members []) g
  | lastMember {g n name b g' t g'' : Bytes} {v : Value R} (hg : Gap comments g) (hname : StringText n name)
      (hb : Gap Bool.false b) (hg' : Gap comments g') (h : Spells comments (.value v) t) (hg'' : Gap comments g'') :
      Spells comments (.members [(.ofBytes name, v)]) (g ++ 34 :: (n ++ 34 :: (b ++ 58 :: (g' ++ (t ++ g'')))))
  | member {g n name b g' t g'' ts : Bytes} {v : Value R} {m : CZString × Value R} {members : Members R}
      (hg : Gap comments g) (hname : StringText n name) (hb : Gap Bool.false b) (hg' : Gap comments g')
      (h : Spells comments (.value v) t) (hg'' : Gap comments g'') (hs : Spells comments (.members (m :: members)) ts) :
      Spells comments (.members ((.ofBytes name, v) :: m :: members))
        (g ++ 34 :: (n ++ 34 :: (b ++ 58 :: (g' ++ (t ++ (g'' ++ 44 :: ts))))))

/-! ### Characters -/

lemma utf8Byte_eq {v i a : ℕ} (hv : v < 2 ^ 32) {mark mask shift : UInt32} (hmark : mark.toNat = 2 ^ i * a)
    (hmask : mask.toNat = 2 ^ i - 1) (hshift : shift.toNat < 32) :
    utf8Byte (UInt32.ofNat v) mark mask shift = UInt8.ofNat (v / 2 ^ shift.toNat % 2 ^ i + mark.toNat) := by
  have hbits : mark.toNat ||| v / 2 ^ shift.toNat % 2 ^ i = v / 2 ^ shift.toNat % 2 ^ i + mark.toNat := by
    rw [hmark, ← Nat.two_pow_add_eq_or_of_lt (Nat.mod_lt _ (by positivity)), add_comm]
  apply UInt8.toNat_inj.1
  rw [utf8Byte, UInt32.toNat_toUInt8, UInt32.toNat_or, UInt32.toNat_and, UInt32.toNat_shiftRight, hmask,
    Nat.and_comm, Nat.and_two_pow_sub_one_eq_mod, UInt32.toNat_ofNat', Nat.mod_eq_of_lt hv, Nat.mod_eq_of_lt hshift,
    Nat.shiftRight_eq_div_pow, hbits, UInt8.toNat_ofNat']

/-- UTF-8. -/
theorem codePointToUTF8_eq (c : Char) : codePointToUTF8 (UInt32.ofNat c.toNat) = String.utf8EncodeChar c := by
  have hmax : c.toNat < 0x110000 := by
    rcases c.valid with h | h
    · exact Nat.lt_of_lt_of_le h (by decide)
    · exact h.2
  have hv : c.toNat < 2 ^ 32 := by omega
  have hle (n : ℕ) (hn : n < 2 ^ 32) : (UInt32.ofNat c.toNat ≤ UInt32.ofNat n) ↔ c.toNat ≤ n := by
    rw [UInt32.le_iff_toNat_le, UInt32.toNat_ofNat', UInt32.toNat_ofNat', Nat.mod_eq_of_lt hv, Nat.mod_eq_of_lt hn]
  have h7 : UInt32.ofNat c.toNat ≤ 0x7f ↔ c.toNat ≤ 0x7f := hle 0x7f (by decide)
  have h11 : UInt32.ofNat c.toNat ≤ 0x7FF ↔ c.toNat ≤ 0x7FF := hle 0x7FF (by decide)
  have h16 : UInt32.ofNat c.toNat ≤ 0xFFFF ↔ c.toNat ≤ 0xFFFF := hle 0xFFFF (by decide)
  have h21 : UInt32.ofNat c.toNat ≤ 0x10FFFF ↔ c.toNat ≤ 0x10FFFF := hle 0x10FFFF (by decide)
  have hone : (UInt32.ofNat c.toNat).toUInt8 = UInt8.ofNat c.toNat := by
    apply UInt8.toNat_inj.1
    rw [UInt32.toNat_toUInt8, UInt32.toNat_ofNat', UInt8.toNat_ofNat', Nat.mod_eq_of_lt hv]
  rw [codePointToUTF8, hone,
    utf8Byte_eq (i := 5) (a := 6) hv rfl rfl (by decide), utf8Byte_eq (i := 6) (a := 2) hv rfl rfl (by decide),
    utf8Byte_eq (i := 4) (a := 14) hv rfl rfl (by decide), utf8Byte_eq (i := 6) (a := 2) hv rfl rfl (by decide),
    utf8Byte_eq (i := 3) (a := 30) hv rfl rfl (by decide), utf8Byte_eq (i := 6) (a := 2) hv rfl rfl (by decide)]
  have hzero : UInt32.toNat 0 = 0 := rfl
  have hlt : c.toNat ≤ 0x10FFFF := by omega
  simp only [h7, h11, h16, h21, hzero, pow_zero, Nat.div_one, if_pos hlt]
  rfl

/-! ### Strings -/

lemma hexDigit_eq {c : UInt8} (hc : BaseUInt.isHexDigit c) :
    Reader.hexDigit c = some (UInt32.ofNat ((Lib.Sql.hexDigit c).getD 0).toNat) := by
  have hall : ∀ c : UInt8, BaseUInt.isHexDigit c →
      Reader.hexDigit c = some (UInt32.ofNat ((Lib.Sql.hexDigit c).getD 0).toNat) := forall_byte (by decide +kernel)
  exact hall c hc

lemma decodeHex_append (token : Token) {digits : Bytes} (hdigits : ∀ c ∈ digits, BaseUInt.isHexDigit c) {u n : ℕ}
    (hn : n = u * 16 ^ digits.length + BaseUInt.hexValue digits) (s : Bytes) :
    decodeHex token digits.length (UInt32.ofNat u) (digits ++ s) = .ok (UInt32.ofNat n, s) := by
  induction digits generalizing u with
  | nil =>
    simp only [List.length_nil, pow_zero, mul_one, BaseUInt.hexValue, List.map_nil] at hn
    rw [hn]
    rfl
  | cons c digits ih =>
    obtain ⟨hc, hdigits⟩ := List.forall_mem_cons.1 hdigits
    rw [List.length_cons, List.cons_append, decodeHex, hexDigit_eq hc]
    have hu : UInt32.ofNat u * 16 + UInt32.ofNat ((Lib.Sql.hexDigit c).getD 0).toNat =
        UInt32.ofNat (u * 16 + ((Lib.Sql.hexDigit c).getD 0).toNat) := by
      rw [UInt32.ofNat_add, UInt32.ofNat_mul]
      rfl
    simp only [hu]
    refine ih hdigits ?_
    rw [hn, BaseUInt.hexValue_cons, List.length_cons]
    ring

/-- Four digits are read, wherever the string ends behind them. -/
lemma decodeUnicodeEscapeSequence_append (token : Token) {digits : Bytes} {n : ℕ} (h : IsHex4 digits n) {s : Bytes}
    {endLeft : ℕ} (hend : endLeft ≤ s.length) :
    decodeUnicodeEscapeSequence token endLeft (digits ++ s) = .ok (UInt32.ofNat n, s) := by
  obtain ⟨hlength, hdigits, rfl⟩ := h
  have hroom : ¬ (digits ++ s).length - endLeft < 4 := by
    rw [List.length_append]
    omega
  have hread := decodeHex_append token hdigits (u := 0) (n := BaseUInt.hexValue digits) (by simp) s
  rw [hlength] at hread
  rw [decodeUnicodeEscapeSequence, if_neg hroom]
  exact hread

lemma isHex4_lt {digits : Bytes} {n : ℕ} (h : IsHex4 digits n) : n < 0x10000 := by
  have hlt := BaseUInt.hexValue_lt digits
  rwa [h.1, h.2.2] at hlt

lemma decodeUnicodeCodePoint_char (token : Token) {digits : Bytes} {c : Char} (h : IsHex4 digits c.toNat) {s : Bytes}
    {endLeft : ℕ} (hend : endLeft ≤ s.length) :
    decodeUnicodeCodePoint token endLeft (digits ++ s) = .ok (UInt32.ofNat c.toNat, s) := by
  have hn := isHex4_lt h
  rw [decodeUnicodeCodePoint, decodeUnicodeEscapeSequence_append token h hend]
  have hscalar : ¬ (0xD800 ≤ UInt32.ofNat c.toNat ∧ UInt32.ofNat c.toNat ≤ 0xDBFF) := by
    rw [UInt32.le_iff_toNat_le, UInt32.le_iff_toNat_le, UInt32.toNat_ofNat', Nat.mod_eq_of_lt (by omega)]
    have hc : c.toNat < 0xD800 ∨ 0xDFFF < c.toNat := c.valid.imp id fun h => h.1
    have h1 : (0xD800 : UInt32).toNat = 0xD800 := rfl
    have h2 : (0xDBFF : UInt32).toNat = 0xDBFF := rfl
    rw [h1, h2]
    omega
  simp only [bind, Except.bind, if_neg hscalar]

lemma and_ofNat {n : ℕ} (hn : n < 2 ^ 32) : UInt32.ofNat n &&& 0x3FF = UInt32.ofNat (n % 0x400) := by
  apply UInt32.toNat_inj.1
  have hmask : (0x3FF : UInt32).toNat = 2 ^ 10 - 1 := rfl
  rw [UInt32.toNat_and, hmask, Nat.and_two_pow_sub_one_eq_mod, UInt32.toNat_ofNat', UInt32.toNat_ofNat']
  omega

/-- The two halves of a surrogate pair. -/
lemma surrogates_eq {c : Char} {hi lo : ℕ} (hhi : hi < 0x400) (hlo : lo < 0x400)
    (hc : c.toNat = 0x10000 + 0x400 * hi + lo) :
    (0x10000 : UInt32) + ((UInt32.ofNat (0xD800 + hi) &&& 0x3FF) <<< 10) + (UInt32.ofNat (0xDC00 + lo) &&& 0x3FF) =
      UInt32.ofNat c.toNat := by
  have hhigh : (0xD800 + hi) % 0x400 = hi := by omega
  have hlow : (0xDC00 + lo) % 0x400 = lo := by omega
  rw [and_ofNat (by omega), and_ofNat (by omega), hhigh, hlow]
  apply UInt32.toNat_inj.1
  have h16 : (0x10000 : UInt32).toNat = 0x10000 := rfl
  have h10 : (10 : UInt32).toNat % 32 = 10 := rfl
  rw [UInt32.toNat_add, UInt32.toNat_add, UInt32.toNat_shiftLeft, h16, h10, UInt32.toNat_ofNat', UInt32.toNat_ofNat',
    UInt32.toNat_ofNat', Nat.shiftLeft_eq]
  omega

lemma decodeUnicodeCodePoint_surrogates (token : Token) {high low : Bytes} {c : Char} {hi lo : ℕ}
    (hhigh : IsHex4 high (0xD800 + hi)) (hlow : IsHex4 low (0xDC00 + lo)) (hhi : hi < 0x400) (hlo : lo < 0x400)
    (hc : c.toNat = 0x10000 + 0x400 * hi + lo) {s : Bytes} {endLeft : ℕ} (hend : endLeft ≤ s.length) :
    decodeUnicodeCodePoint token endLeft (high ++ 92 :: 117 :: (low ++ s)) = .ok (UInt32.ofNat c.toNat, s) := by
  have hlength := hlow.1
  have hroom : ¬ (92 :: 117 :: (low ++ s)).length - endLeft < 6 := by
    simp only [List.length_cons, List.length_append]
    omega
  have hsurrogate : 0xD800 ≤ UInt32.ofNat (0xD800 + hi) ∧ UInt32.ofNat (0xD800 + hi) ≤ 0xDBFF := by
    have h1 : (0xD800 : UInt32).toNat = 0xD800 := rfl
    have h2 : (0xDBFF : UInt32).toNat = 0xDBFF := rfl
    rw [UInt32.le_iff_toNat_le, UInt32.le_iff_toNat_le, UInt32.toNat_ofNat', Nat.mod_eq_of_lt (by omega), h1, h2]
    omega
  rw [decodeUnicodeCodePoint, decodeUnicodeEscapeSequence_append token hhigh (by simp; omega)]
  simp only [bind, Except.bind, if_pos hsurrogate, if_neg hroom, List.head?_cons, List.tail_cons, List.drop_succ_cons,
    List.drop_zero, ne_eq, not_true_eq_false, if_false, decodeUnicodeEscapeSequence_append token hlow hend,
    surrogates_eq hhi hlo hc]

lemma decodeChars_skip (token : Token) (endLeft : ℕ) (skipped s : Bytes) :
    decodeChars token endLeft skipped.length (skipped ++ s) = decodeChars token endLeft 0 s := by
  induction skipped with
  | nil => rfl
  | cons c skipped ih => rw [List.length_cons, List.cons_append, decodeChars, ih]

lemma unescape_eq {e c : UInt8} (h : (e, c) ∈ escapes) : unescape e = some c ∧ e ≠ 117 := by
  simp only [escapes, List.mem_cons, List.not_mem_nil, or_false, Prod.mk.injEq] at h
  rcases h with ⟨rfl, rfl⟩ | ⟨rfl, rfl⟩ | ⟨rfl, rfl⟩ | ⟨rfl, rfl⟩ | ⟨rfl, rfl⟩ | ⟨rfl, rfl⟩ | ⟨rfl, rfl⟩ | ⟨rfl, rfl⟩ <;>
    exact ⟨rfl, by decide⟩

lemma readString_plain {c : UInt8} (hescape : c ≠ 92) (hquote : c ≠ 34) (s : Bytes) :
    readString (c :: s) = readString s := by
  rw [readString.eq_def]
  simp only [if_neg hescape, if_neg hquote]

lemma readString_escape (e : UInt8) (s : Bytes) : readString (92 :: e :: s) = readString s := by
  rw [readString.eq_def]
  simp only [if_true]

lemma readString_quote (s : Bytes) : readString (34 :: s) = (true, s) := by
  rw [readString.eq_def]
  rfl

lemma readString_hex {digits : Bytes} (hdigits : ∀ c ∈ digits, BaseUInt.isHexDigit c) (s : Bytes) :
    readString (digits ++ s) = readString s := by
  induction digits with
  | nil => rfl
  | cons c digits ih =>
    obtain ⟨hc, hdigits⟩ := List.forall_mem_cons.1 hdigits
    have hescape : c ≠ 92 := by
      rintro rfl
      exact absurd hc (by decide)
    have hquote : c ≠ 34 := by
      rintro rfl
      exact absurd hc (by decide)
    rw [List.cons_append, readString_plain hescape hquote, ih hdigits]

/-- The token of a string ends where its text does. -/
lemma readString_text {t s : Bytes} (h : StringText t s) (rest : Bytes) :
    readString (t ++ 34 :: rest) = (true, rest) := by
  induction h with
  | nil => exact readString_quote rest
  | char hquote hescape _ ih => rw [List.cons_append, readString_plain hescape hquote, ih]
  | escape _ _ ih => rw [List.cons_append, List.cons_append, readString_escape, ih]
  | unicode hc _ ih =>
    rw [List.cons_append, List.cons_append, readString_escape, List.append_assoc, readString_hex hc.2.1, ih]
  | surrogates hhigh hlow _ _ _ _ ih =>
    rw [List.cons_append, List.cons_append, readString_escape, List.append_assoc, readString_hex hhigh.2.1,
      List.cons_append, List.cons_append, readString_escape, List.append_assoc, readString_hex hlow.2.1, ih]

section decodeChars

variable (token : Token) {endLeft : ℕ}

lemma decodeChars_plain {c : UInt8} (hquote : c ≠ 34) (hescape : c ≠ 92) {s : Bytes} (hend : endLeft ≤ s.length) :
    decodeChars token endLeft 0 (c :: s) = (decodeChars token endLeft 0 s).map (c :: ·) := by
  have hroom : ¬ (s.length + 1 = endLeft ∨ c = 34) := by
    rintro (h | h)
    · omega
    · exact hquote h
  rw [decodeChars.eq_def]
  simp only [if_neg hroom, if_neg hescape]
  rfl

lemma decodeChars_escape {e c : UInt8} (he : (e, c) ∈ escapes) {s : Bytes} (hend : endLeft ≤ s.length) :
    decodeChars token endLeft 0 (92 :: e :: s) = (decodeChars token endLeft 0 s).map (c :: ·) := by
  obtain ⟨hc, hunicode⟩ := unescape_eq he
  have hroom : ¬ ((e :: s).length + 1 = endLeft ∨ (92 : UInt8) = 34) := by
    rintro (h | h)
    · simp only [List.length_cons] at h
      omega
    · exact absurd h (by decide)
  rw [decodeChars.eq_def]
  simp only [if_neg hroom, if_true, if_neg (show ¬ s.length + 1 = endLeft by omega), if_neg hunicode, hc]
  rfl

lemma decodeChars_unicode {skipped s : Bytes} {cp : UInt32}
    (h : decodeUnicodeCodePoint token endLeft (skipped ++ s) = .ok (cp, s)) (hend : endLeft ≤ s.length) :
    decodeChars token endLeft 0 (92 :: 117 :: (skipped ++ s)) =
      (decodeChars token endLeft 0 s).map (codePointToUTF8 cp ++ ·) := by
  have hlength : (skipped ++ s).length = skipped.length + s.length := List.length_append
  have hroom : ¬ ((117 :: (skipped ++ s)).length + 1 = endLeft ∨ (92 : UInt8) = 34) := by
    rintro (h | h)
    · simp only [List.length_cons] at h
      omega
    · exact absurd h (by decide)
  have hskip : decodeChars token endLeft ((skipped ++ s).length - s.length) (skipped ++ s) =
      decodeChars token endLeft 0 s := by
    rw [hlength, Nat.add_sub_cancel, decodeChars_skip]
  rw [decodeChars.eq_def]
  simp only [if_neg hroom, if_true, if_neg (show ¬ (skipped ++ s).length + 1 = endLeft by omega), h, hskip]
  rfl

/-- A string is decoded up to the quote behind it. -/
lemma decodeChars_text {t s : Bytes} (h : StringText t s) (rest : Bytes) :
    decodeChars token (rest.length + 1) 0 (t ++ 34 :: rest) = .ok s := by
  have hend (t : Bytes) : rest.length + 1 ≤ (t ++ 34 :: rest).length := by simp
  induction h with
  | nil =>
    rw [List.nil_append, decodeChars.eq_def]
    simp
  | char hquote hescape _ ih => rw [List.cons_append, decodeChars_plain token hquote hescape (hend _), ih, Except.map]
  | escape he _ ih => rw [List.cons_append, List.cons_append, decodeChars_escape token he (hend _), ih, Except.map]
  | unicode hc _ ih =>
    rw [List.cons_append, List.cons_append, List.append_assoc,
      decodeChars_unicode token (decodeUnicodeCodePoint_char token hc (hend _)) (hend _), ih, codePointToUTF8_eq,
      Except.map]
  | @surrogates high low t s c hi lo hhigh hlow hhi hlo hc _ ih =>
    have hsplit : (92 :: 117 :: (high ++ 92 :: 117 :: (low ++ t))) ++ 34 :: rest =
        92 :: 117 :: ((high ++ 92 :: 117 :: low) ++ (t ++ 34 :: rest)) := by simp
    have hpoint := decodeUnicodeCodePoint_surrogates token hhigh hlow hhi hlo hc (hend t)
    rw [← List.cons_append, ← List.cons_append, ← List.append_assoc] at hpoint
    rw [hsplit, decodeChars_unicode token hpoint (hend _), ih, codePointToUTF8_eq, Except.map]

end decodeChars

/-- The token of a string, and what it decodes to. -/
lemma readToken_string {t s : Bytes} (h : StringText t s) (rest : Bytes) :
    ∃ token, readToken (34 :: (t ++ 34 :: rest)) = (token, rest) ∧ token.type = .string ∧
      decodeString token = .ok s := by
  have hscan : scan 34 (t ++ 34 :: rest) = (.string, true, rest) := by
    rw [scan, readString_text h]
  refine ⟨_, by rw [readToken_cons (by decide), hscan], rfl, ?_⟩
  have hlength : (34 :: (t ++ 34 :: rest)).length - ((t ++ 34 :: rest).length + 1 - rest.length) + 1 =
      rest.length + 1 := by
    simp only [List.length_cons, List.length_append]
    omega
  rw [decodeString]
  simp only [hlength, List.tail_cons]
  exact decodeChars_text _ h rest

end Newcoin.Json
