import Newcoin.Json.Grammar

/-!
# The texts that are written

What `FastWriter` writes is a text of the grammar (`spells_writeValue`), of the value that it will be read back as
(`Value.reread`): integers lose whether they are signed, those at the ends of their range become doubles, and a double
is what `sscanf` makes of its digits.
-/

namespace Newcoin.Json

variable {R : Type} (D : Doubles R)

/-! ### What is read back -/

/-- The double that is read from a text. -/
def readDouble (text : Bytes) : Value R := ((D.sscanf text).map .real).getD .null

mutual
/-- What a value is after it has been written and read. -/
def Value.reread : Value R → Value R
  | .int i => if -2147483640 < i.toInt then .int i else readDouble D (valueToStringInt i)
  | .uint u =>
    if u.toNat < 2147483648 then .int u.toInt32
    else if u.toNat < 4294967290 then .uint u
    else readDouble D (valueToStringUInt u)
  | .real r => readDouble D (valueToStringDouble D r)
  | .array values => .array (rereadValues values)
  | .object members => .object (rereadMembers members)
  | .null => .null
  | .string s => .string s
  | .boolean b => .boolean b
def rereadValues : List (Value R) → List (Value R)
  | [] => []
  | v :: values => v.reread :: rereadValues values
def rereadMembers : Members R → Members R
  | [] => []
  | (name, v) :: members => (name, v.reread) :: rereadMembers members
end

/-- What doubles must be for their texts to be texts of numbers, and objects to be read back in order. -/
def Writable : Value R → Prop
  | .int i => -2147483640 < i.toInt ∨ (D.sscanf (valueToStringInt i)).isSome
  | .uint u => u.toNat < 4294967290 ∨ (D.sscanf (valueToStringUInt u)).isSome
  | .real r => IsReal (D.sprintf r) ∧ (valueToStringDouble D r).length ≠ 32 ∧
      (D.sscanf (valueToStringDouble D r)).isSome
  | .object members => InOrder members
  | _ => True

variable {D}

lemma rereadMembers_eq (members : Members R) :
    rereadMembers D members = members.map fun m => (m.1, m.2.reread D) := by
  induction members with
  | nil => rfl
  | cons m members ih => rw [rereadMembers, ih, List.map_cons]

lemma rereadValues_eq (values : List (Value R)) : rereadValues D values = values.map fun v => v.reread D := by
  induction values with
  | nil => rfl
  | cons v values ih => rw [rereadValues, ih, List.map_cons]

/-- The names are as they were, and so is their order. -/
lemma InOrder.rereadMembers {members : Members R} (h : InOrder members) : InOrder (rereadMembers D members) := by
  rw [rereadMembers_eq]
  exact List.pairwise_map.2 h

lemma readDouble_eq {text : Bytes} {r : R} (h : D.sscanf text = some r) : readDouble D text = .real r := by
  rw [readDouble, h]
  rfl

/-! ### Integers -/

lemma isDecimal_digit {n : ℕ} (hn : n < 10) : IsDecimal [UInt8.ofNat (n + 48)] n := by
  have hn' : (UInt8.ofNat (n + 48)).toNat = n + 48 := by
    rw [UInt8.toNat_ofNat']
    omega
  have h48 : (48 : UInt8).toNat = 48 := rfl
  have h57 : (57 : UInt8).toNat = 57 := rfl
  refine ⟨by simp, List.forall_mem_singleton.2 ?_, ?_⟩
  · rw [UInt8.le_iff_toNat_le, UInt8.le_iff_toNat_le, hn', h48, h57]
    omega
  · rw [List.map_singleton, hn', Nat.add_sub_cancel]
    simp [Lib.value]

/-- A digit more at the end. -/
lemma IsDecimal.append {t : Bytes} {n : ℕ} (h : IsDecimal t n) {d : ℕ} (hd : d < 10) :
    IsDecimal (t ++ [UInt8.ofNat (d + 48)]) (10 * n + d) := by
  obtain ⟨hne, ht, hn⟩ := h
  obtain ⟨-, hdigit, hvalue⟩ := isDecimal_digit hd
  refine ⟨by simp, List.forall_mem_append.2 ⟨ht, hdigit⟩, ?_⟩
  have hd' : (UInt8.ofNat (d + 48)).toNat - 48 = d := by simpa [Lib.value] using hvalue
  rw [List.map_append, Lib.value, List.reverse_append, List.map_singleton, List.reverse_singleton,
    List.singleton_append, Nat.ofDigits_cons, ← Lib.value, hn, hd', add_comm]

lemma uintToStringFrom_eq {room digits : ℕ} {value : UInt32} (hdigits : 0 < digits) (hroom : digits ≤ room)
    (hvalue : value.toNat < 10 ^ digits) (current : Bytes) :
    ∃ t, uintToStringFrom room value current = t ++ current ∧ IsDecimal t value.toNat ∧ t.length ≤ digits := by
  induction room generalizing digits value current with
  | zero => omega
  | succ room ih =>
    have hdiv : (value / 10).toNat = value.toNat / 10 := rfl
    have hmod : (value % 10).toNat = value.toNat % 10 := rfl
    obtain ⟨digits, rfl⟩ := Nat.exists_eq_succ_of_ne_zero hdigits.ne'
    rw [uintToStringFrom, hmod]
    by_cases hmore : value / 10 ≠ 0
    · have hmore' : value.toNat / 10 ≠ 0 := fun h => hmore (UInt32.toNat_inj.1 h)
      have hdigits' : 0 < digits := by
        by_contra hzero
        obtain rfl : digits = 0 := by omega
        omega
      rw [pow_succ] at hvalue
      have hvalue' : (value / 10).toNat < 10 ^ digits := by omega
      obtain ⟨t, ht, hdecimal, hlength⟩ := ih hdigits' (Nat.le_of_succ_le_succ hroom) hvalue'
        (UInt8.ofNat (value.toNat % 10 + 48) :: current)
      refine ⟨t ++ [UInt8.ofNat (value.toNat % 10 + 48)], ?_, ?_, by simpa using hlength⟩
      · simp only [if_pos hmore, ht, List.append_assoc, List.singleton_append]
      · have happ := hdecimal.append (Nat.mod_lt value.toNat (show 0 < 10 by decide))
        rwa [hdiv, Nat.div_add_mod] at happ
    · have hlast : value.toNat / 10 = 0 := by
        rw [← hdiv, not_not.1 hmore]
        rfl
      refine ⟨[UInt8.ofNat (value.toNat % 10 + 48)], by simp only [if_neg hmore, List.singleton_append], ?_, by simp⟩
      have hsmall : value.toNat % 10 = value.toNat := by omega
      have hdigit := isDecimal_digit (Nat.mod_lt value.toNat (show 0 < 10 by decide))
      rwa [hsmall] at hdigit ⊢

lemma isDecimal_valueToStringUInt (value : UInt32) :
    IsDecimal (valueToStringUInt value) value.toNat ∧ (valueToStringUInt value).length ≤ 10 := by
  have hlt : value.toNat < 10 ^ 10 := value.toNat_lt.trans (by decide)
  obtain ⟨t, ht, hdecimal⟩ := uintToStringFrom_eq (by decide) (show 10 ≤ 31 by decide) hlt []
  rw [valueToStringUInt, ht, List.append_nil]
  exact hdecimal

lemma numberText_uint {u : UInt32} (h : Writable D (.uint u : Value R)) :
    NumberText D (valueToStringUInt u) ((Value.uint u).reread D) := by
  obtain ⟨hdecimal, hlength⟩ := isDecimal_valueToStringUInt u
  rw [Value.reread]
  split_ifs with hint huint
  · have hi : u.toInt32 = Int32.ofNat u.toNat := by
      rw [← UInt32.toInt32_ofNat', UInt32.ofNat_toNat]
    rw [hi]
    exact .int hdecimal hint
  · have hu := NumberText.uint (D := D) hdecimal (by omega) huint
    rwa [UInt32.ofNat_toNat] at hu
  · obtain ⟨r, hr⟩ := Option.isSome_iff_exists.1 (h.resolve_left huint)
    rw [readDouble_eq hr]
    exact .large hdecimal (by omega) (by omega) hr

/-- The absolute value, of the least integer too. -/
lemma toNat_toUInt32_neg {i : Int32} (h : i.toInt < 0) : (-i).toUInt32.toNat = i.toInt.natAbs := by
  have hneg : (-i).toUInt32.toNat = (2 ^ 32 - i.toBitVec.toNat) % 2 ^ 32 := BitVec.toNat_neg i.toBitVec
  have hint : i.toInt = _ := BitVec.toInt_eq_toNat_cond i.toBitVec
  have hlt := i.toBitVec.isLt
  split_ifs at hint <;> omega

lemma numberText_int {i : Int32} (h : Writable D (.int i : Value R)) :
    NumberText D (valueToStringInt i) ((Value.int i).reread D) := by
  have hmax : i.toInt < 2147483648 := i.toInt_lt
  have hsign : i < 0 ↔ i.toInt < 0 := Int32.lt_iff_toInt_lt
  rw [Value.reread]
  by_cases hneg : i.toInt < 0
  · obtain ⟨hdecimal, hlength⟩ := isDecimal_valueToStringUInt (-i).toUInt32
    have htext : valueToStringInt i = 45 :: valueToStringUInt (-i).toUInt32 := if_pos (hsign.2 hneg)
    have hn := toNat_toUInt32_neg hneg
    rw [htext]
    split_ifs with hlarge
    · have hi : i = -Int32.ofNat (-i).toUInt32.toNat := by
        rw [← UInt32.toInt32_ofNat', UInt32.ofNat_toNat, Int32.toInt32_toUInt32, Int32.neg_neg]
      nth_rewrite 2 [hi]
      exact .negative hdecimal (by omega)
    · have hsome := h.resolve_left hlarge
      rw [htext] at hsome
      obtain ⟨r, hr⟩ := Option.isSome_iff_exists.1 hsome
      rw [readDouble_eq hr]
      exact .largeNegative hdecimal (by omega) (by omega) hr
  · obtain ⟨hdecimal, -⟩ := isDecimal_valueToStringUInt i.toUInt32
    have hn : i.toUInt32.toNat = i.toInt.toNat :=
      Int32.toNat_toUInt32_of_le (Int32.le_iff_toInt_le.2 (not_lt.1 hneg))
    have hi : i = Int32.ofNat i.toUInt32.toNat := by
      rw [← UInt32.toInt32_ofNat', UInt32.ofNat_toNat, Int32.toInt32_toUInt32]
    rw [if_pos (by omega), valueToStringInt, if_neg fun h => hneg (hsign.1 h)]
    nth_rewrite 2 [hi]
    exact .int hdecimal (by omega)

/-! ### Doubles -/

/-- What is truncated is behind the point. -/
lemma mem_take_of_point {c : UInt8} {t zeroless : Bytes} (hc : c ≠ 46) (hzeroless : zeroless <+: c :: t)
    (hpoint : (zeroless.rdropWhile fun c => 48 ≤ c ∧ c ≤ 57).getLast? = some 46) : 46 ∈ t.take zeroless.length := by
  obtain ⟨q, hq⟩ := List.getLast?_eq_some_iff.1 hpoint
  have hprefix : q ++ [46] <+: zeroless := hq ▸ List.rdropWhile_prefix _ _
  have hprefix' := hprefix.trans hzeroless
  have hlength := hprefix.length_le
  cases q with
  | nil => exact absurd (List.cons_prefix_cons.1 hprefix').1.symm hc
  | cons d q =>
    have htail : q ++ [46] <+: t := (List.cons_prefix_cons.1 hprefix').2
    have htake : q ++ [46] <+: t.take zeroless.length := by
      refine List.prefix_take_iff.2 ⟨htail, ?_⟩
      simp only [List.cons_append, List.length_cons] at hlength
      omega
    exact htake.subset (by simp)

lemma IsReal.truncateZeroes {t : Bytes} (h : IsReal t) : IsReal (truncateZeroes t) := by
  obtain ⟨c, t', rfl, hc, ht, hreal⟩ := h
  have hc' : c ≠ 46 := by
    rintro rfl
    exact absurd hc (by decide)
  have hzeroless : (c :: t').take 1 ++ (c :: t').tail.rdropWhile (· = 48) <+: c :: t' :=
    List.cons_prefix_cons.2 ⟨rfl, List.rdropWhile_prefix _ _⟩
  unfold Json.truncateZeroes
  simp only
  split_ifs with hzero hpoint
  · exact ⟨c, t', rfl, hc, ht, hreal⟩
  · have hmem := mem_take_of_point hc' hzeroless hpoint
    exact ⟨c, t'.take _, List.take_succ_cons, hc, fun d hd => ht d (List.mem_of_mem_take hd), 46, hmem, .inl rfl⟩
  · exact ⟨c, t', rfl, hc, ht, hreal⟩

lemma numberText_real {r : R} (h : Writable D (.real r)) :
    NumberText D (valueToStringDouble D r) ((Value.real r).reread D) := by
  obtain ⟨hreal, hlength, hsome⟩ := h
  obtain ⟨r', hr⟩ := Option.isSome_iff_exists.1 hsome
  rw [Value.reread, readDouble_eq hr]
  exact .real hreal.truncateZeroes hlength hr

/-! ### Strings -/

lemma isHex4_control {c : UInt8} (hc : isControlCharacter c) :
    IsHex4 (48 :: 48 :: hex02X c) (Char.ofNat c.toNat).toNat ∧ String.utf8EncodeChar (Char.ofNat c.toNat) = [c] := by
  have hall : ∀ c : UInt8, isControlCharacter c → ((48 :: 48 :: hex02X c).length = 4 ∧
      (∀ d ∈ 48 :: 48 :: hex02X c, BaseUInt.isHexDigit d) ∧
      BaseUInt.hexValue (48 :: 48 :: hex02X c) = (Char.ofNat c.toNat).toNat) ∧
      String.utf8EncodeChar (Char.ofNat c.toNat) = [c] := forall_byte (by decide +kernel)
  exact hall c hc

lemma stringText_escapeChar {t s : Bytes} (h : StringText t s) (c : UInt8) :
    StringText (escapeChar c ++ t) (c :: s) := by
  unfold escapeChar
  split
  case h_8 hquote hescape _ _ _ _ _ =>
    split_ifs with hcontrol
    · obtain ⟨hhex, hchar⟩ := isHex4_control hcontrol
      have hunicode := StringText.unicode hhex h
      rwa [hchar] at hunicode
    · exact .char hquote hescape h
  all_goals exact .escape (by decide) h

lemma stringText_escaped (s : Bytes) : StringText (s.flatMap escapeChar) s := by
  induction s with
  | nil => exact .nil
  | cons c s ih => exact stringText_escapeChar ih c

/-- A name or string between its quotes. -/
lemma exists_valueToQuotedString (s : CZString) :
    ∃ t, valueToQuotedString s = 34 :: (t ++ [34]) ∧ StringText t s.chars :=
  ⟨_, valueToQuotedString_eq s, stringText_escaped s.chars⟩

/-! ### `FastWriter` -/

section FastWriter

open FastWriter

variable {comments yaml : Bool}

lemma writeValues_false (v : Value R) (values : List (Value R)) :
    writeValues D yaml false (v :: values) = 44 :: writeValues D yaml true (v :: values) := rfl

lemma writeMembers_false (m : CZString × Value R) (members : Members R) :
    writeMembers D yaml false (m :: members) = 44 :: writeMembers D yaml true (m :: members) := rfl

lemma spells_writeValues {v : Value R} {values : List (Value R)}
    (h : ∀ w ∈ v :: values, Spells D comments (.value (w.reread D)) (writeValue D yaml w)) :
    Spells D comments (.elements (rereadValues D (v :: values))) (writeValues D yaml true (v :: values)) := by
  induction values generalizing v with
  | nil =>
    have hlast := Spells.lastElement .nil (h v List.mem_cons_self) .nil
    rw [List.nil_append] at hlast
    exact hlast
  | cons w values ih =>
    have htail := ih fun u hu => h u (List.mem_cons_of_mem _ hu)
    have hcons := Spells.element .nil (h v List.mem_cons_self) .nil htail
    rw [← writeValues_false] at hcons
    exact hcons

lemma spells_writeMembers {m : CZString × Value R} {members : Members R}
    (h : ∀ n ∈ m :: members, Spells D comments (.value (n.2.reread D)) (writeValue D yaml n.2)) :
    Spells D comments (.members (rereadMembers D (m :: members))) (writeMembers D yaml true (m :: members)) := by
  have hgap : Gap comments (if yaml then [32] else []) := by
    cases yaml with
    | true => exact .blank (by decide) .nil
    | false => exact .nil
  induction members generalizing m with
  | nil =>
    obtain ⟨t, ht, hname⟩ := exists_valueToQuotedString m.1
    have hlast := Spells.lastMember .nil hname .nil hgap (h m List.mem_cons_self) .nil
    rw [CZString.ofBytes_chars] at hlast
    have htext : writeMembers D yaml true [m] =
        [] ++ 34 :: (t ++ 34 :: ([] ++ 58 :: ((if yaml then [32] else []) ++ (writeValue D yaml m.2 ++ [])))) := by
      rw [writeMembers, ht]
      cases yaml <;> simp [writeMembers]
    rw [htext]
    exact hlast
  | cons n members ih =>
    obtain ⟨t, ht, hname⟩ := exists_valueToQuotedString m.1
    have htail := ih fun u hu => h u (List.mem_cons_of_mem _ hu)
    have hcons := Spells.member .nil hname .nil hgap (h m List.mem_cons_self) .nil htail
    rw [CZString.ofBytes_chars] at hcons
    have htext : writeMembers D yaml true (m :: n :: members) =
        [] ++ 34 :: (t ++ 34 :: ([] ++ 58 :: ((if yaml then [32] else []) ++
          (writeValue D yaml m.2 ++ ([] ++ 44 :: writeMembers D yaml true (n :: members)))))) := by
      rw [writeMembers, writeMembers_false, ht]
      cases yaml <;> simp
    rw [htext]
    exact hcons

/-- A text of an object whose members are in order. -/
lemma spells_object {members : Members R} (h : InOrder members) {t : Bytes}
    (ht : Spells D comments (.members (rereadMembers D members)) t) :
    Spells D comments (.value ((Value.object members).reread D)) (123 :: (t ++ [125])) := by
  have hobject := Spells.object ht
  rwa [assignAll_inOrder (by simpa using h.rereadMembers)] at hobject

/-- By induction on the value. -/
theorem spells_writeValue {v : Value R} (hv : v.All (Writable D)) :
    Spells D comments (.value (v.reread D)) (writeValue D yaml v) := by
  induction v with
  | null => exact .null
  | int i => exact .number (numberText_int hv)
  | uint u => exact .number (numberText_uint hv)
  | real r => exact .number (numberText_real hv)
  | string s =>
    obtain ⟨t, ht, hs⟩ := exists_valueToQuotedString s
    have hstring : Spells D comments _ _ := .string hs
    rwa [CZString.ofBytes_chars, ← ht] at hstring
  | boolean b =>
    cases b with
    | true => exact .true
    | false => exact .false
  | array values ih =>
    obtain ⟨-, hvalues⟩ := all_array.1 hv
    cases values with
    | nil => exact .emptyArray .nil
    | cons v values => exact .array (spells_writeValues fun w hw => ih w hw (hvalues w hw))
  | object members ih =>
    obtain ⟨horder, hmembers⟩ := all_object.1 hv
    refine spells_object horder ?_
    cases members with
    | nil => exact .noMember .nil
    | cons m members => exact spells_writeMembers fun n hn => ih n hn (hmembers n hn)

end FastWriter

end Newcoin.Json
