import Newcoin.Lib.Positional
import Newcoin.Machine
import Newcoin.Peer.Defs

/-!
# The table `PeerIps`

Its rows, with the columns that the pool reads, and the statements it runs.

* `splitIpPort_ipPortText`, `ipPortText_inj` — a key is read back, and is that of one address.
* `selectScan_first` — the row that is scanned first.
-/

namespace Newcoin.ConnectionPool

/-- A row. -/
structure PeerIp where
  IpPort : Bytes
  ScanNext : Option ℤ
  ScanInterval : ℤ
  deriving DecidableEq, Repr

/-! ### The key -/

/-- `%d`. -/
def decimal (i : ℤ) : Bytes :=
  (if i < 0 then [45] else []) ++
    if i = 0 then [48] else (Nat.digits 10 i.natAbs).reverse.map fun d => UInt8.ofNat (48 + d)

/-- `boost::format("%s %d")`. -/
def ipPortText (pip : IpPort) : Bytes := pip.1 ++ 32 :: decimal pip.2

/-- `boost::lexical_cast<int>`. -/
def lexicalCastInt (s : Bytes) : Except Fault ℤ :=
  let negative := s.head? = some 45
  let digits := if s.head? = some 45 ∨ s.head? = some 43 then s.tail else s
  if digits = [] ∨ ¬ digits.all fun c => 48 ≤ c && c ≤ 57 then .error .badLexicalCast
  else
    let n : ℕ := digits.foldl (fun n c => 10 * n + (c.toNat - 48)) 0
    let i : ℤ := if negative then -n else n
    if -2 ^ 31 ≤ i ∧ i < 2 ^ 31 then .ok i else .error .badLexicalCast

/-- `splitIpPort`. -/
def splitIpPort (strIpPort : Bytes) : Except Fault IpPort :=
  match strIpPort.splitOn 32 with
  | strIp :: strPort :: _ => do
    let iPort ← lexicalCastInt strPort
    return (strIp, iPort)
  | _ => .error .outOfBounds

/-! ### The key is read back -/

/-- The character of a digit. -/
def digitChar (d : ℕ) : UInt8 := UInt8.ofNat (48 + d)

lemma toNat_digitChar {d : ℕ} (hd : d < 10) : (digitChar d).toNat = 48 + d := by
  rw [digitChar, UInt8.toNat_ofNat']
  omega

/-- The loop of `lexicalCastInt` over digits. -/
lemma foldl_digitChar {ds : List ℕ} (h : ∀ d ∈ ds, d < 10) (n : ℕ) :
    (ds.map digitChar).foldl (fun n c => 10 * n + (c.toNat - 48)) n = n * 10 ^ ds.length + Lib.value 10 ds := by
  induction ds generalizing n with
  | nil => simp [Lib.value]
  | cons d ds ih =>
    rw [List.map_cons, List.foldl_cons, ih (fun d' hd' => h d' (List.mem_cons_of_mem _ hd')), Lib.value_cons,
      toNat_digitChar (h d List.mem_cons_self), Nat.add_sub_cancel_left, List.length_cons, pow_succ]
    ring

lemma decimal_eq (i : ℤ) : ∃ ds : List ℕ, ds ≠ [] ∧ (∀ d ∈ ds, d < 10) ∧ Lib.value 10 ds = i.natAbs ∧
    decimal i = (if i < 0 then [45] else []) ++ ds.map digitChar := by
  by_cases hi : i = 0
  · subst hi
    exact ⟨[0], by simp, by simp, rfl, rfl⟩
  · refine ⟨(Nat.digits 10 i.natAbs).reverse, ?_, fun d hd => ?_, ?_, ?_⟩
    · simpa [Nat.digits_ne_nil_iff_ne_zero] using hi
    · exact Nat.digits_lt_base (by omega) (List.mem_reverse.1 hd)
    · rw [Lib.value, List.reverse_reverse, Nat.ofDigits_digits]
    · rw [decimal, if_neg hi]
      rfl

/-- A text of digits begins with none of the other characters. -/
lemma head?_digits {ds : List ℕ} (h : ∀ d ∈ ds, d < 10) {c : UInt8} (hc : c < 48) :
    (ds.map digitChar).head? ≠ some c := by
  intro hhead
  obtain ⟨d, hd, rfl⟩ := List.mem_map.1 (List.mem_of_mem_head? hhead)
  rw [UInt8.lt_iff_toNat_lt, toNat_digitChar (h d hd)] at hc
  exact absurd hc (by simp)

/-- **A number is read back** from its text. -/
lemma lexicalCastInt_decimal {i : ℤ} (hi : IsInt i) : lexicalCastInt (decimal i) = .ok i := by
  obtain ⟨ds, hne, hlt, hvalue, htext⟩ := decimal_eq i
  have hdigits : (ds.map digitChar).all (fun c => 48 ≤ c && c ≤ 57) = true := by
    rw [List.all_eq_true]
    intro c hc
    obtain ⟨d, hd, rfl⟩ := List.mem_map.1 hc
    have hc' := toNat_digitChar (hlt d hd)
    have hd' := hlt d hd
    rw [Bool.and_eq_true, decide_eq_true_eq, decide_eq_true_eq, UInt8.le_iff_toNat_le, UInt8.le_iff_toNat_le, hc']
    exact ⟨by simp, by simp; omega⟩
  have hne' : ds.map digitChar ≠ [] := by simpa using hne
  have hnumber := foldl_digitChar hlt 0
  rw [Nat.zero_mul, Nat.zero_add, hvalue] at hnumber
  unfold lexicalCastInt
  rw [htext]
  by_cases hneg : i < 0
  · simp only [if_pos hneg, List.singleton_append, List.head?_cons, List.tail_cons, true_or, if_true, hne', hdigits,
      not_true_eq_false, or_self, if_false, hnumber]
    rw [if_pos (by unfold IsInt at hi; omega)]
    exact congrArg Except.ok (by omega)
  · simp only [if_neg hneg, List.nil_append, head?_digits hlt (show (45 : UInt8) < 48 by decide),
      head?_digits hlt (show (43 : UInt8) < 48 by decide), or_self, if_false, hne', hdigits, not_true_eq_false, hnumber]
    rw [if_pos (by unfold IsInt at hi; omega)]
    exact congrArg Except.ok (by omega)

/-- No two numbers have the same text. -/
lemma decimal_inj {i j : ℤ} (h : decimal i = decimal j) : i = j := by
  obtain ⟨ds, -, hlt, hvalue, htext⟩ := decimal_eq i
  obtain ⟨ds', -, hlt', hvalue', htext'⟩ := decimal_eq j
  rw [htext, htext'] at h
  have hdigits : ds.map digitChar = ds'.map digitChar → i.natAbs = j.natAbs := by
    intro he
    have hnumber := congrArg (List.foldl (fun n c => 10 * n + (c.toNat - 48)) 0) he
    rwa [foldl_digitChar hlt, foldl_digitChar hlt', Nat.zero_mul, Nat.zero_mul, Nat.zero_add, Nat.zero_add, hvalue,
      hvalue'] at hnumber
  have hhead : ∀ {ds es : List ℕ}, (∀ d ∈ es, d < 10) → 45 :: ds.map digitChar ≠ es.map digitChar :=
    fun hes he => head?_digits hes (show (45 : UInt8) < 48 by decide) (he ▸ rfl)
  split_ifs at h with hi hj hj
  · have habs := hdigits (List.cons.inj h).2
    omega
  · exact absurd h (hhead hlt')
  · exact absurd h.symm (hhead hlt)
  · have habs := hdigits h
    omega

lemma space_notMem_decimal (i : ℤ) : 32 ∉ decimal i := by
  obtain ⟨ds, -, hlt, -, htext⟩ := decimal_eq i
  rw [htext, List.mem_append]
  rintro (hsign | hdigit)
  · split_ifs at hsign
    · exact absurd hsign (by decide)
    · cases hsign
  · obtain ⟨d, hd, he⟩ := List.mem_map.1 hdigit
    have hd' := toNat_digitChar (hlt d hd)
    rw [he] at hd'
    exact absurd hd' (by simp; omega)

/-- **The key is split again**, if the address has no space. -/
theorem splitIpPort_ipPortText {pip : IpPort} (hspace : 32 ∉ pip.1) (hport : IsInt pip.2) :
    splitIpPort (ipPortText pip) = .ok pip := by
  rw [splitIpPort, ipPortText, List.splitOn_append_cons_self_of_not_mem hspace,
    List.splitOn_eq_singleton (space_notMem_decimal pip.2)]
  dsimp only
  rw [lexicalCastInt_decimal hport]
  rfl

/-- What comes before the last space, and the number behind it. -/
lemma last_space_le {ip ip' text : Bytes} {port port' : ℤ} (happ : ip' = ip ++ text)
    (htext : 32 :: decimal port = text ++ 32 :: decimal port') : (ip, port) = (ip', port') := by
  cases text with
  | nil => rw [happ, List.append_nil, decimal_inj (List.cons.inj htext).2]
  | cons c text =>
    have hmem : 32 ∈ decimal port := by
      rw [(List.cons.inj htext).2]
      exact List.mem_append_right _ List.mem_cons_self
    exact absurd hmem (space_notMem_decimal port)

/-- **No two addresses have the same key**, whatever the addresses contain. -/
theorem ipPortText_inj {pip pip' : IpPort} (h : ipPortText pip = ipPortText pip') : pip = pip' := by
  obtain ⟨ip, port⟩ := pip
  obtain ⟨ip', port'⟩ := pip'
  rcases List.append_eq_append_iff.1 h with ⟨text, happ, htext⟩ | ⟨text, happ, htext⟩
  · exact last_space_le happ htext
  · exact (last_space_le happ htext).symm

/-- **The key of an address** is split into the address and the port again, and is that of no other. -/
theorem address_key_round_trip {pip : IpPort} (hspace : 32 ∉ pip.1) (hport : IsInt pip.2) :
    splitIpPort (ipPortText pip) = .ok pip ∧ ∀ pip', ipPortText pip' = ipPortText pip → pip' = pip :=
  ⟨splitIpPort_ipPortText hspace hport, fun _ h => ipPortText_inj h⟩

theorem address_key_round_trip_negative :
    splitIpPort (ipPortText (cString "10.0.0.1", -51235)) = .ok (cString "10.0.0.1", -51235) ∧
    ∀ pip', ipPortText pip' = ipPortText (cString "10.0.0.1", -51235) → pip' = (cString "10.0.0.1", -51235) :=
  address_key_round_trip (by decide +kernel) (by unfold IsInt; decide)

/-! ### Statements -/

/-- `SELECT * FROM PeerIps WHERE ScanNext NOT NULL ORDER BY ScanNext LIMIT 1`. -/
def selectScan (rows : List PeerIp) : Option PeerIp :=
  rows.foldl (fun first row =>
    if row.ScanNext.isNone then first
    else
      match first with
      | none => some row
      | some first => if row.ScanNext.getD 0 < first.ScanNext.getD 0 then some row else some first) none

/-- The row that is scheduled first; none only if no row is scheduled. -/
structure First (rows : List PeerIp) (first : Option PeerIp) : Prop where
  unscheduled : first = none → ∀ row ∈ rows, row.ScanNext = none
  scheduled : ∀ row, first = some row → row ∈ rows ∧ ∃ next, row.ScanNext = some next ∧
    ∀ r ∈ rows, ∀ n, r.ScanNext = some n → next ≤ n

namespace First

variable {rows : List PeerIp} {row last : PeerIp} {next n : ℤ}

lemma append_unscheduled {first : Option PeerIp} (h : First rows first) (hlast : last.ScanNext = none) :
    First (rows ++ [last]) first := by
  refine ⟨fun hnone r hr => ?_, fun row hrow => ?_⟩
  · rcases List.mem_append.1 hr with hr | hr
    · exact h.unscheduled hnone r hr
    · rw [List.mem_singleton.1 hr, hlast]
  · obtain ⟨hmem, next, hnext, hmin⟩ := h.scheduled row hrow
    refine ⟨List.mem_append_left _ hmem, next, hnext, fun r hr n hn => ?_⟩
    rcases List.mem_append.1 hr with hr | hr
    · exact hmin r hr n hn
    · rw [List.mem_singleton.1 hr, hlast] at hn
      cases hn

/-- The last row is the first to come, or the one before remains it. -/
lemma append_scheduled (hmem : row ∈ rows ++ [last]) (hnext : row.ScanNext = some next)
    (hrows : ∀ r ∈ rows, ∀ n, r.ScanNext = some n → next ≤ n) (hlast : last.ScanNext = some n) (hle : next ≤ n) :
    First (rows ++ [last]) (some row) := by
  refine ⟨fun hnone => absurd hnone (Option.some_ne_none row), fun row' hrow' => ?_⟩
  obtain rfl := Option.some.inj hrow'
  refine ⟨hmem, next, hnext, fun r hr m hm => ?_⟩
  rcases List.mem_append.1 hr with hr | hr
  · exact hrows r hr m hm
  · rw [List.mem_singleton.1 hr, hlast] at hm
    exact le_of_le_of_eq hle (Option.some.inj hm)

end First

/-- By induction from the last row, which the query looks at last. -/
lemma selectScan_first (rows : List PeerIp) : First rows (selectScan rows) := by
  induction rows using List.reverseRecOn with
  | nil => exact ⟨fun _ row hrow => absurd hrow List.not_mem_nil, fun row hrow => by cases hrow⟩
  | append_singleton rows last ih =>
    rw [selectScan, List.foldl_append, List.foldl_cons, List.foldl_nil, ← selectScan]
    cases hlast : last.ScanNext with
    | none =>
      rw [if_pos (Option.isNone_none)]
      exact ih.append_unscheduled hlast
    | some n =>
      rw [if_neg (by simp)]
      have hmem : last ∈ rows ++ [last] := List.mem_append_right _ List.mem_cons_self
      cases hfirst : selectScan rows with
      | none =>
        refine .append_scheduled hmem hlast (fun r hr m hm => ?_) hlast le_rfl
        rw [ih.unscheduled hfirst r hr] at hm
        cases hm
      | some first =>
        obtain ⟨hrow, next, hnext, hmin⟩ := ih.scheduled first hfirst
        dsimp only
        rw [hnext, Option.getD_some, Option.getD_some]
        by_cases hlt : n < next
        · rw [if_pos hlt]
          exact .append_scheduled hmem hlast (fun r hr m hm => hlt.le.trans (hmin r hr m hm)) hlast le_rfl
        · rw [if_neg hlt]
          exact .append_scheduled (List.mem_append_left _ hrow) hnext hmin hlast (not_lt.1 hlt)

/-- `UPDATE PeerIps SET ScanNext=…,ScanInterval=… WHERE IpPort=…`. -/
def updateScan (ScanNext : Option ℤ) (ScanInterval : ℤ) (IpPort : Bytes) (rows : List PeerIp) : List PeerIp :=
  rows.map fun row => if row.IpPort = IpPort then { row with ScanNext, ScanInterval } else row

/-- `SELECT IpPort FROM PeerIps WHERE ScanNext IS NULL AND IpPort NOT IN (…) LIMIT 1`. -/
def selectAvailable (vstrIpPort : List Bytes) (rows : List PeerIp) : Option PeerIp :=
  rows.find? fun row => row.ScanNext.isNone && !vstrIpPort.contains row.IpPort

/-- `SELECT COUNT(*)`, and the row inserted if there is none: `ScanNext` is 0 by default. -/
def insertNew (IpPort : Bytes) (rows : List PeerIp) : List PeerIp × Bool :=
  if rows.any fun row => row.IpPort = IpPort then (rows, false)
  else (rows ++ [{ IpPort, ScanNext := some 0, ScanInterval := 0 }], true)

/-- `REPLACE INTO PeerIps`, for immediate scanning. -/
def replaceNow (IpPort : Bytes) (rows : List PeerIp) : List PeerIp :=
  (rows.filter fun row => row.IpPort ≠ IpPort) ++ [{ IpPort, ScanNext := some 0, ScanInterval := 0 }]

example : splitIpPort (cString "10.0.0.1 6561") = .ok (cString "10.0.0.1", 6561) := by decide +kernel

end Newcoin.ConnectionPool
