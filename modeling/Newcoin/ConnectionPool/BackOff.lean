import Newcoin.ConnectionPool.Refresh

/-!
# Backing off

A scan puts its row off by the interval and doubles the interval, both as an `int`; nothing bounds the
doubling.  `scanRow` is the row as it is written, `advance` the row without a range.

* `exactScan_iff` — one scan.
* `exactRun_iff` — scan after scan, from any row.
* `back_off_exact_iff` — from a row that the pool has made.
-/

namespace Newcoin.ConnectionPool

variable {env : Env} {row : PeerIp} {now : ℤ}

/-- `iToSeconds`, which returns an `int`. -/
def iToSeconds (ptWhen : Time) : ℤ := ptWhen.elim (-1) toInt

/-- The row after a scan.  An `iInterval *= 2` that is no `int` has no defined outcome; here it wraps. -/
def scanRow (env : Env) (tpNow : ℤ) (row : PeerIp) : PeerIp :=
  let iInterval := max row.ScanInterval env.PEER_SCAN_INTERVAL_MIN
  let tpNext : Time := some (tpNow + iInterval)
  { row with ScanNext := some (iToSeconds tpNext), ScanInterval := toInt (iInterval * 2) }

/-- Both numbers are written as they are, and the next scan is later. -/
def ExactScan (env : Env) (tpNow : ℤ) (row : PeerIp) : Prop :=
  scanRow env tpNow row = advance env tpNow row ∧
    ∃ next, (scanRow env tpNow row).ScanNext = some next ∧ tpNow < next

/-- All scans are, at these times, the first one of this row. -/
def ExactRun (env : Env) : PeerIp → List ℤ → Prop
  | _, [] => True
  | row, tpNow :: later => ExactScan env tpNow row ∧ ExactRun env (scanRow env tpNow row) later

/-- A row that a statement of the pool has put into the table, or written to it when no scan was due. -/
inductive Created (env : Env) (row : PeerIp) : Prop
  /-- `savePeer`. -/
  | insert (IpPort : Bytes) (rows : List PeerIp) (mem : row ∈ (insertNew IpPort rows).1) (new : row ∉ rows)
  /-- `connectTo`; the columns of the other `REPLACE`s are these by default. -/
  | replace (IpPort : Bytes) (rows : List PeerIp) (mem : row ∈ replaceNow IpPort rows) (new : row ∉ rows)
  /-- `peerScanSet`. -/
  | scanSet (IpPort : Bytes) (rows : List PeerIp) (tpNow : ℤ)
      (mem : row ∈ updateScan (some (iToSeconds (some (tpNow + env.PEER_SCAN_INTERVAL_MIN))))
        env.PEER_SCAN_INTERVAL_MIN IpPort rows) (new : row ∉ rows)
  /-- `peerVerified`. -/
  | verified (IpPort : Bytes) (rows : List PeerIp) (mem : row ∈ updateScan none 0 IpPort rows) (new : row ∉ rows)

/-! ### One scan -/

lemma toInt_eq_self_iff {x : ℤ} : toInt x = x ↔ IsInt x :=
  ⟨fun h => h ▸ isInt_toInt x, fun h => toInt_eq h.1 h.2⟩

/-- The interval of the next scan. -/
def interval (env : Env) (row : PeerIp) : ℤ := max row.ScanInterval env.PEER_SCAN_INTERVAL_MIN

lemma exactScan_iff (hmin : 1 ≤ env.PEER_SCAN_INTERVAL_MIN) :
    ExactScan env now row ↔ IsInt (now + interval env row) ∧ IsInt (interval env row * 2) := by
  have hwritten : scanRow env now row = advance env now row ↔
      toInt (now + interval env row) = now + interval env row ∧
        toInt (interval env row * 2) = interval env row * 2 := by
    rw [scanRow, advance, PeerIp.mk.injEq, and_iff_right rfl, Option.some_inj]
    rfl
  rw [ExactScan, hwritten, toInt_eq_self_iff, toInt_eq_self_iff]
  refine and_iff_left_of_imp fun h => ?_
  rw [hwritten.2 ⟨toInt_eq_self_iff.2 h.1, toInt_eq_self_iff.2 h.2⟩]
  exact advance_later hmin row

/-- **The interval doubles.** -/
lemma interval_scanRow (hmin : 1 ≤ env.PEER_SCAN_INTERVAL_MIN) (h : ExactScan env now row) :
    interval env (scanRow env now row) = interval env row * 2 := by
  have hle : env.PEER_SCAN_INTERVAL_MIN ≤ interval env row := le_max_right _ _
  rw [h.1]
  change max (interval env row * 2) env.PEER_SCAN_INTERVAL_MIN = _
  omega

/-! ### Scan after scan -/

/-- By induction on the times: the first scan leaves a row of twice the interval. -/
lemma exactRun_iff (hmin : 1 ≤ env.PEER_SCAN_INTERVAL_MIN) (times : List ℤ) :
    ExactRun env row times ↔ ∀ k tpNow, times[k]? = some tpNow →
      IsInt (tpNow + interval env row * 2 ^ k) ∧ IsInt (interval env row * 2 ^ (k + 1)) := by
  induction times generalizing row with
  | nil => simp [ExactRun]
  | cons first later ih =>
    have hfirst := @exactScan_iff env row first hmin
    have hpow (k : ℕ) : interval env row * 2 * 2 ^ k = interval env row * 2 ^ (k + 1) := by ring
    rw [ExactRun]
    constructor
    · rintro ⟨hscan, hrun⟩ k tpNow hk
      cases k with
      | zero =>
        obtain rfl := Option.some.inj hk
        rw [pow_zero, mul_one, zero_add, pow_one]
        exact hfirst.1 hscan
      | succ k =>
        have hlater := ih.1 hrun k tpNow hk
        rwa [interval_scanRow hmin hscan, hpow, hpow] at hlater
    · intro h
      have hscan : ExactScan env first row := by
        have hzero := h 0 first rfl
        rw [pow_zero, mul_one, zero_add, pow_one] at hzero
        exact hfirst.2 hzero
      refine ⟨hscan, ih.2 fun k tpNow hk => ?_⟩
      rw [interval_scanRow hmin hscan, hpow, hpow]
      exact h (k + 1) tpNow hk

lemma mem_updateScan {ScanNext : Option ℤ} {ScanInterval : ℤ} {IpPort : Bytes} {rows : List PeerIp}
    (mem : row ∈ updateScan ScanNext ScanInterval IpPort rows) (new : row ∉ rows) :
    row.ScanInterval = ScanInterval := by
  obtain ⟨old, hold, rfl⟩ := List.mem_map.1 mem
  split_ifs at new ⊢
  · rfl
  · exact absurd hold new

/-- A new row is scanned at the shortest interval. -/
lemma Created.interval_eq (hmin : 1 ≤ env.PEER_SCAN_INTERVAL_MIN) (h : Created env row) :
    interval env row = env.PEER_SCAN_INTERVAL_MIN := by
  have hle : row.ScanInterval ≤ env.PEER_SCAN_INTERVAL_MIN := by
    cases h with
    | insert IpPort rows mem new =>
      rw [insertNew] at mem
      split_ifs at mem with hany
      · exact absurd mem new
      · rcases List.mem_append.1 mem with mem | mem
        · exact absurd mem new
        · rw [List.mem_singleton.1 mem]
          exact zero_le_one.trans hmin
    | replace IpPort rows mem new =>
      rcases List.mem_append.1 mem with mem | mem
      · exact absurd (List.mem_of_mem_filter mem) new
      · rw [List.mem_singleton.1 mem]
        exact zero_le_one.trans hmin
    | scanSet IpPort rows tpNow mem new => exact (mem_updateScan mem new).le
    | verified IpPort rows mem new =>
      rw [mem_updateScan mem new]
      omega
  exact max_eq_right hle

/-- **How long the back-off stays in range**: as long as both the doubled interval and the time of the next
scan are an `int`, at each scan. -/
theorem back_off_exact_iff (hmin : 1 ≤ env.PEER_SCAN_INTERVAL_MIN) (hrow : Created env row) (times : List ℤ) :
    ExactRun env row times ↔ ∀ k tpNow, times[k]? = some tpNow →
      IsInt (tpNow + env.PEER_SCAN_INTERVAL_MIN * 2 ^ k) ∧ IsInt (env.PEER_SCAN_INTERVAL_MIN * 2 ^ (k + 1)) := by
  rw [exactRun_iff hmin, hrow.interval_eq hmin]

/-- A row that `savePeer` has just made. -/
def fresh : PeerIp := ⟨ipPortText (cString "10.0.0.1", 6561), some 0, 0⟩

lemma fresh_created : Created Outbound.sourceEnv fresh :=
  .insert fresh.IpPort [] (by decide +kernel) List.not_mem_nil

theorem back_off_exact_iff_fresh : ExactRun Outbound.sourceEnv fresh [0, 60, 180] ↔
    ∀ k tpNow, [0, 60, 180][k]? = some tpNow → IsInt (tpNow + 60 * 2 ^ k) ∧ IsInt (60 * 2 ^ (k + 1)) :=
  back_off_exact_iff (by decide) fresh_created [0, 60, 180]

/-- The time of the scan after `k` scans, each as soon as it is due. -/
def failing (k : ℕ) : ℤ := 820000000 + 60 * (2 ^ k - 1)

/-- Twenty-five failures in a row, the first one 26 years after the epoch: the last scan is put off to a time
before the epoch.  The interval of the one after that is no `int`, whenever the scans are. -/
theorem back_off_wraps :
    (∀ k < 24, failing k + 60 * 2 ^ k = failing (k + 1)) ∧
    scanRow Outbound.sourceEnv (failing 24)
        { fresh with ScanNext := some (failing 24), ScanInterval := 60 * 2 ^ 24 } =
      { fresh with ScanNext := some (failing 25 - 2 ^ 32), ScanInterval := 60 * 2 ^ 25 } ∧
    failing 25 - 2 ^ 32 < 0 ∧
    ¬ ExactRun Outbound.sourceEnv fresh ((List.range 25).map failing) ∧
    ∀ times : List ℤ, 26 ≤ times.length → ¬ ExactRun Outbound.sourceEnv fresh times := by
  have hmin : 1 ≤ Outbound.sourceEnv.PEER_SCAN_INTERVAL_MIN := by decide
  have hinterval : interval Outbound.sourceEnv fresh = 60 := by decide
  refine ⟨by decide +kernel, by decide +kernel, by decide, fun h => ?_, fun times hlen h => ?_⟩
  · have hlast := ((exactRun_iff hmin _).1 h 24 (failing 24) rfl).1
    rw [hinterval] at hlast
    exact absurd hlast (by unfold IsInt failing; decide)
  · have hlast := ((exactRun_iff hmin times).1 h 25 times[25] (List.getElem?_eq_getElem _)).2
    rw [hinterval] at hlast
    exact absurd hlast (by unfold IsInt; decide)

end Newcoin.ConnectionPool
