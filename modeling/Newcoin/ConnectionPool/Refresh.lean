import Newcoin.ConnectionPool.LowWater
import Newcoin.ConnectionPool.Outbound

/-!
# The scan

`scanRefresh` calls itself as long as the address that is due is one the pool has.  What shrinks is in the
table: the row is put off beyond the present before the next call.

* `scan_refresh_ends` — it comes to an end, and how.
-/

namespace Newcoin.ConnectionPool

open Lib Program

variable {env : Env} {w t : World} {refresh : M PUnit} {pip : IpPort} {now : ℤ}

/-! ### Rows that are due -/

def due (now : ℤ) (row : PeerIp) : Bool := row.ScanNext.any fun next => next ≤ now

lemma due_eq_true {row : PeerIp} : due now row = true ↔ ∃ next, row.ScanNext = some next ∧ next ≤ now := by
  rw [due, Option.any_eq_true]
  simp only [decide_eq_true_eq]

/-- A row that is due, put off by its interval, which is doubled. -/
def advance (env : Env) (now : ℤ) (row : PeerIp) : PeerIp :=
  { row with
    ScanNext := some (now + max row.ScanInterval env.PEER_SCAN_INTERVAL_MIN)
    ScanInterval := max row.ScanInterval env.PEER_SCAN_INTERVAL_MIN * 2 }

/-- A row before and after: it is the same, or it was due and has been put off once, beyond the present. -/
def Advanced (env : Env) (now : ℤ) (row row' : PeerIp) : Prop :=
  row' = row ∨ due now row = true ∧ row' = advance env now row ∧ ∃ next, row'.ScanNext = some next ∧ now < next

/-- The interval is at least a second. -/
lemma advance_later (hmin : 1 ≤ env.PEER_SCAN_INTERVAL_MIN) (row : PeerIp) :
    ∃ next, (advance env now row).ScanNext = some next ∧ now < next := by
  refine ⟨_, rfl, ?_⟩
  have hmax := le_max_right row.ScanInterval env.PEER_SCAN_INTERVAL_MIN
  omega

/-- So no row is put off twice. -/
lemma due_advance (hmin : 1 ≤ env.PEER_SCAN_INTERVAL_MIN) (row : PeerIp) : ¬ due now (advance env now row) = true := by
  rw [due_eq_true]
  rintro ⟨next, hnext, hle⟩
  obtain ⟨next', hnext', hlt⟩ := @advance_later env now hmin row
  obtain rfl := Option.some.inj (hnext.symm.trans hnext')
  exact hle.not_gt hlt

lemma Advanced.trans (hmin : 1 ≤ env.PEER_SCAN_INTERVAL_MIN) {row row' row'' : PeerIp} (h : Advanced env now row row')
    (h' : Advanced env now row' row'') : Advanced env now row row'' := by
  rcases h with rfl | ⟨hdue, rfl, hlater⟩
  · exact h'
  · rcases h' with rfl | ⟨hdue', _⟩
    · exact Or.inr ⟨hdue, rfl, hlater⟩
    · exact absurd hdue' (due_advance hmin row)

/-- The table, with times from the epoch on and addresses that can be split; the address is its key. -/
structure Scannable (rows : List PeerIp) : Prop where
  nodup : (rows.map PeerIp.IpPort).Nodup
  splits : ∀ row ∈ rows, ∃ pip, splitIpPort row.IpPort = .ok pip
  nonneg : ∀ row ∈ rows, ∀ next, row.ScanNext = some next → 0 ≤ next

/-- `UPDATE`, for the row that is due. -/
def putOff (env : Env) (now : ℤ) (row : PeerIp) (rows : List PeerIp) : List PeerIp :=
  rows.map fun r => if r = row then advance env now r else r

/-- Its `WHERE` finds that row only. -/
lemma updateScan_eq {rows : List PeerIp} (hnodup : (rows.map PeerIp.IpPort).Nodup) {row : PeerIp} (hrow : row ∈ rows) :
    updateScan (some (now + max row.ScanInterval env.PEER_SCAN_INTERVAL_MIN))
      (max row.ScanInterval env.PEER_SCAN_INTERVAL_MIN * 2) row.IpPort rows = putOff env now row rows := by
  refine List.map_congr_left fun r hr => ?_
  have hkey : r.IpPort = row.IpPort ↔ r = row :=
    ⟨fun heq => List.inj_on_of_nodup_map hnodup hr hrow heq, fun heq => congrArg PeerIp.IpPort heq⟩
  by_cases heq : r = row
  · subst heq
    rw [if_pos rfl, if_pos rfl, advance]
  · rw [if_neg heq, if_neg (mt hkey.1 heq)]

section PutOff

variable {rows : List PeerIp} {row : PeerIp} (hrow : row ∈ rows) (hdue : due now row = true)

include hdue in
/-- The rows of a later table have been put off since the earlier one. -/
lemma forall₂_of_putOff (hmin : 1 ≤ env.PEER_SCAN_INTERVAL_MIN) {rows' : List PeerIp}
    (h : List.Forall₂ (Advanced env now) (putOff env now row rows) rows') :
    List.Forall₂ (Advanced env now) rows rows' := by
  rw [putOff, List.forall₂_map_left_iff] at h
  refine h.imp fun r r' hr => Advanced.trans hmin ?_ hr
  by_cases heq : r = row
  · subst heq
    rw [if_pos rfl]
    exact Or.inr ⟨hdue, rfl, advance_later hmin r⟩
  · rw [if_neg heq]
    exact Or.inl rfl

/-- A row that is still due has not changed. -/
lemma mem_of_due_putOff (hmin : 1 ≤ env.PEER_SCAN_INTERVAL_MIN) {r : PeerIp} (hr : r ∈ putOff env now row rows)
    (hr' : due now r = true) : r ∈ rows := by
  obtain ⟨old, hold, rfl⟩ := List.mem_map.1 hr
  by_cases heq : old = row
  · rw [if_pos heq] at hr'
    exact absurd hr' (due_advance hmin old)
  · rwa [if_neg heq]

include hrow hdue in
/-- **The measure**: one row fewer is due. -/
lemma countP_putOff (hmin : 1 ≤ env.PEER_SCAN_INTERVAL_MIN) :
    (putOff env now row rows).countP (due now) < rows.countP (due now) := by
  rw [putOff, List.countP_map]
  refine Sql.countP_lt_countP (fun r _ hr => ?_) hrow hdue ?_
  · by_cases heq : r = row
    · rw [heq]
      exact hdue
    · rwa [Function.comp_apply, if_neg heq] at hr
  · rw [Function.comp_apply, if_pos rfl]
    exact due_advance hmin row

include hrow hdue in
lemma Scannable.putOff (h : Scannable rows) (hmin : 1 ≤ env.PEER_SCAN_INTERVAL_MIN) :
    Scannable (putOff env now row rows) := by
  have hkeys : (ConnectionPool.putOff env now row rows).map PeerIp.IpPort = rows.map PeerIp.IpPort := by
    rw [ConnectionPool.putOff, List.map_map]
    refine List.map_congr_left fun r _ => ?_
    rw [Function.comp_apply]
    split_ifs <;> rfl
  refine ⟨hkeys ▸ h.nodup, fun r hr => ?_, fun r hr next hnext => ?_⟩
  · obtain ⟨old, hold, htext⟩ := List.mem_map.1 (hkeys ▸ List.mem_map_of_mem hr : r.IpPort ∈ rows.map PeerIp.IpPort)
    rw [← htext]
    exact h.splits old hold
  · obtain ⟨old, hold, rfl⟩ := List.mem_map.1 hr
    by_cases heq : old = row
    · rw [if_pos heq] at hnext
      obtain ⟨next', hnext', hle⟩ := due_eq_true.1 hdue
      have hnow := h.nonneg row hrow next' hnext'
      have hmax := le_max_right old.ScanInterval env.PEER_SCAN_INTERVAL_MIN
      obtain rfl := Option.some.inj hnext
      omega
    · rw [if_neg heq] at hnext
      exact h.nonneg old hold next hnext

end PutOff

/-! ### The whole call -/

/-- The surroundings are as the source has them, and the clock stands still. -/
structure Settings (env : Env) (now : ℤ) : Prop where
  poolPointer : env.poolPointer = false
  universalTime : ∀ n, env.universalTime n = now
  interval : 1 ≤ env.PEER_SCAN_INTERVAL_MIN

/-- How `scanRefresh` returns. -/
inductive Exit (now : ℤ) (w t : World) : Prop
  /-- A new peer is scanned, of an address that was due and that the pool did not have. -/
  | started (row : PeerIp) (pip : IpPort) (mem : row ∈ w.rows) (isDue : due now row = true)
      (splits : splitIpPort row.IpPort = .ok pip) (fresh : pip ∉ w.mIpMap) (scanning : t.mScanning = some w.created)
      (ipPort : (t.peers w.created).mIpPort = pip) (entry : t.mIpMap.lookup pip = some w.created)
      (timer : t.mScanTimer = none)
  /-- The timer is set for the earliest row, which comes later. -/
  | later (row : PeerIp) (next : ℤ) (mem : row ∈ t.rows) (scheduled : row.ScanNext = some next) (future : now < next)
      (earliest : ∀ r ∈ t.rows, ∀ n, r.ScanNext = some n → next ≤ n) (scanning : t.mScanning = none)
      (timer : t.mScanTimer = some (some next))
  /-- No row is scheduled. -/
  | unscheduled (rows : ∀ r ∈ t.rows, r.ScanNext = none) (scanning : t.mScanning = none) (timer : t.mScanTimer = none)

/-- How it does not: in the `connect` of an address that was due and that the pool did not have. -/
def ConnectStops (env : Env) (now : ℤ) (w : World) (e : Stop) : Prop :=
  ∃ row ∈ w.rows, due now row = true ∧ ∃ pip, splitIpPort row.IpPort = .ok pip ∧ pip ∉ w.mIpMap ∧
    (pip.1 = [] ∧ e = .assertion ∨ env.connectFails w.created = true ∧ e = .nullPool)

lemma forall₂_refl (rows : List PeerIp) : List.Forall₂ (Advanced env now) rows rows :=
  List.forall₂_same.2 fun _ _ => Or.inl rfl

/-- What is due later was due before. -/
lemma Exit.earlier {u : World} (h : Exit now u t) (hrows : ∀ r ∈ u.rows, due now r = true → r ∈ w.rows)
    (hips : u.mIpMap = w.mIpMap) (hcreated : u.created = w.created) : Exit now w t := by
  cases h with
  | started row pip mem isDue splits fresh scanning ipPort entry timer =>
    rw [hcreated] at scanning ipPort entry
    exact .started row pip (hrows row mem isDue) isDue splits (hips ▸ fresh) scanning ipPort entry timer
  | later row next mem scheduled future earliest scanning timer =>
    exact .later row next mem scheduled future earliest scanning timer
  | unscheduled rows scanning timer => exact .unscheduled rows scanning timer

lemma ConnectStops.earlier {u : World} {e : Stop} (h : ConnectStops env now u e)
    (hrows : ∀ r ∈ u.rows, due now r = true → r ∈ w.rows) (hips : u.mIpMap = w.mIpMap)
    (hcreated : u.created = w.created) : ConnectStops env now w e := by
  obtain ⟨row, hmem, hdue, pip, hsplit, hnew, hstops⟩ := h
  rw [hcreated] at hstops
  exact ⟨row, hrows row hmem hdue, hdue, pip, hsplit, hips ▸ hnew, hstops⟩

/-- The pool when it turns to a row that is due. -/
def turnTo (env : Env) (now : ℤ) (row : PeerIp) (w : World) : World :=
  { w with
    mScanTimer := none
    rows := putOff env now row w.rows
    readings := w.readings + 1
    statements := w.statements + 1 + 1 }

/-- **One turn**, by what the query finds. -/
lemma wp_turn {Q : PUnit → World → Prop} {E : Stop → Prop} (henv : Settings env now)
    (hok : ∀ n, env.executeSQL n = true) (hidle : w.mScanning = none) (htable : Scannable w.rows) (fuel : ℕ)
    (hunscheduled : (∀ r ∈ w.rows, r.ScanNext = none) →
      Q ⟨⟩ { w with mScanTimer := none, statements := w.statements + 1 })
    (hlater : ∀ row next, row ∈ w.rows → row.ScanNext = some next → now < next →
      (∀ r ∈ w.rows, ∀ n, r.ScanNext = some n → next ≤ n) →
      Q ⟨⟩ { w with
        mScanTimer := some (some next), readings := w.readings + 1, statements := w.statements + 1 })
    (hdue : ∀ row pip, row ∈ w.rows → due now row = true → splitIpPort row.IpPort = .ok pip →
      wp (peerConnect env (scanRefresh env fuel) pip)
        (fun mScanning t =>
          wp (if mScanning.isNone then scanRefresh env fuel else pure ()) Q E { t with mScanning })
        E (turnTo env now row w)) :
    wp (scanRefresh env (fuel + 1)) Q E w := by
  change wp (get >>= _) _ _ _
  rw [wp_bind, wp_get]
  dsimp only
  rw [hidle, if_neg (by simp), wp_bind, wp_executeSQL, if_pos (hok _)]
  have hfirst := selectScan_first w.rows
  cases hselect : selectScan w.rows with
  | none => exact hunscheduled (hfirst.unscheduled hselect)
  | some row =>
    obtain ⟨hrow, next, hnext, hmin⟩ := hfirst.scheduled row hselect
    dsimp only
    rw [wp_bind, wp_universalTime, henv.universalTime, hnext, Option.getD_some, ptFromSeconds,
      if_neg (htable.nonneg row hrow next hnext).not_gt]
    refine wp_ite (fun hle => ?_) fun hgt => ?_
    · have hle : next ≤ now := by simpa [Time.le, Time.lt] using hle
      obtain ⟨pip, hsplit⟩ := htable.splits row hrow
      rw [hsplit, liftFault, wp_bind, wp_pure, wp_bind, wp_modify, wp_bind, wp_updateRows, if_pos (hok _)]
      dsimp only
      rw [updateScan_eq htable.nodup hrow, wp_bind]
      exact hdue row pip hrow (due_eq_true.2 ⟨next, hnext, hle⟩) hsplit
    · have hlt : now < next := by simpa [Time.le, Time.lt] using hgt
      exact hlater row next hrow hnext hlt hmin

/-- By induction on the fuel, of which there is more than rows that are due. -/
lemma scanRefresh_spec (henv : Settings env now) (hok : ∀ n, env.executeSQL n = true) {fuel : ℕ}
    (hfree : w.mPeerLock = 0) (hidle : w.mScanning = none) (htable : Scannable w.rows)
    (hfuel : w.rows.countP (due now) < fuel) :
    wp (scanRefresh env fuel) (fun _ t => List.Forall₂ (Advanced env now) w.rows t.rows ∧ Exit now w t)
      (ConnectStops env now w) w := by
  induction fuel generalizing w with
  | zero => exact absurd hfuel (Nat.not_lt_zero _)
  | succ fuel ih =>
    refine wp_turn henv hok hidle htable fuel ?_ ?_ ?_
    · exact fun hnone => ⟨forall₂_refl _, .unscheduled hnone hidle rfl⟩
    · exact fun row next hrow hnext hlt hmin => ⟨forall₂_refl _, .later row next hrow hnext hlt hmin hidle rfl⟩
    intro row pip hrow hdue hsplit
    refine wp_peerConnect (fun hheld => absurd hfree hheld.1) ?_ ?_ ?_ ?_
    · -- The pool has the address: on to the row that is due next.
      intro _ _
      rw [if_pos Option.isNone_none]
      have hmem : ∀ r ∈ putOff env now row w.rows, due now r = true → r ∈ w.rows :=
        fun r hr hr' => mem_of_due_putOff henv.interval hr hr'
      have hcount := @countP_putOff env now w.rows row hrow hdue henv.interval
      have hrest : (putOff env now row w.rows).countP (due now) < fuel := by omega
      refine wp_mono (ih hfree rfl (htable.putOff hrow hdue henv.interval) hrest) ?_ ?_
      · exact fun _ t ht => ⟨forall₂_of_putOff hdue henv.interval ht.1, ht.2.earlier hmem rfl rfl⟩
      · exact fun _ he => he.earlier hmem rfl rfl
    · exact fun hnew hip => ⟨row, hrow, hdue, pip, hsplit, AList.lookup_eq_none.1 hnew, Or.inl ⟨hip, rfl⟩⟩
    · intro hnew hip hfails
      refine wp_of_error (Outbound.detach_dialling henv.poolPointer hip _) ?_
      exact ⟨row, hrow, hdue, pip, hsplit, AList.lookup_eq_none.1 hnew, Or.inr ⟨hfails, rfl⟩⟩
    · intro hnew _ _
      refine ⟨forall₂_of_putOff hdue henv.interval (forall₂_refl _), ?_⟩
      exact .started row pip hrow hdue hsplit (AList.lookup_eq_none.1 hnew) rfl
        (congrArg Peer.mIpPort dialling_self) (AList.lookup_insert _) rfl

/-- What the writers of the table put into it can be split. -/
lemma scannable_of_texts {rows : List PeerIp} (hnodup : (rows.map PeerIp.IpPort).Nodup)
    (hwritten : ∀ row ∈ rows, Written row) (hnonneg : ∀ row ∈ rows, ∀ next, row.ScanNext = some next → 0 ≤ next) :
    Scannable rows := by
  refine ⟨hnodup, fun row hrow => ?_, hnonneg⟩
  obtain ⟨pip, hspace, hport, htext⟩ := hwritten row hrow
  exact ⟨pip, htext ▸ splitIpPort_ipPortText hspace hport⟩

/-- Two addresses that are due, of which the pool has the first. -/
def twoDue : World :=
  { World.init [⟨ipPortText ([49], 5), some 0, 0⟩, ⟨ipPortText ([50], 6), some 0, 0⟩] with
    created := 1, mIpMap := (∅ : AList fun _ : IpPort => ℕ).insert ([49], 5) 0 }

lemma twoDue_scannable : Scannable twoDue.rows := by
  refine scannable_of_texts (by decide +kernel) (fun row hrow => ?_) (by decide +kernel)
  simp only [twoDue, World.init, List.mem_cons, List.not_mem_nil, or_false] at hrow
  rcases hrow with rfl | rfl
  · exact ⟨([49], 5), by decide, by unfold IsInt; decide, rfl⟩
  · exact ⟨([50], 6), by decide, by unfold IsInt; decide, rfl⟩

lemma sourceEnv_settings : Settings Outbound.sourceEnv 0 := ⟨rfl, fun _ => rfl, by decide⟩

end Newcoin.ConnectionPool
