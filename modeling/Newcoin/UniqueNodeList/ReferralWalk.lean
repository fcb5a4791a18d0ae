import Newcoin.UniqueNodeList.TrustGraph
import Newcoin.UniqueNodeList.Validators
import Mathlib.Data.Nat.Log
import Mathlib.Data.Set.Card

/-!
# The walk through the referrals

`walk` takes the references to a node to hold while other nodes are pushed.  Here they are followed: a vector
that is full moves when it is pushed to, and the list that is read is then written through a reference that
holds no more.

* `walk_ends`: the growing loop ends, since every node has a key of its own.
* `walkRight_of_walkedTo`: what the vector, the map and the lists are in the end.
* `readNodes_of_walk`: the loop with its references does what `walk` does, unless the vector moves.
* `walkRight_iff`: the result is right exactly if the vector has room for everybody from the start.
-/

namespace Newcoin.UniqueNodeList

open Lib.Sql NewcoinAddress

/-! ### References that are lost -/

/-- How much room a vector has that `n` elements have been pushed to: it changes only when there is none left. -/
structure Room where
  capacity : ℕ → ℕ
  le (n : ℕ) : n ≤ capacity n
  keep (n : ℕ) (h : n < capacity n) : capacity (n + 1) = capacity n

/-- The room is doubled. -/
def Room.doubling : Room where
  capacity n := if n = 0 then 0 else 2 ^ Nat.clog 2 n
  le n := by
    split
    · omega
    · exact Nat.le_pow_clog one_lt_two n
  keep n h := by
    split at h
    · omega
    next hn =>
      rw [if_neg hn, if_neg (Nat.succ_ne_zero n)]
      refine congrArg (2 ^ ·) (le_antisymm ?_ (Nat.clog_mono_right 2 n.le_succ))
      exact (Nat.clog_le_iff_le_pow one_lt_two).2 h

variable (env : Crypto) (room : Room)

/-- One referral of a node; the Boolean says whether `sn` and `viReferrals` still refer to the node. -/
def readReferral (iNode : ℕ) (st : ScoreState × Bool) (r : ValidatorReferral) : Except Fault (ScoreState × Bool) :=
  let next := referral? env r.Referral.bytes st.1
  let pushed := next.2.vsnNodes.length ≠ st.1.vsnNodes.length
  let full := room.capacity st.1.vsnNodes.length = st.1.vsnNodes.length
  let bHolds := st.2 && !(pushed && full)
  match next.1 with
  | none => .ok (next.2, bHolds)
  | some iReferral =>
    if iNode = iReferral then .ok (next.2, bHolds)
    else if bHolds then
      .ok ({ next.2 with vsnNodes := next.2.vsnNodes.modify iNode (ScoreNode.refer iReferral) }, bHolds)
    else .error .outOfBounds

/-- The validation list of a node: the references are made before it is read. -/
def readNode (db : ValidatorReferrals) (iNode : ℕ) (st : ScoreState) : Except Fault ScoreState :=
  match st.vsnNodes[iNode]? with
  | none => .ok st
  | some sn => do
    let st ← (selectReferrals db sn.strValidator).foldlM (readReferral env room iNode) (st, true)
    return st.1

/-- The loop over the growing list; `none` if `fuel` nodes are not enough. -/
def readNodes (db : ValidatorReferrals) : ℕ → ℕ → ScoreState → Option (Except Fault ScoreState)
  | 0, iNode, st => if iNode = st.vsnNodes.length then some (.ok st) else none
  | fuel + 1, iNode, st =>
    if iNode = st.vsnNodes.length then some (.ok st)
    else
      match readNode env room db iNode st with
      | .error e => some (.error e)
      | .ok st => readNodes db fuel (iNode + 1) st

/-! ### What it should do -/

/-- The position of the node that a referral leads to. -/
def position (st : ScoreState) (r : ValidatorReferral) : Option ℕ :=
  if (setNodePublic env r.Referral.bytes).1 then st.umPulicIdx r.Referral.bytes else st.umDomainIdx r.Referral.bytes

/-- After the loop, which began with `st`: everybody who is known has one node, the map has their positions, and
every list has the positions of those referred to, in the order of the entries. -/
structure WalkRight (db : Wallet) (st st' : ScoreState) : Prop where
  keys : ∀ k, k ∈ st'.vsnNodes.map ScoreNode.strValidator ↔ Known env db k
  nodup : (st'.vsnNodes.map ScoreNode.strValidator).Nodup
  index : ∀ k i, st'.umPulicIdx k = some i ↔ keyAt st'.vsnNodes i = some k
  domain : st'.umDomainIdx = st.umDomainIdx
  inside : ∀ i sn, st'.vsnNodes[i]? = some sn → ∀ j ∈ sn.viReferrals, j < st'.vsnNodes.length ∧ j ≠ i
  list : ∀ i sn, st'.vsnNodes[i]? = some sn → sn.viReferrals =
    ((selectReferrals db.ValidatorReferrals sn.strValidator).filterMap (position env st')).filter (· ≠ i)

variable {env room} {db : Wallet} {R : ℕ → List Bytes} {st st' : ScoreState}

/-! ### The walk ends -/

lemma mem_of_mem_selectReferrals {db : ValidatorReferrals} {k : Bytes} {r : ValidatorReferral}
    (h : r ∈ selectReferrals db k) : r ∈ db.rows :=
  List.mem_of_mem_filter ((perm_orderBy _ _).mem_iff.1 h)

/-- Everybody who is known is a seed, or named in some row. -/
lemma Known.mem {k : Bytes} (h : Known env db k) :
    k ∈ (sources db).map Prod.fst ++ db.ValidatorReferrals.rows.map fun r => r.Referral.bytes := by
  cases h with
  | seed h => exact List.mem_append_left _ h
  | @referral j r hj hr hkey =>
    exact List.mem_append_right _ (List.mem_map_of_mem (mem_of_mem_selectReferrals hr))

lemma finite_known (env : Crypto) (db : Wallet) : {k | Known env db k}.Finite :=
  (List.finite_toSet _).subset fun _ h => Known.mem h

/-- The number of those who are known. -/
noncomputable def knownCount (env : Crypto) (db : Wallet) : ℕ := {k | Known env db k}.ncard

lemma ncard_keys {vsn : List ScoreNode} (h : (vsn.map ScoreNode.strValidator).Nodup) :
    {k | k ∈ vsn.map ScoreNode.strValidator}.ncard = vsn.length := by
  rw [← List.coe_toFinset, Set.ncard_coe_finset, List.toFinset_card_of_nodup h, List.length_map]

lemma length_le_knownCount (h : Walked env db R st) : st.vsnNodes.length ≤ knownCount env db := by
  rw [← ncard_keys h.index.nodup]
  refine Set.ncard_le_ncard (fun k hk => ?_) (finite_known env db)
  obtain ⟨sn, hsn, rfl⟩ := List.mem_map.1 hk
  exact h.known sn hsn

/-- **The loop over the growing vector ends**: those not yet read are fewer at every turn. -/
theorem walk_ends {fuel iNode : ℕ} (h : WalkedTo env db iNode R st) (hle : iNode ≤ st.vsnNodes.length)
    (hfuel : knownCount env db ≤ iNode + fuel) : ∃ st', walk env db.ValidatorReferrals fuel iNode st = some st' := by
  induction fuel generalizing iNode R st with
  | zero =>
    have hend : iNode = st.vsnNodes.length := le_antisymm hle ((length_le_knownCount h.walked).trans hfuel)
    exact ⟨st, by rw [walk, if_pos hend]⟩
  | succ fuel ih =>
    rw [walk]
    split
    · exact ⟨st, rfl⟩
    next hne =>
      obtain ⟨⟨R', h'⟩, hlt⟩ := walkNode_spec h (by omega)
      exact ih h' hlt (by omega)

/-! ### Where it ends -/

lemma eq_of_map_keyAt {vsn : List ScoreNode} (hnodup : (vsn.map ScoreNode.strValidator).Nodup) {is js : List ℕ}
    {ks : List Bytes} (hi : is.map (keyAt vsn) = ks.map some) (hj : js.map (keyAt vsn) = ks.map some) : is = js := by
  induction ks generalizing is js with
  | nil =>
    rw [List.map_eq_nil_iff.1 hi, List.map_eq_nil_iff.1 hj]
  | cons k ks ih =>
    obtain ⟨i, is', rfl, hik, his⟩ := List.map_eq_cons_iff.1 hi
    obtain ⟨j, js', rfl, hjk, hjs⟩ := List.map_eq_cons_iff.1 hj
    rw [keyAt_inj hnodup hik hjk, ih his hjs]

/-- A referral's position is that of the key it stands for. -/
lemma position_keyAt (h : WalkedTo env db st.vsnNodes.length R st) {k : Bytes} (hk : Known env db k)
    {r : ValidatorReferral} (hr : r ∈ selectReferrals db.ValidatorReferrals k) :
    (position env st r).map (keyAt st.vsnNodes) = (resolve env db r).map some := by
  unfold position resolve
  split
  next hkey =>
    obtain ⟨i, hi⟩ := mem_keys_iff.1 ((known_iff h _).2 (.referral hk hr hkey))
    rw [(h.walked.index _ i).2 hi, Option.map_some, hi]
    rfl
  · exact h.walked.domain _

/-- A list by position is the list by key. -/
lemma map_keyAt_positions (h : WalkedTo env db st.vsnNodes.length R st) {i : ℕ} {k : Bytes}
    (hi : keyAt st.vsnNodes i = some k) {rows : List ValidatorReferral}
    (hrows : ∀ r ∈ rows, r ∈ selectReferrals db.ValidatorReferrals k) :
    ((rows.filterMap (position env st)).filter (· ≠ i)).map (keyAt st.vsnNodes) =
      (rows.flatMap (contribution env db k)).map some := by
  induction rows with
  | nil => rfl
  | cons r rows ih =>
    have hrest := ih fun r' hr' => hrows r' (List.mem_cons_of_mem _ hr')
    have hknown : Known env db k := (known_iff h k).1 (mem_keys_iff.2 ⟨i, hi⟩)
    have hposition := position_keyAt h hknown (hrows r List.mem_cons_self)
    rw [List.flatMap_cons, List.map_append, ← hrest, contribution]
    cases hpos : position env st r with
    | none =>
      rw [hpos, Option.map_none, eq_comm, Option.map_eq_none_iff] at hposition
      rw [List.filterMap_cons_none hpos, hposition]
      rfl
    | some j =>
      rw [hpos, Option.map_some] at hposition
      obtain ⟨key, hkey, hj⟩ := Option.map_eq_some_iff.1 hposition.symm
      rw [List.filterMap_cons_some hpos, hkey, Option.toList_some]
      by_cases hself : key = k
      · have hji : j = i := keyAt_inj h.walked.index.nodup hi (hself ▸ hj.symm)
        simp [hself, hji]
      · have hji : j ≠ i := by
          rintro rfl
          exact hself (Option.some_inj.1 (hj.trans hi))
        simp [hself, hji, hj]

lemma walk_umDomainIdx {db : ValidatorReferrals} {fuel iNode : ℕ} (h : walk env db fuel iNode st = some st') :
    st'.umDomainIdx = st.umDomainIdx := by
  induction fuel generalizing iNode st with
  | zero =>
    rw [walk] at h
    split at h
    · rw [Option.some_inj.1 h]
    · cases h
  | succ fuel ih =>
    rw [walk] at h
    split at h
    · rw [Option.some_inj.1 h]
    · refine (ih h).trans ?_
      unfold walkNode
      split
      · rfl
      · exact (foldl_walkReferral_keeps _ _ _).1

/-- **Where the walk ends**, everything is as it should be. -/
theorem walkRight_of_walk {fuel : ℕ} (h : WalkedTo env db 0 R st)
    (hwalk : walk env db.ValidatorReferrals fuel 0 st = some st') : WalkRight env db st st' := by
  obtain ⟨R', h'⟩ := walk_spec h (Nat.zero_le _) hwalk
  have hlist : ∀ i sn, st'.vsnNodes[i]? = some sn → sn.viReferrals =
      ((selectReferrals db.ValidatorReferrals sn.strValidator).filterMap (position env st')).filter (· ≠ i) := by
    intro i sn hsn
    have hk := keyAt_of_getElem? hsn
    have hrefs := h'.walked.refers i sn hsn
    rw [h'.done i (lt_of_keyAt hk) _ hk] at hrefs
    exact eq_of_map_keyAt h'.walked.index.nodup hrefs (map_keyAt_positions h' hk fun _ hr => hr)
  refine ⟨known_iff h', h'.walked.index.nodup, h'.walked.index, walk_umDomainIdx hwalk, ?_, hlist⟩
  intro i sn hsn j hj
  constructor
  · have hkeys := h'.walked.refers i sn hsn
    have hmem : keyAt st'.vsnNodes j ∈ sn.viReferrals.map (keyAt st'.vsnNodes) := List.mem_map_of_mem hj
    rw [hkeys] at hmem
    obtain ⟨k, -, hk⟩ := List.mem_map.1 hmem
    exact lt_of_keyAt hk.symm
  · rw [hlist i sn hsn] at hj
    simpa using (List.mem_filter.1 hj).2

/-! ### Whether the vector moves -/

lemma Room.capacity_eq (room : Room) {n m : ℕ} (hnm : n ≤ m) (hm : m ≤ room.capacity n) :
    room.capacity m = room.capacity n := by
  induction m, hnm using Nat.le_induction with
  | base => rfl
  | succ m hnm ih =>
    have hkeep := ih (by omega)
    rw [room.keep m (by omega), hkeep]

/-- A referral pushes at most one node, and then stands for it. -/
lemma referral?_length (strReferral : Bytes) (st : ScoreState) :
    (referral? env strReferral st).2.vsnNodes.length = st.vsnNodes.length ∨
      (referral? env strReferral st).2.vsnNodes.length = st.vsnNodes.length + 1 ∧
        (referral? env strReferral st).1 = some st.vsnNodes.length := by
  unfold referral?
  split
  · split
    · exact .inr ⟨by simp [ScoreState.push], rfl⟩
    · exact .inl rfl
  · exact .inl rfl

lemma walkReferral_length (iNode : ℕ) (st : ScoreState) (r : ValidatorReferral) :
    (walkReferral env iNode st r).vsnNodes.length = (referral? env r.Referral.bytes st).2.vsnNodes.length := by
  unfold walkReferral
  dsimp only
  split
  · rfl
  · split
    · rfl
    · exact List.length_modify _ _ _

lemma length_le_walkReferral (iNode : ℕ) (st : ScoreState) (r : ValidatorReferral) :
    st.vsnNodes.length ≤ (walkReferral env iNode st r).vsnNodes.length := by
  rw [walkReferral_length]
  rcases @referral?_length env r.Referral.bytes st with h | ⟨h, -⟩ <;> omega

/-- One referral with the references: it is read as in `walk`, unless the vector moves. -/
lemma readReferral_eq {iNode : ℕ} (hlt : iNode < st.vsnNodes.length) (r : ValidatorReferral) :
    readReferral env room iNode (st, true) r =
      if (walkReferral env iNode st r).vsnNodes.length ≤ room.capacity st.vsnNodes.length then
        .ok (walkReferral env iNode st r, true) else .error .outOfBounds := by
  have hle := room.le st.vsnNodes.length
  rw [walkReferral_length]
  unfold readReferral walkReferral
  dsimp only
  rcases @referral?_length env r.Referral.bytes st with hlen | ⟨hlen, hpos⟩
  · rw [hlen, if_pos hle]
    simp only [ne_eq, not_true_eq_false, decide_false, Bool.false_and, Bool.not_false, Bool.and_true, if_true]
    cases (referral? env r.Referral.bytes st).1 with
    | none => rfl
    | some iReferral =>
      by_cases hself : iNode = iReferral
      · simp only [if_pos hself]
      · simp only [if_neg hself]
  · rw [hpos, hlen]
    have hne : iNode ≠ st.vsnNodes.length := hlt.ne
    have hpushed : st.vsnNodes.length + 1 ≠ st.vsnNodes.length := Nat.succ_ne_self _
    simp only [hne, hpushed, ne_eq, not_false_eq_true, decide_true, Bool.true_and, if_false]
    by_cases hfull : room.capacity st.vsnNodes.length = st.vsnNodes.length
    · rw [if_neg (by simp [hfull]), if_neg (by omega)]
    · rw [if_pos (by simp [hfull]), if_pos (by omega)]
      simp [hfull]

/-- The same for a validation list, from some entry on. -/
lemma foldlM_readReferral_eq {iNode : ℕ} (hlt : iNode < st.vsnNodes.length) (rows : List ValidatorReferral) :
    st.vsnNodes.length ≤ (rows.foldl (walkReferral env iNode) st).vsnNodes.length ∧
      rows.foldlM (readReferral env room iNode) (st, true) =
        if (rows.foldl (walkReferral env iNode) st).vsnNodes.length ≤ room.capacity st.vsnNodes.length then
          .ok (rows.foldl (walkReferral env iNode) st, true) else .error .outOfBounds := by
  induction rows generalizing st with
  | nil => exact ⟨le_rfl, (if_pos (room.le _)).symm⟩
  | cons r rows ih =>
    obtain hstep := @length_le_walkReferral env iNode st r
    obtain ⟨hrest, hrun⟩ := ih (lt_of_lt_of_le hlt hstep)
    refine ⟨hstep.trans hrest, ?_⟩
    rw [List.foldlM_cons, readReferral_eq hlt, List.foldl_cons]
    by_cases hroom : (walkReferral env iNode st r).vsnNodes.length ≤ room.capacity st.vsnNodes.length
    · rw [if_pos hroom, ← room.capacity_eq hstep hroom]
      exact hrun
    · rw [if_neg hroom, if_neg fun hall => hroom (hrest.trans hall)]
      rfl

/-- The same for a node. -/
lemma readNode_eq {db : ValidatorReferrals} {iNode : ℕ} (hlt : iNode < st.vsnNodes.length) :
    st.vsnNodes.length ≤ (walkNode env db iNode st).vsnNodes.length ∧
      readNode env room db iNode st =
        if (walkNode env db iNode st).vsnNodes.length ≤ room.capacity st.vsnNodes.length then
          .ok (walkNode env db iNode st) else .error .outOfBounds := by
  unfold readNode walkNode
  rw [List.getElem?_eq_getElem hlt]
  obtain ⟨hle, hrun⟩ :=
    @foldlM_readReferral_eq env room st iNode hlt (selectReferrals db st.vsnNodes[iNode].strValidator)
  refine ⟨hle, ?_⟩
  simp only [hrun]
  split <;> rfl

lemma length_le_walk {db : ValidatorReferrals} {fuel iNode : ℕ} (hle : iNode ≤ st.vsnNodes.length)
    (h : walk env db fuel iNode st = some st') : st.vsnNodes.length ≤ st'.vsnNodes.length := by
  induction fuel generalizing iNode st with
  | zero =>
    rw [walk] at h
    split at h
    · rw [Option.some_inj.1 h]
    · cases h
  | succ fuel ih =>
    rw [walk] at h
    split at h
    · rw [Option.some_inj.1 h]
    · obtain ⟨hnode, -⟩ := @readNode_eq env Room.doubling st db iNode (by omega)
      exact hnode.trans (ih (by omega) h)

/-- **The loop with its references**: it ends as `walk` does, if the vector has had the room from the start. -/
theorem readNodes_of_walk {db : ValidatorReferrals} {fuel iNode : ℕ} (hle : iNode ≤ st.vsnNodes.length)
    (h : walk env db fuel iNode st = some st') : readNodes env room db fuel iNode st =
      some (if st'.vsnNodes.length ≤ room.capacity st.vsnNodes.length then .ok st' else .error .outOfBounds) := by
  induction fuel generalizing iNode st with
  | zero =>
    rw [walk] at h
    rw [readNodes]
    split at h
    next hend =>
      obtain rfl := Option.some_inj.1 h
      rw [if_pos hend, if_pos (room.le _)]
    · cases h
  | succ fuel ih =>
    rw [walk] at h
    rw [readNodes]
    split at h
    next hend =>
      obtain rfl := Option.some_inj.1 h
      rw [if_pos hend, if_pos (room.le _)]
    next hend =>
      obtain ⟨hnode, hrun⟩ := @readNode_eq env room st db iNode (by omega)
      have hrest := length_le_walk (by omega) h
      rw [if_neg hend, hrun]
      by_cases hroom : (walkNode env db iNode st).vsnNodes.length ≤ room.capacity st.vsnNodes.length
      · rw [if_pos hroom, ← room.capacity_eq hnode hroom]
        exact ih (by omega) h
      · rw [if_neg hroom, if_neg fun hall => hroom (hrest.trans hall)]

/-- More fuel changes nothing. -/
lemma readNodes_add {db : ValidatorReferrals} {fuel iNode : ℕ} {r : Except Fault ScoreState} (n : ℕ)
    (h : readNodes env room db fuel iNode st = some r) : readNodes env room db (fuel + n) iNode st = some r := by
  induction fuel generalizing iNode st with
  | zero =>
    rw [readNodes] at h
    split at h
    next hend => cases n with
      | zero => rwa [readNodes, if_pos hend]
      | succ n => rwa [Nat.zero_add, readNodes, if_pos hend]
    · cases h
  | succ fuel ih =>
    rw [readNodes] at h
    rw [Nat.succ_add, readNodes]
    split at h
    next hend => rwa [if_pos hend]
    next hend =>
      rw [if_neg hend]
      cases hrun : readNode env room db iNode st with
      | error e =>
        rw [hrun] at h
        exact h
      | ok st₁ =>
        rw [hrun] at h
        exact ih h

/-! ### The walk as it should be -/

/-- **The walk is right exactly if all who are known fit into the room that the vector has after the seeds.** -/
theorem walkRight_iff (room : Room) (h : seeds db = .ok st) :
    (∃ fuel st', readNodes env room db.ValidatorReferrals fuel 0 st = some (.ok st') ∧ WalkRight env db st st') ↔
      knownCount env db ≤ room.capacity ((sources db).map Prod.fst).toFinset.card := by
  have hseeded := seeds_spec h
  have hwalked : WalkedTo env db 0 (fun _ => []) st := walkedTo_seeds h
  have hseeds : st.vsnNodes.length = ((sources db).map Prod.fst).toFinset.card := by
    rw [← List.length_map ScoreNode.strValidator, ← List.toFinset_card_of_nodup hseeded.index.nodup]
    congr 1
    ext k
    rw [List.mem_toFinset, List.mem_toFinset, mem_keys_iff, ← hseeded.mem k, Option.ne_none_iff_exists']
    exact exists_congr fun i => (hseeded.index k i).symm
  obtain ⟨st', hwalk⟩ := walk_ends hwalked (Nat.zero_le _) (Nat.le_add_left (knownCount env db) 0)
  have hright := walkRight_of_walk hwalked hwalk
  have hknown : knownCount env db = st'.vsnNodes.length := by
    rw [knownCount, ← ncard_keys hright.nodup]
    exact congrArg Set.ncard (Set.ext fun k => (hright.keys k).symm)
  have hread := @readNodes_of_walk env room st st' _ _ 0 (Nat.zero_le _) hwalk
  rw [← hseeds]
  constructor
  · rintro ⟨fuel, st'', hrun, -⟩
    by_contra hno
    rw [hknown] at hread hno
    rw [if_neg hno] at hread
    have h₁ := readNodes_add fuel hread
    have h₂ := readNodes_add st'.vsnNodes.length hrun
    rw [Nat.add_comm, h₁] at h₂
    cases Option.some_inj.1 h₂
  · intro hroom
    rw [hknown] at hread hroom
    rw [if_pos hroom] at hread
    exact ⟨_, st', hread, hright⟩

/-- A seed that refers to somebody new. -/
def oneSeed : Wallet where
  SeedDomains := Table.empty
  SeedNodes := ⟨[⟨.text referrerText, .text (cString "V")⟩], List.nodup_singleton _⟩
  ValidatorReferrals := ⟨[⟨.blob referrerText, 0, .text referredText⟩], List.nodup_singleton _⟩
  TrustedNodes := Table.empty

theorem walkRight_iff_oneSeed : ∃ st, seeds oneSeed = .ok st ∧
    ((∃ fuel st', readNodes twoKeys Room.doubling oneSeed.ValidatorReferrals fuel 0 st = some (.ok st') ∧
        WalkRight twoKeys oneSeed st st') ↔
      knownCount twoKeys oneSeed ≤ Room.doubling.capacity ((sources oneSeed).map Prod.fst).toFinset.card) :=
  ⟨_, rfl, walkRight_iff Room.doubling rfl⟩

/-- The vector has room for one: it moves, and the list is written where it was. -/
theorem list_written_after_move : ∃ st, seeds oneSeed = .ok st ∧
    readNodes twoKeys Room.doubling oneSeed.ValidatorReferrals 1 0 st = some (.error .outOfBounds) ∧
    ¬ ∃ fuel st', readNodes twoKeys Room.doubling oneSeed.ValidatorReferrals fuel 0 st = some (.ok st') ∧
      WalkRight twoKeys oneSeed st st' := by
  obtain ⟨st, hst, hnodes, hnew⟩ : ∃ st, seeds oneSeed = .ok st ∧
      st.vsnNodes = [⟨1000, 0, 1000, -1, referrerText, []⟩] ∧ st.umPulicIdx referredText = none := ⟨_, rfl, rfl, rfl⟩
  have hselect : selectReferrals oneSeed.ValidatorReferrals referrerText =
      [⟨.blob referrerText, 0, .text referredText⟩] := by decide +kernel
  have hread : readReferral twoKeys Room.doubling 0 (st, true) ⟨.blob referrerText, 0, .text referredText⟩ =
      .error .outOfBounds := by
    rw [readReferral_eq (by simp [hnodes]), walkReferral_length, Value.bytes, referral?, setNodePublic_referredText]
    simp [hnew, ScoreState.push, hnodes, Room.doubling]
  have hrun : readNodes twoKeys Room.doubling oneSeed.ValidatorReferrals 1 0 st = some (.error .outOfBounds) := by
    simp only [readNodes, readNode, hnodes, List.length_singleton, zero_ne_one, if_false, List.getElem?_cons_zero,
      hselect, List.foldlM_cons, hread]
    rfl
  refine ⟨st, hst, hrun, ?_⟩
  rintro ⟨fuel, st', hok, -⟩
  have h₁ := readNodes_add fuel hrun
  rw [Nat.add_comm, readNodes_add 1 hok] at h₁
  cases Option.some_inj.1 h₁

end Newcoin.UniqueNodeList
