import Newcoin.UniqueNodeList.ScoreCompute
import Newcoin.UniqueNodeList.TrustFlow

/-!
# Who is known, and whom they refer to

What the tables say, by key: who is known (`Known`), what its best source is worth (`bestOf`), whom it
refers to (`refersTo`).  The vector that `scoreCompute` builds says the same by position.

* `seed_spec`, `seeds_spec`: the loops over the seeds.
* `walkReferral_spec`, `walk_spec`: the loop over the growing vector.
-/

namespace Newcoin.UniqueNodeList

open Lib.Sql NewcoinAddress

/-! ### What the tables say -/

/-- The points of a source; rows with other characters do not get this far. -/
def points (Source : Value) : ℤ := ((sourceScore Source).toOption).getD 0

def domainSources (rows : List SeedDomainRow) : List (Bytes × ℤ) :=
  rows.filterMap fun r => if r.PublicKey = .null then none else some (r.PublicKey.bytes, points r.Source)

def nodeSources (rows : List SeedNodeRow) : List (Bytes × ℤ) :=
  rows.map fun r => (r.PublicKey.bytes, points r.Source)

/-- The public keys of both tables with the points of their sources. -/
def sources (db : Wallet) : List (Bytes × ℤ) :=
  domainSources db.SeedDomains.rows ++ nodeSources db.SeedNodes.rows

/-- The points of the best source of a key, none if it has none. -/
def bestOf (items : List (Bytes × ℤ)) (k : Bytes) : ℤ := ((items.filter (·.1 = k)).map Prod.snd).foldr max 0

/-- The key a domain leads to, of rows in reverse order: only the row that first has a key counts. -/
def domainKey (d : Bytes) : List SeedDomainRow → Option Bytes
  | [] => none
  | r :: before =>
    if r.PublicKey ≠ .null ∧ r.Domain.bytes = d ∧ r.PublicKey.bytes ∉ (domainSources before.reverse).map Prod.fst then
      some r.PublicKey.bytes
    else domainKey d before

variable (env : Crypto) (db : Wallet)

/-- The key a referral stands for. -/
def resolve (r : ValidatorReferral) : Option Bytes :=
  if (setNodePublic env r.Referral.bytes).1 then some r.Referral.bytes
  else domainKey r.Referral.bytes db.SeedDomains.rows.reverse

/-- What a referral of `k` adds to its list: nothing if it stands for no key, or for `k`. -/
def contribution (k : Bytes) (r : ValidatorReferral) : List Bytes := (resolve env db r).toList.filter (· ≠ k)

/-- Whom a validator gives points to, in order of entries. -/
def refersTo (k : Bytes) : List Bytes :=
  (selectReferrals db.ValidatorReferrals k).flatMap (contribution env db k)

/-- A seed, or a public key that one who is known refers to. -/
inductive Known : Bytes → Prop
  | seed {k : Bytes} (h : k ∈ (sources db).map Prod.fst) : Known k
  | referral {j : Bytes} {r : ValidatorReferral} (hj : Known j) (hr : r ∈ selectReferrals db.ValidatorReferrals j)
      (hkey : (setNodePublic env r.Referral.bytes).1 = true) : Known r.Referral.bytes

/-! ### Positions and keys -/

variable {env db}

lemma keyAt_append_iff {vsn : List ScoreNode} {sn : ScoreNode} {i : ℕ} {k : Bytes} :
    keyAt (vsn ++ [sn]) i = some k ↔ keyAt vsn i = some k ∨ i = vsn.length ∧ sn.strValidator = k := by
  rcases lt_trichotomy i vsn.length with hi | rfl | hi
  · simp [keyAt, List.getElem?_append_left hi, hi.ne]
  · simp [keyAt]
  · simp [keyAt, List.getElem?_eq_none, hi.le, hi.ne', Nat.succ_le_of_lt hi]

lemma keyAt_append {vsn : List ScoreNode} {i : ℕ} {k : Bytes} (h : keyAt vsn i = some k) (sn : ScoreNode) :
    keyAt (vsn ++ [sn]) i = some k := keyAt_append_iff.2 (.inl h)

lemma lt_of_keyAt {vsn : List ScoreNode} {i : ℕ} {k : Bytes} (h : keyAt vsn i = some k) : i < vsn.length := by
  by_contra hge
  simp [keyAt, List.getElem?_eq_none (not_lt.1 hge)] at h

lemma keyAt_of_getElem? {vsn : List ScoreNode} {i : ℕ} {sn : ScoreNode} (h : vsn[i]? = some sn) :
    keyAt vsn i = some sn.strValidator := by
  rw [keyAt, h]
  rfl

lemma mem_keys_iff {vsn : List ScoreNode} {k : Bytes} :
    k ∈ vsn.map ScoreNode.strValidator ↔ ∃ i, keyAt vsn i = some k := by
  simp only [List.mem_iff_getElem?, List.getElem?_map, keyAt]

lemma keyAt_modify {f : ScoreNode → ScoreNode} (hf : ∀ sn, (f sn).strValidator = sn.strValidator)
    (vsn : List ScoreNode) (i : ℕ) : keyAt (vsn.modify i f) = keyAt vsn := by
  funext j
  rw [keyAt, List.getElem?_modify, keyAt]
  cases vsn[j]? with
  | none => rfl
  | some sn =>
    by_cases hij : i = j
    · simp [hij, hf]
    · simp [hij]

lemma keyAt_refer (vsn : List ScoreNode) (i j : ℕ) : keyAt (vsn.modify i (ScoreNode.refer j)) = keyAt vsn :=
  @keyAt_modify (ScoreNode.refer j) (fun _ => rfl) vsn i

lemma getElem?_of_modify {vsn : List ScoreNode} {f : ScoreNode → ScoreNode} {i j : ℕ} {sn' : ScoreNode}
    (h : (vsn.modify i f)[j]? = some sn') : ∃ sn, vsn[j]? = some sn ∧ sn' = if i = j then f sn else sn := by
  rw [List.getElem?_modify] at h
  obtain ⟨sn, hsn, rfl⟩ := Option.map_eq_some_iff.1 h
  exact ⟨sn, hsn, by split <;> rfl⟩

/-- The keys of positions stay the same when a node is added. -/
lemma map_keyAt_append {vsn : List ScoreNode} {is : List ℕ} {ks : List Bytes}
    (h : is.map (keyAt vsn) = ks.map some) (sn : ScoreNode) : is.map (keyAt (vsn ++ [sn])) = ks.map some := by
  rw [← h]
  refine List.map_congr_left fun i hi => ?_
  have hmem : keyAt vsn i ∈ ks.map some := h ▸ List.mem_map_of_mem hi
  obtain ⟨k, -, hk⟩ := List.mem_map.1 hmem
  rw [← hk]
  exact keyAt_append hk.symm sn

lemma option_map_keyAt_append {vsn : List ScoreNode} {i : Option ℕ} {k : Option Bytes}
    (h : i.map (keyAt vsn) = k.map some) (sn : ScoreNode) : i.map (keyAt (vsn ++ [sn])) = k.map some := by
  cases i with
  | none => exact h
  | some i =>
    obtain ⟨k, rfl, hk⟩ := Option.map_eq_some_iff.1 h.symm
    exact congrArg some (keyAt_append hk.symm sn)

/-- The map of public keys is the inverse of the vector. -/
def Indexed (st : ScoreState) : Prop := ∀ k i, st.umPulicIdx k = some i ↔ keyAt st.vsnNodes i = some k

lemma indexed_push {st : ScoreState} (h : Indexed st) {k : Bytes} (hk : st.umPulicIdx k = none) (n : ℤ) :
    Indexed (st.push k n) := by
  intro k' i
  simp only [ScoreState.push]
  rw [keyAt_append_iff, ← h k' i]
  by_cases hkk : k' = k
  · subst hkk
    simp [hk, eq_comm]
  · simp [Function.update_of_ne hkk, Ne.symm hkk]

lemma indexed_modify {st : ScoreState} (h : Indexed st) {f : ScoreNode → ScoreNode}
    (hf : ∀ sn, (f sn).strValidator = sn.strValidator) (i : ℕ) :
    Indexed { st with vsnNodes := st.vsnNodes.modify i f } := by
  intro k j
  rw [keyAt_modify hf]
  exact h k j

lemma Indexed.nodup {st : ScoreState} (h : Indexed st) : (st.vsnNodes.map ScoreNode.strValidator).Nodup := by
  rw [List.nodup_iff_injective_getElem]
  intro i j hij
  have hi : ∀ i : Fin (st.vsnNodes.map ScoreNode.strValidator).length,
      keyAt st.vsnNodes i = some (st.vsnNodes.map ScoreNode.strValidator)[i] := by
    intro i
    rw [keyAt, ← List.getElem?_map]
    exact List.getElem?_eq_getElem i.2
  have h1 := (h _ _).2 (hi i)
  have h2 := (h _ _).2 (hi j)
  have hkeys : (st.vsnNodes.map ScoreNode.strValidator)[i] = (st.vsnNodes.map ScoreNode.strValidator)[j] := hij
  rw [hkeys, h2] at h1
  exact Fin.ext (Option.some_inj.1 h1).symm

/-! ### The best source -/

lemma foldr_max_append {l : List ℤ} {n : ℤ} (hn : 0 ≤ n) : (l ++ [n]).foldr max 0 = max (l.foldr max 0) n := by
  induction l with
  | nil => simp [hn]
  | cons x l ih => rw [List.cons_append, List.foldr_cons, ih, List.foldr_cons, max_assoc]

lemma bestOf_append {items : List (Bytes × ℤ)} {k : Bytes} {n : ℤ} (hn : 0 ≤ n) (k' : Bytes) :
    bestOf (items ++ [(k, n)]) k' = if k = k' then max (bestOf items k') n else bestOf items k' := by
  unfold bestOf
  rw [List.filter_append, List.map_append]
  by_cases hk : k = k'
  · simp only [hk, decide_true, List.filter_cons_of_pos, List.filter_nil, List.map_cons, List.map_nil, if_true]
    exact foldr_max_append hn
  · simp [hk]

lemma bestOf_nonneg (items : List (Bytes × ℤ)) (k : Bytes) : 0 ≤ bestOf items k := by
  unfold bestOf
  induction (items.filter (·.1 = k)).map Prod.snd with
  | nil => exact le_rfl
  | cons x l ih => exact le_max_of_le_right ih

lemma bestOf_of_notMem {items : List (Bytes × ℤ)} {k : Bytes} (h : k ∉ items.map Prod.fst) : bestOf items k = 0 := by
  have hnil : items.filter (·.1 = k) = [] := by
    refine List.filter_eq_nil_iff.2 fun e he => ?_
    rw [decide_eq_true_eq]
    rintro rfl
    exact h (List.mem_map_of_mem he)
  rw [bestOf, hnil]
  rfl

/-! ### The seeds -/

/-- After seeds with these keys and points, `rows` the rows of `SeedDomains` so far, the last one first. -/
structure Seeded (items : List (Bytes × ℤ)) (rows : List SeedDomainRow) (st : ScoreState) : Prop where
  index : Indexed st
  node : ∀ sn ∈ st.vsnNodes, sn.iScore = bestOf items sn.strValidator ∧ sn.iRoundSeed = sn.iScore ∧
    sn.iRoundScore = 0 ∧ sn.viReferrals = []
  mem : ∀ k, st.umPulicIdx k ≠ none ↔ k ∈ items.map Prod.fst
  domain : ∀ d, (st.umDomainIdx d).map (keyAt st.vsnNodes) = (domainKey d rows).map some

lemma seeded_init : Seeded [] [] ScoreState.init where
  index k i := by simp [ScoreState.init, keyAt]
  node sn hsn := absurd hsn List.not_mem_nil
  mem k := by simp [ScoreState.init]
  domain d := rfl

lemma Indexed.key_ne {st : ScoreState} (h : Indexed st) {k : Bytes} (hk : st.umPulicIdx k = none) {sn : ScoreNode}
    (hsn : sn ∈ st.vsnNodes) : k ≠ sn.strValidator := by
  rintro rfl
  obtain ⟨i, hi⟩ := List.mem_iff_getElem?.1 hsn
  have hidx := (h sn.strValidator i).2 (keyAt_of_getElem? hi)
  rw [hk] at hidx
  cases hidx

/-- A seed with a new key. -/
lemma seeded_push {items : List (Bytes × ℤ)} {rows : List SeedDomainRow} {st : ScoreState}
    (h : Seeded items rows st) {k : Bytes} (hk : st.umPulicIdx k = none) {n : ℤ} (hn : 0 ≤ n) :
    Seeded (items ++ [(k, n)]) rows (st.push k n) := by
  have hnew : k ∉ items.map Prod.fst := fun hmem => (h.mem k).2 hmem hk
  refine ⟨indexed_push h.index hk n, ?_, ?_, fun d => option_map_keyAt_append (h.domain d) _⟩
  · intro sn hsn
    rw [bestOf_append hn]
    rcases List.mem_append.1 hsn with hsn | hsn
    · rw [if_neg (h.index.key_ne hk hsn)]
      exact h.node sn hsn
    · obtain rfl := List.mem_singleton.1 hsn
      rw [if_pos rfl, bestOf_of_notMem hnew]
      exact ⟨(max_eq_right hn).symm, rfl, rfl, rfl⟩
  · intro k'
    by_cases hkk : k' = k
    · simp [ScoreState.push, hkk]
    · simpa [ScoreState.push, Function.update_of_ne hkk, hkk] using h.mem k'

lemma strValidator_raise (n : ℤ) (sn : ScoreNode) : (ScoreNode.raise n sn).strValidator = sn.strValidator := by
  unfold ScoreNode.raise
  split <;> rfl

/-- A seed with a key that is there: its node has the better of the two. -/
lemma seeded_raise {items : List (Bytes × ℤ)} {rows : List SeedDomainRow} {st : ScoreState}
    (h : Seeded items rows st) {k : Bytes} {iNode : ℕ} (hk : st.umPulicIdx k = some iNode) {n : ℤ} (hn : 0 ≤ n) :
    Seeded (items ++ [(k, n)]) rows { st with vsnNodes := st.vsnNodes.modify iNode (ScoreNode.raise n) } := by
  refine ⟨indexed_modify h.index (strValidator_raise n) _, ?_, ?_, ?_⟩
  · intro sn' hsn'
    obtain ⟨j, hj⟩ := List.mem_iff_getElem?.1 hsn'
    obtain ⟨sn, hsn, rfl⟩ := getElem?_of_modify hj
    obtain ⟨hscore, hseed, hround, hrefs⟩ := h.node sn (List.mem_iff_getElem?.2 ⟨j, hsn⟩)
    have hjk : keyAt st.vsnNodes j = some sn.strValidator := keyAt_of_getElem? hsn
    rw [bestOf_append hn]
    by_cases hij : iNode = j
    · have hkey : k = sn.strValidator := by
        have hik := (h.index k iNode).1 hk
        rw [hij, hjk] at hik
        exact (Option.some_inj.1 hik).symm
      simp only [hij, if_true, strValidator_raise, hkey, ← hscore]
      unfold ScoreNode.raise
      split
      next hlt => exact ⟨(max_eq_right hlt.le).symm, rfl, hround, hrefs⟩
      next hge => exact ⟨(max_eq_left (not_lt.1 hge)).symm, hseed, hround, hrefs⟩
    · have hkey : k ≠ sn.strValidator := by
        rintro rfl
        exact hij (Option.some_inj.1 (hk.symm.trans ((h.index _ j).2 hjk)))
      simp only [hij, if_false, hkey]
      exact ⟨hscore, hseed, hround, hrefs⟩
  · intro k'
    rw [h.mem k', List.map_append, List.mem_append]
    constructor
    · exact .inl
    · rintro (hmem | hmem)
      · exact hmem
      · obtain rfl : k' = k := by simpa using hmem
        exact (h.mem k').1 (by simp [hk])
  · intro d
    rw [keyAt_modify (strValidator_raise n)]
    exact h.domain d

/-- One seed. -/
lemma seed_spec {items : List (Bytes × ℤ)} {rows : List SeedDomainRow} {st : ScoreState} (h : Seeded items rows st)
    (k : Bytes) {n : ℤ} (hn : 0 ≤ n) : Seeded (items ++ [(k, n)]) rows (seed k n st) := by
  unfold seed
  split
  next hk => exact seeded_push h hk hn
  next iNode hk => exact seeded_raise h hk hn

lemma sourceScore_nonneg {Source : Value} {n : ℤ} (h : sourceScore Source = .ok n) :
    0 ≤ n ∧ points Source = n := by
  refine ⟨?_, by rw [points, h]; rfl⟩
  unfold sourceScore iSourceScore at h
  split at h
  all_goals
    cases h
    try decide

lemma domainSources_concat (rows : List SeedDomainRow) (r : SeedDomainRow) : domainSources (rows ++ [r]) =
    if r.PublicKey = .null then domainSources rows
    else domainSources rows ++ [(r.PublicKey.bytes, points r.Source)] := by
  rw [domainSources, List.filterMap_append, ← domainSources]
  split
  next hnull => simp [hnull]
  next hkey => simp [hkey]

lemma umDomainIdx_seed (k : Bytes) (n : ℤ) (st : ScoreState) : (seed k n st).umDomainIdx = st.umDomainIdx := by
  unfold seed
  split <;> rfl

/-- A row of `SeedDomains`. -/
lemma seedDomain_spec {rows : List SeedDomainRow} {st st' : ScoreState} {r : SeedDomainRow}
    (h : Seeded (domainSources rows) rows.reverse st) (hr : seedDomain st r = .ok st') :
    Seeded (domainSources (rows ++ [r])) (rows ++ [r]).reverse st' := by
  rw [List.reverse_concat, domainSources_concat]
  unfold seedDomain at hr
  split at hr
  next hnull =>
    cases hr
    rw [if_pos hnull]
    refine ⟨h.index, h.node, h.mem, fun d => ?_⟩
    rw [domainKey, if_neg fun hd => hd.1 hnull]
    exact h.domain d
  next hkey =>
    cases hscore : sourceScore r.Source with
    | error e =>
      rw [hscore] at hr
      cases hr
    | ok n =>
      obtain ⟨hn, hpoints⟩ := sourceScore_nonneg hscore
      rw [hscore] at hr
      cases hr
      rw [if_neg hkey, hpoints]
      have hseed := seed_spec h r.PublicKey.bytes hn
      refine ⟨hseed.index, hseed.node, hseed.mem, fun d => ?_⟩
      have hrest := hseed.domain d
      rw [umDomainIdx_seed] at hrest
      rw [domainKey, List.reverse_reverse]
      by_cases hnew : st.umPulicIdx r.PublicKey.bytes = none
      · have hmem : r.PublicKey.bytes ∉ (domainSources rows).map Prod.fst := fun hmem => (h.mem _).2 hmem hnew
        simp only [hnew, if_true]
        by_cases hd : r.Domain.bytes = d
        · subst hd
          rw [if_pos ⟨hkey, rfl, hmem⟩, Function.update_self]
          simp only [seed, hnew, ScoreState.push]
          exact congrArg some (keyAt_append_iff.2 (.inr ⟨rfl, rfl⟩))
        · rw [if_neg fun hd' => hd hd'.2.1, Function.update_of_ne (Ne.symm hd)]
          exact hrest
      · have hmem : r.PublicKey.bytes ∈ (domainSources rows).map Prod.fst := (h.mem _).1 hnew
        simp only [hnew, if_false]
        rw [if_neg fun hd => hd.2.2 hmem]
        exact hrest

/-- A row of `SeedNodes`. -/
lemma seedNode_spec {items : List (Bytes × ℤ)} {before : List SeedDomainRow} {rows : List SeedNodeRow}
    {st st' : ScoreState} {r : SeedNodeRow} (h : Seeded (items ++ nodeSources rows) before st)
    (hr : seedNode st r = .ok st') : Seeded (items ++ nodeSources (rows ++ [r])) before st' := by
  unfold seedNode at hr
  cases hscore : sourceScore r.Source with
  | error e =>
    rw [hscore] at hr
    cases hr
  | ok n =>
    obtain ⟨hn, hpoints⟩ := sourceScore_nonneg hscore
    rw [hscore] at hr
    cases hr
    rw [nodeSources, List.map_append, List.map_singleton, hpoints, ← List.append_assoc]
    exact seed_spec h r.PublicKey.bytes hn

/-- What a loop keeps that may throw, row by row. -/
lemma foldlM_ok {R S : Type} {f : S → R → Except Fault S} {P : List R → S → Prop}
    (hstep : ∀ rows r st st', P rows st → f st r = .ok st' → P (rows ++ [r]) st') {rows : List R} {st st' : S}
    (h : P [] st) (hrun : rows.foldlM f st = .ok st') : P rows st' := by
  suffices hgen : ∀ (rest done : List R) (st : S), P done st → rest.foldlM f st = .ok st' → P (done ++ rest) st' from
    hgen rows [] st h hrun
  intro rest
  induction rest with
  | nil =>
    intro done st hP hrun
    cases hrun
    rwa [List.append_nil]
  | cons r rest ih =>
    intro done st hP hrun
    rw [List.foldlM_cons] at hrun
    cases hr : f st r with
    | error e =>
      rw [hr] at hrun
      cases hrun
    | ok st₁ =>
      rw [hr] at hrun
      rw [List.append_cons]
      exact ih _ st₁ (hstep done r st st₁ hP hr) hrun

/-- **Both loops over the seeds.** -/
theorem seeds_spec {st : ScoreState} (h : seeds db = .ok st) :
    Seeded (sources db) db.SeedDomains.rows.reverse st := by
  unfold seeds at h
  cases hdomains : db.SeedDomains.rows.foldlM seedDomain ScoreState.init with
  | error e =>
    rw [hdomains] at h
    cases h
  | ok st₁ =>
    rw [hdomains] at h
    have h₁ : Seeded (domainSources db.SeedDomains.rows) db.SeedDomains.rows.reverse st₁ :=
      @foldlM_ok _ _ _ (fun rows st => Seeded (domainSources rows) rows.reverse st)
        (fun rows r st st' => seedDomain_spec) _ _ _ seeded_init hdomains
    exact @foldlM_ok _ _ _
      (fun rows st => Seeded (domainSources db.SeedDomains.rows ++ nodeSources rows) db.SeedDomains.rows.reverse st)
      (fun rows r st st' => seedNode_spec) _ _ _ (by simpa [nodeSources] using h₁) h

/-! ### The referrals -/

/-- A text that is looked up changes no domain, and no position that there is. -/
lemma referral?_keeps (strReferral : Bytes) (st : ScoreState) :
    (referral? env strReferral st).2.umDomainIdx = st.umDomainIdx ∧
      ∀ i k, keyAt st.vsnNodes i = some k → keyAt (referral? env strReferral st).2.vsnNodes i = some k := by
  unfold referral?
  split
  · split
    · exact ⟨rfl, fun i k hi => keyAt_append hi _⟩
    · exact ⟨rfl, fun _ _ hi => hi⟩
  · exact ⟨rfl, fun _ _ hi => hi⟩

lemma walkReferral_keeps (iNode : ℕ) (st : ScoreState) (r : ValidatorReferral) :
    (walkReferral env iNode st r).umDomainIdx = st.umDomainIdx ∧
      ∀ i k, keyAt st.vsnNodes i = some k → keyAt (walkReferral env iNode st r).vsnNodes i = some k := by
  have hnext := @referral?_keeps env r.Referral.bytes st
  unfold walkReferral
  dsimp only
  split
  · exact hnext
  · split
    · exact hnext
    · refine ⟨hnext.1, fun i k hi => ?_⟩
      rw [keyAt_refer]
      exact hnext.2 i k hi

lemma foldl_walkReferral_keeps (iNode : ℕ) (rows : List ValidatorReferral) (st : ScoreState) :
    (rows.foldl (walkReferral env iNode) st).umDomainIdx = st.umDomainIdx ∧
      ∀ i k, keyAt st.vsnNodes i = some k → keyAt (rows.foldl (walkReferral env iNode) st).vsnNodes i = some k := by
  induction rows generalizing st with
  | nil => exact ⟨rfl, fun _ _ hi => hi⟩
  | cons r rows ih =>
    obtain ⟨hdomain, hkeys⟩ := @walkReferral_keeps env iNode st r
    obtain ⟨hdomain', hkeys'⟩ := ih (walkReferral env iNode st r)
    exact ⟨hdomain'.trans hdomain, fun i k hi => hkeys' i k (hkeys i k hi)⟩

/-- While the validation lists are read: the node at position `i` has the referrals `R i` so far. -/
structure Walked (env : Crypto) (db : Wallet) (R : ℕ → List Bytes) (st : ScoreState) : Prop where
  index : Indexed st
  node : ∀ sn ∈ st.vsnNodes, sn.iScore = bestOf (sources db) sn.strValidator ∧ sn.iRoundSeed = sn.iScore ∧
    sn.iRoundScore = 0
  seeds : ∀ k ∈ (sources db).map Prod.fst, st.umPulicIdx k ≠ none
  known : ∀ sn ∈ st.vsnNodes, Known env db sn.strValidator
  domain : ∀ d, (st.umDomainIdx d).map (keyAt st.vsnNodes) = (domainKey d db.SeedDomains.rows.reverse).map some
  refers : ∀ i sn, st.vsnNodes[i]? = some sn → sn.viReferrals.map (keyAt st.vsnNodes) = (R i).map some
  fresh : ∀ i, st.vsnNodes.length ≤ i → R i = []

lemma walked_of_seeded {st : ScoreState} (h : Seeded (sources db) db.SeedDomains.rows.reverse st) :
    Walked env db (fun _ => []) st where
  index := h.index
  node sn hsn := ⟨(h.node sn hsn).1, (h.node sn hsn).2.1, (h.node sn hsn).2.2.1⟩
  seeds k hk := (h.mem k).2 hk
  known sn hsn := by
    obtain ⟨i, hi⟩ := List.mem_iff_getElem?.1 hsn
    have hidx := (h.index sn.strValidator i).2 (keyAt_of_getElem? hi)
    exact .seed ((h.mem _).1 (by simp [hidx]))
  domain := h.domain
  refers i sn hi := by
    rw [(h.node sn (List.mem_iff_getElem?.2 ⟨i, hi⟩)).2.2.2]
    rfl
  fresh _ _ := rfl

variable {R : ℕ → List Bytes} {st : ScoreState}

/-- Somebody new is referred to. -/
lemma walked_push (h : Walked env db R st) {k : Bytes} (hk : st.umPulicIdx k = none) (hknown : Known env db k) :
    Walked env db R (st.push k 0) := by
  have hnew : k ∉ (sources db).map Prod.fst := fun hmem => h.seeds _ hmem hk
  refine ⟨indexed_push h.index hk 0, ?_, ?_, ?_, fun d => option_map_keyAt_append (h.domain d) _, ?_, ?_⟩
  · intro sn hsn
    rcases List.mem_append.1 hsn with hsn | hsn
    · exact h.node sn hsn
    · obtain rfl := List.mem_singleton.1 hsn
      exact ⟨(bestOf_of_notMem hnew).symm, rfl, rfl⟩
  · intro k' hmem
    have hne : k' ≠ k := fun hkk => hnew (hkk ▸ hmem)
    simpa [ScoreState.push, Function.update_of_ne hne] using h.seeds k' hmem
  · intro sn hsn
    rcases List.mem_append.1 hsn with hsn | hsn
    · exact h.known sn hsn
    · obtain rfl := List.mem_singleton.1 hsn
      exact hknown
  · intro i sn hi
    simp only [ScoreState.push] at hi ⊢
    rcases lt_or_ge i st.vsnNodes.length with hlt | hge
    · rw [List.getElem?_append_left hlt] at hi
      exact map_keyAt_append (h.refers i sn hi) _
    · rw [h.fresh i hge]
      rw [List.getElem?_append_right hge] at hi
      obtain rfl := List.mem_singleton.1 (List.mem_of_getElem? hi)
      rfl
  · intro i hi
    simp only [ScoreState.push, List.length_append, List.length_singleton] at hi
    exact h.fresh i (by omega)

/-- The position that a referral gets is that of the key it stands for. -/
lemma referral?_spec (h : Walked env db R st) {j : Bytes} (hj : Known env db j) {r : ValidatorReferral}
    (hr : r ∈ selectReferrals db.ValidatorReferrals j) :
    Walked env db R (referral? env r.Referral.bytes st).2 ∧
      (referral? env r.Referral.bytes st).1.map (keyAt (referral? env r.Referral.bytes st).2.vsnNodes) =
        (resolve env db r).map some := by
  unfold referral? resolve
  split
  next hkey =>
    split
    next hk =>
      exact ⟨walked_push h hk (.referral hj hr hkey), congrArg some (keyAt_append_iff.2 (.inr ⟨rfl, rfl⟩))⟩
    next i hi => exact ⟨h, congrArg some ((h.index _ _).1 hi)⟩
  · exact ⟨h, h.domain _⟩

/-- A position is appended to a node's list. -/
lemma refer_spec (h : Walked env db R st) {iNode i : ℕ} {k : Bytes} (hi : keyAt st.vsnNodes i = some k)
    (hlt : iNode < st.vsnNodes.length) :
    Walked env db (Function.update R iNode (R iNode ++ [k]))
      { st with vsnNodes := st.vsnNodes.modify iNode (ScoreNode.refer i) } := by
  have hmem : ∀ sn' ∈ st.vsnNodes.modify iNode (ScoreNode.refer i), ∃ sn ∈ st.vsnNodes,
      sn'.strValidator = sn.strValidator ∧ sn'.iScore = sn.iScore ∧ sn'.iRoundSeed = sn.iRoundSeed ∧
        sn'.iRoundScore = sn.iRoundScore := by
    intro sn' hsn'
    obtain ⟨j, hj⟩ := List.mem_iff_getElem?.1 hsn'
    obtain ⟨sn, hsn, rfl⟩ := getElem?_of_modify hj
    refine ⟨sn, List.mem_iff_getElem?.2 ⟨j, hsn⟩, ?_⟩
    split <;> exact ⟨rfl, rfl, rfl, rfl⟩
  have hrefer : ∀ sn, (ScoreNode.refer i sn).strValidator = sn.strValidator := fun _ => rfl
  refine ⟨indexed_modify h.index hrefer _, ?_, h.seeds, ?_, ?_, ?_, ?_⟩
  · intro sn' hsn'
    obtain ⟨sn, hsn, hkey, hscore, hseed, hround⟩ := hmem sn' hsn'
    rw [hkey, hscore, hseed, hround]
    exact h.node sn hsn
  · intro sn' hsn'
    obtain ⟨sn, hsn, hkey, -⟩ := hmem sn' hsn'
    rw [hkey]
    exact h.known sn hsn
  · intro d
    rw [keyAt_refer]
    exact h.domain d
  · intro j sn' hj
    obtain ⟨sn, hsn, rfl⟩ := getElem?_of_modify hj
    rw [keyAt_refer]
    by_cases hij : iNode = j
    · subst hij
      rw [if_pos rfl, Function.update_self, ScoreNode.refer, List.map_append, h.refers _ _ hsn, List.map_append,
        List.map_singleton, List.map_singleton, hi]
    · rw [if_neg hij, Function.update_of_ne (Ne.symm hij)]
      exact h.refers j sn hsn
  · intro j hj
    rw [List.length_modify] at hj
    rw [Function.update_of_ne (by omega)]
    exact h.fresh j hj

/-- One referral. -/
lemma walkReferral_spec (h : Walked env db R st) {iNode : ℕ} {k : Bytes} (hk : keyAt st.vsnNodes iNode = some k)
    {r : ValidatorReferral} (hr : r ∈ selectReferrals db.ValidatorReferrals k) :
    Walked env db (Function.update R iNode (R iNode ++ contribution env db k r)) (walkReferral env iNode st r) := by
  have hknown : Known env db k := by
    obtain ⟨sn, hsn, rfl⟩ := Option.map_eq_some_iff.1 hk
    exact h.known sn (List.mem_iff_getElem?.2 ⟨iNode, hsn⟩)
  obtain ⟨hnext, hresolve⟩ := referral?_spec h hknown hr
  have hk' := (@referral?_keeps env r.Referral.bytes st).2 iNode k hk
  unfold walkReferral contribution
  dsimp only
  split
  next hi =>
    rw [hi] at hresolve
    rw [Option.map_eq_none_iff.1 hresolve.symm]
    simpa using hnext
  next i hi =>
    rw [hi] at hresolve
    obtain ⟨key, hkey, hkeyAt⟩ := Option.map_eq_some_iff.1 hresolve.symm
    rw [hkey]
    split
    next hself =>
      subst hself
      obtain rfl : key = k := Option.some_inj.1 (hkeyAt.trans hk')
      simpa using hnext
    next hother =>
      have hne : key ≠ k := by
        rintro rfl
        exact hother (keyAt_inj hnext.index.nodup hkeyAt.symm hk')
      simpa [hne] using refer_spec hnext hkeyAt.symm (lt_of_keyAt hk')

/-- A validation list, from some entry on. -/
lemma foldl_walkReferral_spec (h : Walked env db R st) {iNode : ℕ} {k : Bytes}
    (hk : keyAt st.vsnNodes iNode = some k) (rows : List ValidatorReferral)
    (hrows : ∀ r ∈ rows, r ∈ selectReferrals db.ValidatorReferrals k) :
    Walked env db (Function.update R iNode (R iNode ++ rows.flatMap (contribution env db k)))
      (rows.foldl (walkReferral env iNode) st) := by
  induction rows generalizing R st with
  | nil => simpa using h
  | cons r rows ih =>
    have hnext := walkReferral_spec h hk (hrows r List.mem_cons_self)
    have hrest := ih hnext ((walkReferral_keeps iNode st r).2 iNode k hk) fun r' hr' =>
      hrows r' (List.mem_cons_of_mem _ hr')
    rw [Function.update_idem, Function.update_self, List.append_assoc] at hrest
    exact hrest

/-- The lists of the nodes before `iNode` are complete, the others empty. -/
structure WalkedTo (env : Crypto) (db : Wallet) (iNode : ℕ) (R : ℕ → List Bytes) (st : ScoreState) : Prop where
  walked : Walked env db R st
  done : ∀ i < iNode, ∀ k, keyAt st.vsnNodes i = some k → R i = refersTo env db k
  todo : ∀ i, iNode ≤ i → R i = []

lemma walkNode_spec {iNode : ℕ} (h : WalkedTo env db iNode R st) (hlt : iNode < st.vsnNodes.length) :
    (∃ R', WalkedTo env db (iNode + 1) R' (walkNode env db.ValidatorReferrals iNode st)) ∧
      iNode < (walkNode env db.ValidatorReferrals iNode st).vsnNodes.length := by
  obtain ⟨sn, hsn⟩ : ∃ sn, st.vsnNodes[iNode]? = some sn := ⟨_, List.getElem?_eq_getElem hlt⟩
  have hk : keyAt st.vsnNodes iNode = some sn.strValidator := keyAt_of_getElem? hsn
  have hwalked := foldl_walkReferral_spec h.walked hk _ fun _ hr => hr
  have hkeys := (@foldl_walkReferral_keeps env iNode (selectReferrals db.ValidatorReferrals sn.strValidator) st).2
  rw [h.todo iNode le_rfl, List.nil_append] at hwalked
  rw [walkNode, hsn]
  refine ⟨⟨Function.update R iNode (refersTo env db sn.strValidator), hwalked, ?_, ?_⟩,
    lt_of_keyAt (hkeys iNode _ hk)⟩
  · intro i hi k hik
    rcases Nat.lt_succ_iff_lt_or_eq.1 hi with hi | rfl
    · rw [Function.update_of_ne (by omega)]
      obtain ⟨sn', hsn'⟩ : ∃ sn', st.vsnNodes[i]? = some sn' := ⟨_, List.getElem?_eq_getElem (by omega)⟩
      have hik' := keyAt_of_getElem? hsn'
      obtain rfl := Option.some_inj.1 ((hkeys i _ hik').symm.trans hik)
      exact h.done i hi _ hik'
    · rw [Function.update_self]
      obtain rfl := Option.some_inj.1 ((hkeys i _ hk).symm.trans hik)
      rfl
  · intro i hi
    rw [Function.update_of_ne (by omega)]
    exact h.todo i (by omega)

/-- The walk begins with the seeds. -/
lemma walkedTo_seeds (h : seeds db = .ok st) : WalkedTo env db 0 (fun _ => []) st :=
  ⟨walked_of_seeded (seeds_spec h), fun i hi => absurd hi (Nat.not_lt_zero i), fun _ _ => rfl⟩

/-- **The loop over the growing vector.** -/
theorem walk_spec {fuel iNode : ℕ} {st' : ScoreState} (h : WalkedTo env db iNode R st)
    (hle : iNode ≤ st.vsnNodes.length) (hwalk : walk env db.ValidatorReferrals fuel iNode st = some st') :
    ∃ R', WalkedTo env db st'.vsnNodes.length R' st' := by
  induction fuel generalizing iNode R st with
  | zero =>
    rw [walk] at hwalk
    split at hwalk
    next heq =>
      cases hwalk
      exact ⟨R, heq ▸ h⟩
    · cases hwalk
  | succ fuel ih =>
    rw [walk] at hwalk
    split at hwalk
    next heq =>
      cases hwalk
      exact ⟨R, heq ▸ h⟩
    next hne =>
      obtain ⟨⟨R', h'⟩, hlt⟩ := walkNode_spec h (by omega)
      exact ih h' hlt hwalk

/-- In the end everybody who is known has a position. -/
lemma known_iff (h : WalkedTo env db st.vsnNodes.length R st) (k : Bytes) :
    k ∈ st.vsnNodes.map ScoreNode.strValidator ↔ Known env db k := by
  constructor
  · intro hk
    obtain ⟨sn, hsn, rfl⟩ := List.mem_map.1 hk
    exact h.walked.known sn hsn
  · intro hk
    rw [mem_keys_iff]
    induction hk with
    | @seed k hk =>
      obtain ⟨i, hi⟩ := Option.ne_none_iff_exists'.1 (h.walked.seeds k hk)
      exact ⟨i, (h.walked.index k i).1 hi⟩
    | @referral j r _ hr hkey ih =>
      obtain ⟨i, hi⟩ := ih
      by_cases hself : r.Referral.bytes = j
      · exact ⟨i, hself ▸ hi⟩
      · obtain ⟨sn, hsn, rfl⟩ := Option.map_eq_some_iff.1 hi
        have hmem : r.Referral.bytes ∈ refersTo env db sn.strValidator := by
          rw [refersTo, List.mem_flatMap]
          refine ⟨r, hr, ?_⟩
          rw [contribution, resolve, if_pos hkey]
          simp [hself]
        have hrefs := h.walked.refers i sn hsn
        rw [h.done i (lt_of_keyAt hi) _ hi] at hrefs
        have hkeyAt : some r.Referral.bytes ∈ sn.viReferrals.map (keyAt st.vsnNodes) := by
          rw [hrefs]
          exact List.mem_map_of_mem hmem
        obtain ⟨i', -, hi'⟩ := List.mem_map.1 hkeyAt
        exact ⟨i', hi'⟩

/-- **What is scored** follows the flow of points between those who are known. -/
theorem follows_of_walked (h : WalkedTo env db st.vsnNodes.length R st) :
    Follows (bestOf (sources db)) (refersTo env db) (st.vsnNodes.map ScoreNode.strValidator).toFinset 0
      st.vsnNodes where
  keys := rfl
  nodup := h.walked.index.nodup
  refers sn hsn := by
    obtain ⟨i, hi⟩ := List.mem_iff_getElem?.1 hsn
    rw [h.walked.refers i sn hi, h.done i (lt_of_keyAt (keyAt_of_getElem? hi)) _ (keyAt_of_getElem? hi)]
  seed sn hsn := (h.walked.node sn hsn).2.1.trans (h.walked.node sn hsn).1
  settled sn hsn := (h.walked.node sn hsn).2.2
  score sn hsn := by
    rw [(h.walked.node sn hsn).1]
    simp [flow]

end Newcoin.UniqueNodeList
