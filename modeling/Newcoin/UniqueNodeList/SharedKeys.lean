import Newcoin.UniqueNodeList.TrustGraph

/-!
# Domains that share a key

A domain is entered in `umDomainIdx` with the node of its key, when the node is new: a second domain with the
key is not entered.

* `domainKey_iff`: what a domain leads to when no two domains share a key.
* `isGreatest_bestOf`: a node has the points of its best source.
* `Rearranged.perm_seeded`: the nodes do not depend on the order of the rows.
* `seededRight_iff`: every domain leads to its node exactly if no two domains share a key.
-/

namespace Newcoin.UniqueNodeList

open Lib.Sql

/-! ### What the rows say -/

/-- A row has this domain and this public key. -/
def LeadsTo (rows : List SeedDomainRow) (d k : Bytes) : Prop :=
  ∃ r ∈ rows, r.PublicKey ≠ .null ∧ r.Domain.bytes = d ∧ r.PublicKey.bytes = k

/-- Two domains have two keys, and two keys have two domains. -/
def OneToOne (rows : List SeedDomainRow) : Prop :=
  ∀ d d' k k', LeadsTo rows d k → LeadsTo rows d' k' → (d = d' ↔ k = k')

lemma leadsTo_cons {r : SeedDomainRow} {rows : List SeedDomainRow} {d k : Bytes} :
    LeadsTo (r :: rows) d k ↔
      (r.PublicKey ≠ .null ∧ r.Domain.bytes = d ∧ r.PublicKey.bytes = k) ∨ LeadsTo rows d k := by
  simp only [LeadsTo, List.mem_cons, or_and_right, exists_or, exists_eq_left]

lemma leadsTo_congr {rows rows' : List SeedDomainRow} (h : ∀ r, r ∈ rows ↔ r ∈ rows') {d k : Bytes} :
    LeadsTo rows d k ↔ LeadsTo rows' d k := by
  simp only [LeadsTo, h]

lemma oneToOne_congr {rows rows' : List SeedDomainRow} (h : ∀ r, r ∈ rows ↔ r ∈ rows') :
    OneToOne rows ↔ OneToOne rows' := by
  simp only [OneToOne, leadsTo_congr h]

/-- The keys of the seeds are those that domains lead to. -/
lemma mem_domainSources {rows : List SeedDomainRow} {k : Bytes} :
    k ∈ (domainSources rows).map Prod.fst ↔ ∃ d, LeadsTo rows d k := by
  simp only [domainSources, List.mem_map, List.mem_filterMap, LeadsTo]
  constructor
  · rintro ⟨e, ⟨r, hr, he⟩, rfl⟩
    split at he
    · cases he
    next hkey =>
      obtain rfl := Option.some_inj.1 he
      exact ⟨_, r, hr, hkey, rfl, rfl⟩
  · rintro ⟨d, r, hr, hkey, -, rfl⟩
    exact ⟨_, ⟨r, hr, if_neg hkey⟩, rfl⟩

lemma mem_domainSources_reverse {rows : List SeedDomainRow} {k : Bytes} :
    k ∈ (domainSources rows.reverse).map Prod.fst ↔ ∃ d, LeadsTo rows d k := by
  rw [mem_domainSources]
  exact exists_congr fun d => leadsTo_congr fun r => List.mem_reverse

/-! ### What a domain is entered with -/

lemma leadsTo_of_domainKey {rows : List SeedDomainRow} {d k : Bytes} (h : domainKey d rows = some k) :
    LeadsTo rows d k := by
  induction rows with
  | nil => cases h
  | cons r before ih =>
    rw [domainKey] at h
    rw [leadsTo_cons]
    split at h
    next hnew =>
      obtain rfl := Option.some_inj.1 h
      exact .inl ⟨hnew.1, hnew.2.1, rfl⟩
    · exact .inr (ih h)

/-- Of the domains with one key only one is entered. -/
lemma domainKey_inj {rows : List SeedDomainRow} {d d' k : Bytes} (h : domainKey d rows = some k)
    (h' : domainKey d' rows = some k) : d = d' := by
  induction rows with
  | nil => cases h
  | cons r before ih =>
    rw [domainKey] at h h'
    split at h
    next hnew =>
      obtain rfl := Option.some_inj.1 h
      split at h'
      next hnew' => exact hnew.2.1.symm.trans hnew'.2.1
      · exact absurd (mem_domainSources_reverse.2 ⟨d', leadsTo_of_domainKey h'⟩) hnew.2.2
    · split at h'
      next hnew' =>
        obtain rfl := Option.some_inj.1 h'
        exact absurd (mem_domainSources_reverse.2 ⟨d, leadsTo_of_domainKey h⟩) hnew'.2.2
      · exact ih h h'

/-- A domain that has one key, which is its own, is entered with it. -/
lemma domainKey_of_sole {rows : List SeedDomainRow} {d k : Bytes} (h : LeadsTo rows d k)
    (hdomain : ∀ k', LeadsTo rows d k' → k' = k) (hkey : ∀ d', LeadsTo rows d' k → d' = d) :
    domainKey d rows = some k := by
  induction rows with
  | nil =>
    obtain ⟨r, hr, -⟩ := h
    exact absurd hr List.not_mem_nil
  | cons r before ih =>
    rw [domainKey]
    split
    next hnew => exact congrArg some (hdomain _ (leadsTo_cons.2 (.inl ⟨hnew.1, hnew.2.1, rfl⟩)))
    next hold =>
      refine ih ?_ (fun k' hk' => hdomain k' (leadsTo_cons.2 (.inr hk')))
        fun d' hd' => hkey d' (leadsTo_cons.2 (.inr hd'))
      rcases leadsTo_cons.1 h with ⟨hnull, rfl, rfl⟩ | hbefore
      · -- the key was there, so its domain is this one
        have hmem : r.PublicKey.bytes ∈ (domainSources before.reverse).map Prod.fst := by
          by_contra hnot
          exact hold ⟨hnull, rfl, hnot⟩
        obtain ⟨d', hd'⟩ := mem_domainSources_reverse.1 hmem
        rwa [hkey d' (leadsTo_cons.2 (.inr hd'))] at hd'
      · exact hbefore

/-- **When no two domains share a key**, a domain is entered with the key of its row. -/
theorem domainKey_iff {rows : List SeedDomainRow} (h : OneToOne rows) {d k : Bytes} :
    domainKey d rows = some k ↔ LeadsTo rows d k := by
  refine ⟨leadsTo_of_domainKey, fun hd => domainKey_of_sole hd (fun k' hk' => ?_) fun d' hd' => ?_⟩
  · exact (h d d k' k hk' hd).1 rfl
  · exact (h d' d k k hd' hd).2 rfl

/-- A domain is entered with the node of its key. -/
lemma Seeded.entered_iff {items : List (Bytes × ℤ)} {rows : List SeedDomainRow} {st : ScoreState}
    (h : Seeded items rows st) {d k : Bytes} :
    (∃ iNode, st.umDomainIdx d = some iNode ∧ keyAt st.vsnNodes iNode = some k) ↔ domainKey d rows = some k := by
  rw [← Option.map_eq_some_iff, h.domain, Option.map_eq_some_iff]
  simp

/-! ### The best source -/

lemma points_nonneg (Source : Value) : 0 ≤ points Source := by
  cases h : sourceScore Source with
  | error e =>
    rw [points, h]
    rfl
  | ok n =>
    obtain ⟨hn, hpoints⟩ := sourceScore_nonneg h
    rwa [hpoints]

lemma sources_nonneg {db : Wallet} {e : Bytes × ℤ} (he : e ∈ sources db) : 0 ≤ e.2 := by
  rcases List.mem_append.1 he with he | he
  · obtain ⟨r, -, hr⟩ := List.mem_filterMap.1 he
    split at hr
    · cases hr
    · obtain rfl := Option.some_inj.1 hr
      exact points_nonneg _
  · obtain ⟨r, -, rfl⟩ := List.mem_map.1 he
    exact points_nonneg _

lemma isGreatest_foldr_max {l : List ℤ} (hl : l ≠ []) (h0 : ∀ n ∈ l, 0 ≤ n) :
    IsGreatest {n | n ∈ l} (l.foldr max 0) := by
  induction l with
  | nil => exact absurd rfl hl
  | cons n l ih =>
    rw [List.foldr_cons]
    rcases eq_or_ne l [] with rfl | hne
    · rw [List.foldr_nil, max_eq_left (h0 n List.mem_cons_self)]
      exact ⟨List.mem_cons_self, fun m hm => (List.mem_singleton.1 hm).le⟩
    · obtain ⟨hmem, hle⟩ := ih hne fun m hm => h0 m (List.mem_cons_of_mem _ hm)
      constructor
      · rcases max_choice n (l.foldr max 0) with h | h
        · rw [h]
          exact List.mem_cons_self
        · rw [h]
          exact List.mem_cons_of_mem _ hmem
      · intro m hm
        rcases List.mem_cons.1 hm with rfl | hm
        · exact le_max_left _ _
        · exact le_max_of_le_right (hle hm)

lemma isGreatest_bestOf {items : List (Bytes × ℤ)} {k : Bytes} (h0 : ∀ e ∈ items, 0 ≤ e.2)
    (hk : k ∈ items.map Prod.fst) : IsGreatest {n | (k, n) ∈ items} (bestOf items k) := by
  have hmem : ∀ n, n ∈ (items.filter (·.1 = k)).map Prod.snd ↔ (k, n) ∈ items := by
    intro n
    simp only [List.mem_map, List.mem_filter, decide_eq_true_eq]
    constructor
    · rintro ⟨e, ⟨he, rfl⟩, rfl⟩
      exact he
    · exact fun h => ⟨_, ⟨h, rfl⟩, rfl⟩
  obtain ⟨e, he, rfl⟩ := List.mem_map.1 hk
  have hset : {n | (e.1, n) ∈ items} = {n | n ∈ (items.filter (·.1 = e.1)).map Prod.snd} := by
    ext n
    exact (hmem n).symm
  rw [hset]
  refine isGreatest_foldr_max (List.ne_nil_of_mem ((hmem e.2).2 he)) fun n hn => ?_
  exact h0 _ ((hmem n).1 hn)

/-! ### Which tables are read to the end -/

lemma exists_foldlM_iff {R S : Type} {f : S → R → Except Fault S} {G : R → Prop}
    (hf : ∀ st r, (∃ st', f st r = .ok st') ↔ G r) (rows : List R) (st : S) :
    (∃ st', rows.foldlM f st = .ok st') ↔ ∀ r ∈ rows, G r := by
  induction rows generalizing st with
  | nil => exact iff_of_true ⟨st, rfl⟩ fun r hr => absurd hr List.not_mem_nil
  | cons r rows ih =>
    rw [List.forall_mem_cons, ← hf st r, List.foldlM_cons]
    cases hr : f st r with
    | error e =>
      refine iff_of_false ?_ ?_
      · rintro ⟨st', ⟨⟩⟩
      · rintro ⟨⟨st', ⟨⟩⟩, -⟩
    | ok st₁ =>
      exact (ih st₁).trans (iff_and_self.2 fun _ => ⟨st₁, rfl⟩)

/-- The source is one of the known ones. -/
def KnownSource (Source : Value) : Prop := ∃ n, sourceScore Source = .ok n

lemma exists_seedDomain_iff (st : ScoreState) (r : SeedDomainRow) :
    (∃ st', seedDomain st r = .ok st') ↔ (r.PublicKey ≠ .null → KnownSource r.Source) := by
  unfold seedDomain KnownSource
  split
  next hnull => exact iff_of_true ⟨st, rfl⟩ fun hkey => absurd hnull hkey
  next hkey =>
    cases hscore : sourceScore r.Source with
    | error e =>
      refine iff_of_false ?_ fun h => ?_
      · rintro ⟨st', ⟨⟩⟩
      · obtain ⟨n, ⟨⟩⟩ := h hkey
    | ok n => exact iff_of_true ⟨_, rfl⟩ fun _ => ⟨n, rfl⟩

lemma exists_seedNode_iff (st : ScoreState) (r : SeedNodeRow) :
    (∃ st', seedNode st r = .ok st') ↔ KnownSource r.Source := by
  unfold seedNode KnownSource
  cases hscore : sourceScore r.Source with
  | error e =>
    refine iff_of_false ?_ ?_
    · rintro ⟨st', ⟨⟩⟩
    · rintro ⟨n, ⟨⟩⟩
  | ok n => exact iff_of_true ⟨_, rfl⟩ ⟨n, rfl⟩

lemma exists_seeds_iff {db : Wallet} : (∃ st, seeds db = .ok st) ↔
    (∀ r ∈ db.SeedDomains.rows, r.PublicKey ≠ .null → KnownSource r.Source) ∧
      ∀ r ∈ db.SeedNodes.rows, KnownSource r.Source := by
  rw [← exists_foldlM_iff exists_seedDomain_iff _ ScoreState.init]
  unfold seeds
  cases db.SeedDomains.rows.foldlM seedDomain ScoreState.init with
  | error e =>
    refine iff_of_false ?_ ?_
    · rintro ⟨st, ⟨⟩⟩
    · rintro ⟨⟨st, ⟨⟩⟩, -⟩
  | ok st₁ =>
    refine (exists_foldlM_iff exists_seedNode_iff _ st₁).trans ?_
    exact (and_iff_right ⟨st₁, rfl⟩).symm

/-! ### Two orders of the rows -/

/-- The same rows in another order. -/
def Rearranged (db db' : Wallet) : Prop :=
  db.SeedDomains.rows.Perm db'.SeedDomains.rows ∧ db.SeedNodes.rows.Perm db'.SeedNodes.rows

/-- What the seeds have made of a node. -/
def ScoreNode.seeded (sn : ScoreNode) : Bytes × ℤ × ℤ := (sn.strValidator, sn.iScore, sn.iRoundSeed)

/-- The same nodes with the same scores, and the same key for every domain. -/
def SameSeeds (st st' : ScoreState) : Prop :=
  (st.vsnNodes.map ScoreNode.seeded).Perm (st'.vsnNodes.map ScoreNode.seeded) ∧
    ∀ d, (st.umDomainIdx d).map (keyAt st.vsnNodes) = (st'.umDomainIdx d).map (keyAt st'.vsnNodes)

variable {db db' : Wallet} {st st' : ScoreState}

lemma Rearranged.mem_domains (h : Rearranged db db') (r : SeedDomainRow) :
    r ∈ db.SeedDomains.rows.reverse ↔ r ∈ db'.SeedDomains.rows.reverse := by
  rw [List.mem_reverse, List.mem_reverse]
  exact h.1.mem_iff

lemma Rearranged.sources (h : Rearranged db db') : (sources db).Perm (sources db') :=
  (h.1.filterMap _).append (h.2.map _)

lemma Rearranged.seeds (h : Rearranged db db') (hdb : seeds db = .ok st) : ∃ st', seeds db' = .ok st' := by
  obtain ⟨hdomains, hnodes⟩ := exists_seeds_iff.1 ⟨st, hdb⟩
  exact exists_seeds_iff.2 ⟨fun r hr => hdomains r (h.1.mem_iff.2 hr), fun r hr => hnodes r (h.2.mem_iff.2 hr)⟩

/-- The nodes: their keys, and the points of the best source twice. -/
lemma mem_seeded_iff (h : seeds db = .ok st) (k : Bytes) (n m : ℤ) :
    (k, n, m) ∈ st.vsnNodes.map ScoreNode.seeded ↔
      k ∈ (sources db).map Prod.fst ∧ n = bestOf (sources db) k ∧ m = n := by
  have hs := seeds_spec h
  rw [← hs.mem k]
  constructor
  · intro hmem
    obtain ⟨sn, hsn, heq⟩ := List.mem_map.1 hmem
    obtain ⟨rfl, rfl, rfl⟩ : sn.strValidator = k ∧ sn.iScore = n ∧ sn.iRoundSeed = m := by
      simpa [ScoreNode.seeded] using heq
    obtain ⟨i, hi⟩ := mem_keys_iff.1 (List.mem_map_of_mem hsn)
    obtain ⟨hscore, hseed, -⟩ := hs.node sn hsn
    exact ⟨by simp [(hs.index _ i).2 hi], hscore, hseed⟩
  · rintro ⟨hkey, rfl, rfl⟩
    obtain ⟨i, hi⟩ := Option.ne_none_iff_exists'.1 hkey
    obtain ⟨sn, hsn, rfl⟩ := List.mem_map.1 (mem_keys_iff.2 ⟨i, (hs.index _ i).1 hi⟩)
    obtain ⟨hscore, hseed, -⟩ := hs.node sn hsn
    refine List.mem_map.2 ⟨sn, hsn, ?_⟩
    rw [ScoreNode.seeded, hseed, hscore]

lemma nodup_seeded (h : seeds db = .ok st) : (st.vsnNodes.map ScoreNode.seeded).Nodup := by
  refine List.Nodup.of_map Prod.fst ?_
  rw [List.map_map]
  exact (seeds_spec h).index.nodup

lemma bestOf_perm {items items' : List (Bytes × ℤ)} (h : items.Perm items') (h0 : ∀ e ∈ items, 0 ≤ e.2) {k : Bytes}
    (hk : k ∈ items.map Prod.fst) : bestOf items k = bestOf items' k := by
  have hset : {n | (k, n) ∈ items} = {n | (k, n) ∈ items'} := Set.ext fun n => h.mem_iff
  have hgreatest := isGreatest_bestOf h0 hk
  rw [hset] at hgreatest
  exact hgreatest.unique
    (isGreatest_bestOf (fun e he => h0 e (h.mem_iff.2 he)) ((h.map Prod.fst).mem_iff.1 hk))

/-- The nodes do not depend on the order. -/
theorem Rearranged.perm_seeded (h : Rearranged db db') (hdb : UniqueNodeList.seeds db = .ok st)
    (hdb' : UniqueNodeList.seeds db' = .ok st') :
    (st.vsnNodes.map ScoreNode.seeded).Perm (st'.vsnNodes.map ScoreNode.seeded) := by
  refine (List.perm_ext_iff_of_nodup (nodup_seeded hdb) (nodup_seeded hdb')).2 ?_
  rintro ⟨k, n, m⟩
  rw [mem_seeded_iff hdb, mem_seeded_iff hdb', (h.sources.map Prod.fst).mem_iff]
  refine and_congr_right fun hk => ?_
  rw [bestOf_perm h.sources (fun e => sources_nonneg) ((h.sources.map Prod.fst).mem_iff.2 hk)]

/-! ### The seeds as they should be -/

/-- Every domain leads to the node of its key, every node has the points of its best source, and the order of
the rows does not matter. -/
structure SeededRight (db : Wallet) (st : ScoreState) : Prop where
  domain : ∀ r ∈ db.SeedDomains.rows, r.PublicKey ≠ .null →
    ∃ iNode, st.umDomainIdx r.Domain.bytes = some iNode ∧ keyAt st.vsnNodes iNode = some r.PublicKey.bytes
  score : ∀ sn ∈ st.vsnNodes,
    IsGreatest {n | (sn.strValidator, n) ∈ sources db} sn.iScore ∧ sn.iRoundSeed = sn.iScore
  order : ∀ db', Rearranged db db' → ∃ st', seeds db' = .ok st' ∧ SameSeeds st st'

/-- **The seeds are as they should be exactly if no two domains share a key.** -/
theorem seededRight_iff (h : seeds db = .ok st) : SeededRight db st ↔ OneToOne db.SeedDomains.rows := by
  have hs := seeds_spec h
  constructor
  · rintro ⟨hright, -, -⟩ d d' k k' ⟨r, hr, hkey, rfl, rfl⟩ ⟨r', hr', hkey', rfl, rfl⟩
    have hentered := hs.entered_iff.1 (hright r hr hkey)
    have hentered' := hs.entered_iff.1 (hright r' hr' hkey')
    constructor
    · intro hd
      rw [hd, hentered'] at hentered
      exact (Option.some_inj.1 hentered).symm
    · intro hk
      rw [← hk] at hentered'
      exact domainKey_inj hentered hentered'
  · intro hone
    have hone' : OneToOne db.SeedDomains.rows.reverse := (oneToOne_congr fun r => List.mem_reverse).2 hone
    refine ⟨fun r hr hkey => ?_, fun sn hsn => ?_, fun db' hdb' => ?_⟩
    · exact hs.entered_iff.2 ((domainKey_iff hone').2 ⟨r, List.mem_reverse.2 hr, hkey, rfl, rfl⟩)
    · obtain ⟨hscore, hseed, -⟩ := hs.node sn hsn
      obtain ⟨i, hi⟩ := mem_keys_iff.1 (List.mem_map_of_mem hsn)
      rw [hscore]
      refine ⟨isGreatest_bestOf (fun e => sources_nonneg) ((hs.mem _).1 ?_), hseed.trans hscore⟩
      simp [(hs.index _ i).2 hi]
    · obtain ⟨st', h'⟩ := hdb'.seeds h
      refine ⟨st', h', hdb'.perm_seeded h h', fun d => ?_⟩
      rw [hs.domain, (seeds_spec h').domain]
      congr 1
      refine Option.ext fun k => ?_
      rw [domainKey_iff hone', domainKey_iff ((oneToOne_congr hdb'.mem_domains).1 hone')]
      exact leadsTo_congr hdb'.mem_domains

/-- Two domains whose files name one key. -/
def oneKey : Wallet where
  SeedDomains := ⟨[⟨.blob (cString "a.com"), .blob (cString "n94a1u4jAz288pZLtw6yFWVbr89YamrC6JBXPVUj5zmExe5fTVg9"),
      .text (cString "V")⟩, ⟨.blob (cString "b.com"),
      .blob (cString "n94a1u4jAz288pZLtw6yFWVbr89YamrC6JBXPVUj5zmExe5fTVg9"), .text (cString "W")⟩], by decide⟩
  SeedNodes := Table.empty
  ValidatorReferrals := Table.empty
  TrustedNodes := Table.empty

theorem seededRight_iff_oneKey :
    ∃ st, seeds oneKey = .ok st ∧ (SeededRight oneKey st ↔ OneToOne oneKey.SeedDomains.rows) :=
  ⟨_, rfl, seededRight_iff rfl⟩

/-- The second domain is not entered. -/
theorem second_domain_lost :
    ∃ st, seeds oneKey = .ok st ∧ st.umDomainIdx (cString "b.com") = none ∧ ¬ SeededRight oneKey st := by
  refine ⟨_, rfl, rfl, fun h => ?_⟩
  obtain ⟨iNode, hi, -⟩ := h.domain _ (List.mem_cons_of_mem _ List.mem_cons_self) (by decide)
  cases hi

end Newcoin.UniqueNodeList
