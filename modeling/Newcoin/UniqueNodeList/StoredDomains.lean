import Newcoin.UniqueNodeList.SeedRecords
import Newcoin.UniqueNodeList.Validators

/-!
# A seed domain, written and read

`setSeedDomains` writes eight columns in four ways, and `getSeedDomains` undoes each.  Only the sizes of the
strings go through an `int` on the way.

* `getSeedDomains_set`: what is found after a write.
* `domain_survives_iff`: which records are found as they were written, and which lookups see no difference.
-/

namespace Newcoin.UniqueNodeList.SeedRecords

open Lib.Sql NewcoinAddress
open Seeds (iToSeconds ptFromSeconds)

/-- Not set, or seconds that are not negative and an `int`. -/
def IsMoment (tp : Time) : Prop := ∀ n, tp = some n → 0 ≤ n ∧ n < 2 ^ 31

lemma IsMoment.isInt {tp : Time} (h : IsMoment tp) : IsInt (iToSeconds tp) := by
  cases tp with
  | none => exact ⟨by decide, by decide⟩
  | some n => exact ⟨(neg_nonpos.2 (by norm_num)).trans (h n rfl).1, (h n rfl).2⟩

/-- **A time is read back** from its seconds. -/
lemma IsMoment.ptFromSeconds_iToSeconds {tp : Time} (h : IsMoment tp) : ptFromSeconds (iToSeconds tp) = tp := by
  cases tp with
  | none => rfl
  | some n => exact if_neg (not_lt.2 (h n rfl).1)

variable {env : Crypto} {sd : SeedDomain}

/-- The key is not set, or a node's. -/
def IsNodeKey (env : Crypto) (na : NewcoinAddress) : Prop :=
  na = clear ∨ na.nVersion = VER_NODE_PUBLIC ∧ na.isValid env = true

lemma IsNodeKey.version {na : NewcoinAddress} (h : IsNodeKey env na) (hvalid : na.isValid env = true) :
    na.nVersion = VER_NODE_PUBLIC := by
  rcases h with rfl | ⟨hversion, -⟩
  · cases hvalid
  · exact hversion

/-- Such a record comes back as it is. -/
lemma stored_eq_self (hkey : IsNodeKey env sd.naPublicKey) (hnext : IsMoment sd.tpNext) (hscan : IsMoment sd.tpScan)
    (hfetch : IsMoment sd.tpFetch) : sd.stored env = sd := by
  have hpublic : (if sd.naPublicKey.isValid env then sd.naPublicKey else clear) = sd.naPublicKey := by
    rcases hkey with hclear | ⟨-, hvalid⟩
    · rw [hclear, ite_self]
    · exact if_pos hvalid
  rw [SeedDomain.stored, hpublic, hnext.ptFromSeconds_iToSeconds, hscan.ptFromSeconds_iToSeconds,
    hfetch.ptFromSeconds_iToSeconds]

lemma IsNodeKey.length_lt (hpoints : TakesPoints env) {na : NewcoinAddress} (h : IsNodeKey env na)
    (hvalid : na.isValid env = true) : (na.ToString env).length < 2 ^ 31 := by
  obtain ⟨c, cs, htext, -, hlen⟩ := ToString_node hpoints (h.version hvalid) hvalid
  rw [htext, List.length_cons]
  omega

/-- **What is found after a write**: the record, cut, under every name that is cut to its own; under the others
what was found before. -/
lemma getSeedDomains_set (hpoints : TakesPoints env) (hkey : IsNodeKey env sd.naPublicKey) (hnext : IsMoment sd.tpNext)
    (hscan : IsMoment sd.tpScan) (hfetch : IsMoment sd.tpFetch) (db : SeedDomains) :
    ∃ db', setSeedDomains env sd db = .ok db' ∧ ∀ strDomain, getSeedDomains env strDomain db' =
      if Database.cut strDomain = Database.cut sd.strDomain then some sd.cut
      else getSeedDomains env strDomain db := by
  obtain ⟨PublicKey, hset, hcolumn⟩ := @setSeedDomains_cut env sd hkey.version db
  obtain rfl := hcolumn (hkey.length_lt hpoints)
  -- what is left of the strings does not matter here
  obtain ⟨d, hd⟩ : ∃ d, Database.cut sd.strDomain = d := ⟨_, rfl⟩
  obtain ⟨c, hc⟩ : ∃ c, Database.cut sd.strComment = c := ⟨_, rfl⟩
  have hcut : sd.cut = ⟨{ sd.toSeedNode with strComment := c }, d⟩ := by rw [SeedDomain.cut, hd, hc]
  rw [hcut] at hset ⊢
  have hread := @readDomain_writtenRow env ⟨{ sd.toSeedNode with strComment := c }, d⟩ hkey.version hnext.isInt
    hscan.isInt hfetch.isInt
  rw [@stored_eq_self env ⟨{ sd.toSeedNode with strComment := c }, d⟩ hkey hnext hscan hfetch] at hread
  refine ⟨_, hset, fun strDomain => ?_⟩
  rw [getSeedDomains_cut, getSeedDomains_cut, Table.find_replace, hd]
  by_cases hname : Database.cut strDomain = d
  · rw [hname, if_pos rfl, if_pos rfl, Option.map_some]
    exact congrArg some hread
  · rw [if_neg hname, if_neg fun he => hname (Value.blob.inj he).symm]

lemma cut_eq_self_iff : sd.cut = sd ↔ sd.strDomain.length < 2 ^ 31 ∧ sd.strComment.length < 2 ^ 31 := by
  constructor
  · intro h
    have hdomain := congrArg SeedDomain.strDomain h
    have hcomment := congrArg (fun sd => sd.strComment) h
    simp only [SeedDomain.cut, Database.cut_eq_self_iff] at hdomain hcomment
    exact ⟨hdomain, hcomment⟩
  · rintro ⟨hdomain, hcomment⟩
    exact SeedDomain.cut_eq_self hdomain hcomment

/-- A row of the table is the record. -/
def Held (env : Crypto) (sd : SeedDomain) (db : SeedDomains) : Prop :=
  ∃ row ∈ db.rows, row.Domain = .blob sd.strDomain ∧ readDomain env row = sd

/-- **Which records survive**: those whose strings have a size that is an `int`; and a lookup of another domain sees
no difference if the other domain is not written like theirs, or the table held the record before. -/
theorem domain_survives_iff (hpoints : TakesPoints env) (hkey : IsNodeKey env sd.naPublicKey)
    (hnext : IsMoment sd.tpNext) (hscan : IsMoment sd.tpScan) (hfetch : IsMoment sd.tpFetch) (db : SeedDomains)
    (strOther : Bytes) :
    ∃ db', setSeedDomains env sd db = .ok db' ∧
      ((getSeedDomains env sd.strDomain db' = some sd ∧
          (strOther ≠ sd.strDomain → getSeedDomains env strOther db' = getSeedDomains env strOther db)) ↔
        sd.strDomain.length < 2 ^ 31 ∧ sd.strComment.length < 2 ^ 31 ∧
          (strOther ≠ sd.strDomain → Database.escape strOther = Database.escape sd.strDomain → Held env sd db)) := by
  obtain ⟨db', hset, hget⟩ := getSeedDomains_set hpoints hkey hnext hscan hfetch db
  refine ⟨db', hset, ?_⟩
  rw [hget, hget, if_pos rfl, Option.some_inj, cut_eq_self_iff, and_assoc, and_congr_right_iff, and_congr_right_iff]
  intro hdomain hcomment
  rw [SeedDomain.cut_eq_self hdomain hcomment, Database.escape_inj_iff]
  refine imp_congr_right fun _ => ?_
  by_cases hcut : Database.cut strOther = Database.cut sd.strDomain
  · rw [if_pos hcut, getSeedDomains_cut, hcut, Database.cut_eq_self_iff.2 hdomain, eq_comm, Option.map_eq_some_iff]
    simp only [Table.find_eq_some, Held, and_assoc, true_imp_iff]
  · rw [if_neg hcut]
    simp only [hcut, false_imp_iff]

/-- A domain that is looked up next to another. -/
def fetched : SeedDomain :=
  ⟨⟨referrer, 86, some 43200, some 43100, none, BaseUInt.zero 256, cString "first"⟩, cString "x.com"⟩

theorem domain_survives_iff_fetched : ∃ db', setSeedDomains twoKeys fetched Table.empty = .ok db' ∧
    ((getSeedDomains twoKeys fetched.strDomain db' = some fetched ∧
        (cString "y.com" ≠ fetched.strDomain →
          getSeedDomains twoKeys (cString "y.com") db' = getSeedDomains twoKeys (cString "y.com") Table.empty)) ↔
      fetched.strDomain.length < 2 ^ 31 ∧ fetched.strComment.length < 2 ^ 31 ∧
        (cString "y.com" ≠ fetched.strDomain →
          Database.escape (cString "y.com") = Database.escape fetched.strDomain → Held twoKeys fetched Table.empty)) :=
  domain_survives_iff takesPoints_twoKeys (.inr ⟨rfl, by decide⟩) (by rintro n ⟨⟩; omega) (by rintro n ⟨⟩; omega)
    (by rintro n ⟨⟩) Table.empty (cString "y.com")

/-- A comment of 2^31 bytes is not found again. -/
theorem long_comment_changed :
    let sd := { fetched with strComment := List.replicate (2 ^ 31) 0 }
    ∃ db', setSeedDomains twoKeys sd Table.empty = .ok db' ∧ getSeedDomains twoKeys sd.strDomain db' ≠ some sd := by
  intro sd
  have hlen : sd.strComment.length = 2 ^ 31 := List.length_replicate
  obtain ⟨db', hset, hget⟩ := @getSeedDomains_set twoKeys sd takesPoints_twoKeys (.inr ⟨rfl, by decide⟩)
    (by rintro n ⟨⟩; omega) (by rintro n ⟨⟩; omega) (by rintro n ⟨⟩) Table.empty
  refine ⟨db', hset, ?_⟩
  rw [hget, if_pos rfl]
  intro h
  have hshort := (cut_eq_self_iff.1 (Option.some_inj.1 h)).2
  omega

end Newcoin.UniqueNodeList.SeedRecords
