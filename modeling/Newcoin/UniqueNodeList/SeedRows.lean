import Newcoin.UniqueNodeList.SeedSteps
import Newcoin.UniqueNodeList.Validators

/-!
# Domains that are removed

A domain whose `newcoin.txt` is being fetched is in the table, or has been removed.

* `exec_accounted`: no frame loses track of a domain.
* `exec_inv`, `begin_inv`: what every step keeps, as long as no fetch looks up or writes a domain that is
  removed.
* `removed_stays`: the result for runs.
-/

namespace Newcoin.UniqueNodeList.Seeds

open Lib Lib.Sql HttpsClient Fetch NewcoinAddress

variable {env : Functions} {i : Choice}

/-! ### Rows -/

/-- The domain has a row. -/
def Present (s : Shared) (strDomain : Bytes) : Prop := ∃ r ∈ s.SeedDomains.rows, r.strDomain = strDomain

/-- A row is written: its domain is there, and so are the others. -/
lemma present_replace {s s' : Shared} {sd : SeedDomain}
    (h : s'.SeedDomains = replaceSeedDomain env.crypto sd s.SeedDomains) (d : Bytes) :
    Present s' d ↔ d = sd.strDomain ∨ Present s d := by
  unfold Present
  rw [h]
  simp only [mem_replaceSeedDomain]
  constructor
  · rintro ⟨r, rfl | ⟨hr, -⟩, rfl⟩
    · exact .inl rfl
    · exact .inr ⟨r, hr, rfl⟩
  · rintro (rfl | ⟨r, hr, rfl⟩)
    · exact ⟨_, .inl rfl, rfl⟩
    · by_cases hd : r.strDomain = sd.strDomain
      · exact ⟨_, .inl rfl, hd.symm⟩
      · exact ⟨r, .inr ⟨hr, hd⟩, rfl⟩

/-- The domain has a row, or has been removed. -/
def Accounted (s : Shared) (strDomain : Bytes) : Prop := Present s strDomain ∨ strDomain ∈ s.removed

/-! ### The condition -/

/-- No fetch with a good file looks up or writes a domain that is removed and not added again. -/
def noRemoved (env : Functions) : Guard where
  frame _ s
    | .responseFetch strDomain err strSiteFile =>
      (goodFile env strDomain err strSiteFile).isSome → strDomain ∉ s.removed
    | .responseFetchSet c _ _ => c.strDomain ∉ s.removed
    | _ => True
  restart _ := True

/-- What holds between any two steps. -/
structure RowInv (s : Shared) (frames : Multiset Frame) : Prop where
  aborted : s.aborted = false
  removed : ∀ d, Present s d → d ∉ s.removed
  request : ∀ d, .responseFetch d ∈ s.requests → Accounted s d
  fetch : ∀ d err strSiteFile, .responseFetch d err strSiteFile ∈ frames → Accounted s d
  set : ∀ c sd b, .responseFetchSet c sd b ∈ frames → sd.strDomain = c.strDomain

/-! ### What every step keeps -/

/-- What is asked of a frame that is still to run. -/
def CallOk (s : Shared) : Frame → Prop
  | .responseFetch strDomain _ _ => Accounted s strDomain
  | .responseFetchSet c sd _ => sd.strDomain = c.strDomain
  | _ => True

section

variable {s s' : Shared} {f : Frame} {calls : List Frame} {others : Multiset Frame}

lemma RowInv.tail (h : RowInv s (f ::ₘ others)) : RowInv s others where
  aborted := h.aborted
  removed := h.removed
  request := h.request
  fetch d err strSiteFile hd := h.fetch d err strSiteFile (Multiset.mem_cons_of_mem hd)
  set c sd b hc := h.set c sd b (Multiset.mem_cons_of_mem hc)

/-- The frames that are not run stay as they are. -/
lemma RowInv.of_calls (h : RowInv s others) (haborted : s'.aborted = false)
    (hremoved : ∀ d, Present s' d → d ∉ s'.removed) (haccounted : ∀ d, Accounted s d → Accounted s' d)
    (hrequest : ∀ d, .responseFetch d ∈ s'.requests → .responseFetch d ∈ s.requests ∨ Accounted s' d)
    (hcalls : ∀ x ∈ calls, CallOk s' x) : RowInv s' ((calls : Multiset Frame) + others) where
  aborted := haborted
  removed := hremoved
  request d hd := (hrequest d hd).elim (fun hd => haccounted d (h.request d hd)) id
  fetch d err strSiteFile hd := by
    rcases Multiset.mem_add.1 hd with hd | hd
    · exact hcalls _ (Multiset.mem_coe.1 hd)
    · exact haccounted d (h.fetch d err strSiteFile hd)
  set c sd b hc := by
    rcases Multiset.mem_add.1 hc with hc | hc
    · exact hcalls _ (Multiset.mem_coe.1 hc)
    · exact h.set c sd b hc

/-- A frame that touches neither rows nor what is removed. -/
lemma RowInv.quiet (h : RowInv s others) (hdb : s'.SeedDomains = s.SeedDomains)
    (hremoved : s'.removed = s.removed) (haborted : s'.aborted = s.aborted)
    (hrequest : ∀ d, .responseFetch d ∈ s'.requests → .responseFetch d ∈ s.requests)
    (hcalls : ∀ x ∈ calls, CallOk s' x) : RowInv s' ((calls : Multiset Frame) + others) := by
  have hpresent : ∀ d, Present s' d ↔ Present s d := fun d => by rw [Present, Present, hdb]
  refine h.of_calls (haborted.trans h.aborted) ?_ ?_ (fun d hd => .inl (hrequest d hd)) hcalls
  · intro d hd
    rw [hremoved]
    exact h.removed d ((hpresent d).1 hd)
  · intro d hd
    rw [Accounted, hpresent, hremoved]
    exact hd

/-- A row is written. -/
lemma RowInv.write (h : RowInv s others) {sd : SeedDomain}
    (hdb : s'.SeedDomains = replaceSeedDomain env.crypto sd s.SeedDomains)
    (hremoved : s'.removed = s.removed.erase sd.strDomain) (haborted : s'.aborted = s.aborted)
    (hrequest : ∀ d, .responseFetch d ∈ s'.requests → .responseFetch d ∈ s.requests ∨ d = sd.strDomain)
    (hcalls : ∀ x ∈ calls, CallOk s' x) : RowInv s' ((calls : Multiset Frame) + others) := by
  refine h.of_calls (haborted.trans h.aborted) ?_ ?_ ?_ hcalls
  · intro d hd
    rw [hremoved, Finset.mem_erase]
    rintro ⟨hne, hd'⟩
    exact h.removed d (((present_replace hdb d).1 hd).resolve_left hne) hd'
  · rintro d (hd | hd)
    · exact .inl ((present_replace hdb d).2 (.inr hd))
    · by_cases hd' : d = sd.strDomain
      · exact .inl ((present_replace hdb d).2 (.inl hd'))
      · exact .inr (by rw [hremoved]; exact Finset.mem_erase_of_ne_of_mem hd' hd)
  · intro d hd
    refine (hrequest d hd).imp_right fun hd => ?_
    exact .inl ((present_replace hdb d).2 (.inl hd))

/-- Rows are deleted, and noted. -/
lemma RowInv.delete (h : RowInv s others) {p : SeedDomain → Bool}
    (hdb : s'.SeedDomains = s.SeedDomains.delete p)
    (hremoved : ∀ d, d ∈ s'.removed → d ∈ s.removed ∨ ∀ r ∈ s.SeedDomains.rows, r.strDomain = d → p r = true)
    (hkept : s.removed ⊆ s'.removed) (hnoted : ∀ r ∈ s.SeedDomains.rows, p r = true → r.strDomain ∈ s'.removed)
    (haborted : s'.aborted = s.aborted) (hrequest : s'.requests = s.requests) :
    RowInv s' (([] : List Frame) + others) := by
  have hmem : ∀ r, r ∈ s'.SeedDomains.rows ↔ r ∈ s.SeedDomains.rows ∧ p r = false := by
    intro r
    rw [hdb, Table.delete, List.mem_filter]
    simp
  refine h.of_calls (haborted.trans h.aborted) ?_ ?_ (fun d hd => .inl (hrequest ▸ hd)) (by simp)
  · rintro d ⟨r, hr, rfl⟩ hd
    obtain ⟨hr, hp⟩ := (hmem r).1 hr
    rcases hremoved _ hd with hd | hd
    · exact h.removed _ ⟨r, hr, rfl⟩ hd
    · rw [hd r hr rfl] at hp
      cases hp
  · rintro d (⟨r, hr, rfl⟩ | hd)
    · cases hp : p r with
      | true => exact .inr (hnoted r hr hp)
      | false => exact .inl ⟨r, (hmem r).2 ⟨hr, hp⟩, rfl⟩
    · exact .inr (hkept hd)

lemma fetchNextSelect_inv (h : RowInv s others) (hexec : fetchNextSelect env i s = (s', calls)) :
    RowInv s' ((calls : Multiset Frame) + others) := by
  rcases fetchNextSelect_cases hexec with ⟨rfl, tp, rfl⟩ | ⟨rfl, r, hr, sd, hdomain, -, rfl⟩
  · exact h.quiet rfl rfl rfl (fun _ hd => hd) (by simp)
  · refine h.write rfl ?_ rfl ?_ (by simp [CallOk])
    · rw [hdomain]
      exact (Finset.erase_eq_of_notMem (h.removed _ ⟨r, hr, rfl⟩)).symm
    · intro d hd
      refine (List.mem_append.1 hd).imp_right fun hd => ?_
      cases List.mem_singleton.1 hd
      rfl

/-- **A completed fetch**: with a good file it finds the row, unless the domain is removed. -/
lemma responseFetch_inv {strDomain : Bytes} {err : ErrorCode} {strSiteFile : Bytes}
    (h : RowInv s (.responseFetch strDomain err strSiteFile ::ₘ others))
    (hguard : (goodFile env strDomain err strSiteFile).isSome → strDomain ∉ s.removed)
    (hexec : responseFetch env i strDomain err strSiteFile s = (s', calls)) :
    RowInv s' ((calls : Multiset Frame) + others) := by
  obtain ⟨s₁, rfl, hcases⟩ := responseFetch_cases hexec
  rcases hcases with ⟨-, rfl, rfl⟩ | ⟨hgood, hnone, -, -⟩ | ⟨-, rfl, c, hc, -, -, -, -, sd, hsd, -, rfl⟩
  · exact h.tail.quiet rfl rfl rfl (fun _ hd => hd) (by simp [CallOk])
  · obtain ⟨r, hr, hd⟩ := (h.fetch _ _ _ (Multiset.mem_cons_self _ _)).resolve_right (hguard hgood)
    exact absurd hd (hnone r hr)
  · exact h.tail.quiet rfl rfl rfl (fun _ hd => hd) (by simp [CallOk, hsd, hc])

/-- A frame of a chain touches no row. -/
lemma chain_inv (h : RowInv s others) {a : Chain × List Part} (hstage : f.stage = some a)
    (hexec : exec env i s f = (s', calls)) : RowInv s' ((calls : Multiset Frame) + others) := by
  obtain ⟨todo', hstep⟩ := chain_step hstage hexec
  refine h.quiet hstep.SeedDomains hstep.removed hstep.aborted (fun d hd => ?_) fun x hx => ?_
  · refine (hstep.requests _ hd).resolve_right ?_
    rintro ⟨⟩
  · rcases hstep.made x hx with ⟨_, _, _, rfl⟩ | hx | rfl
    · trivial
    · cases x <;> trivial
    · trivial

/-- Rows are deleted by their name, or all of them. -/
lemma delete_inv (h : RowInv s others) (hframe : (∃ strDomain, f = .nodeRemoveDomain strDomain) ∨ f = .nodeReset)
    (hexec : exec env i s f = (s', calls)) : RowInv s' ((calls : Multiset Frame) + others) := by
  rcases hframe with ⟨strDomain, rfl⟩ | rfl
  · cases hexec
    refine h.delete rfl ?_ (Finset.subset_insert _ _) ?_ rfl rfl
    · intro d hd
      rcases Finset.mem_insert.1 hd with rfl | hd
      · exact .inr fun r _ hr => decide_eq_true hr
      · exact .inl hd
    · intro r _ hr
      exact Finset.mem_insert.2 (.inl (of_decide_eq_true hr))
  · cases hexec
    refine h.delete rfl ?_ Finset.subset_union_left ?_ rfl rfl
    · exact fun d _ => .inr fun _ _ _ => rfl
    · intro r hr _
      exact Finset.mem_union_right _ (List.mem_toFinset.2 (List.mem_map_of_mem hr))

/-- **A frame keeps the invariant.** -/
theorem exec_inv (h : RowInv s (f ::ₘ others)) (hguard : (noRemoved env).frame i s f)
    (hexec : exec env i s f = (s', calls)) : RowInv s' ((calls : Multiset Frame) + others) := by
  cases hstage : f.stage with
  | some a => exact chain_inv h.tail hstage hexec
  | none =>
    cases f with
    | fetchNext =>
      simp only [exec] at hexec
      split at hexec <;> cases hexec <;> exact h.tail.quiet rfl rfl rfl (fun _ hd => hd) (by simp [CallOk])
    | fetchNextSelect => exact fetchNextSelect_inv h.tail hexec
    | nodeAddDomain strDomain vsWhy strComment =>
      cases hexec
      refine h.tail.quiet rfl rfl rfl (fun _ hd => hd) fun x hx => ?_
      obtain ⟨sd, rfl, -⟩ := nodeAddDomain_calls hx
      trivial
    | nodeAddDomainSet sd =>
      cases hexec
      refine h.tail.write rfl rfl rfl (fun d hd => .inl hd) fun x hx => ?_
      rw [@setSeedDomains_calls env _ _ _ hx]
      trivial
    | nodeRemoveDomain strDomain => exact delete_inv h.tail (.inl ⟨strDomain, rfl⟩) hexec
    | nodeReset => exact delete_inv h.tail (.inr rfl) hexec
    | responseFetch strDomain err strSiteFile => exact responseFetch_inv h hguard hexec
    | responseFetchSet c sd b =>
      have hdomain : sd.strDomain = c.strDomain := h.set c sd b (Multiset.mem_cons_self _ _)
      cases hexec
      refine h.tail.write rfl ?_ rfl (fun d hd => .inl hd) fun x hx => ?_
      · rw [hdomain]
        exact (Finset.erase_eq_of_notMem hguard).symm
      · rcases List.mem_append.1 hx with hx | hx
        · rw [@setSeedDomains_calls env _ _ _ hx]
          trivial
        · rw [List.mem_singleton.1 hx]
          split <;> trivial
    | fetchFinish strDomain =>
      cases hexec
      exact h.tail.quiet rfl rfl rfl (fun _ hd => hd) (by simp [CallOk])
    | _ => cases hstage

/-- A thread that begins keeps it too. -/
lemma begin_inv (h : RowInv s others) (hbegin : Begin s s' calls) :
    RowInv s' ((calls : Multiset Frame) + others) := by
  cases hbegin with
  | fetchNext => exact h.quiet rfl rfl rfl (fun _ hd => hd) (by simp [CallOk])
  | nodeAddDomain => exact h.quiet rfl rfl rfl (fun _ hd => hd) (by simp [CallOk])
  | nodeRemoveDomain => exact h.quiet rfl rfl rfl (fun _ hd => hd) (by simp [CallOk])
  | nodeReset => exact h.quiet rfl rfl rfl (fun _ hd => hd) (by simp [CallOk])
  | @complete pre post complete hrequests err strData =>
    refine h.quiet rfl rfl rfl (fun d hd => ?_) fun x hx => ?_
    · rw [hrequests]
      rcases List.mem_append.1 hd with hd | hd
      · exact List.mem_append_left _ hd
      · exact List.mem_append_right _ (List.mem_cons_of_mem _ hd)
    · rw [List.mem_singleton.1 hx]
      cases complete with
      | responseFetch d => exact h.request d (by rw [hrequests]; simp)
      | responseValidators c => trivial
      | responseIps c => trivial

end

/-- **Runs that leave removed domains alone**: no `assert` fails, and a domain that was removed has a row
again only if it was added again. -/
theorem removed_stays {s : Threads Shared Frame} (h : Reachable env (noRemoved env) s) :
    s.shared.aborted = false ∧ ∀ r ∈ s.shared.SeedDomains.rows, r.strDomain ∉ s.shared.removed := by
  have hinv : RowInv s.shared s.frames := by
    refine h.invariant ?_ (fun _ _ _ _ _ _ => exec_inv) (fun _ _ _ _ => begin_inv) ?_
    · exact ⟨rfl, by simp [init, Present, Table.empty], by simp [init], by simp, by simp⟩
    · exact fun s hs _ => ⟨rfl, hs.removed, by simp [restart], by simp, by simp⟩
  exact ⟨hinv.aborted, fun r hr => hinv.removed _ ⟨r, hr, rfl⟩⟩

/-- **The condition leaves nothing out**: a fetch that does look up or write a domain that is removed
makes the `assert` fail, or brings the row back. -/
theorem removed_returns {s s' : Shared} {f : Frame} {calls : List Frame} {others : Multiset Frame}
    (h : RowInv s (f ::ₘ others)) (hguard : ¬(noRemoved env).frame i s f) (hexec : exec env i s f = (s', calls)) :
    s'.aborted = true ∨ ∃ r ∈ s'.SeedDomains.rows, r.strDomain ∈ s'.removed := by
  cases f with
  | responseFetch strDomain err strSiteFile =>
    obtain ⟨hgood, hremoved⟩ : (goodFile env strDomain err strSiteFile).isSome ∧ strDomain ∈ s.removed := by
      simpa [noRemoved] using hguard
    obtain ⟨s₁, rfl, hcases⟩ := responseFetch_cases hexec
    rcases hcases with ⟨hnone, -⟩ | ⟨-, -, rfl, -⟩ | ⟨-, -, -, -, -, r, hr, hdomain, -⟩
    · rw [hnone] at hgood
      cases hgood
    · exact .inl rfl
    · exact absurd hremoved (h.removed _ ⟨r, hr, hdomain⟩)
  | responseFetchSet c sd b =>
    have hremoved : c.strDomain ∈ s.removed := by simpa [noRemoved] using hguard
    right
    cases hexec
    refine ⟨sd.stored env.crypto, mem_replaceSeedDomain.2 (.inl rfl), ?_⟩
    have hdomain : (sd.stored env.crypto).strDomain = c.strDomain := h.set c sd b (Multiset.mem_cons_self _ _)
    rw [hdomain]
    exact hremoved
  | _ => exact absurd trivial hguard

/-! ### A fetch that completes too late -/

/-- The clock, nothing to add, nothing that throws. -/
def noon : Choice := ⟨43200, [], false⟩

/-- A good file of `x.com`. -/
def siteFile : Bytes :=
  cString "[domain]\nx.com\n[validation_public_key]\n" ++ referrerText ++
    cString "\n[validators_url]\nhttps://x.com/list\n"

/-- The keys, and the hash of the file. -/
def keys : Functions where
  crypto := twoKeys
  getSHA512Half strData := BaseUInt.ofBytes 256 <|
    if strData = siteFile then
      [44, 0, 61, 233, 46, 239, 63, 53, 119, 230, 90, 137, 112, 14, 131, 74, 189, 68, 37, 128, 201, 195, 31, 88, 62,
        187, 47, 42, 109, 209, 192, 188]
    else []

/-- `x.com` is added, which fetches its file. -/
def added : Shared :=
  (runStack keys noon 8 init.shared [.nodeAddDomain (cString "x.com") .vsManual (cString "mine")]).1

/-- It is removed. -/
def gone : Shared := (runStack keys noon 1 added [.nodeRemoveDomain (cString "x.com")]).1

/-- It is added again. -/
def again : Shared :=
  (runStack keys noon 8 gone [.nodeAddDomain (cString "x.com") .vsManual (cString "mine")]).1

instance (s : Shared) : ∀ f, Decidable ((noRemoved env).frame i s f)
  | .responseFetch _ _ _ => inferInstanceAs (Decidable (_ → _))
  | .responseFetchSet _ _ _ => inferInstanceAs (Decidable (¬_))
  | .fetchNext | .fetchNextSelect | .nodeAddDomain _ _ _ | .nodeAddDomainSet _ | .nodeRemoveDomain _ | .nodeReset
  | .processFile _ | .processFileIps _ | .getValidatorsUrl _ | .responseValidators _ _ | .getIpsUrl _
  | .responseIps _ _ | .fetchFinish _ => isTrue trivial

/-- Added again before the fetch completes: the fetch finds the row. -/
theorem removed_stays_again : ∃ s, Reachable keys (noRemoved keys) s ∧ Present s.shared (cString "x.com") ∧
    s.shared.aborted = false ∧ ∀ r ∈ s.shared.SeedDomains.rows, r.strDomain ∉ s.shared.removed := by
  have hadded := @reachable_begin keys noon (noRemoved keys) _ _ 8 _ _ .refl
    (.nodeAddDomain init.shared (cString "x.com") .vsManual (cString "mine")) (by decide +kernel)
  have hgone := @reachable_begin keys noon (noRemoved keys) _ _ 1 _ _ hadded
    (.nodeRemoveDomain _ (cString "x.com")) (by decide +kernel)
  have hagain := @reachable_begin keys noon (noRemoved keys) _ _ 8 _ _ hgone
    (.nodeAddDomain _ (cString "x.com") .vsManual (cString "mine")) (by decide +kernel)
  have hrequests : again.requests = [] ++ .responseFetch (cString "x.com") :: [.responseFetch (cString "x.com")] := by
    rfl
  have hdone := @reachable_begin keys noon (noRemoved keys) _ _ 8 _ _ hagain
    (.complete hrequests .success siteFile) (by decide +kernel)
  refine ⟨_, hdone, ?_, removed_stays hdone⟩
  unfold Present
  decide +kernel

/-- The fetch completes: the `assert` fails. -/
theorem fetch_of_removed : ∃ s, Reachable keys anything s ∧ s.shared.aborted = true := by
  have hadded := @reachable_begin keys noon anything _ _ 8 _ _ .refl
    (.nodeAddDomain init.shared (cString "x.com") .vsManual (cString "mine")) (meets_anything _ _)
  have hgone := @reachable_begin keys noon anything _ _ 1 _ _ hadded (.nodeRemoveDomain _ (cString "x.com"))
    (meets_anything _ _)
  have hrequests : gone.requests = [] ++ .responseFetch (cString "x.com") :: [] := by
    rfl
  have hdone := @reachable_begin keys noon anything _ _ 1 _ _ hgone (.complete hrequests .success siteFile)
    (meets_anything _ _)
  refine ⟨_, hdone, ?_⟩
  decide +kernel

end Newcoin.UniqueNodeList.Seeds
