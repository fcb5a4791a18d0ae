import Newcoin.UniqueNodeList.SeedRows

/-!
# Stored checksums

The checksum of a `newcoin.txt` is written before the file is processed.

* `Keeps`, `SumInv.next`: a step after which every chain goes on, or has processed its file.
* `exec_sums`, `begin_sums`: what every step keeps, as long as no chain gives up on a part of its file.
* `checksums_applied`: the result for runs; `skips_left_out`: what a step outside the condition does.
-/

namespace Newcoin.UniqueNodeList.Seeds

open Lib Lib.Sql HttpsClient Fetch NewcoinAddress

/-! ### The law -/

/-- All that a file leads to has been processed. -/
def Applied (s : Shared) (strDomain strSiteFile : Bytes) : Prop :=
  ∀ p, required strSiteFile p = true → (strDomain, strSiteFile, p) ∈ s.processed

/-- The domain whose fetch a frame is part of. -/
def Frame.fetching (f : Frame) : Option Bytes :=
  match f with
  | .responseFetch strDomain _ _ | .fetchFinish strDomain => some strDomain
  | .responseFetchSet c _ _ => some c.strDomain
  | f => f.stage.map fun a => a.1.strDomain

def Request.fetching (q : Request) : Option Bytes :=
  match q with
  | .responseFetch strDomain => some strDomain
  | q => q.stage.map fun a => a.1.strDomain

/-- No fetch of the domain is in flight. -/
def Idle (s : Threads Shared Frame) (strDomain : Bytes) : Prop :=
  (∀ q ∈ s.shared.requests, q.fetching ≠ some strDomain) ∧ ∀ f ∈ s.frames, f.fetching ≠ some strDomain

/-- The file last downloaded for the domain. -/
def lastDownload (s : Shared) (strDomain : Bytes) : Option Bytes :=
  ((s.downloads.filter fun a => a.1 = strDomain).getLast?).map Prod.snd

/-- No fetch of the domain is in flight, and its row has the checksum of the file last downloaded: the next
fetch of the same file is skipped. -/
def Settled (env : Functions) (s : Threads Shared Frame) (strDomain strSiteFile : Bytes) : Prop :=
  Idle s strDomain ∧ lastDownload s.shared strDomain = some strSiteFile ∧
    ∃ r ∈ s.shared.SeedDomains.rows, r.strDomain = strDomain ∧ r.iSha256 = env.getSHA512Half strSiteFile

/-- A stored checksum means that the file was applied. -/
def ChecksumsApplied (env : Functions) (s : Threads Shared Frame) : Prop :=
  ∀ strDomain strSiteFile, Settled env s strDomain strSiteFile → Applied s.shared strDomain strSiteFile

/-! ### The condition -/

/-- A chain has something to do after the checksum is written. -/
def InFlight (s : Shared) (frames : Multiset Frame) (c : Chain) (todo : List Part) : Prop :=
  (∃ q ∈ s.requests, q.stage = some (c, todo)) ∨ ∃ f ∈ frames, f.stage = some (c, todo)

/-- Nothing that is downloaded has the checksum of a new row, or of another file of the domain; what a
chain gives up on was processed before. -/
def applies (env : Functions) : Guard where
  frame i s f :=
    (∀ a ∈ f.download, env.getSHA512Half a.2 ≠ BaseUInt.zero 256 ∧
      ∀ b ∈ s.downloads, b.1 = a.1 → env.getSHA512Half b.2 = env.getSHA512Half a.2 → b.2 = a.2) ∧
    ∀ a ∈ f.skips i, required a.1.strSiteFile a.2 = true → Done s a.1 a.2
  restart s := ∀ c todo, InFlight s.shared s.frames c todo → Applied s.shared c.strDomain c.strSiteFile

variable {env : Functions} {i : Choice}

/-! ### Checksums that may be in a row -/

/-- Applied, or about to be. -/
def Covered (s : Shared) (frames : Multiset Frame) (strDomain strSiteFile : Bytes) : Prop :=
  Applied s strDomain strSiteFile ∨
    ∃ c todo, InFlight s frames c todo ∧ c.strDomain = strDomain ∧ c.strSiteFile = strSiteFile

/-- The checksum of a new row, or of a file that is covered. -/
def Good (env : Functions) (s : Shared) (frames : Multiset Frame) (strDomain : Bytes) (iSha256 : BaseUInt 256) :
    Prop :=
  iSha256 = BaseUInt.zero 256 ∨ ∃ strSiteFile, env.getSHA512Half strSiteFile = iSha256 ∧
    (strDomain, strSiteFile) ∈ s.downloads ∧ Covered s frames strDomain strSiteFile

/-- What is asked of a record that is about to be written. -/
def Held (env : Functions) (s : Shared) (frames : Multiset Frame) : Frame → Prop
  | .nodeAddDomainSet sd => Good env s frames sd.strDomain sd.iSha256
  | .responseFetchSet c sd bChangedB =>
    sd.strDomain = c.strDomain ∧ sd.iSha256 = env.getSHA512Half c.strSiteFile ∧
      (c.strDomain, c.strSiteFile) ∈ s.downloads ∧ (bChangedB = false → Good env s frames sd.strDomain sd.iSha256)
  | _ => True

/-- What holds between any two steps. -/
structure SumInv (env : Functions) (s : Shared) (frames : Multiset Frame) : Prop where
  nonzero : ∀ a ∈ s.downloads, env.getSHA512Half a.2 ≠ BaseUInt.zero 256
  inj : ∀ a ∈ s.downloads, ∀ b ∈ s.downloads, a.1 = b.1 → env.getSHA512Half a.2 = env.getSHA512Half b.2 → a.2 = b.2
  row : ∀ r ∈ s.SeedDomains.rows, Good env s frames r.strDomain r.iSha256
  held : ∀ f ∈ frames, Held env s frames f
  chain : ∀ c todo, InFlight s frames c todo → ∀ p, required c.strSiteFile p = true → Done s c p ∨ p ∈ todo

/-- Nothing is forgotten, and every chain goes on, or has processed its file. -/
structure Keeps (s s' : Shared) (frames frames' : Multiset Frame) : Prop where
  downloads : s.downloads ⊆ s'.downloads
  processed : s.processed ⊆ s'.processed
  chain : ∀ c todo, InFlight s frames c todo →
    Applied s' c.strDomain c.strSiteFile ∨ ∃ todo', InFlight s' frames' c todo'

section

variable {s s' : Shared} {frames frames' : Multiset Frame}

lemma Keeps.covered (h : Keeps s s' frames frames') {d f : Bytes} (hc : Covered s frames d f) :
    Covered s' frames' d f := by
  rcases hc with hc | ⟨c, todo, hc, rfl, rfl⟩
  · exact .inl fun p hp => h.processed (hc p hp)
  · rcases h.chain c todo hc with hc | ⟨todo', hc⟩
    · exact .inl hc
    · exact .inr ⟨c, todo', hc, rfl, rfl⟩

lemma Keeps.good (h : Keeps s s' frames frames') {d : Bytes} {sha : BaseUInt 256} (hg : Good env s frames d sha) :
    Good env s' frames' d sha := by
  rcases hg with hg | ⟨f, hsha, hdown, hc⟩
  · exact .inl hg
  · exact .inr ⟨f, hsha, h.downloads hdown, h.covered hc⟩

lemma Keeps.held (h : Keeps s s' frames frames') {f : Frame} (hf : Held env s frames f) : Held env s' frames' f := by
  cases f with
  | nodeAddDomainSet sd => exact h.good hf
  | responseFetchSet c sd b => exact ⟨hf.1, hf.2.1, h.downloads hf.2.2.1, fun hb => h.good (hf.2.2.2 hb)⟩
  | _ => trivial

/-- **The rule for a step** that downloads nothing. -/
lemma SumInv.next (h : SumInv env s frames) (hk : Keeps s s' frames frames') (hdownloads : s'.downloads = s.downloads)
    (hrow : ∀ r ∈ s'.SeedDomains.rows,
      Good env s frames r.strDomain r.iSha256 ∨ Good env s' frames' r.strDomain r.iSha256)
    (hheld : ∀ x ∈ frames', Held env s frames x)
    (hchain : ∀ c todo, InFlight s' frames' c todo → InFlight s frames c todo ∨
      ∀ p, required c.strSiteFile p = true → Done s' c p ∨ p ∈ todo) : SumInv env s' frames' where
  nonzero := by rw [hdownloads]; exact h.nonzero
  inj := by rw [hdownloads]; exact h.inj
  row r hr := (hrow r hr).elim hk.good id
  held x hx := hk.held (hheld x hx)
  chain c todo hc p hp := by
    rcases hchain c todo hc with hc | hc
    · exact (h.chain c todo hc p hp).imp_left fun hd => hk.processed hd
    · exact hc p hp

end

/-! ### What every frame keeps -/

section

variable {s s' : Shared} {f : Frame} {calls : List Frame} {others : Multiset Frame}

lemma inFlight_add {frames : Multiset Frame} {c : Chain} {todo : List Part} :
    InFlight s (frames + others) c todo ↔ InFlight s frames c todo ∨ ∃ x ∈ others, x.stage = some (c, todo) := by
  simp only [InFlight, Multiset.mem_add, or_and_right, exists_or, or_assoc]

lemma inFlight_coe {c : Chain} {todo : List Part} :
    InFlight s (calls : Multiset Frame) c todo ↔
      (∃ q ∈ s.requests, q.stage = some (c, todo)) ∨ ∃ x ∈ calls, x.stage = some (c, todo) := by
  simp only [InFlight, Multiset.mem_coe]

/-- **The rule for a frame**: its own chain, and the frames and requests that it makes. -/
lemma SumInv.run (h : SumInv env s (f ::ₘ others)) (hdownloads : s'.downloads = s.downloads)
    (hprocessed : s.processed ⊆ s'.processed) (hrequests : s.requests ⊆ s'.requests)
    (hstage : ∀ c todo, f.stage = some (c, todo) →
      Applied s' c.strDomain c.strSiteFile ∨ ∃ todo', InFlight s' (calls : Multiset Frame) c todo')
    (hrow : ∀ r ∈ s'.SeedDomains.rows, Good env s (f ::ₘ others) r.strDomain r.iSha256 ∨
      Good env s' ((calls : Multiset Frame) + others) r.strDomain r.iSha256)
    (hheld : ∀ x ∈ calls, Held env s (f ::ₘ others) x)
    (hnew : ∀ c todo, InFlight s' (calls : Multiset Frame) c todo → (∃ q ∈ s.requests, q.stage = some (c, todo)) ∨
      ∀ p, required c.strSiteFile p = true → Done s' c p ∨ p ∈ todo) :
    SumInv env s' ((calls : Multiset Frame) + others) := by
  refine h.next ⟨hdownloads ▸ List.Subset.refl _, hprocessed, ?_⟩ hdownloads hrow ?_ ?_
  · rintro c todo (⟨q, hq, hqs⟩ | ⟨x, hx, hxs⟩)
    · exact .inr ⟨todo, .inl ⟨q, hrequests hq, hqs⟩⟩
    · rcases Multiset.mem_cons.1 hx with rfl | hx
      · exact (hstage c todo hxs).imp_right fun ⟨todo', hc⟩ => ⟨todo', inFlight_add.2 (.inl hc)⟩
      · exact .inr ⟨todo, inFlight_add.2 (.inr ⟨x, hx, hxs⟩)⟩
  · intro x hx
    rcases Multiset.mem_add.1 hx with hx | hx
    · exact hheld x (Multiset.mem_coe.1 hx)
    · exact h.held x (Multiset.mem_cons_of_mem hx)
  · intro c todo hc
    rcases inFlight_add.1 hc with hc | ⟨x, hx, hxs⟩
    · exact (hnew c todo hc).imp_left .inl
    · exact .inl (.inr ⟨x, Multiset.mem_cons_of_mem hx, hxs⟩)

/-- A frame before the checksum is written, or after the chain. -/
lemma SumInv.outside (h : SumInv env s (f ::ₘ others)) (hf : f.stage = none) (hdownloads : s'.downloads = s.downloads)
    (hprocessed : s'.processed = s.processed) (hkept : s.requests ⊆ s'.requests)
    (hrequests : ∀ q ∈ s'.requests, q ∈ s.requests ∨ q.stage = none)
    (hrow : ∀ r ∈ s'.SeedDomains.rows, Good env s (f ::ₘ others) r.strDomain r.iSha256 ∨
      Good env s' ((calls : Multiset Frame) + others) r.strDomain r.iSha256)
    (hheld : ∀ x ∈ calls, Held env s (f ::ₘ others) x)
    (hcalls : ∀ x ∈ calls, ∀ c todo, x.stage = some (c, todo) → ∀ p, p ∈ todo) :
    SumInv env s' ((calls : Multiset Frame) + others) := by
  refine h.run hdownloads (hprocessed ▸ List.Subset.refl _) hkept ?_ hrow hheld fun c todo hc => ?_
  · intro c todo hc
    rw [hf] at hc
    cases hc
  · rcases inFlight_coe.1 hc with ⟨q, hq, hqs⟩ | ⟨x, hx, hxs⟩
    · rcases hrequests q hq with hq | hq
      · exact .inl ⟨q, hq, hqs⟩
      · rw [hq] at hqs
        cases hqs
    · exact .inr fun p _ => .inr (hcalls x hx c todo hxs p)

/-- Such a frame that writes no row and makes no request. -/
lemma SumInv.quiet (h : SumInv env s (f ::ₘ others)) (hf : f.stage = none)
    (hrow : ∀ r ∈ s'.SeedDomains.rows, r ∈ s.SeedDomains.rows) (hdownloads : s'.downloads = s.downloads)
    (hprocessed : s'.processed = s.processed) (hrequests : s'.requests = s.requests)
    (hcalls : ∀ x ∈ calls, Held env s (f ::ₘ others) x ∧ x.stage = none) :
    SumInv env s' ((calls : Multiset Frame) + others) := by
  refine h.outside hf hdownloads hprocessed (hrequests ▸ List.Subset.refl _) (fun q hq => .inl (hrequests ▸ hq))
    (fun r hr => .inl (h.row r (hrow r hr))) (fun x hx => (hcalls x hx).1) fun x hx c todo hc => ?_
  rw [(hcalls x hx).2] at hc
  cases hc

/-- A frame of a chain that gives up on nothing new. -/
lemma SumInv.advance {c : Chain} {todo todo' : List Part} (h : SumInv env s (f ::ₘ others))
    (hf : f.stage = some (c, todo)) (hstep : ChainStep (f.skips i) s s' calls c todo todo')
    (hskips : ∀ a ∈ f.skips i, required a.1.strSiteFile a.2 = true → Done s a.1 a.2) :
    SumInv env s' ((calls : Multiset Frame) + others) := by
  have hleft : ∀ p, required c.strSiteFile p = true → Done s' c p ∨ p ∈ todo' := by
    intro p hp
    rcases h.chain c todo (.inr ⟨f, Multiset.mem_cons_self _ _, hf⟩) p hp with hd | hd
    · exact .inl (hstep.processed hd)
    · rcases hstep.done p hd hp with hd | hd | hd
      · exact .inl hd
      · exact .inl (hstep.processed (hskips _ hd hp))
      · exact .inr hd
  have honly : ∀ {c₁ todo₁}, some (c, todo') = some (c₁, todo₁) →
      ∀ p, required c₁.strSiteFile p = true → Done s' c₁ p ∨ p ∈ todo₁ := by
    intro c₁ todo₁ heq
    cases heq
    exact hleft
  have hrow := fun r hr => h.row r (hstep.SeedDomains ▸ hr)
  refine h.run hstep.downloads hstep.processed hstep.kept ?_ (fun r hr => .inl (hrow r hr)) ?_ ?_
  · intro c₁ todo₁ hc
    rw [hf] at hc
    cases hc
    rcases hstep.next with rfl | hnext
    · exact .inl fun p hp => (hleft p hp).resolve_right List.not_mem_nil
    · exact .inr ⟨todo', inFlight_coe.2 hnext⟩
  · intro x hx
    rcases hstep.made x hx with ⟨_, _, _, rfl⟩ | hx | rfl
    · trivial
    · cases x <;> trivial
    · trivial
  · intro c₁ todo₁ hc
    rcases inFlight_coe.1 hc with ⟨q, hq, hqs⟩ | ⟨x, hx, hxs⟩
    · rcases hstep.requests q hq with hq | hq
      · exact .inl ⟨q, hq, hqs⟩
      · exact .inr (honly (hq.symm.trans hqs))
    · rcases hstep.made x hx with ⟨_, _, _, rfl⟩ | hx | rfl
      · cases hxs
      · exact .inr (honly (hx.symm.trans hxs))
      · cases hxs

/-- A file may be downloaded. -/
lemma SumInv.download {frames : Multiset Frame} (h : SumInv env s frames) {file : Option (Bytes × Bytes)}
    (hfile : ∀ a ∈ file, env.getSHA512Half a.2 ≠ BaseUInt.zero 256 ∧
      ∀ b ∈ s.downloads, b.1 = a.1 → env.getSHA512Half b.2 = env.getSHA512Half a.2 → b.2 = a.2) :
    SumInv env { s with downloads := s.downloads ++ file.toList } frames := by
  have hk : Keeps s { s with downloads := s.downloads ++ file.toList } frames frames :=
    ⟨List.subset_append_left _ _, List.Subset.refl _, fun c todo hc => .inr ⟨todo, hc⟩⟩
  refine ⟨?_, ?_, fun r hr => hk.good (h.row r hr), fun f hf => hk.held (h.held f hf), h.chain⟩
  · intro a ha
    rcases List.mem_append.1 ha with ha | ha
    · exact h.nonzero a ha
    · exact (hfile a (Option.mem_toList.1 ha)).1
  · intro a ha b hb hdomain hsha
    rcases List.mem_append.1 ha with ha | ha <;> rcases List.mem_append.1 hb with hb | hb
    · exact h.inj a ha b hb hdomain hsha
    · exact (hfile b (Option.mem_toList.1 hb)).2 a ha hdomain hsha
    · exact ((hfile a (Option.mem_toList.1 ha)).2 b hb hdomain.symm hsha.symm).symm
    · rw [Option.mem_unique (Option.mem_toList.1 ha) (Option.mem_toList.1 hb)]

/-- **A completed fetch**: the record it is about to write has the checksum of a file just downloaded. -/
lemma responseFetch_sums {strDomain : Bytes} {err : ErrorCode} {strSiteFile : Bytes}
    (h : SumInv env s (.responseFetch strDomain err strSiteFile ::ₘ others))
    (hguard : (applies env).frame i s (.responseFetch strDomain err strSiteFile))
    (hexec : responseFetch env i strDomain err strSiteFile s = (s', calls)) :
    SumInv env s' ((calls : Multiset Frame) + others) := by
  obtain ⟨s₁, hs₁, hcases⟩ := responseFetch_cases hexec
  have h₁ : SumInv env s₁ (.responseFetch strDomain err strSiteFile ::ₘ others) := hs₁ ▸ h.download hguard.1
  rcases hcases with ⟨-, rfl, rfl⟩ | ⟨-, -, rfl, rfl⟩ |
    ⟨hgood, rfl, c, rfl, rfl, r, hr, hdomain, sd, hsd, hsha, rfl⟩
  · exact h₁.quiet rfl (fun _ hr => hr) rfl rfl rfl (by simp [Held, Frame.stage])
  · exact h₁.quiet rfl (fun _ hr => hr) rfl rfl rfl (by simp)
  · refine h₁.quiet rfl (fun _ hr => hr) rfl rfl rfl fun x hx => ?_
    rw [List.mem_singleton.1 hx]
    refine ⟨⟨hsd, hsha, ?_, fun hb => ?_⟩, rfl⟩
    · rw [hs₁, download_of_good hgood]
      exact List.mem_append_right _ (List.mem_singleton_self _)
    · -- The file is not new: its checksum is that of the row.
      have hrow := h₁.row r (hs₁ ▸ hr)
      rw [hdomain, of_not_not (of_decide_eq_false hb)] at hrow
      rw [hsd, hsha]
      exact hrow

lemma fetchNextSelect_sums (h : SumInv env s (.fetchNextSelect ::ₘ others))
    (hexec : fetchNextSelect env i s = (s', calls)) : SumInv env s' ((calls : Multiset Frame) + others) := by
  rcases fetchNextSelect_cases hexec with ⟨rfl, tp, rfl⟩ | ⟨rfl, r, hr, sd, hdomain, hsha, rfl⟩
  · exact h.quiet rfl (fun _ hr => hr) rfl rfl rfl (by simp)
  · refine h.outside rfl rfl rfl (List.subset_append_left _ _) ?_ ?_ (by simp [Held]) (by simp [Frame.stage])
    · intro q hq
      refine (List.mem_append.1 hq).imp_right fun hq => ?_
      rw [List.mem_singleton.1 hq]
      rfl
    · intro r' hr'
      rcases mem_replaceSeedDomain.1 hr' with rfl | ⟨hr', -⟩
      · have hrow := h.row r hr
        rw [← hdomain, ← hsha] at hrow
        exact .inl hrow
      · exact .inl (h.row r' hr')

/-- A record is written. -/
lemma SumInv.write (h : SumInv env s (f ::ₘ others)) {sd : SeedDomain} {removed : Finset Bytes} {rest : List Frame}
    (hf : f.stage = none)
    (hgood : Good env s (f ::ₘ others) sd.strDomain sd.iSha256 ∨
      Good env (setSeedDomains env sd { s with removed := removed }).1
        (((setSeedDomains env sd { s with removed := removed }).2 ++ rest : List Frame) + others) sd.strDomain
        sd.iSha256)
    (hheld : ∀ x ∈ rest, Held env s (f ::ₘ others) x)
    (hrest : ∀ x ∈ rest, ∀ c todo, x.stage = some (c, todo) → ∀ p, p ∈ todo) :
    SumInv env (setSeedDomains env sd { s with removed := removed }).1
      (((setSeedDomains env sd { s with removed := removed }).2 ++ rest : List Frame) + others) := by
  refine h.outside hf rfl rfl (List.Subset.refl _) (fun q hq => .inl hq) ?_ ?_ ?_
  · intro r hr
    rcases mem_replaceSeedDomain.1 hr with rfl | ⟨hr, -⟩
    · exact hgood
    · exact .inl (h.row r hr)
  · intro x hx
    rcases List.mem_append.1 hx with hx | hx
    · rw [@setSeedDomains_calls env _ _ _ hx]
      trivial
    · exact hheld x hx
  · intro x hx
    rcases List.mem_append.1 hx with hx | hx
    · rw [@setSeedDomains_calls env _ _ _ hx]
      rintro c todo ⟨⟩
    · exact hrest x hx

/-- The record of a completed fetch is written: either its checksum was good already, or its chain starts. -/
lemma responseFetchSet_sums {c : Chain} {sd : SeedDomain} {b : Bool}
    (h : SumInv env s (.responseFetchSet c sd b ::ₘ others))
    (hexec : exec env i s (.responseFetchSet c sd b) = (s', calls)) :
    SumInv env s' ((calls : Multiset Frame) + others) := by
  obtain ⟨hdomain, hsha, hdown, hunchanged⟩ := h.held _ (Multiset.mem_cons_self _ _)
  cases hexec
  refine @SumInv.write env _ _ _ h sd s.removed [if b then .processFile c else .fetchFinish c.strDomain] rfl ?_ ?_ ?_
  · cases b with
    | false => exact .inl (hunchanged rfl)
    | true =>
      -- The new checksum is good because the chain starts.
      refine .inr (.inr ⟨c.strSiteFile, hsha.symm, hdomain ▸ hdown, .inr ⟨c, _, .inr ⟨.processFile c, ?_, rfl⟩, ?_⟩⟩)
      · exact Multiset.mem_add.2 (.inl (Multiset.mem_coe.2 (List.mem_append_right _ (List.mem_singleton_self _))))
      · exact ⟨hdomain.symm, rfl⟩
  · intro x hx
    rw [List.mem_singleton.1 hx]
    split <;> trivial
  · intro x hx c' todo hc p
    rw [List.mem_singleton.1 hx] at hc
    cases b with
    | false => cases hc
    | true =>
      cases hc
      cases p <;> simp

/-- **A frame keeps the invariant.** -/
theorem exec_sums (h : SumInv env s (f ::ₘ others)) (hguard : (applies env).frame i s f)
    (hexec : exec env i s f = (s', calls)) : SumInv env s' ((calls : Multiset Frame) + others) := by
  cases hstage : f.stage with
  | some a =>
    obtain ⟨todo', hstep⟩ := chain_step hstage hexec
    exact h.advance hstage hstep hguard.2
  | none =>
    cases f with
    | fetchNext =>
      simp only [exec] at hexec
      split at hexec <;> cases hexec <;>
        exact h.quiet rfl (fun _ hr => hr) rfl rfl rfl (by simp [Held, Frame.stage])
    | fetchNextSelect => exact fetchNextSelect_sums h hexec
    | nodeAddDomain strDomain vsWhy strComment =>
      cases hexec
      refine h.quiet rfl (fun _ hr => hr) rfl rfl rfl fun x hx => ?_
      obtain ⟨sd, rfl, hsd⟩ := nodeAddDomain_calls hx
      refine ⟨?_, rfl⟩
      rcases hsd with hsd | ⟨r, hr, hdomain, hsha⟩
      · exact .inl hsd
      · have hrow := h.row r hr
        rw [hdomain, hsha] at hrow
        exact hrow
    | nodeAddDomainSet sd =>
      cases hexec
      have hgood := h.held _ (Multiset.mem_cons_self _ _)
      have hwrite := @SumInv.write env _ _ _ h sd (s.removed.erase sd.strDomain) [] rfl (.inl hgood) (by simp)
        (by simp)
      rwa [List.append_nil] at hwrite
    | nodeRemoveDomain strDomain =>
      cases hexec
      exact h.quiet rfl (fun _ hr => List.mem_of_mem_filter hr) rfl rfl rfl (by simp)
    | nodeReset =>
      cases hexec
      exact h.quiet rfl (fun _ hr => List.mem_of_mem_filter hr) rfl rfl rfl (by simp)
    | responseFetch strDomain err strSiteFile => exact responseFetch_sums h hguard hexec
    | responseFetchSet c sd b => exact responseFetchSet_sums h hexec
    | fetchFinish strDomain =>
      cases hexec
      exact h.quiet rfl (fun _ hr => hr) rfl rfl rfl (by simp [Held, Frame.stage])
    | _ => cases hstage

lemma invoke_stage (q : Request) (err : ErrorCode) (strData : Bytes) : (q.invoke err strData).stage = q.stage := by
  cases q <;> rfl

/-- A thread that begins: the chain of a request goes on in the thread. -/
lemma begin_inFlight (hbegin : Begin s s' calls) {c : Chain} {todo : List Part} :
    InFlight s' ((calls : Multiset Frame) + others) c todo ↔ InFlight s others c todo := by
  cases hbegin with
  | @complete pre post complete hrequests err strData =>
    simp only [InFlight, hrequests, Multiset.mem_add, Multiset.mem_coe, List.mem_append, List.mem_cons,
      List.not_mem_nil, or_false, or_and_right, exists_or, exists_eq_left, invoke_stage, or_assoc, or_left_comm]
  | _ => simp [InFlight, or_and_right, exists_or, Frame.stage]

/-- **A thread that begins keeps it too.** -/
lemma begin_sums (h : SumInv env s others) (hbegin : Begin s s' calls) :
    SumInv env s' ((calls : Multiset Frame) + others) := by
  obtain ⟨hdb, hdownloads, hprocessed⟩ :
      s'.SeedDomains = s.SeedDomains ∧ s'.downloads = s.downloads ∧ s'.processed = s.processed := by
    cases hbegin <;> exact ⟨rfl, rfl, rfl⟩
  have hcalls : ∀ x ∈ calls, Held env s others x := by
    cases hbegin with
    | @complete pre post complete hrequests err strData => cases complete <;> simp [Request.invoke, Held]
    | _ => simp [Held]
  refine h.next ⟨hdownloads ▸ List.Subset.refl _, hprocessed ▸ List.Subset.refl _, ?_⟩ hdownloads
    (fun r hr => .inl (h.row r (hdb ▸ hr))) ?_ fun c todo hc => .inl ((begin_inFlight hbegin).1 hc)
  · exact fun c todo hc => .inr ⟨todo, (begin_inFlight hbegin).2 hc⟩
  · intro x hx
    rcases Multiset.mem_add.1 hx with hx | hx
    · exact hcalls x (Multiset.mem_coe.1 hx)
    · exact h.held x hx

end

theorem sums {s : Threads Shared Frame} (h : Reachable env (applies env) s) : SumInv env s.shared s.frames := by
  refine h.invariant ?_ (fun _ _ _ _ _ _ => exec_sums) (fun _ _ _ _ => begin_sums) ?_
  · exact ⟨by simp [init], by simp [init], by simp [init, Table.empty], by simp, by simp [init, InFlight]⟩
  · intro s hs hmay
    refine hs.next ⟨List.Subset.refl _, List.Subset.refl _, fun c todo hc => .inl (hmay c todo hc)⟩ rfl
      (fun r hr => .inl (hs.row r hr)) (by simp) ?_
    simp [InFlight, restart]

/-! ### Runs -/

lemma lastDownload_mem {s : Shared} {strDomain strSiteFile : Bytes}
    (h : lastDownload s strDomain = some strSiteFile) : (strDomain, strSiteFile) ∈ s.downloads := by
  obtain ⟨a, ha, rfl⟩ := Option.map_eq_some_iff.1 h
  obtain ⟨hmem, hdomain⟩ := List.mem_filter.1 (List.mem_of_getLast? ha)
  rw [← of_decide_eq_true hdomain]
  exact hmem

lemma Idle.not_inFlight {s : Threads Shared Frame} {c : Chain} {todo : List Part} (h : Idle s c.strDomain) :
    ¬InFlight s.shared s.frames c todo := by
  rintro (⟨q, hq, hqs⟩ | ⟨x, hx, hxs⟩)
  · refine h.1 q hq ?_
    cases q <;> simp_all [Request.fetching, Request.stage]
  · refine h.2 x hx ?_
    cases x <;> simp_all [Frame.fetching, Frame.stage]

/-- **The condition leaves no part out**: a part that a chain gives up on, not processed before, is still not
processed, and the rest of the chain does not process it. -/
theorem skips_left_out {s s' : Shared} {f : Frame} {calls : List Frame} {c : Chain} {p : Part}
    (hskips : (c, p) ∈ f.skips i) (hdone : ¬Done s c p) (hexec : exec env i s f = (s', calls)) :
    ¬Done s' c p ∧ s'.requests = s.requests ∧ ∀ x ∈ calls, ∀ todo, x.stage = some (c, todo) → p ∉ todo := by
  cases f with
  | processFileIps c' =>
    rw [Frame.skips] at hskips
    split at hskips
    next hthrows =>
      rw [exec, if_pos hthrows] at hexec
      cases hexec
      exact ⟨hdone, rfl, by simp⟩
    · cases hskips
  | responseValidators c' err =>
    rw [Frame.skips] at hskips
    split at hskips
    · cases hskips
    next herr =>
      rw [exec, if_neg herr] at hexec
      cases hexec
      cases List.mem_singleton.1 hskips
      refine ⟨hdone, rfl, fun x hx todo hstage => ?_⟩
      rw [List.mem_singleton.1 hx] at hstage
      cases hstage
      simp
  | responseIps c' err =>
    rw [Frame.skips] at hskips
    split at hskips
    · cases hskips
    next hfails =>
      cases List.mem_singleton.1 hskips
      rw [exec] at hexec
      split at hexec
      next herr =>
        rw [if_pos (by simpa [herr] using hfails)] at hexec
        cases hexec
        exact ⟨hdone, rfl, by simp⟩
      · cases hexec
        exact ⟨hdone, rfl, by simp [Frame.stage]⟩
  | _ => cases hskips

/-! ### A list that cannot be fetched -/

instance (s : Shared) (c : Chain) (p : Part) : Decidable (Done s c p) := by unfold Done; infer_instance

instance (s : Shared) (d f : Bytes) : Decidable (Applied s d f) :=
  decidable_of_iff (∀ p ∈ [Part.sections, .validators, .ips], required f p = true → (d, f, p) ∈ s.processed)
    ⟨fun h p => h p (by cases p <;> simp), fun h p _ => h p⟩

instance (s : Shared) (f : Frame) : Decidable ((applies env).frame i s f) := by
  unfold applies
  infer_instance

instance (s : Threads Shared Frame) (d f : Bytes) : Decidable (Settled env s d f) := by
  unfold Settled Idle
  infer_instance

/-- The file of `x.com` arrives. -/
def arrived : Shared × List Frame :=
  runStack keys noon 8 { added with requests := [] } [.responseFetch (cString "x.com") .success siteFile]

/-- Then its list of validators does. -/
def listed (err : ErrorCode) : Shared × List Frame :=
  runStack keys noon 8 { arrived.1 with requests := [] }
    [.responseValidators ⟨cString "x.com", siteFile, referrer⟩ err]

/-- The three threads are done. -/
def afterwards (err : ErrorCode) : Threads Shared Frame := ⟨(listed err).1, [[], [], (listed err).2]⟩

lemma reachable_afterwards {g : Guard} {err : ErrorCode}
    (hadd : Meets keys noon g 8 init.shared [.nodeAddDomain (cString "x.com") .vsManual (cString "mine")])
    (hfetch : Meets keys noon g 8 { added with requests := [] }
      [.responseFetch (cString "x.com") .success siteFile])
    (hlist : Meets keys noon g 8 { arrived.1 with requests := [] }
      [.responseValidators ⟨cString "x.com", siteFile, referrer⟩ err]) : Reachable keys g (afterwards err) := by
  have hadded : Reachable keys g ⟨added, [[]]⟩ :=
    @reachable_begin keys noon g _ _ 8 _ _ .refl (.nodeAddDomain init.shared _ _ _) hadd
  have hrequests : added.requests = [] ++ .responseFetch (cString "x.com") :: [] := by decide +kernel
  have harrived : Reachable keys g ⟨arrived.1, [[], arrived.2]⟩ :=
    @reachable_begin keys noon g _ _ 8 _ _ hadded (.complete hrequests .success siteFile) hfetch
  have hnil : arrived.2 = [] := List.isEmpty_iff.1 (by decide +kernel)
  rw [hnil] at harrived
  have hrequests' : arrived.1.requests =
      [] ++ .responseValidators ⟨cString "x.com", siteFile, referrer⟩ :: [] := by decide +kernel
  exact @reachable_begin keys noon g _ _ 8 _ _ harrived (.complete hrequests' err []) hlist

end Newcoin.UniqueNodeList.Seeds
