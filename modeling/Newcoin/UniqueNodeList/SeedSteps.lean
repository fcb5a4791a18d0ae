import Newcoin.UniqueNodeList.Seeds

/-!
# What the frames of seed domains do

Once for each part of a call; the invariants of `SeedRows` and `Checksums` are derived from these.

* `fetchNextSelect_cases`, `nodeAddDomain_calls`, `setSeedDomains_calls`: the table is read and written.
* `responseFetch_cases`: a completed fetch.
* `chain_step`: the rest of a chain, which processes its file part by part.
-/

namespace Newcoin.UniqueNodeList.Seeds

open Lib Lib.Sql HttpsClient Fetch NewcoinAddress

variable {env : Functions} {i : Choice}

/-! ### Rows -/

lemma getSeedDomains_some {db : SeedDomains} {d : Bytes} {r : SeedDomain} (h : getSeedDomains d db = some r) :
    r ∈ db.rows ∧ r.strDomain = d := by
  have hmem := List.mem_of_mem_head? h
  rw [Table.select, List.mem_filter, decide_eq_true_eq] at hmem
  exact hmem

lemma getSeedDomains_none {db : SeedDomains} {d : Bytes} (h : getSeedDomains d db = none) :
    ∀ r ∈ db.rows, r.strDomain ≠ d := by
  rw [getSeedDomains, List.head?_eq_none_iff, Table.select, List.filter_eq_nil_iff] at h
  simpa using h

lemma selectNext_mem {db : SeedDomains} {r : SeedDomain} (h : selectNext db = some r) : r ∈ db.rows := by
  have hmem := List.mem_of_mem_head? h
  rw [(perm_orderBy _ _).mem_iff, Table.select, List.mem_filter] at hmem
  exact hmem.1

lemma mem_replaceSeedDomain {db : SeedDomains} {sd r : SeedDomain} {crypto : Crypto} :
    r ∈ (replaceSeedDomain crypto sd db).rows ↔ r = sd.stored crypto ∨ r ∈ db.rows ∧ r.strDomain ≠ sd.strDomain :=
  Table.mem_replace

section

variable {s s' : Shared} {f : Frame} {calls : List Frame}

/-! ### Reading and writing the table -/

lemma setSeedDomains_calls {sd : SeedDomain} {x : Frame} (hx : x ∈ (setSeedDomains env sd s).2) :
    x = .fetchNext := by
  unfold setSeedDomains at hx
  dsimp only at hx
  split at hx
  · exact List.mem_singleton.1 hx
  · cases hx

lemma processValidators_calls {x : Frame} (hx : x ∈ processValidators i) :
    ∃ strDomain vsWhy strComment, x = .nodeAddDomain strDomain vsWhy strComment := by
  obtain ⟨a, -, rfl⟩ := List.mem_map.1 hx
  exact ⟨_, _, _, rfl⟩

/-- `nodeAddDomain` is about to write a new row, or one with the checksum of the row there is. -/
lemma nodeAddDomain_calls {strDomain : Bytes} {vsWhy : ValidatorSource} {strComment : Bytes} {x : Frame}
    (hx : x ∈ nodeAddDomain i strDomain vsWhy strComment s) : ∃ sd, x = .nodeAddDomainSet sd ∧
      (sd.iSha256 = BaseUInt.zero 256 ∨
        ∃ r ∈ s.SeedDomains.rows, r.strDomain = sd.strDomain ∧ r.iSha256 = sd.iSha256) := by
  unfold nodeAddDomain at hx
  dsimp only at hx
  split at hx
  · exact ⟨_, List.mem_singleton.1 hx, .inl rfl⟩
  next r hr =>
    split at hx
    · refine ⟨_, List.mem_singleton.1 hx, .inr ⟨r, (getSeedDomains_some hr).1, ?_⟩⟩
      split <;> split <;> exact ⟨rfl, rfl⟩
    · cases hx

/-- A row that is due is written back, and its file requested; else no row is touched. -/
lemma fetchNextSelect_cases (hexec : fetchNextSelect env i s = (s', calls)) :
    (calls = [] ∧ ∃ tp, s' = { s with mtpFetchNext := tp }) ∨
    calls = [.fetchNext] ∧ ∃ r ∈ s.SeedDomains.rows, ∃ sd : SeedDomain,
      sd.strDomain = r.strDomain ∧ sd.iSha256 = r.iSha256 ∧
      s' = { s with
        mFetchActive := s.mFetchActive + 1
        mtpFetchNext := none
        SeedDomains := replaceSeedDomain env.crypto sd s.SeedDomains
        requests := s.requests ++ [.responseFetch sd.strDomain] } := by
  unfold fetchNextSelect at hexec
  split at hexec
  · cases hexec
    exact .inl ⟨rfl, _, rfl⟩
  next row hrow =>
    have hmem := selectNext_mem hrow
    dsimp only at hexec
    split at hexec
    · cases hexec
      exact .inl ⟨rfl, _, rfl⟩
    · split at hexec
      · cases hexec
        exact .inl ⟨rfl, _, rfl⟩
      · split at hexec
        next hnone => exact absurd rfl (getSeedDomains_none hnone row hmem)
        next sd hsd =>
          cases hexec
          obtain ⟨hsd, hdomain⟩ := getSeedDomains_some hsd
          refine .inr ⟨rfl, sd, hsd,
            { sd with tpScan := some i.tpNow, tpNext := some (i.tpNow + 7 * 24 * 3600) }, rfl, rfl, ?_⟩
          rw [← hdomain]

/-! ### A completed fetch -/

/-- The file that a frame has downloaded, with its domain. -/
def Frame.download : Frame → Option (Bytes × Bytes)
  | .responseFetch strDomain err strSiteFile => if err = .success then some (strDomain, strSiteFile) else none
  | _ => none

lemma download_of_good {strDomain : Bytes} {err : ErrorCode} {strSiteFile : Bytes}
    (h : (goodFile env strDomain err strSiteFile).isSome) :
    (Frame.responseFetch strDomain err strSiteFile).download = some (strDomain, strSiteFile) := by
  unfold goodFile at h
  dsimp only at h
  split at h
  · cases h
  next hgood =>
    push Not at hgood
    rw [Frame.download, if_pos hgood.1]

/-- The file is noted.  With a good file the row is there, and a record with its checksum is about to be
written, or it is not, and the `assert` fails. -/
lemma responseFetch_cases {strDomain : Bytes} {err : ErrorCode} {strSiteFile : Bytes}
    (hexec : responseFetch env i strDomain err strSiteFile s = (s', calls)) :
    ∃ s₁, s₁ = { s with
        downloads := s.downloads ++ (Frame.responseFetch strDomain err strSiteFile).download.toList } ∧
      ((goodFile env strDomain err strSiteFile = none ∧ s' = s₁ ∧ calls = [.fetchFinish strDomain]) ∨
      ((goodFile env strDomain err strSiteFile).isSome ∧ (∀ r ∈ s.SeedDomains.rows, r.strDomain ≠ strDomain) ∧
        s' = { s₁ with aborted := true } ∧ calls = []) ∨
      (goodFile env strDomain err strSiteFile).isSome ∧ s' = s₁ ∧
        ∃ c : Chain, c.strDomain = strDomain ∧ c.strSiteFile = strSiteFile ∧ ∃ r ∈ s.SeedDomains.rows,
          r.strDomain = strDomain ∧ ∃ sd : SeedDomain, sd.strDomain = strDomain ∧
            sd.iSha256 = env.getSHA512Half strSiteFile ∧
            calls = [.responseFetchSet c sd (r.iSha256 ≠ env.getSHA512Half strSiteFile)]) := by
  refine ⟨_, rfl, ?_⟩
  have hs₁ : (if err = .success then { s with downloads := s.downloads ++ [(strDomain, strSiteFile)] } else s) =
      { s with downloads := s.downloads ++ (Frame.responseFetch strDomain err strSiteFile).download.toList } := by
    rw [Frame.download]
    split <;> simp
  unfold responseFetch at hexec
  dsimp only at hexec
  rw [hs₁] at hexec
  split at hexec
  next hna =>
    cases hexec
    exact .inl ⟨hna, rfl, rfl⟩
  next na hna =>
    have hgood : (goodFile env strDomain err strSiteFile).isSome := by rw [hna]; rfl
    split at hexec
    next hnone =>
      cases hexec
      exact .inr (.inl ⟨hgood, getSeedDomains_none hnone, rfl, rfl⟩)
    next sd hsd =>
      cases hexec
      obtain ⟨hsd, hdomain⟩ := getSeedDomains_some hsd
      exact .inr (.inr ⟨hgood, rfl, _, rfl, rfl, sd, hsd, hdomain, _, rfl, rfl, rfl⟩)

/-! ### Chains -/

/-- The parts that a file leads to. -/
def required (strSiteFile : Bytes) : Part → Bool
  | .sections => true
  | .validators => (sectionUrl (ParseSection strSiteFile true) SECTION_VALIDATORS_URL).isSome
  | .ips => (sectionUrl (ParseSection strSiteFile true) SECTION_IPS_URL).isSome

def Done (s : Shared) (c : Chain) (p : Part) : Prop := (c.strDomain, c.strSiteFile, p) ∈ s.processed

/-- What a frame of a chain still has to process; the checksum is written by then. -/
def Frame.stage : Frame → Option (Chain × List Part)
  | .processFile c | .processFileIps c => some (c, [.sections, .validators, .ips])
  | .getValidatorsUrl c | .responseValidators c _ => some (c, [.validators, .ips])
  | .getIpsUrl c | .responseIps c _ => some (c, [.ips])
  | _ => none

def Request.stage : Request → Option (Chain × List Part)
  | .responseFetch _ => none
  | .responseValidators c => some (c, [.validators, .ips])
  | .responseIps c => some (c, [.ips])

/-- The parts that a frame gives up on: a download failed, or `processIps` threw. -/
def Frame.skips (i : Choice) : Frame → List (Chain × Part)
  | .processFileIps c => if i.throws then [(c, .sections), (c, .validators), (c, .ips)] else []
  | .responseValidators c err => if err = .success then [] else [(c, .validators)]
  | .responseIps c err => if err = .success ∧ ¬i.throws then [] else [(c, .ips)]
  | _ => []

/-- A frame of a chain touches no row; it leaves `todo'` to a frame or a request. -/
structure ChainStep (skipped : List (Chain × Part)) (s s' : Shared) (calls : List Frame) (c : Chain)
    (todo todo' : List Part) : Prop where
  SeedDomains : s'.SeedDomains = s.SeedDomains
  removed : s'.removed = s.removed
  aborted : s'.aborted = s.aborted
  downloads : s'.downloads = s.downloads
  processed : s.processed ⊆ s'.processed
  kept : s.requests ⊆ s'.requests
  requests : ∀ q ∈ s'.requests, q ∈ s.requests ∨ q.stage = some (c, todo')
  made : ∀ x ∈ calls, (∃ strDomain vsWhy strComment, x = .nodeAddDomain strDomain vsWhy strComment) ∨
    x.stage = some (c, todo') ∨ x = .fetchFinish c.strDomain
  next : todo' = [] ∨ (∃ q ∈ s'.requests, q.stage = some (c, todo')) ∨ ∃ x ∈ calls, x.stage = some (c, todo')
  done : ∀ p ∈ todo, required c.strSiteFile p = true → Done s' c p ∨ (c, p) ∈ skipped ∨ p ∈ todo'

/-- The next part is done, or the file does not have it, or it is given up on. -/
lemma done_cons {skipped : List (Chain × Part)} {c : Chain} {p : Part} {todo : List Part}
    (h : required c.strSiteFile p = true → Done s c p ∨ (c, p) ∈ skipped) :
    ∀ p' ∈ p :: todo, required c.strSiteFile p' = true → Done s c p' ∨ (c, p') ∈ skipped ∨ p' ∈ todo := by
  intro p' hp' hrequired
  rcases List.mem_cons.1 hp' with rfl | hp'
  · exact (h hrequired).imp_right .inl
  · exact .inr (.inr hp')

/-- It is processed. -/
lemma done_process {skipped : List (Chain × Part)} {c : Chain} {p : Part} {todo : List Part} :
    ∀ p' ∈ p :: todo, required c.strSiteFile p' = true →
      Done { s with processed := s.processed ++ [(c.strDomain, c.strSiteFile, p)] } c p' ∨ (c, p') ∈ skipped ∨
        p' ∈ todo :=
  done_cons fun _ => .inl (List.mem_append_right _ (List.mem_singleton_self _))

section

variable {skipped : List (Chain × Part)} {c : Chain} {todo todo' : List Part} {processed : List (Bytes × Bytes × Part)}

/-- What is left goes to the last call. -/
lemma ChainStep.call {pre : List Frame}
    (hpre : ∀ x ∈ pre, ∃ strDomain vsWhy strComment, x = .nodeAddDomain strDomain vsWhy strComment)
    (hf : f.stage = some (c, todo') ∨ todo' = [] ∧ f = .fetchFinish c.strDomain)
    (hprocessed : s.processed ⊆ processed)
    (hdone : ∀ p ∈ todo, required c.strSiteFile p = true →
      Done { s with processed := processed } c p ∨ (c, p) ∈ skipped ∨ p ∈ todo') :
    ChainStep skipped s { s with processed := processed } (pre ++ [f]) c todo todo' where
  SeedDomains := rfl
  removed := rfl
  aborted := rfl
  downloads := rfl
  processed := hprocessed
  kept := List.Subset.refl _
  requests q hq := .inl hq
  made x hx := by
    rcases List.mem_append.1 hx with hx | hx
    · exact .inl (hpre x hx)
    · rw [List.mem_singleton.1 hx]
      exact .inr (hf.imp_right And.right)
  next := by
    rcases hf with hf | ⟨htodo, -⟩
    · exact .inr (.inr ⟨f, List.mem_append_right _ (List.mem_singleton_self _), hf⟩)
    · exact .inl htodo
  done := hdone

/-- What is left waits for a download. -/
lemma ChainStep.ask {q : Request} (hq : q.stage = some (c, todo)) :
    ChainStep skipped s { s with requests := s.requests ++ [q] } [] c todo todo where
  SeedDomains := rfl
  removed := rfl
  aborted := rfl
  downloads := rfl
  processed := List.Subset.refl _
  kept := List.subset_append_left _ _
  requests q' hq' := by
    refine (List.mem_append.1 hq').imp_right fun hq' => ?_
    rw [List.mem_singleton.1 hq']
    exact hq
  made x hx := by cases hx
  next := .inr (.inl ⟨q, List.mem_append_right _ (List.mem_singleton_self _), hq⟩)
  done p hp _ := .inr (.inr hp)

/-- The chain ends where it is. -/
lemma ChainStep.abort (hdone : ∀ p ∈ todo, (c, p) ∈ skipped) : ChainStep skipped s s [] c todo [] where
  SeedDomains := rfl
  removed := rfl
  aborted := rfl
  downloads := rfl
  processed := List.Subset.refl _
  kept := List.Subset.refl _
  requests q hq := .inl hq
  made x hx := by cases hx
  next := .inl rfl
  done p hp _ := .inr (.inl (hdone p hp))

end

/-- **A chain goes on part by part.** -/
theorem chain_step {c : Chain} {todo : List Part} (hf : f.stage = some (c, todo))
    (hexec : exec env i s f = (s', calls)) : ∃ todo', ChainStep (f.skips i) s s' calls c todo todo' := by
  have hnone : ∀ x ∈ ([] : List Frame), ∃ strDomain vsWhy strComment,
      x = .nodeAddDomain strDomain vsWhy strComment := by simp
  cases f with
  | processFile c =>
    cases hf
    cases hexec
    exact ⟨_, .call (fun _ => processValidators_calls) (.inl rfl) (List.Subset.refl _) fun p hp _ => .inr (.inr hp)⟩
  | processFileIps c =>
    cases hf
    simp only [exec] at hexec
    split at hexec
    next hthrows =>
      cases hexec
      exact ⟨_, .abort (by simp [Frame.skips, hthrows])⟩
    · cases hexec
      exact ⟨_, .call hnone (.inl rfl) (List.subset_append_left _ _) done_process⟩
  | getValidatorsUrl c =>
    cases hf
    simp only [exec] at hexec
    split at hexec
    · cases hexec
      exact ⟨_, .ask rfl⟩
    next hurl =>
      cases hexec
      exact ⟨_, .call hnone (.inl rfl) (List.Subset.refl _) (done_cons fun hrequired => absurd hrequired hurl)⟩
  | responseValidators c err =>
    cases hf
    simp only [exec] at hexec
    split at hexec
    · cases hexec
      exact ⟨_, .call (fun _ => processValidators_calls) (.inl rfl) (List.subset_append_left _ _) done_process⟩
    next herr =>
      cases hexec
      exact ⟨_, .call hnone (.inl rfl) (List.Subset.refl _) (done_cons fun _ => .inr (by simp [Frame.skips, herr]))⟩
  | getIpsUrl c =>
    cases hf
    simp only [exec] at hexec
    split at hexec
    · cases hexec
      exact ⟨_, .ask rfl⟩
    next hurl =>
      cases hexec
      exact ⟨_, .call hnone (.inr ⟨rfl, rfl⟩) (List.Subset.refl _)
        (done_cons fun hrequired => absurd hrequired hurl)⟩
  | responseIps c err =>
    cases hf
    simp only [exec] at hexec
    split at hexec
    next herr =>
      split at hexec
      next hthrows =>
        cases hexec
        exact ⟨_, .abort (by simp [Frame.skips, hthrows])⟩
      · cases hexec
        exact ⟨_, .call hnone (.inr ⟨rfl, rfl⟩) (List.subset_append_left _ _) done_process⟩
    next herr =>
      cases hexec
      exact ⟨_, .call hnone (.inr ⟨rfl, rfl⟩) (List.Subset.refl _)
        (done_cons fun _ => .inr (by simp [Frame.skips, herr]))⟩
  | _ => cases hf

end

end Newcoin.UniqueNodeList.Seeds
