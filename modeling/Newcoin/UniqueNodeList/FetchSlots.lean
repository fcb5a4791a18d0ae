import Newcoin.UniqueNodeList.Fetch
import Mathlib.Algebra.Order.Group.Multiset
import Mathlib.Data.Multiset.Filter
import Mathlib.Data.Multiset.Range

/-!
# Fetch slots are conserved

A chain in flight is one token: the call it is about to make, or the request it waits for.  What the
threads do to the tokens (`Moves`) is all that matters: a token appears when a slot is taken, goes from
place to place as its functions say, and disappears when the slot is given back.

* `exec_moves`, `begin_moves` — the threads refine this.
* `Inv` — slots and chains, counted.
* `path_finishes` — a chain reaches `fetchFinish` once, whatever the outcomes on its way.
-/

namespace Newcoin.UniqueNodeList.Fetch

open Lib

/-! ### Tokens -/

/-- Where a chain is. -/
inductive Token
  | call (c : Call)
  | request (complete : Callback)

/-- What may happen to a chain at one step. -/
structure Outcome where
  choice : Choice
  err : ErrorCode
  strData : Bytes

variable (env : Functions)

/-- The next place of a chain; none after `fetchFinish`. -/
def Token.next (o : Outcome) : Token → Option Token
  | .call c =>
    match c.run env o.choice with
    | none => none
    | some (_, .call c') => some (.call c')
    | some (_, .httpsGet complete) => some (.request complete)
  | .request complete => some (.call (complete.invoke o.err o.strData))

/-- What is to be counted. -/
structure View where
  active : ℤ
  tokens : Multiset (ℕ × Token)
  started : ℕ
  finished : List ℕ

/-- What can happen to it. -/
inductive Moves : View → View → Prop
  | idle (v : View) : Moves v v
  | start (v : View) (strDomain : Bytes) (h : v.active ≠ NODE_FETCH_JOBS) :
      Moves v ⟨v.active + 1, (v.started, .call (.fetchProcess strDomain)) ::ₘ v.tokens, v.started + 1,
        v.finished⟩
  | move (active : ℤ) (tokens : Multiset (ℕ × Token)) (started : ℕ) (finished : List ℕ) (id : ℕ)
      (t t' : Token) (o : Outcome) (h : t.next env o = some t') :
      Moves ⟨active, (id, t) ::ₘ tokens, started, finished⟩ ⟨active, (id, t') ::ₘ tokens, started, finished⟩
  | finish (active : ℤ) (tokens : Multiset (ℕ × Token)) (started : ℕ) (finished : List ℕ) (id : ℕ) :
      Moves ⟨active, (id, .call .fetchFinish) ::ₘ tokens, started, finished⟩
        ⟨active - 1, tokens, started, finished ++ [id]⟩

/-- The token of a frame. -/
def Frame.token : Frame → Option (ℕ × Token)
  | .chain id c => some (id, .call c)
  | _ => none

/-- The token of a request. -/
def requestToken (r : ℕ × Callback) : ℕ × Token := (r.1, .request r.2)

/-- The tokens of some frames and of the requests in flight. -/
def tokens (s : Shared) (frames : Multiset Frame) : Multiset (ℕ × Token) :=
  frames.filterMap Frame.token + (s.requests.map requestToken : List (ℕ × Token))

def view (s : Shared) (frames : Multiset Frame) : View :=
  ⟨s.mFetchActive, tokens s frames, s.started, s.finished⟩

/-! ### The threads move the tokens -/

lemma tokens_chain (s : Shared) (id : ℕ) (c : Call) (frames : Multiset Frame) :
    tokens s (.chain id c ::ₘ frames) = (id, .call c) ::ₘ tokens s frames := by
  have htoken : (Frame.chain id c).token = some (id, .call c) := rfl
  rw [tokens, Multiset.filterMap_cons_some _ _ _ htoken, Multiset.cons_add, tokens]

lemma tokens_plain (s : Shared) {f : Frame} (hf : f.token = none) (frames : Multiset Frame) :
    tokens s (f ::ₘ frames) = tokens s frames := by
  rw [tokens, Multiset.filterMap_cons_none _ _ hf, tokens]

lemma tokens_fetchNexts (s : Shared) (n : ℕ) (frames : Multiset Frame) :
    tokens s ((List.replicate n Frame.fetchNext : Multiset Frame) + frames) = tokens s frames := by
  induction n with
  | zero => simp
  | succ n ih =>
    rw [List.replicate_succ, ← Multiset.cons_coe, Multiset.cons_add, tokens_plain s rfl, ih]

/-- A request more, anywhere in the list. -/
lemma tokens_request (s : Shared) (pre post : List (ℕ × Callback)) (id : ℕ) (complete : Callback)
    (frames : Multiset Frame) :
    tokens { s with requests := pre ++ (id, complete) :: post } frames =
      (id, .request complete) ::ₘ tokens { s with requests := pre ++ post } frames := by
  have hperm : ((pre ++ (id, complete) :: post).map requestToken : Multiset (ℕ × Token)) =
      (id, .request complete) ::ₘ ((pre ++ post).map requestToken : List (ℕ × Token)) := by
    rw [Multiset.cons_coe, Multiset.coe_eq_coe]
    exact (List.perm_middle.map requestToken)
  rw [tokens, tokens, hperm, Multiset.add_cons]

/-- **Taking a slot and going on to fetch are one decision**, although the source tests for them
apart. -/
theorem fetchNextTake_eq (strDomain : Bytes) (tpNext tpNow : Time) (s : Shared) :
    fetchNextTake strDomain tpNext tpNow s =
      if strDomain ≠ [] ∧ s.mFetchActive ≠ NODE_FETCH_JOBS ∧ Time.le tpNext tpNow then
        ({ s with mFetchActive := s.mFetchActive + 1, started := s.started + 1 },
          [.chain s.started (.fetchProcess strDomain), .fetchNext])
      else (s, []) := by
  have hgt : Time.gt tpNext tpNow = !Time.le tpNext tpNow := by simp [Time.gt, Time.le]
  unfold fetchNextTake
  by_cases hd : strDomain = []
  · simp [hd]
  · by_cases hfull : s.mFetchActive = NODE_FETCH_JOBS
    · simp [hd, hfull]
    · by_cases hle : Time.le tpNext tpNow
      · simp [hd, hfull, hle, hgt]
      · simp [hd, hfull, hle, hgt]

theorem exec_moves {f : Frame} {s s' : Shared} {calls : List Frame} (h : Exec env f s s' calls)
    (others : Multiset Frame) :
    Moves env (view s (f ::ₘ others)) (view s' ((calls : Multiset Frame) + others)) := by
  obtain ⟨i, h⟩ := h
  cases f with
  | fetchNext =>
    rw [exec] at h
    split_ifs at h <;> obtain ⟨rfl, rfl⟩ := Prod.mk.inj h
    · rw [view, tokens_plain s rfl, Multiset.coe_nil, zero_add]
      exact .idle _
    · rw [view, tokens_plain s rfl, Multiset.coe_singleton, Multiset.singleton_add, view, tokens_plain s rfl]
      exact .idle _
  | fetchNextSelect =>
    have hcalls : ∃ strDomain tpNext tpNow, (s', calls) = (s, [.fetchNextTake strDomain tpNext tpNow]) := by
      rw [exec] at h
      split at h
      · exact ⟨_, _, _, h.symm⟩
      · exact ⟨_, _, _, h.symm⟩
    obtain ⟨strDomain, tpNext, tpNow, hcalls⟩ := hcalls
    obtain ⟨rfl, rfl⟩ := Prod.mk.inj hcalls
    rw [view, tokens_plain _ rfl, Multiset.coe_singleton, Multiset.singleton_add, view, tokens_plain _ rfl]
    exact .idle _
  | fetchNextTake strDomain tpNext tpNow =>
    rw [exec, fetchNextTake_eq] at h
    split_ifs at h with htake <;> obtain ⟨rfl, rfl⟩ := Prod.mk.inj h
    · rw [view, tokens_plain _ rfl, view, ← Multiset.cons_coe, Multiset.cons_add, tokens_chain,
        Multiset.coe_singleton, Multiset.singleton_add, tokens_plain _ rfl]
      exact .start (view s others) strDomain htake.2.1
    · rw [view, tokens_plain _ rfl, Multiset.coe_nil, zero_add]
      exact .idle _
  | chain id c =>
    rw [exec] at h
    split at h <;> obtain ⟨rfl, rfl⟩ := Prod.mk.inj h
    case _ hrun =>
      have hfinish : c = .fetchFinish := by
        cases c <;> first | rfl | cases hrun
      rw [hfinish, view, tokens_chain, view, Multiset.coe_singleton, Multiset.singleton_add,
        tokens_plain _ rfl]
      exact .finish _ _ _ _ id
    case _ n c' hrun =>
      rw [view, tokens_chain, view, ← Multiset.coe_add, add_assoc, tokens_fetchNexts, Multiset.coe_singleton,
        Multiset.singleton_add, tokens_chain]
      exact .move _ _ _ _ id (.call c) (.call c') ⟨i, .success, []⟩ (by rw [Token.next, hrun])
    case _ n complete hrun =>
      rw [view, tokens_chain, view, tokens_fetchNexts, tokens_request, List.append_nil]
      exact .move _ _ _ _ id (.call c) (.request complete) ⟨i, .success, []⟩ (by rw [Token.next, hrun])

theorem begin_moves {s s' : Shared} {calls : List Frame} (h : Begin s s' calls) (others : Multiset Frame) :
    Moves env (view s others) (view s' ((calls : Multiset Frame) + others)) := by
  cases h with
  | fetchNext =>
    rw [view, view, Multiset.coe_singleton, Multiset.singleton_add, tokens_plain _ rfl]
    exact .idle _
  | @complete pre post id complete hreq err strData =>
    have hs : s = { s with requests := pre ++ (id, complete) :: post } := by rw [← hreq]
    rw [view, view, Multiset.coe_singleton, Multiset.singleton_add, tokens_chain, hs, tokens_request]
    exact .move _ _ _ _ id (.request complete) (.call (complete.invoke err strData))
      ⟨⟨none, BaseUInt.zero 256, false, 0⟩, err, strData⟩ rfl

/-! ### Counting -/

/-- **The invariant**: a slot for each chain in flight, no more than there are, and each chain that was
started either in flight or finished, once. -/
structure Inv (v : View) : Prop where
  active : v.active = v.tokens.card
  bound : v.active ≤ NODE_FETCH_JOBS
  chains : v.tokens.map Prod.fst + (v.finished : Multiset ℕ) = Multiset.range v.started

variable {env}

lemma Moves.inv {v w : View} (h : Moves env v w) (hv : Inv v) : Inv w := by
  cases h with
  | idle => exact hv
  | start strDomain hfree =>
    refine ⟨?_, ?_, ?_⟩
    · rw [Multiset.card_cons, hv.active]
      simp
    · have := hv.bound
      dsimp only
      omega
    · rw [Multiset.map_cons, Multiset.cons_add, hv.chains, Multiset.range_succ]
  | move active tokens started finished id t t' o hnext =>
    refine ⟨?_, hv.bound, ?_⟩
    · simpa using hv.active
    · simpa using hv.chains
  | finish active tokens started finished id =>
    refine ⟨?_, ?_, ?_⟩
    · have := hv.active
      rw [Multiset.card_cons] at this
      dsimp only at this ⊢
      omega
    · have := hv.bound
      dsimp only at this ⊢
      omega
    · have hchains := hv.chains
      dsimp only at hchains ⊢
      rw [Multiset.map_cons, Multiset.cons_add] at hchains
      rw [← Multiset.coe_add, ← add_assoc, Multiset.coe_singleton, ← Multiset.cons_zero, Multiset.add_cons,
        add_zero, hchains]

/-- **The invariant holds in every reachable state.** -/
theorem reachable_inv {s : Threads Shared Frame} (h : Reachable env s) : Inv (view s.shared s.frames) := by
  refine Threads.invariant (I := fun s frames => Inv (view s frames)) ?_ ?_ h ?_
  · intro f s s' calls others hs hexec
    exact (exec_moves env hexec others).inv hs
  · intro s s' calls others hs hbegin
    exact (begin_moves env hbegin others).inv hs
  · exact ⟨rfl, by decide, rfl⟩

/-! ### The path of a chain -/

/-- How many places are still before a chain at most. -/
def Token.rank : Token → ℕ
  | .call (.fetchProcess _) => 11
  | .request (.responseFetch _) => 10
  | .call (.responseFetch ..) => 9
  | .call (.processFile _) => 8
  | .call (.getValidatorsUrl _) => 7
  | .request (.responseValidators _) => 6
  | .call (.responseValidators ..) => 5
  | .call (.getIpsUrl _) => 4
  | .request .responseIps => 3
  | .call (.responseIps _) => 2
  | .call .fetchFinish => 1

/-- **Every place but `fetchFinish` leads on**, and closer to it. -/
lemma Token.next_cases (env : Functions) (o : Outcome) (t : Token) :
    (t = .call .fetchFinish ∧ t.next env o = none) ∨
      (t ≠ .call .fetchFinish ∧ ∃ t', t.next env o = some t' ∧ t'.rank < t.rank) := by
  cases t with
  | request complete =>
    refine .inr ⟨nofun, _, rfl, ?_⟩
    cases complete <;> simp [Callback.invoke, Token.rank]
  | call c =>
    cases c with
    | fetchProcess strDomain => exact .inr ⟨nofun, _, rfl, by simp [Token.rank]⟩
    | responseFetch strDomain err strSiteFile =>
      refine .inr ⟨nofun, ?_⟩
      simp only [Token.next, Call.run, Fetch.responseFetch]
      split_ifs <;> exact ⟨_, rfl, by simp [Token.rank]⟩
    | processFile secSite => exact .inr ⟨nofun, _, rfl, by simp [Token.rank]⟩
    | getValidatorsUrl secSite =>
      refine .inr ⟨nofun, ?_⟩
      simp only [Token.next, Call.run, Fetch.getValidatorsUrl]
      split_ifs <;> exact ⟨_, rfl, by simp [Token.rank]⟩
    | responseValidators secSite err => exact .inr ⟨nofun, _, rfl, by simp [Token.rank]⟩
    | getIpsUrl secSite =>
      refine .inr ⟨nofun, ?_⟩
      simp only [Token.next, Call.run, Fetch.getIpsUrl]
      split_ifs <;> exact ⟨_, rfl, by simp [Token.rank]⟩
    | responseIps err => exact .inr ⟨nofun, _, rfl, by simp [Token.rank]⟩
    | fetchFinish => exact .inl ⟨rfl, rfl⟩

variable (env)

/-- The places of a chain that starts at `t`, with what happens on its way. -/
def path (o : ℕ → Outcome) (t : Token) : ℕ → Option Token
  | 0 => some t
  | k + 1 => (path o t k).bind (Token.next env (o k))

variable {env}

lemma path_succ (o : ℕ → Outcome) {t t' : Token} (h : t.next env (o 0) = some t') (k : ℕ) :
    path env o t (k + 1) = path env (fun j => o (j + 1)) t' k := by
  induction k with
  | zero => exact h
  | succ k ih => rw [path, ih, path]

lemma path_of_none {o : ℕ → Outcome} {t : Token} {k : ℕ} (h : path env o t k = none) (l : ℕ) :
    path env o t (k + l) = none := by
  induction l with
  | zero => exact h
  | succ l ih => rw [← Nat.add_assoc, path, ih, Option.bind_none]

/-- **A chain reaches `fetchFinish` exactly once**, and soon. -/
theorem path_finishes (env : Functions) (o : ℕ → Outcome) (t : Token) :
    ∃ k < t.rank, path env o t k = some (.call .fetchFinish) ∧
      ∀ j, path env o t j = some (.call .fetchFinish) → j = k := by
  induction hr : t.rank using Nat.strong_induction_on generalizing t o with
  | _ r ih =>
    rcases Token.next_cases env (o 0) t with ⟨rfl, hnone⟩ | ⟨hne, t', hnext, hlt⟩
    · refine ⟨0, by simp [← hr, Token.rank], rfl, ?_⟩
      intro j hj
      by_contra h0
      obtain ⟨l, rfl⟩ := Nat.exists_eq_succ_of_ne_zero h0
      have hfirst : path env o (.call .fetchFinish) 1 = none := hnone
      have hpath := path_of_none hfirst l
      rw [Nat.add_comm, ← Nat.succ_eq_add_one, hj] at hpath
      cases hpath
    · obtain ⟨k, hk, hfinish, huniq⟩ := ih _ (hr ▸ hlt) (fun j => o (j + 1)) t' rfl
      refine ⟨k + 1, by omega, by rw [path_succ o hnext, hfinish], ?_⟩
      intro j hj
      cases j with
      | zero => exact absurd (Option.some.inj hj) hne
      | succ j =>
        rw [path_succ o hnext] at hj
        rw [huniq j hj]

/-! ### Slots -/

/-- The numbers of the chains in flight. -/
def inFlight (s : Threads Shared Frame) : Multiset ℕ := (tokens s.shared s.frames).map Prod.fst

/-- **Fetch slots are conserved.**  In every reachable state there are at most `NODE_FETCH_JOBS` active
fetches, one for each chain in flight, and each chain started is in flight or finished, once;
`fetchNext` takes a slot exactly when it goes on to fetch; and every chain gets to `fetchFinish`, once,
whatever the outcomes on its way. -/
theorem fetch_slots_conserved (env : Functions) :
    (∀ s, Reachable env s →
      0 ≤ s.shared.mFetchActive ∧ s.shared.mFetchActive ≤ NODE_FETCH_JOBS ∧
      s.shared.mFetchActive = (inFlight s).card ∧
      inFlight s + (s.shared.finished : Multiset ℕ) = Multiset.range s.shared.started) ∧
    (∀ strDomain tpNext tpNow s,
      let r := fetchNextTake strDomain tpNext tpNow s
      (r.1.mFetchActive = s.mFetchActive + 1 ∧ ∃ id, .chain id (.fetchProcess strDomain) ∈ r.2) ∨
        (r.1.mFetchActive = s.mFetchActive ∧ r.2 = [])) ∧
    ∀ (o : ℕ → Outcome) (strDomain : Bytes),
      ∃! k, path env o (.call (.fetchProcess strDomain)) k = some (.call .fetchFinish) := by
  refine ⟨?_, ?_, ?_⟩
  · intro s hs
    obtain ⟨hactive, hbound, hchains⟩ := reachable_inv hs
    have hcard : s.shared.mFetchActive = (inFlight s).card := by
      rw [inFlight, Multiset.card_map]
      exact hactive
    exact ⟨by omega, hbound, hcard, hchains⟩
  · intro strDomain tpNext tpNow s
    dsimp only
    rw [fetchNextTake_eq]
    split_ifs with h
    · exact .inl ⟨rfl, s.started, List.mem_cons_self⟩
    · exact .inr ⟨rfl, rfl⟩
  · intro o strDomain
    obtain ⟨k, _, hfinish, huniq⟩ := path_finishes env o (.call (.fetchProcess strDomain))
    exact ⟨k, hfinish, huniq⟩

/-- A domain is due: `fetchNext` has taken a slot for it. -/
def oneFetch : Threads Shared Frame :=
  ⟨⟨1, [], 1, []⟩, [[.chain 0 (.fetchProcess (cString "a")), .fetchNext]]⟩

theorem fetch_slots_conserved_one : ∃ env, Reachable env oneFetch ∧ (inFlight oneFetch).card = 1 := by
  let env : Functions := ⟨fun _ => true, fun _ => BaseUInt.zero 256⟩
  let i : Choice := ⟨some (cString "a", some 0, some 0), BaseUInt.zero 256, false, 0⟩
  have h₁ : Threads.Step (Exec env) Begin init ⟨init.shared, [[.fetchNext]]⟩ := .thread (.fetchNext _)
  have hrun {s s' : Shared} {f : Frame} {calls : List Frame} (h : exec env i s f = (s', calls)) :
      Threads.Step (Exec env) Begin ⟨s, [[f]]⟩ ⟨s', [calls ++ []]⟩ :=
    @Threads.Step.run _ _ _ _ s s' f calls [] [] [] ⟨i, h⟩
  have h₂ : Threads.Step (Exec env) Begin ⟨init.shared, [[.fetchNext]]⟩ ⟨init.shared, [[.fetchNextSelect]]⟩ :=
    hrun rfl
  have h₃ : Threads.Step (Exec env) Begin ⟨init.shared, [[.fetchNextSelect]]⟩
      ⟨init.shared, [[.fetchNextTake (cString "a") (some 0) (some 0)]]⟩ := hrun rfl
  have h₄ : Threads.Step (Exec env) Begin
      ⟨init.shared, [[.fetchNextTake (cString "a") (some 0) (some 0)]]⟩ oneFetch := hrun (by rfl)
  have h : Reachable env oneFetch := (((Relation.ReflTransGen.single h₁).tail h₂).tail h₃).tail h₄
  have hactive : 1 = ((inFlight oneFetch).card : ℤ) := ((fetch_slots_conserved env).1 oneFetch h).2.2.1
  exact ⟨env, h, by exact_mod_cast hactive.symm⟩

end Newcoin.UniqueNodeList.Fetch
