import Newcoin.ConnectionPool.Keeps
import Mathlib.Logic.Relation

/-!
# Who is registered for a key

Any number of peers call `peerConnected` and `peerDisconnected`, in any order; the lock makes each call
one step.  `mConnectedMap` is what the calls so far make of it (`Registered`): a key belongs to the peer
that got it last, until that peer gives it back.

* `peerConnected_spec`, `peerDisconnected_spec` — one call.
* `registered_cons` — what one call more means for the registrations.
* `key_belongs_to_one_peer` — every run.
-/

namespace Newcoin.ConnectionPool.Registration

open Lib Program

variable (env : Env)

/-- A call that has returned. -/
inductive Call
  | peerConnected (peer : ℕ) (naPeer : NewcoinAddress) (bNew : Bool)
  | peerDisconnected (peer : ℕ) (naPeer : NewcoinAddress)
  deriving DecidableEq, Repr

/-- The pool, and the calls so far, the last one first. -/
structure State where
  world : World
  log : List Call

inductive Step : State → State → Prop
  | peerConnected {w t : World} {log : List Call} {peer : ℕ} {naPeer : NewcoinAddress} {pip : IpPort}
      {bNew : Bool} (h : ConnectionPool.peerConnected env peer naPeer pip w = .ok (bNew, t)) :
      Step ⟨w, log⟩ ⟨t, .peerConnected peer naPeer bNew :: log⟩
  | peerDisconnected {w t : World} {log : List Call} {peer : ℕ} {naPeer : NewcoinAddress}
      (h : ConnectionPool.peerDisconnected env peer (some naPeer) w = .ok (⟨⟩, t)) :
      Step ⟨w, log⟩ ⟨t, .peerDisconnected peer naPeer :: log⟩

def Reachable (s : State) : Prop := ∃ rows, Relation.ReflTransGen (Step env) ⟨World.init rows, []⟩ s

/-- The `peerConnected` of the peer for the key was the last one to return true, and the peer has not
called `peerDisconnected` for it since. -/
def Registered (log : List Call) (naPeer : NewcoinAddress) (peer : ℕ) : Prop :=
  ∃ since before, log = since ++ .peerConnected peer naPeer true :: before ∧
    (∀ q, .peerConnected q naPeer true ∉ since) ∧ .peerDisconnected peer naPeer ∉ since

variable {env} {w t : World} {log : List Call} {peer q : ℕ} {naPeer key : NewcoinAddress}

/-! ### Registrations -/

lemma not_registered_nil : ¬ Registered [] naPeer peer := by
  rintro ⟨since, before, h, _⟩
  exact absurd h (by simp)

/-- **One call more.** -/
lemma registered_cons (c : Call) : Registered (c :: log) naPeer peer ↔
    c = .peerConnected peer naPeer true ∨
      ((∀ q, c ≠ .peerConnected q naPeer true) ∧ c ≠ .peerDisconnected peer naPeer ∧
        Registered log naPeer peer) := by
  constructor
  · rintro ⟨since, before, h, hlast, hkept⟩
    cases since with
    | nil => exact Or.inl (List.cons.inj h).1
    | cons d since =>
      obtain ⟨rfl, rfl⟩ := List.cons.inj h
      refine Or.inr ⟨?_, ?_, since, before, rfl, ?_, ?_⟩
      · intro q hq
        exact hlast q (hq ▸ List.mem_cons_self)
      · intro hd
        exact hkept (hd ▸ List.mem_cons_self)
      · intro q hq
        exact hlast q (List.mem_cons_of_mem _ hq)
      · intro hd
        exact hkept (List.mem_cons_of_mem _ hd)
  · rintro (rfl | ⟨hnew, hdisc, since, before, rfl, hlast, hkept⟩)
    · exact ⟨[], log, rfl, fun _ => List.not_mem_nil, List.not_mem_nil⟩
    · refine ⟨c :: since, before, rfl, ?_, ?_⟩
      · intro q hq
        rcases List.mem_cons.mp hq with hq | hq
        · exact hnew q hq.symm
        · exact hlast q hq
      · intro hd
        rcases List.mem_cons.mp hd with hd | hd
        · exact hdisc hd.symm
        · exact hkept hd

/-- A call that says nothing about the peer's key. -/
lemma registered_cons_of_ne {c : Call} (hnew : ∀ q, c ≠ .peerConnected q naPeer true)
    (hdisc : c ≠ .peerDisconnected peer naPeer) :
    Registered (c :: log) naPeer peer ↔ Registered log naPeer peer := by
  rw [registered_cons]
  constructor
  · rintro (rfl | ⟨_, _, h⟩)
    · exact absurd rfl (hnew peer)
    · exact h
  · intro h
    exact Or.inr ⟨hnew, hdisc, h⟩

/-! ### One call -/

/-- `peerConnected` enters the peer and returns true exactly if the key is another node's and nobody is
registered for it. -/
lemma peerConnected_spec (hfree : w.mPeerLock = 0) (peer : ℕ) (naPeer : NewcoinAddress) (pip : IpPort) :
    ∃ t, peerConnected env peer naPeer pip w =
        .ok (decide (naPeer ≠ env.self ∧ w.mConnectedMap.lookup naPeer = none), t) ∧
      t.mPeerLock = 0 ∧
      t.mConnectedMap =
        if naPeer ≠ env.self ∧ w.mConnectedMap.lookup naPeer = none then w.mConnectedMap.insert naPeer peer
        else w.mConnectedMap := by
  have hwp : wp (peerConnected env peer naPeer pip)
      (fun bNew t => bNew = decide (naPeer ≠ env.self ∧ w.mConnectedMap.lookup naPeer = none) ∧
        t.mPeerLock = 0 ∧ t.mConnectedMap =
          if naPeer ≠ env.self ∧ w.mConnectedMap.lookup naPeer = none then w.mConnectedMap.insert naPeer peer
          else w.mConnectedMap) (fun _ => False) w := by
    refine wp_ite (fun hself => ?_) fun hself => ?_
    · rw [wp_pure]
      simp [hself, hfree]
    rw [wp_scopedLock, if_neg (fun hheld => hheld.1 hfree), wp_bind, wp_get]
    dsimp only
    cases hlookup : w.mConnectedMap.lookup naPeer with
    | none =>
      simp only [wp_bind, wp_set, wp_pure]
      simp [hself, hfree]
    | some itCm =>
      simp only [discover, wp_bind, wp_get]
      refine wp_ite (fun _ => ?_) fun _ => ?_
      · simp [setIpPort, World.setPeer, hfree]
      · simp [hfree]
  cases hr : peerConnected env peer naPeer pip w with
  | error e => exact (wp_error hwp hr).elim
  | ok r =>
    obtain ⟨hnew, hrest⟩ := wp_ok hwp hr
    exact ⟨r.2, by rw [← hnew], hrest⟩

/-- `peerDisconnected` erases the entry of the key if it is the peer's own. -/
lemma peerDisconnected_spec (hfree : w.mPeerLock = 0) (peer : ℕ) (naPeer : NewcoinAddress) :
    ∃ t, peerDisconnected env peer (some naPeer) w = .ok (⟨⟩, t) ∧ t.mPeerLock = 0 ∧
      t.mConnectedMap =
        if w.mConnectedMap.lookup naPeer = some peer then w.mConnectedMap.erase naPeer
        else w.mConnectedMap := by
  have hwp : wp (peerDisconnected env peer (some naPeer))
      (fun _ t => t.mPeerLock = 0 ∧ t.mConnectedMap =
        if w.mConnectedMap.lookup naPeer = some peer then w.mConnectedMap.erase naPeer
        else w.mConnectedMap) (fun _ => False) w := by
    rw [peerDisconnected, wp_scopedLock, if_neg (fun hheld => hheld.1 hfree), wp_bind, wp_get]
    dsimp only
    cases hlookup : w.mConnectedMap.lookup naPeer with
    | none => simp [hfree]
    | some itCm =>
      refine wp_ite (fun hother => ?_) fun hown => ?_
      · simp [hfree, hother]
      · rw [not_not] at hown
        simp [hfree, hown]
  cases hr : peerDisconnected env peer (some naPeer) w with
  | error e => exact (wp_error hwp hr).elim
  | ok r =>
    have ht := wp_ok hwp hr
    exact ⟨r.2, rfl, ht⟩

/-! ### Runs -/

/-- **The invariant**: between calls the lock is free, and the map is what the calls have made of it. -/
structure Inv (env : Env) (s : State) : Prop where
  free : s.world.mPeerLock = 0
  registered : ∀ naPeer peer,
    s.world.mConnectedMap.lookup naPeer = some peer ↔ Registered s.log naPeer peer
  self : s.world.mConnectedMap.lookup env.self = none

lemma Inv.init (rows : List PeerIp) : Inv env ⟨World.init rows, []⟩ := by
  refine ⟨rfl, ?_, rfl⟩
  intro naPeer peer
  constructor
  · intro h
    cases h
  · intro h
    exact absurd h not_registered_nil

lemma Inv.none_iff (h : Inv env ⟨w, log⟩) (naPeer : NewcoinAddress) :
    w.mConnectedMap.lookup naPeer = none ↔ ∀ q, ¬ Registered log naPeer q := by
  rw [Option.eq_none_iff_forall_ne_some]
  exact forall_congr' fun q => not_congr (h.registered naPeer q)

/-- `peerConnected` keeps it: where it returns true, nobody was registered. -/
lemma Inv.peerConnected (h : Inv env ⟨w, log⟩) {pip : IpPort} {bNew : Bool}
    (hok : ConnectionPool.peerConnected env peer naPeer pip w = .ok (bNew, t)) :
    Inv env ⟨t, .peerConnected peer naPeer bNew :: log⟩ := by
  obtain ⟨t', hspec, hfree, hmap⟩ := @peerConnected_spec env _ h.free peer naPeer pip
  obtain ⟨rfl, rfl⟩ := Prod.mk.inj (Except.ok.inj (hok.symm.trans hspec))
  by_cases hnew : naPeer ≠ env.self ∧ w.mConnectedMap.lookup naPeer = none
  · rw [if_pos hnew] at hmap
    rw [decide_eq_true hnew]
    refine ⟨hfree, ?_, ?_⟩
    · intro key q
      dsimp only
      rw [hmap]
      by_cases hkey : key = naPeer
      · subst hkey
        rw [AList.lookup_insert, registered_cons, Option.some_inj]
        constructor
        · rintro rfl
          exact Or.inl rfl
        · rintro (hcall | ⟨hlast, _⟩)
          · cases hcall
            rfl
          · exact absurd rfl (hlast peer)
      · rw [AList.lookup_insert_ne hkey, h.registered key q, registered_cons_of_ne]
        · intro q hcall
          cases hcall
          exact hkey rfl
        · nofun
    · dsimp only
      rw [hmap, AList.lookup_insert_ne hnew.1.symm]
      exact h.self
  · rw [if_neg hnew] at hmap
    rw [decide_eq_false hnew]
    refine ⟨hfree, ?_, hmap ▸ h.self⟩
    intro key q
    dsimp only
    rw [hmap, h.registered key q, registered_cons_of_ne]
    · nofun
    · nofun

/-- So does `peerDisconnected`: the entry of another peer stays. -/
lemma Inv.peerDisconnected (h : Inv env ⟨w, log⟩)
    (hok : ConnectionPool.peerDisconnected env peer (some naPeer) w = .ok (⟨⟩, t)) :
    Inv env ⟨t, .peerDisconnected peer naPeer :: log⟩ := by
  obtain ⟨t', hspec, hfree, hmap⟩ := @peerDisconnected_spec env _ h.free peer naPeer
  obtain ⟨_, rfl⟩ := Prod.mk.inj (Except.ok.inj (hok.symm.trans hspec))
  have hregistered (key : NewcoinAddress) (q : ℕ) : t.mConnectedMap.lookup key = some q ↔
      w.mConnectedMap.lookup key = some q ∧ ¬ (key = naPeer ∧ q = peer) := by
    rw [hmap]
    split_ifs with hown
    · by_cases hkey : key = naPeer
      · subst hkey
        simp only [AList.lookup_erase, hown, Option.some_inj, true_and]
        constructor
        · nofun
        · rintro ⟨rfl, hne⟩
          exact absurd rfl hne
      · simp [AList.lookup_erase_ne hkey, hkey]
    · constructor
      · intro hq
        refine ⟨hq, ?_⟩
        rintro ⟨rfl, rfl⟩
        exact hown hq
      · exact And.left
  refine ⟨hfree, ?_, ?_⟩
  · intro key q
    dsimp only
    rw [hregistered, h.registered key q, registered_cons]
    constructor
    · rintro ⟨hq, hne⟩
      refine Or.inr ⟨nofun, ?_, hq⟩
      intro hcall
      cases hcall
      exact hne ⟨rfl, rfl⟩
    · rintro (hcall | ⟨_, hdisc, hq⟩)
      · cases hcall
      · refine ⟨hq, ?_⟩
        rintro ⟨rfl, rfl⟩
        exact hdisc rfl
  · rw [Option.eq_none_iff_forall_ne_some]
    intro q hq
    have hself := ((hregistered env.self q).mp hq).1
    rw [h.self] at hself
    cases hself

lemma reachable_inv {s : State} (h : Reachable env s) : Inv env s := by
  obtain ⟨rows, hrun⟩ := h
  induction hrun with
  | refl => exact .init rows
  | tail _ hstep ih =>
    cases hstep with
    | peerConnected hok => exact ih.peerConnected hok
    | peerDisconnected hok => exact ih.peerDisconnected hok

/-- **A key registration belongs to one peer.**  After any calls, `mConnectedMap` has for each key the
peer registered for it, and none for the node's own key; `peerConnected` returns, with true exactly if the
key is another node's and nobody is registered for it; and `peerDisconnected` by any other peer leaves the
one who is registered where it is. -/
theorem key_belongs_to_one_peer {s : State} (h : Reachable env s) :
    (∀ naPeer peer, s.world.mConnectedMap.lookup naPeer = some peer ↔ Registered s.log naPeer peer) ∧
    s.world.mConnectedMap.lookup env.self = none ∧
    (∀ peer naPeer pip, ∃ bNew t, peerConnected env peer naPeer pip s.world = .ok (bNew, t) ∧
      (bNew = true ↔ naPeer ≠ env.self ∧ ∀ q, ¬ Registered s.log naPeer q)) ∧
    ∀ peer naPeer, ∃ t, peerDisconnected env peer (some naPeer) s.world = .ok (⟨⟩, t) ∧
      ∀ q, q ≠ peer → Registered s.log naPeer q → t.mConnectedMap.lookup naPeer = some q := by
  have hinv := reachable_inv h
  refine ⟨hinv.registered, hinv.self, ?_, ?_⟩
  · intro peer naPeer pip
    obtain ⟨t, hspec, _, _⟩ := @peerConnected_spec env _ hinv.free peer naPeer pip
    refine ⟨_, t, hspec, ?_⟩
    rw [decide_eq_true_iff, hinv.none_iff]
  · intro peer naPeer
    obtain ⟨t, hspec, _, hmap⟩ := @peerDisconnected_spec env _ hinv.free peer naPeer
    refine ⟨t, hspec, ?_⟩
    intro q hne hq
    rw [← hinv.registered] at hq
    rw [hmap, if_neg, hq]
    intro hpeer
    exact hne (Option.some.inj (hq.symm.trans hpeer))

/-- Two connections to one node: the second peer is rejected, and ends. -/
theorem key_belongs_to_one_peer_race :
    ∃ w, Reachable sampleEnv ⟨w, [.peerDisconnected 1 ⟨28, [1]⟩, .peerConnected 1 ⟨28, [1]⟩ false,
        .peerConnected 0 ⟨28, [1]⟩ true]⟩ ∧ w.mConnectedMap.lookup ⟨28, [1]⟩ = some 0 := by
  let w : World := { World.init [] with mConnectedMap := AList.insert ⟨28, [1]⟩ 0 ∅ }
  have h₁ : Step sampleEnv ⟨World.init [], []⟩ ⟨w, _⟩ :=
    @Step.peerConnected _ _ _ _ 0 ⟨28, [1]⟩ ([], 0) true rfl
  have h₂ : Step sampleEnv ⟨w, [.peerConnected 0 ⟨28, [1]⟩ true]⟩ ⟨w, _⟩ :=
    @Step.peerConnected _ _ _ _ 1 ⟨28, [1]⟩ ([], 0) false rfl
  have h₃ : Step sampleEnv ⟨w, [.peerConnected 1 ⟨28, [1]⟩ false, .peerConnected 0 ⟨28, [1]⟩ true]⟩ ⟨w, _⟩ :=
    @Step.peerDisconnected _ _ _ _ 1 ⟨28, [1]⟩ rfl
  have h : Reachable sampleEnv ⟨w, _⟩ := ⟨[], ((Relation.ReflTransGen.single h₁).tail h₂).tail h₃⟩
  refine ⟨w, h, ((key_belongs_to_one_peer h).1 ⟨28, [1]⟩ 0).mpr ?_⟩
  exact ⟨[.peerDisconnected 1 ⟨28, [1]⟩, .peerConnected 1 ⟨28, [1]⟩ false], [], rfl, by simp, by simp⟩

end Newcoin.ConnectionPool.Registration
