import Newcoin.HttpsClient.Defs

/-!
# Every run of an `HttpsClient`

Handlers run in any order, deadline handlers among them.  While sites are left, exactly one operation is
in flight, and as many sites have been given up as `invokeComplete` has run (`Counted`).  Every handler
brings the request nearer to its end (`potential`).

* `completes_exactly_once` — `invokeComplete` runs once for every site, and `mComplete` once.
* `sites_evaluated_iff` — `mDeqSites[0]` is evaluated on an empty deque by a deadline handler that comes
  too late, and by nothing else.
* `stale_deadline` — a run with such a handler.
-/

namespace Newcoin.HttpsClient

variable {as : ℕ → Attempt} {n bound : ℕ} {s t : HttpsClient}

/-- `n` sites in all: one call of `invokeComplete` for each that is gone, one attempt more if an operation
is in flight, which is so while sites are left, and one call of `mComplete` when none is. -/
structure Counted (n : ℕ) (s : HttpsClient) : Prop where
  invoked : s.invoked + s.mDeqSites.length = n
  attempted : s.attempted = s.invoked + if s.pending.isSome then 1 else 0
  pending : s.pending = none ↔ s.mDeqSites = []
  completed : s.completed.length = if s.mDeqSites = [] then 1 else 0

/-- How many handlers an attempt has ahead of it. -/
def stage : Option Operation → ℕ
  | none => 0
  | some .read => 1
  | some .write => 2
  | some .handshake => 3
  | some .connect => 4
  | some .resolve => 5

/-- How many handlers may still run: five for every site to come and its deadline's, those of the attempt
under way, and the deadline handlers that have not run. -/
def potential (s : HttpsClient) : ℕ := 6 * (s.mDeqSites.length - 1) + stage s.pending + s.waits

/-! ### Within a handler -/

/-- A handler is running, and no operation is in flight: the first site is still to be tried (`tried = 0`),
or its attempt is over (`tried = 1`). -/
structure Active (n tried : ℕ) (s : HttpsClient) : Prop where
  sites : s.mDeqSites ≠ []
  invoked : s.invoked + s.mDeqSites.length = n
  attempted : s.attempted = s.invoked + tried
  pending : s.pending = none
  completed : s.completed = []

/-- What a call leaves behind. -/
structure Settled (n bound : ℕ) (s t : HttpsClient) : Prop where
  counted : Counted n t
  noSite : t.noSite = s.noSite
  potential : t.potential ≤ bound

lemma Settled.mono {bound' : ℕ} (h : Settled n bound s t) (hbound : bound ≤ bound') : Settled n bound' s t :=
  ⟨h.counted, h.noSite, h.potential.trans hbound⟩

lemma site_of_ne (h : s.mDeqSites ≠ []) : s.site = s := by
  have hempty : s.mDeqSites.isEmpty = false := by simpa using h
  rw [site, hempty, Bool.or_false]

lemma note_eq (ec : ErrorCode) (s : HttpsClient) :
    s.note ec = { s with mShutdown := if s.mShutdown = .success then ec else s.mShutdown } := by
  unfold note
  split_ifs <;> rfl

/-- An operation is started. -/
lemma Active.starts (h : Active n 1 s) (op : Operation) (mShutdown : ErrorCode)
    (hbound : 6 * (s.mDeqSites.length - 1) + stage (some op) + s.waits ≤ bound) :
    Settled n bound s { s with mShutdown, pending := some op } := by
  refine ⟨⟨h.invoked, ?_, ?_, ?_⟩, rfl, hbound⟩
  · exact h.attempted
  · exact iff_of_false nofun h.sites
  · rw [if_neg h.sites]
    exact congrArg List.length h.completed

/-- The first site's operation has come back. -/
lemma Counted.active (h : Counted n s) {op : Operation} (hop : s.pending = some op) :
    Active n 1 { s with pending := none } := by
  have hsites : s.mDeqSites ≠ [] := by
    intro hnil
    rw [h.pending.mpr hnil] at hop
    cases hop
  refine ⟨hsites, h.invoked, ?_, rfl, ?_⟩
  · have hattempted := h.attempted
    rw [hop] at hattempted
    exact hattempted
  · have hcompleted := h.completed
    rw [if_neg hsites] at hcompleted
    exact List.eq_nil_of_length_eq_zero hcompleted

/-- `invokeComplete` at the last site. -/
lemma Active.last (h : Active n 1 s) {x : Bytes} (hx : s.mDeqSites = [x]) (ec : ErrorCode) (strData : Bytes) :
    Settled n s.waits s (invokeComplete as ec strData s) := by
  have hinvoked := h.invoked
  have hattempted := h.attempted
  rw [invokeComplete_last as hx]
  refine ⟨⟨?_, ?_, ?_, ?_⟩, rfl, ?_⟩
  · rw [hx] at hinvoked
    exact hinvoked
  · dsimp only
    rw [h.pending]
    exact hattempted
  · exact iff_of_true h.pending rfl
  · dsimp only
    rw [h.completed]
    rfl
  · simp [potential, stage, h.pending]

/-- `httpsNext` starts to resolve the first site, or gives it up at once. -/
lemma Active.next (h : Active n 0 s)
    (hcomplete : ∀ ec t, Active n 1 t → t.mDeqSites = s.mDeqSites → t.waits = s.waits →
      Settled n (6 * (s.mDeqSites.length - 1) + s.waits) t (invokeComplete as ec [] t)) :
    Settled n (6 * s.mDeqSites.length + s.waits) s (httpsNext as s) := by
  have hpos : 0 < s.mDeqSites.length := List.length_pos_of_ne_nil h.sites
  have hactive : ∀ mShutdown, Active n 1 { s with attempted := s.attempted + 1, mShutdown } := fun _ =>
    ⟨h.sites, h.invoked, congrArg (· + 1) h.attempted, h.pending, h.completed⟩
  have hgive : ∀ ec, Settled n (6 * s.mDeqSites.length + s.waits) s
      (invokeComplete as ec [] { s with attempted := s.attempted + 1, mShutdown := ec }) := by
    intro ec
    obtain ⟨hcounted, hnoSite, hpotential⟩ := hcomplete ec _ (hactive ec) rfl rfl
    exact ⟨hcounted, hnoSite, hpotential.trans (by omega)⟩
  rw [HttpsClient.httpsNext]
  by_cases hpaths : (as s.mDeqSites.length).verifyPaths = .success
  · by_cases hexpires : (as s.mDeqSites.length).expires = .success
    · have hstart : httpsStart as s = { s with
          attempted := s.attempted + 1, mShutdown := .success, waits := s.waits + 1,
          pending := some .resolve } := by
        simp [httpsStart, site_of_ne h.sites, hpaths, hexpires]
      rw [hstart, if_pos rfl]
      refine ⟨⟨h.invoked, ?_, iff_of_false nofun h.sites, ?_⟩, rfl, ?_⟩
      · exact congrArg (· + 1) h.attempted
      · rw [if_neg h.sites]
        exact congrArg List.length h.completed
      · simp only [potential, stage]
        omega
    · have hstart : httpsStart as s = { s with
          attempted := s.attempted + 1, mShutdown := (as s.mDeqSites.length).expires } := by
        simp [httpsStart, site_of_ne h.sites, hpaths, hexpires]
      rw [hstart, if_neg hexpires]
      exact hgive _
  · have hstart : httpsStart as s = { s with
        attempted := s.attempted + 1, mShutdown := (as s.mDeqSites.length).verifyPaths } := by
      simp [httpsStart, site_of_ne h.sites, hpaths]
    rw [hstart, if_neg hpaths]
    exact hgive _

/-- **`invokeComplete`**, by induction on the sites that are left. -/
lemma Active.complete (h : Active n 1 s) (ec : ErrorCode) (strData : Bytes) :
    Settled n (6 * (s.mDeqSites.length - 1) + s.waits) s (invokeComplete as ec strData s) := by
  induction hk : s.mDeqSites.length - 1 generalizing s ec strData with
  | zero =>
    obtain ⟨x, hx⟩ : ∃ x, s.mDeqSites = [x] := by
      have hpos := List.length_pos_of_ne_nil h.sites
      exact List.length_eq_one_iff.mp (by omega)
    rw [Nat.mul_zero, Nat.zero_add]
    exact h.last hx ec strData
  | succ k ih =>
    obtain ⟨x, rest, hx⟩ := List.exists_cons_of_ne_nil h.sites
    have hrest : rest.length = k + 1 := by simpa [hx] using hk
    have hne : rest ≠ [] := List.ne_nil_of_length_eq_add_one hrest
    have hinvoked := h.invoked
    rw [hx, List.length_cons] at hinvoked
    rw [invokeComplete_next as hx hne, ← hrest]
    have hready : Active n 0 { s with mDeqSites := rest, invoked := s.invoked + 1 } :=
      ⟨hne, (Nat.add_right_comm _ _ _).trans hinvoked, h.attempted, h.pending, h.completed⟩
    obtain ⟨hcounted, hnoSite, hpotential⟩ := @Active.next as _ _ hready fun ec t ht hsites hwaits => by
      have hlen : t.mDeqSites.length - 1 = k := by
        rw [hsites]
        exact congrArg (· - 1) hrest
      have hsettled := ih ht ec [] hlen
      rw [hwaits] at hsettled
      dsimp only
      rw [hrest]
      exact hsettled
    exact ⟨hcounted, hnoSite, hpotential⟩

lemma Active.httpsNext (h : Active n 0 s) :
    Settled n (6 * s.mDeqSites.length + s.waits) s (httpsNext as s) := by
  refine h.next ?_
  intro ec t ht hsites hwaits
  rw [← hsites, ← hwaits]
  exact ht.complete ec []

/-! ### One handler -/

lemma Active.gives (h : Active n 1 s) (ec mShutdown : ErrorCode) (strData mResponse : Bytes) :
    Settled n (6 * (s.mDeqSites.length - 1) + s.waits) s
      (invokeComplete as ec strData { s with mShutdown, mResponse }) := by
  have hactive : Active n 1 { s with mShutdown, mResponse } :=
    ⟨h.sites, h.invoked, h.attempted, h.pending, h.completed⟩
  obtain ⟨hcounted, hnoSite, hpotential⟩ := @Active.complete as _ _ hactive ec strData
  exact ⟨hcounted, hnoSite, hpotential⟩

/-- A handler starts the next operation, or completes. -/
lemma Active.handler (h : Active n 1 s) (op : Operation) (mShutdown : ErrorCode) :
    Settled n (6 * (s.mDeqSites.length - 1) + stage (some op) + s.waits) s
      (if mShutdown = .success then { s with mShutdown, pending := some op }
       else invokeComplete as mShutdown [] { s with mShutdown }) := by
  split_ifs
  · exact h.starts op mShutdown le_rfl
  · exact (h.gives _ _ _ _).mono (by omega)

lemma Active.handleResolve (h : Active n 1 s) (ec : ErrorCode) :
    Settled n (6 * (s.mDeqSites.length - 1) + 4 + s.waits) s (handleResolve as ec s) := by
  rw [HttpsClient.handleResolve, note_eq]
  exact h.handler .connect _

lemma Active.handleConnect (h : Active n 1 s) (ec : ErrorCode) :
    Settled n (6 * (s.mDeqSites.length - 1) + 3 + s.waits) s (handleConnect as ec s) := by
  have hsite : ∀ mShutdown, site { s with mShutdown } = { s with mShutdown } := fun _ => site_of_ne h.sites
  rw [HttpsClient.handleConnect, note_eq]
  by_cases hm : (if s.mShutdown = .success then ec else s.mShutdown) = .success
  · simp only [if_pos hm, hsite]
    exact h.handler .handshake _
  · simp only [if_neg hm]
    exact (h.gives _ _ _ _).mono (by omega)

lemma Active.handleRequest (h : Active n 1 s) (ec : ErrorCode) :
    Settled n (6 * (s.mDeqSites.length - 1) + 2 + s.waits) s (handleRequest as ec s) := by
  have hsite : ∀ mShutdown, site { s with mShutdown } = { s with mShutdown } := fun _ => site_of_ne h.sites
  rw [HttpsClient.handleRequest, note_eq]
  simp only [hsite]
  exact h.handler .write _

lemma Active.handleWrite (h : Active n 1 s) (ec : ErrorCode) :
    Settled n (6 * (s.mDeqSites.length - 1) + 1 + s.waits) s (handleWrite as ec s) := by
  rw [HttpsClient.handleWrite, note_eq]
  exact h.handler .read _

lemma Active.handleData (h : Active n 1 s) (ec : ErrorCode) :
    Settled n (6 * (s.mDeqSites.length - 1) + s.waits) s (handleData as ec s) := by
  rw [HttpsClient.handleData, note_eq]
  dsimp only
  generalize (if s.mShutdown = .success then ec else s.mShutdown) = mShutdown
  by_cases hm : mShutdown ≠ .success ∧ mShutdown ≠ .eof
  · rw [if_pos hm]
    exact h.gives _ _ _ _
  · rw [if_neg hm, parseData]
    cases parseResponse s.mResponse with
    | some body => exact h.gives _ _ _ _
    | none => exact h.gives _ _ _ _

/-! ### Runs -/

/-- A deadline handler that has expired comes when no site is left, and the shutdown reports an error. -/
def Stale (s : HttpsClient) : Event → Prop
  | .deadline expired ecShutdown => expired = true ∧ ecShutdown ≠ .success ∧ s.mDeqSites = []
  | _ => False

/-- What a handler leaves behind. -/
structure Stepped (n : ℕ) (s : HttpsClient) (e : Event) (t : HttpsClient) : Prop where
  counted : Counted n t
  noSite : t.noSite = true ↔ s.noSite = true ∨ Stale s e
  potential : t.potential < s.potential

lemma Counted.handleDeadline (h : Counted n s) (hwaits : 0 < s.waits) (expired : Bool) (ecShutdown : ErrorCode) :
    Stepped n s (.deadline expired ecShutdown)
      (handleDeadline expired ecShutdown { s with waits := s.waits - 1 }) := by
  have hless : 6 * (s.mDeqSites.length - 1) + stage s.pending + (s.waits - 1) < potential s := by
    unfold potential
    omega
  unfold HttpsClient.handleDeadline
  dsimp only
  by_cases hexpired : expired = true
  · rw [if_pos hexpired]
    by_cases hec : ecShutdown = .success
    · rw [if_pos hec]
      exact ⟨⟨h.invoked, h.attempted, h.pending, h.completed⟩, (or_iff_left fun hstale => hstale.2.1 hec).symm, hless⟩
    · rw [if_neg hec, site]
      refine ⟨⟨h.invoked, h.attempted, h.pending, h.completed⟩, ?_, hless⟩
      simp [Stale, hexpired, hec]
  · rw [if_neg hexpired]
    exact ⟨⟨h.invoked, h.attempted, h.pending, h.completed⟩, (or_iff_left fun hstale => hexpired hstale.1).symm, hless⟩

/-- **One handler.** -/
lemma Counted.stepped (h : Counted n s) {e : Event} (hstep : step as s e = some t) : Stepped n s e t := by
  -- the handler of the operation in flight, which leaves at most `k` to come
  have hcalled : ∀ op k, s.pending = some op → k < stage (some op) → ¬ Stale s e →
      (Active n 1 { s with pending := none } →
        Settled n (6 * (s.mDeqSites.length - 1) + k + s.waits) { s with pending := none } t) →
      Stepped n s e t := by
    intro op k hop hk hstale hsettled
    obtain ⟨hcounted, hnoSite, hpotential⟩ := hsettled (h.active hop)
    refine ⟨hcounted, ?_, hpotential.trans_lt ?_⟩
    · rw [hnoSite, or_iff_left hstale]
    · rw [potential, hop]
      omega
  cases e with
  | resolved ec =>
    rw [step] at hstep
    split_ifs at hstep with hop
    obtain rfl := Option.some.inj hstep
    exact hcalled .resolve 4 hop (by decide) id fun hactive => hactive.handleResolve ec
  | connected ec =>
    rw [step] at hstep
    split_ifs at hstep with hop
    obtain rfl := Option.some.inj hstep
    exact hcalled .connect 3 hop (by decide) id fun hactive => hactive.handleConnect ec
  | handshaken ec =>
    rw [step] at hstep
    split_ifs at hstep with hop
    obtain rfl := Option.some.inj hstep
    exact hcalled .handshake 2 hop (by decide) id fun hactive => hactive.handleRequest ec
  | written ec =>
    rw [step] at hstep
    split_ifs at hstep with hop
    obtain rfl := Option.some.inj hstep
    exact hcalled .write 1 hop (by decide) id fun hactive => hactive.handleWrite ec
  | received data ec =>
    rw [step] at hstep
    split_ifs at hstep with hop
    obtain rfl := Option.some.inj hstep
    refine hcalled .read 0 hop (by decide) id fun hactive => ?_
    have hdata : Active n 1 { s with pending := none, mResponse := s.mResponse ++ data } :=
      ⟨hactive.sites, hactive.invoked, hactive.attempted, hactive.pending, hactive.completed⟩
    obtain ⟨hcounted, hnoSite, hpotential⟩ := @Active.handleData as _ _ hdata ec
    exact ⟨hcounted, hnoSite, hpotential⟩
  | deadline expired ec =>
    rw [step] at hstep
    split_ifs at hstep with hwaits
    obtain rfl := Option.some.inj hstep
    exact h.handleDeadline hwaits expired ec

/-- The request. -/
lemma httpsGet_settled {deqSites : List Bytes} (h : deqSites ≠ []) :
    Counted deqSites.length (httpsGet as deqSites) ∧ (httpsGet as deqSites).noSite = false ∧
      (httpsGet as deqSites).potential ≤ 6 * deqSites.length := by
  have hactive : Active deqSites.length 0 ⟨deqSites, .success, [], none, 0, 0, 0, [], false⟩ :=
    ⟨h, Nat.zero_add _, rfl, rfl, rfl⟩
  obtain ⟨hcounted, hnoSite, hpotential⟩ := @Active.httpsNext as _ _ hactive
  exact ⟨hcounted, hnoSite, hpotential⟩

/-- **Handlers one after the other.** -/
lemma Counted.run (h : Counted n s) {events : List Event} (hrun : events.foldlM (step as) s = some t) :
    Counted n t ∧ events.length + t.potential ≤ s.potential := by
  induction events generalizing s with
  | nil =>
    obtain rfl := Option.some.inj hrun
    exact ⟨h, (Nat.zero_add _).le⟩
  | cons e events ih =>
    rw [List.foldlM_cons] at hrun
    obtain ⟨u, hstep, hrest⟩ := Option.bind_eq_some_iff.mp hrun
    obtain ⟨hcounted, _, hpotential⟩ := h.stepped hstep
    obtain ⟨hcounted, hbound⟩ := ih hcounted hrest
    refine ⟨hcounted, ?_⟩
    rw [List.length_cons]
    omega

/-- **A request completes exactly once.**  Whatever the operations and the deadline handlers come back
with, and in whatever order they run: sites are attempted one after the other, each with one call of
`invokeComplete`, and `mComplete` is called with the last.  At most six handlers run for a site. -/
theorem completes_exactly_once (as : ℕ → Attempt) {deqSites : List Bytes} (h : deqSites ≠ [])
    {events : List Event} {s : HttpsClient} (hrun : events.foldlM (step as) (httpsGet as deqSites) = some s) :
    Counted deqSites.length s ∧ s.attempted ≤ deqSites.length ∧ events.length ≤ 6 * deqSites.length ∧
      (s.pending = none → s.attempted = deqSites.length ∧ s.invoked = deqSites.length ∧
        s.completed.length = 1) := by
  obtain ⟨hcounted, _, hpotential⟩ := @httpsGet_settled as _ h
  obtain ⟨hcounted, hbound⟩ := hcounted.run hrun
  have hinvoked := hcounted.invoked
  have hattempted := hcounted.attempted
  refine ⟨hcounted, ?_, by omega, ?_⟩
  · by_cases hpending : s.pending = none
    · rw [hpending] at hattempted
      simp only [Option.isSome_none, Bool.false_eq_true, if_false] at hattempted
      omega
    · have hpos := List.length_pos_of_ne_nil fun hnil => hpending (hcounted.pending.mpr hnil)
      split_ifs at hattempted <;> omega
  · intro hpending
    have hnil := hcounted.pending.mp hpending
    have hcompleted := hcounted.completed
    rw [hnil, List.length_nil] at hinvoked
    rw [hpending] at hattempted
    rw [if_pos hnil] at hcompleted
    exact ⟨hattempted.trans hinvoked, hinvoked, hcompleted⟩

/-- One site, which does not resolve. -/
def unresolved : ℕ → Attempt := fun _ =>
  ⟨.success, .success, .other 1, .success, .success, .success, .success, .eof, [], .success⟩

/-- Its deadline has expired, but the handler comes after the resolver's. -/
def late : List Event := [.resolved (.other 1), .deadline true (.other 2)]

lemma late_run : late.foldlM (step unresolved) (httpsGet unresolved [cString "a"]) =
    some ⟨[], .badAddress, [], none, 0, 1, 1, [(.other 1, [])], true⟩ := by
  have hget : httpsGet unresolved [cString "a"] =
      ⟨[cString "a"], .success, [], some .resolve, 1, 1, 0, [], false⟩ := by
    rw [httpsGet, httpsNext]
    decide +kernel
  have hresolved : step unresolved (httpsGet unresolved [cString "a"]) (.resolved (.other 1)) =
      some ⟨[], .other 1, [], none, 1, 1, 1, [(.other 1, [])], false⟩ := by
    rw [hget, step, if_pos rfl, handleResolve, note_eq]
    exact congrArg some (invokeComplete_last unresolved rfl (.other 1) [])
  rw [late, List.foldlM_cons, hresolved]
  rfl

theorem completes_exactly_once_late :
    [cString "a"] ≠ [] ∧ Counted 1 ⟨[], .badAddress, [], none, 0, 1, 1, [(.other 1, [])], true⟩ :=
  ⟨by decide, (completes_exactly_once unresolved (by decide) late_run).1⟩

/-! ### Stale deadlines -/

/-- Some handler of the run is stale. -/
def HasStale (as : ℕ → Attempt) (s : HttpsClient) (events : List Event) : Prop :=
  ∃ before e after t, events = before ++ e :: after ∧ before.foldlM (step as) s = some t ∧ Stale t e

lemma hasStale_cons {e : Event} {events : List Event} (hstep : step as s e = some t) :
    HasStale as s (e :: events) ↔ Stale s e ∨ HasStale as t events := by
  constructor
  · rintro ⟨before, e', after, u, hsplit, hbefore, hstale⟩
    cases before with
    | nil =>
      obtain ⟨rfl, -⟩ := List.cons.inj hsplit
      obtain rfl := Option.some.inj hbefore
      exact Or.inl hstale
    | cons a before =>
      obtain ⟨rfl, hrest⟩ := List.cons.inj hsplit
      rw [List.foldlM_cons, hstep] at hbefore
      exact Or.inr ⟨before, e', after, u, hrest, hbefore, hstale⟩
  · rintro (hstale | ⟨before, e', after, u, hsplit, hbefore, hstale⟩)
    · exact ⟨[], e, events, s, rfl, rfl, hstale⟩
    · refine ⟨e :: before, e', after, u, congrArg (e :: ·) hsplit, ?_, hstale⟩
      rw [List.foldlM_cons, hstep]
      exact hbefore

lemma Counted.noSite_iff (h : Counted n s) {events : List Event} (hrun : events.foldlM (step as) s = some t) :
    t.noSite = true ↔ s.noSite = true ∨ HasStale as s events := by
  induction events generalizing s with
  | nil =>
    obtain rfl := Option.some.inj hrun
    refine (or_iff_left ?_).symm
    rintro ⟨before, e, after, u, hsplit, -⟩
    exact List.append_ne_nil_of_right_ne_nil before (List.cons_ne_nil e after) hsplit.symm
  | cons e events ih =>
    rw [List.foldlM_cons] at hrun
    obtain ⟨u, hstep, hrest⟩ := Option.bind_eq_some_iff.mp hrun
    obtain ⟨hcounted, hnoSite, _⟩ := h.stepped hstep
    rw [ih hcounted hrest, hnoSite, hasStale_cons hstep, or_assoc]

/-- **`mDeqSites[0]` exists whenever it is evaluated, exactly if no deadline handler is stale.** -/
theorem sites_evaluated_iff (as : ℕ → Attempt) {deqSites : List Bytes} (h : deqSites ≠ [])
    {events : List Event} {s : HttpsClient} (hrun : events.foldlM (step as) (httpsGet as deqSites) = some s) :
    s.noSite = false ↔ ∀ before e after t, events = before ++ e :: after →
      before.foldlM (step as) (httpsGet as deqSites) = some t → ¬ Stale t e := by
  obtain ⟨hcounted, hnoSite, _⟩ := @httpsGet_settled as _ h
  rw [← Bool.not_eq_true, hcounted.noSite_iff hrun, hnoSite]
  simp only [Bool.false_eq_true, false_or, HasStale, not_exists, not_and]

theorem sites_evaluated_iff_late :
    (true = false ↔ ∀ before e after t, late = before ++ e :: after →
      before.foldlM (step unresolved) (httpsGet unresolved [cString "a"]) = some t → ¬ Stale t e) :=
  sites_evaluated_iff unresolved (by decide) late_run

/-- After the last site has failed to resolve, its deadline reads the empty deque. -/
theorem stale_deadline :
    ¬ ∀ (as : ℕ → Attempt) (deqSites : List Bytes), deqSites ≠ [] →
      ∀ (events : List Event) (s : HttpsClient),
        events.foldlM (step as) (httpsGet as deqSites) = some s → s.noSite = false :=
  fun h => absurd (h unresolved _ (by decide) late _ late_run) (by decide)

end Newcoin.HttpsClient
