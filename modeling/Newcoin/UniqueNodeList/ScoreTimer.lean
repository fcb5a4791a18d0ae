import Newcoin.Machine
import Mathlib.Logic.Relation

/-!
# The score timer

`mdtScoreTimer` starts a scoring some seconds after what was fetched has changed.  Whether it has to be
set is told from four times.  While nothing is scored, a change that the last scoring did not see has set
it (`Inv`).

* `dirty_mark_not_lost` — so no change goes unscored.
-/

namespace Newcoin.UniqueNodeList

/-- `SCORE_DELAY_SECONDS`. -/
def SCORE_DELAY_SECONDS : ℤ := 5

/-- The members that scoring is timed by. -/
structure ScoreTimer where
  mtpScoreUpdated : Time
  mtpFetchUpdated : Time
  mtpScoreNext : Time
  mtpScoreStart : Time
  /-- When the wait on it ends, if one is pending. -/
  mdtScoreTimer : Time
  /-- Handlers that are queued with success. -/
  queued : ℕ
  /-- Handlers that are queued with `operation_aborted`. -/
  aborted : ℕ
  deriving DecidableEq, Repr

namespace ScoreTimer

/-- `expires_at`, which cancels a wait that is pending, and `async_wait`. -/
def wait (tp : Time) (s : ScoreTimer) : ScoreTimer :=
  { s with
    mdtScoreTimer := tp
    aborted := if s.mdtScoreTimer.isSome then s.aborted + 1 else s.aborted }

/-- Not scoring, and something to score. -/
def bCanScore (s : ScoreTimer) : Bool := s.mtpScoreStart.isNone && s.mtpFetchUpdated.isSome

/-- Not already scored, and the timer is not fine. -/
def bDirty (s : ScoreTimer) : Bool :=
  (s.mtpScoreUpdated.isNone || Time.le s.mtpScoreUpdated s.mtpFetchUpdated) &&
    (s.mtpScoreNext.isNone ||
      Time.lt s.mtpScoreNext (s.mtpFetchUpdated.map fun tp => tp + SCORE_DELAY_SECONDS))

/-- `scoreNext`; `tpNow` is what it reads off the clock. -/
def scoreNext (bNow : Bool) (tpNow : ℤ) (s : ScoreTimer) : ScoreTimer :=
  if ¬ s.bCanScore then s
  else if bNow || s.bDirty then
    let mtpScoreNext := some (tpNow + if bNow then 0 else SCORE_DELAY_SECONDS)
    wait mtpScoreNext { s with mtpScoreNext }
  else s

/-- `fetchDirty`, which reads the clock, and once more in `scoreNext`. -/
def fetchDirty (tpNow tpNow' : ℤ) (s : ScoreTimer) : ScoreTimer :=
  scoreNext false tpNow' { s with mtpFetchUpdated := some tpNow }

/-- `nodeScore`. -/
def nodeScore (tpNow : ℤ) (s : ScoreTimer) : ScoreTimer := scoreNext true tpNow s

/-- `scoreTimerHandler`, called with success, up to `scoreCompute`. -/
def scoreStart (tpNow : ℤ) (s : ScoreTimer) : ScoreTimer :=
  { s with mtpScoreNext := none, mtpScoreStart := some tpNow }

/-- `scoreTimerHandler` from there on. -/
def scoreEnd (tpNow : ℤ) (s : ScoreTimer) : ScoreTimer :=
  scoreNext false tpNow { s with mtpScoreUpdated := s.mtpScoreStart, mtpScoreStart := none }

/-- `start`, with the times that `miscLoad` finds. -/
def start (mtpFetchUpdated mtpScoreUpdated : Time) (tpNow : ℤ) : ScoreTimer :=
  scoreNext false tpNow
    { mtpScoreUpdated, mtpFetchUpdated, mtpScoreNext := none, mtpScoreStart := none, mdtScoreTimer := none,
      queued := 0, aborted := 0 }

/-! ### `scoreNext` -/

/-- A wait is pending, or a handler queued that will score. -/
def Set (s : ScoreTimer) : Prop := s.mdtScoreTimer.isSome ∨ 0 < s.queued

/-- `mtpScoreNext` says that the timer is set. -/
def Timed (s : ScoreTimer) : Prop := s.mtpScoreNext ≠ none → s.Set

/-- Nothing is scored, and what was fetched has not been. -/
def Due (s : ScoreTimer) : Prop :=
  s.mtpScoreStart = none ∧ ∃ fetched, s.mtpFetchUpdated = some fetched ∧
    ∀ scored, s.mtpScoreUpdated = some scored → scored ≤ fetched

/-- What `scoreNext` leaves alone. -/
lemma scoreNext_frame (bNow : Bool) (tpNow : ℤ) (s : ScoreTimer) :
    (scoreNext bNow tpNow s).mtpScoreUpdated = s.mtpScoreUpdated ∧
      (scoreNext bNow tpNow s).mtpFetchUpdated = s.mtpFetchUpdated ∧
      (scoreNext bNow tpNow s).mtpScoreStart = s.mtpScoreStart ∧
      (scoreNext bNow tpNow s).queued = s.queued := by
  unfold scoreNext wait
  dsimp only
  split_ifs <;> exact ⟨rfl, rfl, rfl, rfl⟩

lemma Due.bCanScore {s : ScoreTimer} (h : s.Due) : s.bCanScore = true := by
  obtain ⟨hstart, fetched, hfetched, _⟩ := h
  rw [ScoreTimer.bCanScore, hstart, hfetched]
  rfl

lemma Due.bDirty {s : ScoreTimer} (h : s.Due) (hnext : s.mtpScoreNext = none) : s.bDirty = true := by
  obtain ⟨_, fetched, hfetched, hscored⟩ := h
  rw [ScoreTimer.bDirty, hnext, Option.isNone_none, Bool.true_or, Bool.and_true, hfetched]
  cases hs : s.mtpScoreUpdated with
  | none => rfl
  | some scored => simpa [Time.le, Time.lt] using hscored scored hs

/-- It sets the timer, or leaves all as it was; then nothing is due, or `mtpScoreNext` is set. -/
lemma scoreNext_cases (bNow : Bool) (tpNow : ℤ) (s : ScoreTimer) :
    (scoreNext bNow tpNow s).mdtScoreTimer.isSome ∨
      scoreNext bNow tpNow s = s ∧ (s.Due → s.mtpScoreNext ≠ none) := by
  rw [scoreNext]
  by_cases hcan : s.bCanScore = true
  · rw [if_neg (not_not.mpr hcan)]
    by_cases hset : (bNow || s.bDirty) = true
    · rw [if_pos hset]
      exact Or.inl rfl
    · rw [if_neg hset]
      refine Or.inr ⟨rfl, ?_⟩
      intro hdue hnext
      rw [hdue.bDirty hnext, Bool.or_true] at hset
      exact hset rfl
  · rw [if_pos hcan]
    exact Or.inr ⟨rfl, fun hdue => absurd hdue.bCanScore hcan⟩

/-- `scoreNext` keeps it. -/
lemma Timed.scoreNext {s : ScoreTimer} (h : s.Timed) (bNow : Bool) (tpNow : ℤ) :
    (scoreNext bNow tpNow s).Timed := by
  rcases scoreNext_cases bNow tpNow s with hset | ⟨hsame, _⟩
  · exact fun _ => Or.inl hset
  · rw [hsame]
    exact h

/-- **`scoreNext` does not forget**: where it leaves the timer alone, it is set already. -/
lemma Timed.set_of_due {s : ScoreTimer} (h : s.Timed) (bNow : Bool) (tpNow : ℤ)
    (hdue : (ScoreTimer.scoreNext bNow tpNow s).Due) : (ScoreTimer.scoreNext bNow tpNow s).Set := by
  rcases scoreNext_cases bNow tpNow s with hset | ⟨hsame, hnext⟩
  · exact Or.inl hset
  · rw [hsame] at hdue ⊢
    exact h (hnext hdue)

end ScoreTimer

/-! ### Runs -/

/-- The timer, and what has happened so far. -/
structure Scoring where
  timer : ScoreTimer
  /-- What the clock showed last. -/
  clock : ℤ
  /-- When the scorings that are running began. -/
  running : List ℤ
  /-- When the scoring that was the last to complete began. -/
  completed : Option ℤ
  /-- The times of the calls of `fetchDirty`. -/
  dirty : List ℤ

namespace Scoring

/-- **What may happen**, while the clock does not go backwards.  A scoring may take its time; when the wait
ends is left open. -/
inductive Step (s : Scoring) : Scoring → Prop
  | fetchDirty {tpNow tpNow' : ℤ} (h : s.clock ≤ tpNow) (h' : tpNow ≤ tpNow') :
    Step s { s with
      timer := s.timer.fetchDirty tpNow tpNow', clock := tpNow', dirty := tpNow :: s.dirty }
  | nodeScore {tpNow : ℤ} (h : s.clock ≤ tpNow) :
    Step s { s with timer := s.timer.nodeScore tpNow, clock := tpNow }
  | expire (h : s.timer.mdtScoreTimer.isSome) :
    Step s { s with timer := { s.timer with mdtScoreTimer := none, queued := s.timer.queued + 1 } }
  | aborted (h : 0 < s.timer.aborted) :
    Step s { s with timer := { s.timer with aborted := s.timer.aborted - 1 } }
  | scoreStart {tpNow : ℤ} (h : 0 < s.timer.queued) (h' : s.clock ≤ tpNow) :
    Step s { s with
      timer := { s.timer with queued := s.timer.queued - 1 }.scoreStart tpNow
      clock := tpNow
      running := tpNow :: s.running }
  | scoreEnd {tpNow began : ℤ} (h : began ∈ s.running) (h' : s.clock ≤ tpNow) :
    Step s { s with
      timer := s.timer.scoreEnd tpNow
      clock := tpNow
      running := s.running.erase began
      completed := some began }

/-- After `start`; the scoring that is on record began in the past. -/
inductive Start : Scoring → Prop
  | intro (mtpFetchUpdated : Time) {mtpScoreUpdated : Time} {tpNow : ℤ}
      (h : ∀ scored, mtpScoreUpdated = some scored → scored ≤ tpNow) :
      Start ⟨.start mtpFetchUpdated mtpScoreUpdated tpNow, tpNow, [], none, []⟩

def Reachable (s : Scoring) : Prop := ∃ s₀, Start s₀ ∧ Relation.ReflTransGen Step s₀ s

/-- What the times say about the past. -/
structure Kept (s : Scoring) : Prop where
  timed : s.timer.Timed
  updated_past : ∀ scored, s.timer.mtpScoreUpdated = some scored → scored ≤ s.clock
  running_past : ∀ began ∈ s.running, began ≤ s.clock
  dirty_past : ∀ tp ∈ s.dirty, tp ≤ s.clock
  noted : ∀ tp ∈ s.dirty, ∃ fetched, s.timer.mtpFetchUpdated = some fetched ∧ tp ≤ fetched
  start : ∀ began, s.timer.mtpScoreStart = some began → began ∈ s.running
  /-- Until a scoring completes, the one that is on record began before all changes. -/
  loaded : s.completed = none → ∀ scored, s.timer.mtpScoreUpdated = some scored → ∀ tp ∈ s.dirty, scored ≤ tp
  /-- Scorings that overlap clear `mtpScoreStart` for each other: the last to complete may leave no time. -/
  updated : s.running = [] → ∀ began, s.completed = some began →
    s.timer.mtpScoreUpdated = none ∨ s.timer.mtpScoreUpdated = some began

/-- **The invariant**: and what is due is awaited. -/
structure Inv (s : Scoring) : Prop extends Kept s where
  set : s.timer.Due → s.timer.Set

/-- A call that ends with `scoreNext`. -/
lemma Kept.scoreNext {s : Scoring} (h : Kept s) (bNow : Bool) {tpNow : ℤ} (hclock : s.clock ≤ tpNow) :
    Inv { s with timer := s.timer.scoreNext bNow tpNow, clock := tpNow } := by
  obtain ⟨hupdated, hfetched, hstart, _⟩ := ScoreTimer.scoreNext_frame bNow tpNow s.timer
  refine ⟨⟨h.timed.scoreNext bNow tpNow, ?_, ?_, ?_, ?_, ?_, ?_, ?_⟩, h.timed.set_of_due bNow tpNow⟩
  · intro scored hscored
    exact (h.updated_past scored (hupdated.symm.trans hscored)).trans hclock
  · intro began hbegan
    exact (h.running_past began hbegan).trans hclock
  · intro tp htp
    exact (h.dirty_past tp htp).trans hclock
  · intro tp htp
    rw [hfetched]
    exact h.noted tp htp
  · intro began hbegan
    exact h.start began (hstart.symm.trans hbegan)
  · intro hcompleted scored hscored
    exact h.loaded hcompleted scored (hupdated.symm.trans hscored)
  · intro hidle began hcompleted
    rw [hupdated]
    exact h.updated hidle began hcompleted

lemma inv_start {s : Scoring} (h : Start s) : Inv s := by
  obtain @⟨mtpFetchUpdated, mtpScoreUpdated, tpNow, hscored⟩ := h
  have hkept : Kept ⟨⟨mtpScoreUpdated, mtpFetchUpdated, none, none, none, 0, 0⟩, tpNow, [], none, []⟩ :=
    ⟨fun hnext => absurd rfl hnext, hscored, nofun, nofun, nofun, nofun, fun _ _ _ => nofun, fun _ => nofun⟩
  exact hkept.scoreNext false le_rfl

lemma Inv.fetchDirty {s : Scoring} (h : Inv s) {tpNow tpNow' : ℤ} (h1 : s.clock ≤ tpNow) (h2 : tpNow ≤ tpNow') :
    Inv { s with timer := s.timer.fetchDirty tpNow tpNow', clock := tpNow', dirty := tpNow :: s.dirty } := by
  have hkept : Kept { s with
      timer := { s.timer with mtpFetchUpdated := some tpNow }, clock := tpNow, dirty := tpNow :: s.dirty } := by
    have hpast : ∀ tp ∈ tpNow :: s.dirty, tp ≤ tpNow := by
      intro tp htp
      rcases List.mem_cons.mp htp with rfl | htp
      · exact le_rfl
      · exact (h.dirty_past tp htp).trans h1
    refine ⟨h.timed, ?_, ?_, hpast, fun tp htp => ⟨tpNow, rfl, hpast tp htp⟩, h.start, ?_, h.updated⟩
    · intro scored hscored
      exact (h.updated_past scored hscored).trans h1
    · intro began hbegan
      exact (h.running_past began hbegan).trans h1
    · intro hcompleted scored hscored tp htp
      rcases List.mem_cons.mp htp with rfl | htp
      · exact (h.updated_past scored hscored).trans h1
      · exact h.loaded hcompleted scored hscored tp htp
  exact hkept.scoreNext false h2

lemma Inv.scoreStart {s : Scoring} (h : Inv s) {tpNow : ℤ} (h1 : s.clock ≤ tpNow) :
    Inv { s with
      timer := { s.timer with queued := s.timer.queued - 1 }.scoreStart tpNow
      clock := tpNow
      running := tpNow :: s.running } := by
  refine ⟨⟨fun hnext => absurd rfl hnext, ?_, ?_, ?_, h.noted, ?_, h.loaded, nofun⟩, ?_⟩
  · intro scored hscored
    exact (h.updated_past scored hscored).trans h1
  · intro began hbegan
    rcases List.mem_cons.mp hbegan with rfl | hbegan
    · exact le_rfl
    · exact (h.running_past began hbegan).trans h1
  · intro tp htp
    exact (h.dirty_past tp htp).trans h1
  · intro began hbegan
    obtain rfl := Option.some.inj hbegan
    exact List.mem_cons_self
  · rintro ⟨hstart, _⟩
    cases hstart

lemma Inv.scoreEnd {s : Scoring} (h : Inv s) {tpNow began : ℤ} (h1 : s.clock ≤ tpNow) :
    Inv { s with
      timer := s.timer.scoreEnd tpNow
      clock := tpNow
      running := s.running.erase began
      completed := some began } := by
  have hkept : Kept { s with
      timer := { s.timer with mtpScoreUpdated := s.timer.mtpScoreStart, mtpScoreStart := none }
      running := s.running.erase began
      completed := some began } := by
    refine ⟨h.timed, ?_, ?_, h.dirty_past, h.noted, nofun, nofun, ?_⟩
    · intro scored hscored
      exact h.running_past scored (h.start scored hscored)
    · intro began' hbegan'
      exact h.running_past began' (List.mem_of_mem_erase hbegan')
    · intro hidle began' hcompleted
      obtain rfl := Option.some.inj hcompleted
      cases hstart : s.timer.mtpScoreStart with
      | none => exact Or.inl rfl
      | some began' =>
        -- no other scoring was running
        refine Or.inr (congrArg some ?_)
        by_contra hne
        have hmem := (List.mem_erase_of_ne hne).mpr (h.start began' hstart)
        exact List.eq_nil_iff_forall_not_mem.mp hidle began' hmem
  exact hkept.scoreNext false h1

lemma inv_step {s t : Scoring} (h : Inv s) (hstep : Step s t) : Inv t := by
  cases hstep with
  | fetchDirty h1 h2 => exact h.fetchDirty h1 h2
  | nodeScore h1 => exact h.toKept.scoreNext true h1
  | expire _ =>
    have hqueued : ∀ P : Prop, P ∨ 0 < s.timer.queued + 1 := fun _ => Or.inr (Nat.succ_pos _)
    exact ⟨⟨fun _ => hqueued _, h.updated_past, h.running_past, h.dirty_past, h.noted, h.start, h.loaded, h.updated⟩,
      fun _ => hqueued _⟩
  | aborted _ =>
    exact ⟨⟨h.timed, h.updated_past, h.running_past, h.dirty_past, h.noted, h.start, h.loaded, h.updated⟩, h.set⟩
  | scoreStart _ h1 => exact h.scoreStart h1
  | scoreEnd _ h1 => exact h.scoreEnd h1

lemma reachable_inv {s : Scoring} (h : Reachable s) : Inv s := by
  obtain ⟨s₀, hstart, hrun⟩ := h
  induction hrun with
  | refl => exact inv_start hstart
  | tail _ hstep ih => exact inv_step ih hstep

/-- **No change is lost.**  If nothing is being scored, and something changed at or after the time when the
last scoring to complete began, or none has completed, then a wait is pending or a handler queued that will
score. -/
theorem dirty_mark_not_lost {s : Scoring} (h : Reachable s) (hidle : s.running = []) {tp : ℤ}
    (htp : tp ∈ s.dirty) (hlast : ∀ began, s.completed = some began → began ≤ tp) :
    s.timer.mdtScoreTimer.isSome ∨ 0 < s.timer.queued := by
  have hinv := reachable_inv h
  apply hinv.set
  constructor
  · cases hstart : s.timer.mtpScoreStart with
    | none => rfl
    | some began =>
      have hmem := hinv.start began hstart
      rw [hidle] at hmem
      cases hmem
  · obtain ⟨fetched, hfetched, hle⟩ := hinv.noted tp htp
    refine ⟨fetched, hfetched, ?_⟩
    intro scored hscored
    cases hcompleted : s.completed with
    | none => exact (hinv.loaded hcompleted scored hscored tp htp).trans hle
    | some began =>
      rcases hinv.updated hidle began hcompleted with hnone | hsome
      · rw [hnone] at hscored
        cases hscored
      · obtain rfl := Option.some.inj (hsome.symm.trans hscored)
        exact (hlast began hcompleted).trans hle

/-- Nothing is on record; a call of `fetchDirty`. -/
def fetched : Scoring :=
  ⟨(ScoreTimer.start none none 0).fetchDirty 0 0, 0, [], none, [0]⟩

lemma fetched_reachable : Reachable fetched := by
  have hstart : Start ⟨.start none none 0, 0, [], none, []⟩ := .intro none fun _ h => nomatch h
  exact ⟨_, hstart, Relation.ReflTransGen.single (.fetchDirty le_rfl le_rfl)⟩

theorem dirty_mark_not_lost_fetched :
    fetched.running = [] ∧ (0 : ℤ) ∈ fetched.dirty ∧ fetched.completed = none ∧
      (fetched.timer.mdtScoreTimer.isSome ∨ 0 < fetched.timer.queued) :=
  ⟨rfl, List.mem_singleton_self 0, rfl,
    dirty_mark_not_lost fetched_reachable rfl (List.mem_singleton_self 0) fun _ h => nomatch h⟩

end Scoring

end Newcoin.UniqueNodeList
