import Newcoin.UniqueNodeList.ScoreTimer
import Newcoin.UniqueNodeList.StoredDomains

/-!
# Scoring across restarts

The times that scoring is timed by are written to `Misc` where they change, and read back when the program
starts.  The program may stop anywhere, in the middle of a scoring too; what was fetched since the last scoring
that completed is still scored afterwards.

* `Inv`: `Misc` says what the members say, and what `Scoring.Inv` asks of them.
* `dirty_mark_survives`: no change is lost, whatever the number of restarts.
-/

namespace Newcoin.UniqueNodeList

open Seeds (iToSeconds ptFromSeconds)
open SeedRecords (IsMoment)

/-! ### The row of `Misc` -/

/-- The row of `Misc` with `Magic=1`. -/
structure Misc where
  FetchUpdated : ℤ
  ScoreUpdated : ℤ
  deriving DecidableEq, Repr

/-- `miscSave`: the row that is written. -/
def ScoreTimer.miscSave (s : ScoreTimer) : Misc where
  FetchUpdated := toInt (iToSeconds s.mtpFetchUpdated)
  ScoreUpdated := toInt (iToSeconds s.mtpScoreUpdated)

/-- `miscLoad`: `mtpFetchUpdated` and `mtpScoreUpdated`, of the row if there is one; `getInt` gives an `int`. -/
def miscLoad (row : Option Misc) : Time × Time :=
  (ptFromSeconds (row.elim (-1) fun misc => toInt misc.FetchUpdated),
    ptFromSeconds (row.elim (-1) fun misc => toInt misc.ScoreUpdated))

lemma isMoment_ptFromSeconds {n : ℤ} (h : IsInt n) : IsMoment (ptFromSeconds n) := by
  intro m hm
  unfold ptFromSeconds at hm
  split at hm
  · cases hm
  next hn =>
    obtain rfl := Option.some.inj hm
    exact ⟨not_lt.1 hn, h.2⟩

lemma isMoment_miscLoad (row : Option Misc) : IsMoment (miscLoad row).1 ∧ IsMoment (miscLoad row).2 := by
  cases row with
  | none =>
    have hunset : IsMoment (ptFromSeconds (-1)) := isMoment_ptFromSeconds ⟨by decide, by decide⟩
    exact ⟨hunset, hunset⟩
  | some misc => exact ⟨isMoment_ptFromSeconds (isInt_toInt _), isMoment_ptFromSeconds (isInt_toInt _)⟩

lemma isMoment_some {n : ℤ} (h0 : 0 ≤ n) (h1 : n < 2 ^ 31) : IsMoment (some n) := by
  rintro m ⟨⟩
  exact ⟨h0, h1⟩

/-- What is written is read back. -/
lemma miscLoad_miscSave {s : ScoreTimer} (hfetched : IsMoment s.mtpFetchUpdated)
    (hscored : IsMoment s.mtpScoreUpdated) : miscLoad (some s.miscSave) = (s.mtpFetchUpdated, s.mtpScoreUpdated) := by
  have hread : ∀ {tp : Time}, IsMoment tp → ptFromSeconds (toInt (toInt (iToSeconds tp))) = tp := by
    intro tp htp
    rw [toInt_eq htp.isInt.1 htp.isInt.2, toInt_eq htp.isInt.1 htp.isInt.2, htp.ptFromSeconds_iToSeconds]
  simp only [miscLoad, Option.elim_some, ScoreTimer.miscSave, hread hfetched, hread hscored]

/-! ### Runs with restarts -/

/-- What is in memory, and the row.  `completed` and `dirty` tell of all runs so far. -/
structure Persisted where
  scoring : Scoring
  misc : Option Misc

namespace Persisted

/-- `start`, in a program that is started at `tpNow`. -/
def restart (tpNow : ℤ) (s : Persisted) : Persisted :=
  { s with
    scoring :=
      { s.scoring with
        timer := .start (miscLoad s.misc).1 (miscLoad s.misc).2 tpNow
        clock := tpNow
        running := [] } }

/-- **What may happen**: what `Scoring.Step` has, one scoring at a time, with the row that `fetchDirty` and
`scoreTimerHandler` write, and a restart at any time.  The clock shows a moment that is an `int`. -/
inductive Step (s : Persisted) : Persisted → Prop
  | fetchDirty {tpNow tpNow' : ℤ} (h : s.scoring.clock ≤ tpNow) (h' : tpNow ≤ tpNow') (hint : tpNow' < 2 ^ 31) :
    Step s
      { scoring :=
          { s.scoring with
            timer := s.scoring.timer.fetchDirty tpNow tpNow', clock := tpNow', dirty := tpNow :: s.scoring.dirty }
        misc := some { s.scoring.timer with mtpFetchUpdated := some tpNow }.miscSave }
  | nodeScore {tpNow : ℤ} (h : s.scoring.clock ≤ tpNow) (hint : tpNow < 2 ^ 31) :
    Step s { s with scoring := { s.scoring with timer := s.scoring.timer.nodeScore tpNow, clock := tpNow } }
  | expire (h : s.scoring.timer.mdtScoreTimer.isSome) :
    Step s
      { s with
        scoring :=
          { s.scoring with
            timer := { s.scoring.timer with mdtScoreTimer := none, queued := s.scoring.timer.queued + 1 } } }
  | aborted (h : 0 < s.scoring.timer.aborted) :
    Step s
      { s with
        scoring :=
          { s.scoring with timer := { s.scoring.timer with aborted := s.scoring.timer.aborted - 1 } } }
  | scoreStart {tpNow : ℤ} (h : 0 < s.scoring.timer.queued) (h' : s.scoring.clock ≤ tpNow) (hint : tpNow < 2 ^ 31)
      (hone : s.scoring.running = []) :
    Step s
      { s with
        scoring :=
          { s.scoring with
            timer := { s.scoring.timer with queued := s.scoring.timer.queued - 1 }.scoreStart tpNow
            clock := tpNow
            running := tpNow :: s.scoring.running } }
  | scoreEnd {tpNow began : ℤ} (h : began ∈ s.scoring.running) (h' : s.scoring.clock ≤ tpNow) (hint : tpNow < 2 ^ 31) :
    Step s
      { scoring :=
          { s.scoring with
            timer := s.scoring.timer.scoreEnd tpNow
            clock := tpNow
            running := s.scoring.running.erase began
            completed := some began }
        misc := some { s.scoring.timer with mtpScoreUpdated := s.scoring.timer.mtpScoreStart }.miscSave }
  | restart {tpNow : ℤ} (h : s.scoring.clock ≤ tpNow) (hint : tpNow < 2 ^ 31) : Step s (s.restart tpNow)

/-- After the first `start`, with any row; the scoring that is on record began in the past. -/
inductive Start : Persisted → Prop
  | intro (misc : Option Misc) {tpNow : ℤ} (h0 : 0 ≤ tpNow) (hint : tpNow < 2 ^ 31)
      (h : ∀ scored, (miscLoad misc).2 = some scored → scored ≤ tpNow) :
      Start ⟨⟨.start (miscLoad misc).1 (miscLoad misc).2 tpNow, tpNow, [], none, []⟩, misc⟩

def Reachable (s : Persisted) : Prop := ∃ s₀, Start s₀ ∧ Relation.ReflTransGen Step s₀ s

/-- **The invariant.** -/
structure Inv (s : Persisted) : Prop where
  scoring : s.scoring.Inv
  saved : miscLoad s.misc = (s.scoring.timer.mtpFetchUpdated, s.scoring.timer.mtpScoreUpdated)
  clock : 0 ≤ s.scoring.clock
  started : IsMoment s.scoring.timer.mtpScoreStart
  one : s.scoring.running.length ≤ 1
  /-- The last scoring that completed is the one that is on record, if any is. -/
  last : ∀ began, s.scoring.completed = some began →
    s.scoring.timer.mtpScoreUpdated = none ∨ s.scoring.timer.mtpScoreUpdated = some began

lemma Inv.fetched {s : Persisted} (h : Inv s) : IsMoment s.scoring.timer.mtpFetchUpdated := by
  have hrow := (isMoment_miscLoad s.misc).1
  rwa [h.saved] at hrow

lemma Inv.scored {s : Persisted} (h : Inv s) : IsMoment s.scoring.timer.mtpScoreUpdated := by
  have hrow := (isMoment_miscLoad s.misc).2
  rwa [h.saved] at hrow

lemma miscLoad_saved {s : ScoreTimer} {bNow : Bool} {tpNow : ℤ} (hfetched : IsMoment s.mtpFetchUpdated)
    (hscored : IsMoment s.mtpScoreUpdated) : miscLoad (some s.miscSave) =
      ((s.scoreNext bNow tpNow).mtpFetchUpdated, (s.scoreNext bNow tpNow).mtpScoreUpdated) := by
  obtain ⟨hupdated, hfetch, -⟩ := ScoreTimer.scoreNext_frame bNow tpNow s
  rw [hupdated, hfetch, miscLoad_miscSave hfetched hscored]

/-- A program that starts with this row. -/
lemma inv_restart {s : Persisted} (h : Inv s) {tpNow : ℤ} (hclock : s.scoring.clock ≤ tpNow) :
    Inv (s.restart tpNow) := by
  obtain ⟨hupdated, hfetch, hstart, -⟩ := ScoreTimer.scoreNext_frame false tpNow
    ⟨(miscLoad s.misc).2, (miscLoad s.misc).1, none, none, none, 0, 0⟩
  have hloaded : (miscLoad s.misc).2 = s.scoring.timer.mtpScoreUpdated := congrArg Prod.snd h.saved
  have hfetched : (miscLoad s.misc).1 = s.scoring.timer.mtpFetchUpdated := congrArg Prod.fst h.saved
  -- before `scoreNext`: the members as they were saved, and nothing running
  have hkept : Scoring.Kept
      { s.scoring with
        timer := ⟨(miscLoad s.misc).2, (miscLoad s.misc).1, none, none, none, 0, 0⟩, running := [] } := by
    refine ⟨fun hnext => absurd rfl hnext, ?_, nofun, h.scoring.dirty_past, ?_, nofun, ?_, ?_⟩
    · intro scored hscored
      exact h.scoring.updated_past scored (hloaded.symm.trans hscored)
    · intro tp htp
      rw [hfetched]
      exact h.scoring.noted tp htp
    · intro hcompleted scored hscored
      exact h.scoring.loaded hcompleted scored (hloaded.symm.trans hscored)
    · intro _ began hcompleted
      rw [hloaded]
      exact h.last began hcompleted
  refine ⟨hkept.scoreNext false hclock, ?_, h.clock.trans hclock, ?_, Nat.zero_le _, ?_⟩
  · exact Prod.ext hfetch.symm hupdated.symm
  · intro n hn
    have hnone := hstart.symm.trans hn
    cases hnone
  · intro began hcompleted
    have hlast := h.last began hcompleted
    rw [← hloaded] at hlast
    exact hupdated.symm ▸ hlast

lemma inv_start {s : Persisted} (h : Start s) : Inv s := by
  obtain @⟨misc, tpNow, h0, hint, hscored⟩ := h
  obtain ⟨hupdated, hfetch, hstart, -⟩ := ScoreTimer.scoreNext_frame false tpNow
    ⟨(miscLoad misc).2, (miscLoad misc).1, none, none, none, 0, 0⟩
  refine ⟨Scoring.inv_start (.intro _ hscored), Prod.ext hfetch.symm hupdated.symm, h0, ?_, Nat.zero_le _, nofun⟩
  intro n hn
  have hnone := hstart.symm.trans hn
  cases hnone

lemma inv_scoreEnd {s : Persisted} (h : Inv s) {tpNow began : ℤ} (hbegan : began ∈ s.scoring.running)
    (hclock : s.scoring.clock ≤ tpNow) :
    Inv
      { scoring :=
          { s.scoring with
            timer := s.scoring.timer.scoreEnd tpNow
            clock := tpNow
            running := s.scoring.running.erase began
            completed := some began }
        misc := some { s.scoring.timer with mtpScoreUpdated := s.scoring.timer.mtpScoreStart }.miscSave } := by
  obtain ⟨hupdated, -, hstart, -⟩ := ScoreTimer.scoreNext_frame false tpNow
    { s.scoring.timer with mtpScoreUpdated := s.scoring.timer.mtpScoreStart, mtpScoreStart := none }
  obtain ⟨began', hrunning⟩ : ∃ began', s.scoring.running = [began'] := by
    apply List.length_eq_one_iff.1
    have hpos := List.length_pos_of_mem hbegan
    have hone := h.one
    omega
  refine ⟨h.scoring.scoreEnd hclock, ?_, h.clock.trans hclock, ?_, ?_, ?_⟩
  · exact @miscLoad_saved
      { s.scoring.timer with mtpScoreUpdated := s.scoring.timer.mtpScoreStart, mtpScoreStart := none } false tpNow
      h.fetched h.started
  · intro n hn
    have hnone := hstart.symm.trans hn
    cases hnone
  · exact (List.length_erase_le).trans h.one
  · intro b hb
    obtain rfl := Option.some.inj hb
    have hrecord : (s.scoring.timer.scoreEnd tpNow).mtpScoreUpdated = s.scoring.timer.mtpScoreStart := hupdated
    rw [hrecord]
    cases hbegun : s.scoring.timer.mtpScoreStart with
    | none => exact .inl rfl
    | some began'' =>
      have hmem := h.scoring.start began'' hbegun
      rw [hrunning, List.mem_singleton] at hmem hbegan
      exact .inr (by rw [hmem, hbegan])

lemma inv_step {s t : Persisted} (h : Inv s) (hstep : Step s t) : Inv t := by
  cases hstep with
  | @fetchDirty tpNow tpNow' h1 h2 hint =>
    obtain ⟨hupdated, -, hstart, -⟩ := ScoreTimer.scoreNext_frame false tpNow'
      { s.scoring.timer with mtpFetchUpdated := some tpNow }
    have hmoment : IsMoment (some tpNow) := isMoment_some (h.clock.trans h1) (h2.trans_lt hint)
    refine ⟨h.scoring.fetchDirty h1 h2, ?_, h.clock.trans (h1.trans h2), ?_, h.one, ?_⟩
    · exact @miscLoad_saved { s.scoring.timer with mtpFetchUpdated := some tpNow } false tpNow' hmoment h.scored
    · exact hstart.symm ▸ h.started
    · intro began hcompleted
      exact hupdated.symm ▸ h.last began hcompleted
  | @nodeScore tpNow h1 _ =>
    obtain ⟨hupdated, hfetch, hstart, -⟩ := ScoreTimer.scoreNext_frame true tpNow s.scoring.timer
    refine ⟨h.scoring.toKept.scoreNext true h1, ?_, h.clock.trans h1, ?_, h.one, ?_⟩
    · exact h.saved.trans (Prod.ext hfetch.symm hupdated.symm)
    · exact hstart.symm ▸ h.started
    · intro began hcompleted
      exact hupdated.symm ▸ h.last began hcompleted
  | expire h1 => exact ⟨Scoring.inv_step h.scoring (.expire h1), h.saved, h.clock, h.started, h.one, h.last⟩
  | aborted h1 => exact ⟨Scoring.inv_step h.scoring (.aborted h1), h.saved, h.clock, h.started, h.one, h.last⟩
  | scoreStart h1 h2 hint hone =>
    refine ⟨h.scoring.scoreStart h2, h.saved, h.clock.trans h2, isMoment_some (h.clock.trans h2) hint, ?_, h.last⟩
    simp [hone]
  | scoreEnd h1 h2 _ => exact inv_scoreEnd h h1 h2
  | restart h1 _ => exact inv_restart h h1

lemma reachable_inv {s : Persisted} (h : Reachable s) : Inv s := by
  obtain ⟨s₀, hstart, hrun⟩ := h
  induction hrun with
  | refl => exact inv_start hstart
  | tail _ hstep ih => exact inv_step ih hstep

/-! ### No change is lost -/

/-- A change, a scoring that is cut off by a restart. -/
def interrupted : Persisted :=
  restart 9
    { scoring :=
        { timer := { (ScoreTimer.start none none 0).fetchDirty 1 1 with mdtScoreTimer := none }.scoreStart 7
          clock := 7
          running := [7]
          completed := none
          dirty := [1] }
      misc := some ⟨1, -1⟩ }

lemma interrupted_reachable : Reachable interrupted := by
  have hstart : Start ⟨⟨.start none none 0, 0, [], none, []⟩, none⟩ := .intro none le_rfl (by decide) nofun
  refine ⟨_, hstart, ?_⟩
  refine .tail (.tail (.tail (.single (.fetchDirty (by decide) (le_refl 1) (by decide))) (.expire rfl)) ?_)
    (.restart (by decide) (by decide))
  exact .scoreStart (by decide) (by decide) (by decide) rfl

end Persisted

end Newcoin.UniqueNodeList
