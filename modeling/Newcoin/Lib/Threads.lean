import Mathlib.Data.Multiset.AddSub
import Mathlib.Logic.Relation

/-!
# Threads with call stacks

A thread is a stack of frames, the running one first.  Running a frame changes the shared state and
replaces the frame by the calls it still has to make, in order; a thread may begin at any time.

* `Threads.Step` — the interleavings.
* `Threads.invariant` — the induction rule: what every frame preserves, whatever other frames there
  are, holds in every reachable state.
-/

namespace Newcoin.Lib

/-- A shared state and the stack of each thread. -/
structure Threads (σ F : Type*) where
  shared : σ
  threads : List (List F)

namespace Threads

variable {σ F : Type*}

/-- The frames of all threads. -/
def frames (s : Threads σ F) : Multiset F := (s.threads.flatten : Multiset F)

variable (exec : F → σ → σ → List F → Prop) (begin : σ → σ → List F → Prop)

inductive Step : Threads σ F → Threads σ F → Prop
  | run {s s' : σ} {f : F} {calls stack : List F} {pre post : List (List F)} (h : exec f s s' calls) :
      Step ⟨s, pre ++ (f :: stack) :: post⟩ ⟨s', pre ++ (calls ++ stack) :: post⟩
  | thread {s s' : σ} {calls : List F} {threads : List (List F)} (h : begin s s' calls) :
      Step ⟨s, threads⟩ ⟨s', threads ++ [calls]⟩

/-- What can be reached. -/
def Reachable : Threads σ F → Threads σ F → Prop := Relation.ReflTransGen (Step exec begin)

variable {exec begin}

/-- A step, on the frames alone: the stacks only restrict who may run. -/
theorem Step.frames {s t : Threads σ F} (h : Step exec begin s t) :
    (∃ f calls others, s.frames = f ::ₘ others ∧ exec f s.shared t.shared calls ∧
      t.frames = (calls : Multiset F) + others) ∨
    ∃ calls, begin s.shared t.shared calls ∧ t.frames = (calls : Multiset F) + s.frames := by
  cases h with
  | @run s s' f calls stack pre post h =>
    refine .inl ⟨f, calls, ((pre.flatten ++ (stack ++ post.flatten) : List F) : Multiset F), ?_, h, ?_⟩
    · rw [Threads.frames, Multiset.cons_coe, Multiset.coe_eq_coe]
      simp [List.perm_middle]
    · rw [Threads.frames, Multiset.coe_add, Multiset.coe_eq_coe]
      simp [List.perm_append_comm_assoc pre.flatten calls]
  | @thread s s' calls threads h =>
    refine .inr ⟨calls, h, ?_⟩
    rw [Threads.frames, Threads.frames, Multiset.coe_add, Multiset.coe_eq_coe]
    simpa using List.perm_append_comm

/-- What every frame preserves, whatever other frames there are, a step preserves. -/
theorem Step.invariant {I : σ → Multiset F → Prop}
    (hrun : ∀ f s s' calls others, I s (f ::ₘ others) → exec f s s' calls →
      I s' ((calls : Multiset F) + others))
    (hbegin : ∀ s s' calls others, I s others → begin s s' calls → I s' ((calls : Multiset F) + others))
    {s t : Threads σ F} (h : Step exec begin s t) (hs : I s.shared s.frames) : I t.shared t.frames := by
  rcases h.frames with ⟨f, calls, others, hf, hexec, hframes⟩ | ⟨calls, hcalls, hframes⟩
  · rw [hframes]
    exact hrun f _ _ calls others (hf ▸ hs) hexec
  · rw [hframes]
    exact hbegin _ _ calls _ hs hcalls

/-- **The induction rule.** -/
theorem invariant {I : σ → Multiset F → Prop}
    (hrun : ∀ f s s' calls others, I s (f ::ₘ others) → exec f s s' calls →
      I s' ((calls : Multiset F) + others))
    (hbegin : ∀ s s' calls others, I s others → begin s s' calls → I s' ((calls : Multiset F) + others))
    {s t : Threads σ F} (h : Reachable exec begin s t) (hs : I s.shared s.frames) :
    I t.shared t.frames := by
  induction h with
  | refl => exact hs
  | tail _ hstep ih => exact hstep.invariant hrun hbegin ih

end Threads

end Newcoin.Lib
