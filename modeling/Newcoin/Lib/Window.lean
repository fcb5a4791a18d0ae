import Mathlib.Data.List.Basic

/-!
# What a buffer holds at a position

`Window buf pos bs`: the entries of `buf` from `pos` on begin with `bs`.  A window over a
concatenation is two adjacent windows (`window_append`), so a reader that is right on every window of
one encoding composes.
-/

namespace Newcoin.Lib

variable {α : Type*} {buf as bs : List α} {pos : ℕ}

/-- `buf` holds `bs` at `pos`. -/
def Window (buf : List α) (pos : ℕ) (bs : List α) : Prop :=
  ∃ pre post, buf = pre ++ (bs ++ post) ∧ pre.length = pos

lemma Window.self (buf : List α) : Window buf 0 buf := ⟨[], [], by simp, rfl⟩

lemma Window.le (h : Window buf pos bs) : pos + bs.length ≤ buf.length := by
  obtain ⟨pre, post, rfl, rfl⟩ := h
  simp

lemma Window.take_drop (h : Window buf pos bs) : (buf.drop pos).take bs.length = bs := by
  obtain ⟨pre, post, rfl, rfl⟩ := h
  simp

theorem window_append :
    Window buf pos (as ++ bs) ↔ Window buf pos as ∧ Window buf (pos + as.length) bs := by
  constructor
  · rintro ⟨pre, post, rfl, rfl⟩
    exact ⟨⟨pre, bs ++ post, by simp, rfl⟩, ⟨pre ++ as, post, by simp, by simp⟩⟩
  · rintro ⟨⟨pre, post, rfl, rfl⟩, pre', post', h, hlen⟩
    have hpre : pre' = pre ++ as := by
      have := congrArg (List.take (pre.length + as.length)) h
      rw [← List.append_assoc, List.take_left' (by simp), ← hlen, List.take_left' rfl] at this
      exact this.symm
    subst hpre
    have hpost : post = bs ++ post' := by simpa using h
    exact ⟨pre, post', by simp [hpost], rfl⟩

theorem window_cons {a : α} :
    Window buf pos (a :: bs) ↔ Window buf pos [a] ∧ Window buf (pos + 1) bs := by
  rw [← List.singleton_append, window_append]
  simp

end Newcoin.Lib
