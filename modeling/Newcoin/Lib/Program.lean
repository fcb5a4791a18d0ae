import Mathlib.Init

/-!
# Programs on a state that may stop

`wp m Q E s` says that `m`, started in `s`, returns only so that `Q` holds and stops only so that `E`
does.  The rules take a program apart along its text; a call is replaced by what is known of it
(`wp_mono`).  `Keeps` is the special case of an invariant.
-/

namespace Newcoin.Lib

/-- It returns with a value and a state, or stops. -/
abbrev Program (σ ε : Type) := StateT σ (Except ε)

namespace Program

variable {σ ε α β : Type} {Q R : α → σ → Prop} {E F : ε → Prop}

def wp (m : Program σ ε α) (Q : α → σ → Prop) (E : ε → Prop) (s : σ) : Prop :=
  match m s with
  | .ok r => Q r.1 r.2
  | .error e => E e

@[simp] lemma wp_pure (a : α) (s : σ) : wp (pure a : Program σ ε α) Q E s = Q a s := rfl

@[simp] lemma wp_bind (m : Program σ ε β) (f : β → Program σ ε α) (s : σ) :
    wp (m >>= f) Q E s = wp m (fun b t => wp (f b) Q E t) E s := by
  simp only [wp, bind, StateT.bind, Except.bind]
  cases m s <;> rfl

@[simp] lemma wp_get (Q : σ → σ → Prop) (s : σ) : wp (get : Program σ ε σ) Q E s = Q s s := rfl

@[simp] lemma wp_set (Q : PUnit → σ → Prop) (t s : σ) : wp (set t : Program σ ε PUnit) Q E s = Q ⟨⟩ t := rfl

@[simp] lemma wp_modify (Q : PUnit → σ → Prop) (f : σ → σ) (s : σ) :
    wp (modify f : Program σ ε PUnit) Q E s = Q ⟨⟩ (f s) := rfl

lemma wp_ite {c : Prop} [Decidable c] {m n : Program σ ε α} {s : σ} (hm : c → wp m Q E s)
    (hn : ¬ c → wp n Q E s) : wp (if c then m else n) Q E s := by
  by_cases h : c
  · rw [if_pos h]
    exact hm h
  · rw [if_neg h]
    exact hn h

/-- A call is replaced by what is known of it. -/
lemma wp_mono {m : Program σ ε α} {s : σ} (h : wp m R F s) (hQ : ∀ a t, R a t → Q a t)
    (hE : ∀ e, F e → E e) : wp m Q E s := by
  unfold wp at h ⊢
  split <;> rename_i hm <;> rw [hm] at h
  · exact hQ _ _ h
  · exact hE _ h

/-- What it says of a program that returned. -/
lemma wp_ok {m : Program σ ε α} {s t : σ} {a : α} (h : wp m Q E s) (hm : m s = .ok (a, t)) : Q a t := by
  unfold wp at h
  rwa [hm] at h

lemma wp_error {m : Program σ ε α} {s : σ} {e : ε} (h : wp m Q E s) (hm : m s = .error e) : E e := by
  unfold wp at h
  rwa [hm] at h

lemma wp_of_ok {m : Program σ ε α} {s t : σ} {a : α} (hm : m s = .ok (a, t)) (hQ : Q a t) : wp m Q E s := by
  unfold wp
  rw [hm]
  exact hQ

/-- A program that stops in no way returns. -/
lemma exists_ok_of_wp {m : Program σ ε α} {s : σ} (h : wp m Q (fun _ => False) s) :
    ∃ a t, m s = .ok (a, t) ∧ Q a t := by
  unfold wp at h
  cases hm : m s with
  | ok r =>
    rw [hm] at h
    exact ⟨r.1, r.2, rfl, h⟩
  | error e =>
    rw [hm] at h
    cases h

lemma wp_of_error {m : Program σ ε α} {s : σ} {e : ε} (hm : m s = .error e) (he : E e) : wp m Q E s := by
  unfold wp
  rw [hm]
  exact he

/-- When a program stops in a given way. -/
lemma error_iff {m : Program σ ε α} {s : σ} {e : ε} {p : Prop}
    (h : wp m (fun _ _ => ¬ p) (fun e' => e' = e ↔ p) s) : m s = .error e ↔ p := by
  unfold wp at h
  cases hm : m s with
  | ok r =>
    rw [hm] at h
    constructor
    · intro heq
      cases heq
    · exact fun hp => absurd hp h
  | error e' =>
    rw [hm] at h
    constructor
    · exact fun heq => h.mp (Except.error.inj heq)
    · exact fun hp => congrArg Except.error (h.mpr hp)

/-- `I` is an invariant of the program, which stops only as `E` says. -/
def Keeps (I : σ → Prop) (E : ε → Prop) (m : Program σ ε α) : Prop := ∀ s, I s → wp m (fun _ => I) E s

variable {I : σ → Prop}

lemma keeps_pure (a : α) : Keeps I E (pure a : Program σ ε α) := fun _ h => h

lemma keeps_throw {e : ε} (h : E e) : Keeps I E (throw e : Program σ ε α) := fun _ _ => h

lemma keeps_bind {m : Program σ ε β} {f : β → Program σ ε α} (hm : Keeps I E m)
    (hf : ∀ b, Keeps I E (f b)) : Keeps I E (m >>= f) := by
  intro s hs
  rw [wp_bind]
  exact wp_mono (hm s hs) (fun b t ht => hf b t ht) fun _ he => he

lemma keeps_ite {c : Prop} [Decidable c] {m n : Program σ ε α} (hm : c → Keeps I E m)
    (hn : ¬ c → Keeps I E n) : Keeps I E (if c then m else n) :=
  fun s hs => wp_ite (fun h => hm h s hs) (fun h => hn h s hs)

lemma keeps_modify {f : σ → σ} (h : ∀ s, I s → I (f s)) : Keeps I E (modify f : Program σ ε PUnit) := h

/-- The state may be looked at. -/
lemma keeps_get {f : σ → Program σ ε α} (h : ∀ s, I s → wp (f s) (fun _ => I) E s) :
    Keeps I E (get >>= f) := by
  intro s hs
  rw [wp_bind, wp_get]
  exact h s hs

lemma keeps_forM {as : List β} {f : β → Program σ ε PUnit} (h : ∀ a ∈ as, Keeps I E (f a)) :
    Keeps I E (forM as f) := by
  induction as with
  | nil => exact keeps_pure _
  | cons a as ih =>
    rw [List.forM_cons]
    exact keeps_bind (h a List.mem_cons_self) fun _ => ih fun b hb => h b (List.mem_cons_of_mem _ hb)

end Program

end Newcoin.Lib
