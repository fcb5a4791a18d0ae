import Mathlib.Data.List.Basic

/-!
# Prefix codes

A code whose words can be told apart as they come in: the word at the head of a string says which letter
it is.  A string then has at most one reading (`encodeAll_prefix`, `encodeAll_unique`), whatever follows
what has been read.
-/

namespace Newcoin.Lib

/-- Words for the letters in `good`. -/
structure PrefixCode (α β : Type*) where
  good : α → Prop
  encode : α → List β
  ne_nil : ∀ a, good a → encode a ≠ []
  head_unique : ∀ a b x y, good a → good b → encode a ++ x = encode b ++ y → a = b

namespace PrefixCode

variable {α β : Type*} (c : PrefixCode α β)

def encodeAll (as : List α) : List β := as.flatMap c.encode

@[simp] lemma encodeAll_nil : c.encodeAll [] = [] := rfl

@[simp] lemma encodeAll_cons (a : α) (as : List α) :
    c.encodeAll (a :: as) = c.encode a ++ c.encodeAll as := List.flatMap_cons

@[simp] lemma encodeAll_append (as bs : List α) :
    c.encodeAll (as ++ bs) = c.encodeAll as ++ c.encodeAll bs := List.flatMap_append

variable {c}

/-- The first word, and what is behind it. -/
lemma encode_cancel {a b : α} {x y : List β} (ha : c.good a) (hb : c.good b)
    (h : c.encode a ++ x = c.encode b ++ y) : a = b ∧ x = y := by
  obtain rfl := c.head_unique a b x y ha hb h
  exact ⟨rfl, List.append_cancel_left h⟩

/-- **What has been read is the beginning of what was written**, as long as what follows does not begin
with a word itself. -/
theorem encodeAll_prefix {as bs : List α} {x y : List β} (has : ∀ a ∈ as, c.good a)
    (hbs : ∀ b ∈ bs, c.good b) (hy : ∀ a z, c.good a → y ≠ c.encode a ++ z)
    (h : c.encodeAll as ++ x = c.encodeAll bs ++ y) :
    ∃ rest, bs = as ++ rest ∧ x = c.encodeAll rest ++ y := by
  induction as generalizing bs with
  | nil => exact ⟨bs, rfl, h⟩
  | cons a as ih =>
    rw [encodeAll_cons, List.append_assoc] at h
    have ha := has a List.mem_cons_self
    cases bs with
    | nil => exact absurd h.symm (hy a _ ha)
    | cons b bs =>
      rw [encodeAll_cons, List.append_assoc] at h
      obtain ⟨rfl, htail⟩ := encode_cancel ha (hbs b List.mem_cons_self) h
      obtain ⟨rest, rfl, hx⟩ := ih (fun a ha => has a (List.mem_cons_of_mem _ ha))
        (fun b hb => hbs b (List.mem_cons_of_mem _ hb)) htail
      exact ⟨rest, rfl, hx⟩

/-- **A string has one reading of a given length.** -/
theorem encodeAll_unique {as bs : List α} {x y : List β} (has : ∀ a ∈ as, c.good a)
    (hbs : ∀ b ∈ bs, c.good b) (hlength : as.length = bs.length)
    (h : c.encodeAll as ++ x = c.encodeAll bs ++ y) : as = bs := by
  induction as generalizing bs with
  | nil => exact (List.length_eq_zero_iff.mp hlength.symm).symm
  | cons a as ih =>
    cases bs with
    | nil => exact absurd hlength (Nat.succ_ne_zero _)
    | cons b bs =>
      rw [encodeAll_cons, encodeAll_cons, List.append_assoc, List.append_assoc] at h
      obtain ⟨rfl, htail⟩ := encode_cancel (has a List.mem_cons_self) (hbs b List.mem_cons_self) h
      rw [ih (fun a ha => has a (List.mem_cons_of_mem _ ha))
        (fun b hb => hbs b (List.mem_cons_of_mem _ hb)) (Nat.succ.inj hlength) htail]

end PrefixCode

end Newcoin.Lib
