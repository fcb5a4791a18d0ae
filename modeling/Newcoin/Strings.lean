import Newcoin.Machine
import Mathlib.Data.List.DropRight

/-!
# Strings

`std::string::substr` and the parts of `boost::algorithm` the source calls, in the classic locale.
A phrase of words set apart by single spaces is its own trimmed form (`trim_phrase`), and splitting
it gives the words back (`splitSpace_phrase`).
-/

namespace Newcoin

/-- `std::string::substr`. -/
def substr (s : Bytes) (pos n : ℕ) : Except Fault Bytes :=
  if pos > s.length then .error .outOfRange else .ok ((s.drop pos).take n)

/-- `isspace`: tab, line feed, vertical tab, form feed, carriage return and space. -/
def isSpace (c : UInt8) : Bool := (9 ≤ c && c ≤ 13) || c == 32

/-- `tolower`. -/
def toLower (c : UInt8) : UInt8 := if 65 ≤ c ∧ c ≤ 90 then c + 32 else c

/-- `boost::algorithm::trim`. -/
def trim (s : Bytes) : Bytes := (s.rdropWhile isSpace).dropWhile isSpace

/-- The token in progress, then the rest; a run of separators ends it once, at its last character. -/
def splitSpaceFrom (token : Bytes) : Bytes → List Bytes
  | [] => [token]
  | c :: cs =>
    if isSpace c then
      if cs.head?.any isSpace then splitSpaceFrom token cs else token :: splitSpaceFrom [] cs
    else splitSpaceFrom (token ++ [c]) cs

/-- `boost::algorithm::split` with `is_space()` and `token_compress_on`. -/
def splitSpace (s : Bytes) : List Bytes := splitSpaceFrom [] s

/-- Words with a space between any two. -/
def phrase (words : List Bytes) : Bytes := [32].intercalate words

/-- Not empty, and free of white space. -/
def IsWord (w : Bytes) : Prop := w ≠ [] ∧ ∀ c ∈ w, isSpace c = false

lemma splitSpaceFrom_word {w : Bytes} (hw : ∀ c ∈ w, isSpace c = false) (token rest : Bytes) :
    splitSpaceFrom token (w ++ rest) = splitSpaceFrom (token ++ w) rest := by
  induction w generalizing token with
  | nil => simp
  | cons c w ih =>
    rw [List.cons_append, splitSpaceFrom, hw c List.mem_cons_self, if_neg Bool.false_ne_true,
      ih fun c hc => hw c (List.mem_cons_of_mem _ hc)]
    simp

lemma phrase_cons_cons (w v : Bytes) (words : List Bytes) :
    phrase (w :: v :: words) = w ++ 32 :: phrase (v :: words) := by
  simp [phrase, List.intercalate]

lemma phrase_head {w : Bytes} (words : List Bytes) (hw : IsWord w) :
    ∃ c cs, phrase (w :: words) = c :: cs ∧ isSpace c = false := by
  obtain ⟨c, cs, rfl⟩ := List.exists_cons_of_ne_nil hw.1
  have hc : isSpace c = false := hw.2 c List.mem_cons_self
  cases words with
  | nil => exact ⟨c, cs, by simp [phrase], hc⟩
  | cons v words => exact ⟨c, _, by rw [phrase_cons_cons, List.cons_append], hc⟩

lemma splitSpaceFrom_phrase {words : List Bytes} (h : ∀ w ∈ words, IsWord w) (h0 : words ≠ []) :
    splitSpaceFrom [] (phrase words) = words := by
  induction words with
  | nil => exact absurd rfl h0
  | cons w words ih =>
    have hw := (h w List.mem_cons_self).2
    cases words with
    | nil => simpa [phrase, splitSpaceFrom] using splitSpaceFrom_word hw [] []
    | cons v words =>
      have ih := ih (fun w hw => h w (List.mem_cons_of_mem _ hw)) (List.cons_ne_nil _ _)
      obtain ⟨c, cs, hcs, hc⟩ := phrase_head words (h v (List.mem_cons_of_mem _ List.mem_cons_self))
      rw [phrase_cons_cons, splitSpaceFrom_word hw, splitSpaceFrom, if_pos (by decide), if_neg, ih]
      · rfl
      · simp [hcs, hc]

theorem splitSpace_phrase {words : List Bytes} (h : ∀ w ∈ words, IsWord w) (h0 : words ≠ []) :
    splitSpace (phrase words) = words :=
  splitSpaceFrom_phrase h h0

lemma phrase_last {words : List Bytes} (h : ∀ w ∈ words, IsWord w) (h0 : words ≠ []) :
    ∃ cs c, phrase words = cs ++ [c] ∧ isSpace c = false := by
  induction words with
  | nil => exact absurd rfl h0
  | cons w words ih =>
    cases words with
    | nil =>
      obtain ⟨hne, hw⟩ := h w List.mem_cons_self
      refine ⟨w.dropLast, w.getLast hne, ?_, hw _ (List.getLast_mem hne)⟩
      rw [List.dropLast_append_getLast]
      simp [phrase]
    | cons v words =>
      obtain ⟨cs, c, hcs, hc⟩ := ih (fun w hw => h w (List.mem_cons_of_mem _ hw)) (List.cons_ne_nil _ _)
      refine ⟨w ++ 32 :: cs, c, ?_, hc⟩
      rw [phrase_cons_cons, hcs]
      simp

theorem trim_phrase {words : List Bytes} (h : ∀ w ∈ words, IsWord w) : trim (phrase words) = phrase words := by
  cases words with
  | nil => rfl
  | cons w words =>
    obtain ⟨cs, c, hcs, hc⟩ := phrase_last h (List.cons_ne_nil _ _)
    obtain ⟨d, ds, hds, hd⟩ := phrase_head words (h w List.mem_cons_self)
    have hr : (phrase (w :: words)).rdropWhile isSpace = phrase (w :: words) := by
      rw [hcs, List.rdropWhile_concat_neg _ _ _ (by simp [hc])]
    rw [trim, hr, hds, List.dropWhile_cons_of_neg (by simp [hd])]

end Newcoin
