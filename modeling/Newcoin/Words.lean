import Newcoin.Strings

/-!
# White-space separated words

`ConsistsOf s ws`: the text `s` is the words `ws` with white space between them, and perhaps around them.
Trimming such a text and splitting it gives the words (`ConsistsOf.words`), and every text that is not
blank is of this form (`consistsOf_words`).
-/

namespace Newcoin

/-- White space only. -/
def Blank (s : Bytes) : Prop := ∀ c ∈ s, isSpace c = true

/-- The words, white space between any two. -/
inductive Spaced : List Bytes → Bytes → Prop
  | one {w : Bytes} (hw : IsWord w) : Spaced [w] w
  | cons {w b s : Bytes} {ws : List Bytes} (hw : IsWord w) (hb : Blank b) (hne : b ≠ []) (h : Spaced ws s) :
    Spaced (w :: ws) (w ++ b ++ s)

/-- The words, with white space around them too. -/
def ConsistsOf (s : Bytes) (ws : List Bytes) : Prop :=
  ∃ lead core trail, s = lead ++ core ++ trail ∧ Blank lead ∧ Blank trail ∧ Spaced ws core

variable {s b w token : Bytes} {ws : List Bytes} {c : UInt8}

lemma blank_nil : Blank [] := fun _ h => absurd h List.not_mem_nil

lemma isWord_singleton (hc : isSpace c = false) : IsWord [c] := by
  refine ⟨List.cons_ne_nil _ _, ?_⟩
  intro d hd
  rwa [List.mem_singleton.1 hd]

lemma IsWord.cons (hc : isSpace c = false) (hw : IsWord w) : IsWord (c :: w) := by
  refine ⟨List.cons_ne_nil _ _, ?_⟩
  intro d hd
  rcases List.mem_cons.1 hd with rfl | hd
  · exact hc
  · exact hw.2 d hd

namespace Spaced

lemma ne_nil (h : Spaced ws s) : ws ≠ [] := by
  cases h with
  | one hw => exact List.cons_ne_nil _ _
  | cons hw hb hne h => exact List.cons_ne_nil _ _

lemma isWord (h : Spaced ws s) : ∀ w ∈ ws, IsWord w := by
  induction h with
  | one hw =>
    intro w h
    rwa [List.mem_singleton.1 h]
  | cons hw hb hne h ih =>
    intro w h
    rcases List.mem_cons.1 h with rfl | h
    · exact hw
    · exact ih w h

lemma head (h : Spaced ws s) : ∃ c cs, s = c :: cs ∧ isSpace c = false := by
  cases h with
  | one hw =>
    obtain ⟨c, cs, rfl⟩ := List.exists_cons_of_ne_nil hw.1
    exact ⟨c, cs, rfl, hw.2 c List.mem_cons_self⟩
  | cons hw hb hne h =>
    obtain ⟨c, cs, rfl⟩ := List.exists_cons_of_ne_nil hw.1
    exact ⟨c, _, rfl, hw.2 c List.mem_cons_self⟩

lemma last (h : Spaced ws s) : ∃ cs c, s = cs ++ [c] ∧ isSpace c = false := by
  induction h with
  | @one w hw => exact ⟨_, _, (List.dropLast_append_getLast hw.1).symm, hw.2 _ (List.getLast_mem hw.1)⟩
  | cons hw hb hne h ih =>
    obtain ⟨cs, c, rfl, hc⟩ := ih
    exact ⟨_, c, (List.append_assoc _ _ _).symm, hc⟩

/-- One more character for the first word. -/
lemma extend (hc : isSpace c = false) (h : Spaced ws s) : ∃ ws', Spaced ws' (c :: s) := by
  cases h with
  | one hw => exact ⟨_, .one (hw.cons hc)⟩
  | cons hw hb hne h => exact ⟨_, .cons (hw.cons hc) hb hne h⟩

end Spaced

/-! ### Trimming and splitting -/

lemma dropWhile_blank (hb : Blank b) : (b ++ s).dropWhile isSpace = s.dropWhile isSpace := by
  rw [List.dropWhile_append, List.dropWhile_eq_nil_iff.2 hb]
  rfl

lemma rdropWhile_blank (hb : Blank b) : (s ++ b).rdropWhile isSpace = s.rdropWhile isSpace := by
  have hb' : Blank b.reverse := fun c hc => hb c (List.mem_reverse.1 hc)
  unfold List.rdropWhile
  rw [List.reverse_append, dropWhile_blank hb']

lemma trim_blank (hb : Blank b) : trim b = [] := by
  have h := @rdropWhile_blank [] b hb
  rw [List.nil_append] at h
  rw [trim, h]
  rfl

lemma trim_spaced {lead trail : Bytes} (hl : Blank lead) (ht : Blank trail) (h : Spaced ws s) :
    trim (lead ++ s ++ trail) = s := by
  obtain ⟨c, cs, hs, hc⟩ := h.head
  obtain ⟨ds, d, hs', hd⟩ := h.last
  have hr : (lead ++ s).rdropWhile isSpace = lead ++ s := by
    rw [hs', ← List.append_assoc, List.rdropWhile_concat_neg _ _ _ (by simp [hd])]
  rw [trim, rdropWhile_blank ht, hr, dropWhile_blank hl, hs, List.dropWhile_cons_of_neg (by simp [hc])]

/-- A run of white space ends the token once. -/
lemma splitSpaceFrom_blank (hb : Blank b) (hne : b ≠ []) (hc : isSpace c = false) :
    splitSpaceFrom token (b ++ c :: s) = token :: splitSpaceFrom [] (c :: s) := by
  induction b with
  | nil => exact absurd rfl hne
  | cons d b ih =>
    have hd : isSpace d = true := hb d List.mem_cons_self
    have hb' : Blank b := fun e he => hb e (List.mem_cons_of_mem _ he)
    rw [List.cons_append, splitSpaceFrom, if_pos hd]
    cases b with
    | nil => rw [List.nil_append, if_neg (by simp [hc])]
    | cons e b =>
      have he : isSpace e = true := hb' e List.mem_cons_self
      rw [if_pos (by simp [he]), ih hb' (List.cons_ne_nil _ _)]

lemma splitSpace_spaced (h : Spaced ws s) : splitSpace s = ws := by
  unfold splitSpace
  induction h with
  | @one w hw => simpa [splitSpaceFrom] using splitSpaceFrom_word hw.2 [] []
  | @cons w b s ws hw hb hne h ih =>
    obtain ⟨c, cs, rfl, hc⟩ := h.head
    rw [List.append_assoc, splitSpaceFrom_word hw.2, List.nil_append, splitSpaceFrom_blank hb hne hc, ih]

/-- **Trimming and splitting finds the words.** -/
theorem ConsistsOf.words (h : ConsistsOf s ws) : splitSpace (trim s) = ws := by
  obtain ⟨lead, core, trail, rfl, hl, ht, hcore⟩ := h
  rw [trim_spaced hl ht hcore, splitSpace_spaced hcore]

lemma ConsistsOf.isWord (h : ConsistsOf s ws) : ∀ w ∈ ws, IsWord w := by
  obtain ⟨_, _, _, _, _, _, hcore⟩ := h
  exact hcore.isWord

/-- **There are words in all that is not blank**, by induction on the text from its end. -/
lemma exists_consistsOf (h : ¬ Blank s) : ∃ ws, ConsistsOf s ws := by
  induction s with
  | nil => exact absurd blank_nil h
  | cons c s ih =>
    by_cases hc : isSpace c = true
    · have hs : ¬ Blank s := fun hs => h fun d hd => (List.mem_cons.1 hd).elim (fun e => e ▸ hc) (hs d)
      obtain ⟨ws, lead, core, trail, rfl, hl, ht, hcore⟩ := ih hs
      refine ⟨ws, c :: lead, core, trail, rfl, ?_, ht, hcore⟩
      exact fun d hd => (List.mem_cons.1 hd).elim (fun e => e ▸ hc) (hl d)
    · have hc : isSpace c = false := by simpa using hc
      by_cases hs : Blank s
      · exact ⟨[[c]], [], [c], s, rfl, blank_nil, hs, .one (isWord_singleton hc)⟩
      · obtain ⟨ws, lead, core, trail, rfl, hl, ht, hcore⟩ := ih hs
        by_cases hlead : lead = []
        · subst hlead
          obtain ⟨ws', h'⟩ := hcore.extend hc
          exact ⟨ws', [], c :: core, trail, rfl, hl, ht, h'⟩
        · exact ⟨[c] :: ws, [], [c] ++ lead ++ core, trail, rfl, blank_nil, ht,
            .cons (isWord_singleton hc) hl hlead hcore⟩

theorem consistsOf_words (h : ¬ Blank s) : ConsistsOf s (splitSpace (trim s)) := by
  obtain ⟨ws, hws⟩ := exists_consistsOf h
  rwa [hws.words]

/-- More than one token means that there is something to split. -/
lemma consistsOf_of_length (h : (splitSpace (trim s)).length ≠ 1) : ConsistsOf s (splitSpace (trim s)) := by
  apply consistsOf_words
  intro hs
  rw [trim_blank hs] at h
  exact h rfl

end Newcoin
