import Newcoin.SectionFile.Lines
import Mathlib.Data.List.Forall2

/-!
# Blanks around a line

`ParseSection` looks at the first and the last character of a line before it trims the line, so a header or a
comment with a blank in front is an entry.  Blanks around the other lines change nothing, nor do blanks behind
a comment: `padding_iff`.
-/

namespace Newcoin.SectionFile

/-- Spaces and tabs. -/
def IsPad (p : Bytes) : Prop := ∀ c ∈ p, c = 32 ∨ c = 9

/-- The line with spaces and tabs added at its ends. -/
def PadsLine (l l' : Bytes) : Prop := ∃ pre post, IsPad pre ∧ IsPad post ∧ l' = pre ++ l ++ post

/-- The same, but with none in front of a comment and none around a header. -/
def PadsEntry (l l' : Bytes) : Prop := ∃ pre post, IsPad pre ∧ IsPad post ∧ l' = pre ++ l ++ post ∧
  (IsComment l → pre = []) ∧ (IsHeader l → pre = [] ∧ post = [])

/-- The same text but for its lines, each of which is changed by `R`. -/
structure Changed (R : Bytes → Bytes → Prop) (t t' : Text) : Prop where
  ends : t'.lines.map Prod.snd = t.lines.map Prod.snd
  all : List.Forall₂ R t.all t'.all

/-- A line that is neither a comment nor a header. -/
def IsPlain (l : Bytes) : Prop := ¬ IsComment l ∧ ¬ IsHeader l

variable {l l' pre post : Bytes} {ls ls' : List Bytes} {st : Bytes × Section} {t : Text}

/-! ### One line -/

lemma IsPad.blank (h : IsPad pre) : Blank pre := by
  intro c hc
  rcases h c hc with rfl | rfl <;> decide

/-- Another character in front is the first one of the line. -/
lemma head?_pad (hpre : IsPad pre) (hpost : IsPad post) {c : UInt8} (hc : ¬ (c = 32 ∨ c = 9))
    (h : (pre ++ l ++ post).head? = some c) : pre = [] ∧ l.head? = some c := by
  cases pre with
  | cons d pre =>
    obtain rfl := Option.some.inj h
    exact absurd (hpre _ List.mem_cons_self) hc
  | nil =>
    cases l with
    | cons d l => exact ⟨rfl, h⟩
    | nil => exact absurd (hpost c (List.mem_of_mem_head? h)) hc

lemma isPad_reverse (h : IsPad pre) : IsPad pre.reverse := fun c hc => h c (List.mem_reverse.1 hc)

lemma getLast?_pad (hpre : IsPad pre) (hpost : IsPad post) {c : UInt8} (hc : ¬ (c = 32 ∨ c = 9))
    (h : (pre ++ l ++ post).getLast? = some c) : post = [] ∧ l.getLast? = some c := by
  rw [← List.head?_reverse, List.reverse_append, List.reverse_append, ← List.append_assoc] at h
  obtain ⟨hnil, hlast⟩ := head?_pad (isPad_reverse hpost) (isPad_reverse hpre) hc h
  rw [List.head?_reverse] at hlast
  exact ⟨List.reverse_eq_nil_iff.1 hnil, hlast⟩

/-- A plain line remains one. -/
lemma IsPlain.pad (h : IsPlain l) (hpre : IsPad pre) (hpost : IsPad post) : IsPlain (pre ++ l ++ post) := by
  refine ⟨fun hc => h.1 (head?_pad hpre hpost (by decide) hc).2, fun hh => h.2 ⟨?_, ?_⟩⟩
  · exact (head?_pad hpre hpost (by decide) hh.1).2
  · exact (getLast?_pad hpre hpost (by decide) hh.2).2

lemma parseLine_padsEntry (h : PadsEntry l l') (st : Bytes × Section) : parseLine true st l' = parseLine true st l := by
  obtain ⟨pre, post, hpre, hpost, rfl, hcomment, hheader⟩ := h
  by_cases hc : IsComment l
  · have hc' : IsComment (pre ++ l ++ post) := by
      rw [hcomment hc, List.nil_append]
      exact List.head?_append.trans (by rw [hc]; rfl)
    rw [parseLine_comment hc, parseLine_comment hc']
  by_cases hh : IsHeader l
  · obtain ⟨rfl, rfl⟩ := hheader hh
    rw [List.nil_append, List.append_nil]
  · have hplain := IsPlain.pad ⟨hc, hh⟩ hpre hpost
    rw [parseLine_entry hc hh, parseLine_entry hplain.1 hplain.2, trim_pad hpre.blank hpost.blank]

/-- **What changes nothing.** -/
lemma foldl_padsEntry (h : List.Forall₂ PadsEntry ls ls') (st : Bytes × Section) :
    ls'.foldl (parseLine true) st = ls.foldl (parseLine true) st := by
  induction h generalizing st with
  | nil => rfl
  | cons hl _ ih => rw [List.foldl_cons, List.foldl_cons, parseLine_padsEntry hl, ih]

lemma padsEntry_of_plain (hplain : IsPlain l) (h : PadsLine l l') : PadsEntry l l' := by
  obtain ⟨pre, post, hpre, hpost, rfl⟩ := h
  exact ⟨pre, post, hpre, hpost, rfl, fun hc => absurd hc hplain.1, fun hh => absurd hh hplain.2⟩

lemma forall₂_padsEntry (hplain : ∀ l ∈ ls, IsPlain l) (h : List.Forall₂ PadsLine ls ls') :
    List.Forall₂ PadsEntry ls ls' := by
  induction h with
  | nil => exact .nil
  | cons hl _ ih =>
    obtain ⟨hfirst, hrest⟩ := List.forall_mem_cons.1 hplain
    exact .cons (padsEntry_of_plain hfirst hl) (ih hrest)

/-! ### A line that is taken for an entry -/

/-- The entries of plain lines. -/
def plainEntries (ls : List Bytes) : List Bytes := (ls.map trim).filter fun e => !e.isEmpty

/-- Plain lines only add to the current section. -/
lemma foldl_plain (hls : ∀ l ∈ ls, IsPlain l) {s : Bytes} {m : Section} {base : List Bytes} (hbase : m s = some base) :
    ls.foldl (parseLine true) (s, m) = (s, Function.update m s (some (base ++ plainEntries ls))) := by
  induction ls generalizing m base with
  | nil =>
    rw [plainEntries, List.map_nil, List.filter_nil, List.append_nil, ← hbase, Function.update_eq_self]
    rfl
  | cons l ls ih =>
    obtain ⟨hl, hls⟩ := List.forall_mem_cons.1 hls
    rw [List.foldl_cons, parseLine_entry hl.1 hl.2, addEntry, plainEntries, List.map_cons]
    split_ifs with htrim
    · rw [ih hls hbase, List.filter_cons_of_neg (by simp [htrim]), plainEntries]
    · dsimp only
      rw [hbase, Option.getD_some, ih hls (Function.update_self _ _ _), Function.update_idem,
        List.filter_cons_of_pos (by simpa using htrim), plainEntries, List.append_assoc, List.singleton_append]

/-- The current section exists. -/
lemma current_isSome (ls : List Bytes) :
    ((ls.foldl (parseLine true) initial).2 (ls.foldl (parseLine true) initial).1).isSome := by
  induction ls using List.reverseRecOn with
  | nil => rfl
  | append_singleton ls l ih =>
    rw [List.foldl_append, List.foldl_cons, List.foldl_nil]
    obtain ⟨st, hst⟩ : ∃ st, st = ls.foldl (parseLine true) initial := ⟨_, rfl⟩
    rw [← hst] at ih ⊢
    by_cases hc : IsComment l
    · rwa [parseLine_comment hc]
    by_cases hh : IsHeader l
    · rw [parseLine_header hh, openSection]
      simp
    · rw [parseLine_entry hc hh, addEntry]
      split_ifs
      · exact ih
      · simp

/-- The last line that is not plain. -/
lemma exists_last (h : ∃ l ∈ ls, ¬ IsPlain l) :
    ∃ before l after, ls = before ++ l :: after ∧ ¬ IsPlain l ∧ ∀ l' ∈ after, IsPlain l' := by
  induction ls with
  | nil => simp at h
  | cons l ls ih =>
    by_cases hls : ∃ l ∈ ls, ¬ IsPlain l
    · obtain ⟨before, l', after, rfl, hl', hafter⟩ := ih hls
      exact ⟨l :: before, l', after, rfl, hl', hafter⟩
    · obtain ⟨l', hl', hspecial⟩ := h
      rcases List.mem_cons.1 hl' with rfl | hl'
      · exact ⟨[], l', ls, rfl, hspecial, fun l hl => by_contra fun hn => hls ⟨l, hl, hn⟩⟩
      · exact absurd ⟨l', hl', hspecial⟩ hls

lemma not_blank_of_not_plain (hl : ¬ IsPlain l) : ¬ Blank l := by
  intro hb
  rcases not_and_or.1 hl with hc | hh
  · exact absurd (hb 35 (List.mem_of_mem_head? (not_not.1 hc))) (by decide)
  · exact absurd (hb 91 (List.mem_of_mem_head? (not_not.1 hh).1)) (by decide)

/-- Where it is seen for what it is, it is no entry of the section before it. -/
lemma foldl_not_plain {after : List Bytes} (hl : ¬ IsPlain l) (hafter : ∀ l' ∈ after, IsPlain l') {s : Bytes}
    {m : Section} {base : List Bytes} (hbase : m s = some base) :
    ∃ es, ((l :: after).foldl (parseLine true) (s, m)).2 s = some es ∧
      es.length ≤ base.length + (plainEntries after).length := by
  rw [List.foldl_cons]
  by_cases hh : IsHeader l
  · rw [parseLine_header hh, openSection, foldl_plain hafter (Function.update_self _ _ _)]
    dsimp only
    rw [Function.update_idem]
    by_cases hs : s = sectionName l
    · rw [hs, Function.update_self]
      exact ⟨_, rfl, by simp⟩
    · rw [Function.update_of_ne hs]
      exact ⟨base, hbase, by omega⟩
  · have hc : IsComment l := by_contra fun hc => hl ⟨hc, hh⟩
    rw [parseLine_comment hc, foldl_plain hafter hbase]
    dsimp only
    rw [Function.update_self]
    exact ⟨_, rfl, List.length_append.le⟩

lemma isPlain_blank_cons (l : Bytes) : IsPlain (32 :: l) := by
  refine ⟨fun hc => ?_, fun hh => ?_⟩
  · exact absurd (Option.some.inj hc) (by decide)
  · exact absurd (Option.some.inj hh.1) (by decide)

lemma trim_blank_cons (l : Bytes) : trim (32 :: l) = trim l := by
  have hpad := @trim_pad l [32] [] (fun c hc => by rw [List.mem_singleton.1 hc]; rfl) blank_nil
  rwa [List.append_nil] at hpad

/-- **A blank in front of it** makes it one more entry of the section before it. -/
lemma foldl_blank_ne {before after : List Bytes} (hl : ¬ IsPlain l) (hafter : ∀ l' ∈ after, IsPlain l') :
    ((before ++ (32 :: l) :: after).foldl (parseLine true) initial).2 ≠
      ((before ++ l :: after).foldl (parseLine true) initial).2 := by
  obtain ⟨base, hbase⟩ := Option.isSome_iff_exists.1 (current_isSome before)
  obtain ⟨⟨s, m⟩, hst⟩ : ∃ st, st = before.foldl (parseLine true) initial := ⟨_, rfl⟩
  rw [← hst] at hbase
  obtain ⟨es, hes, hle⟩ := foldl_not_plain hl hafter hbase
  have hentries : plainEntries ((32 :: l) :: after) = trim l :: plainEntries after := by
    have hne : trim l ≠ [] := mt trim_eq_nil_iff.1 (not_blank_of_not_plain hl)
    rw [plainEntries, List.map_cons, trim_blank_cons, List.filter_cons_of_pos (by simpa using hne), plainEntries]
  have hplain : ∀ l' ∈ (32 :: l) :: after, IsPlain l' := List.forall_mem_cons.2 ⟨isPlain_blank_cons l, hafter⟩
  rw [List.foldl_append, List.foldl_append, ← hst, foldl_plain hplain hbase, hentries]
  intro heq
  have hsection := congrFun heq s
  rw [hes] at hsection
  dsimp only at hsection
  rw [Function.update_self] at hsection
  have hlen := congrArg List.length (Option.some.inj hsection)
  rw [List.length_append, List.length_cons] at hlen
  omega

/-- A text with other lines and the same ends. -/
lemma exists_text_of_lines (t : Text) (hlen : ls.length = t.all.length) (hls : ∀ l ∈ ls, IsLine l) :
    ∃ t' : Text, t'.all = ls ∧ t'.lines.map Prod.snd = t.lines.map Prod.snd := by
  have hne : ls ≠ [] := by
    rintro rfl
    simp [Text.all] at hlen
  obtain ⟨front, last, rfl⟩ := List.eq_nil_or_concat' ls |>.resolve_left hne
  have hfront : front.length = (t.lines.map Prod.snd).length := by simpa [Text.all] using hlen
  refine ⟨⟨front.zip (t.lines.map Prod.snd), last, fun l hl => ?_, ?_⟩, ?_, ?_⟩
  · exact hls _ (List.mem_append_left _ (List.of_mem_zip hl).1)
  · exact hls _ (List.mem_append_right _ List.mem_cons_self)
  · rw [Text.all, List.map_fst_zip hfront.le]
  · exact List.map_snd_zip hfront.ge

/-! ### All lines -/

lemma isLine_of_mem_all (t : Text) {l : Bytes} (hl : l ∈ t.all) : IsLine l := by
  rcases List.mem_append.1 hl with hl | hl
  · obtain ⟨line, hline, rfl⟩ := List.mem_map.1 hl
    exact t.isLine line hline
  · rw [List.mem_singleton.1 hl]
    exact t.isLast

lemma isPad_nil : IsPad [] := fun _ hc => absurd hc List.not_mem_nil

lemma padsLine_refl (l : Bytes) : PadsLine l l :=
  ⟨[], [], isPad_nil, isPad_nil, by rw [List.nil_append, List.append_nil]⟩

/-- A blank in front of the last line that is not plain. -/
lemma exists_changed_ne (h : ∃ l ∈ t.all, ¬ IsPlain l) :
    ∃ t', Changed PadsLine t t' ∧ ParseSection t'.bytes true ≠ ParseSection t.bytes true := by
  obtain ⟨before, l, after, hsplit, hl, hafter⟩ := exists_last h
  have hlines : ∀ l' ∈ before ++ (32 :: l) :: after, IsLine l' := by
    have hall : ∀ l' ∈ before ++ l :: after, IsLine l' := fun l' hl' => isLine_of_mem_all t (hsplit ▸ hl')
    rw [List.forall_mem_append, List.forall_mem_cons] at hall ⊢
    exact ⟨hall.1, hall.2.1.cons (by decide) (by decide), hall.2.2⟩
  obtain ⟨t', hall, hends⟩ := exists_text_of_lines t (by rw [hsplit]; simp) hlines
  refine ⟨t', ⟨hends, ?_⟩, ?_⟩
  · have hsame (ls : List Bytes) : List.Forall₂ PadsLine ls ls := List.forall₂_same.2 fun l _ => padsLine_refl l
    have hpad : PadsLine l (32 :: l) :=
      ⟨[32], [], fun c hc => .inl (List.mem_singleton.1 hc), isPad_nil, (List.append_nil _).symm⟩
    rw [hall, hsplit]
    exact List.rel_append (hsame before) (.cons hpad (hsame after))
  · rw [ParseSection_bytes, ParseSection_bytes, hall, hsplit]
    exact foldl_blank_ne hl hafter

lemma ParseSection_padsEntry {t' : Text} (h : Changed PadsEntry t t') :
    ParseSection t'.bytes true = ParseSection t.bytes true := by
  rw [ParseSection_bytes, ParseSection_bytes, foldl_padsEntry h.all]

/-- **When blanks do not matter**: in a text without comments and headers; in any text, where they are not in
front of a comment and not around a header. -/
theorem padding_iff (t : Text) :
    ((∀ t', Changed PadsLine t t' → ParseSection t'.bytes true = ParseSection t.bytes true) ↔
      ∀ l ∈ t.all, ¬ IsComment l ∧ ¬ IsHeader l) ∧
    ∀ t', Changed PadsEntry t t' → ParseSection t'.bytes true = ParseSection t.bytes true := by
  refine ⟨⟨fun h l hl => ?_, fun h t' ht' => ?_⟩, fun t' ht' => ParseSection_padsEntry ht'⟩
  · by_contra hspecial
    obtain ⟨t', ht', hne⟩ := exists_changed_ne ⟨l, hl, hspecial⟩
    exact hne (h t' ht')
  · exact ParseSection_padsEntry ⟨ht'.ends, forall₂_padsEntry h ht'.all⟩

/-- A header and a comment, each with a blank in front. -/
theorem padding_counterexample :
    ParseSection (cString "[peers]\nx") true (cString "peers") = some [cString "x"] ∧
    ParseSection (cString " [peers]\nx") true (cString "peers") = none ∧
    ParseSection (cString " [peers]\nx") true [] = some [cString "[peers]", cString "x"] ∧
    ParseSection (cString "#c") true [] = some [] ∧ ParseSection (cString "\t#c") true [] = some [cString "#c"] := by
  decide +kernel

end Newcoin.SectionFile
