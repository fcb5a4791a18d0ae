import Newcoin.ParseSection
import Newcoin.Words

/-!
# The lines of a section file

A text is lines, each with its end, and a last one that has none (`Text`, `exists_text`).  Whatever the ends,
`ParseSection` goes through the lines one by one (`ParseSection_bytes`).  A line is a comment, a header, or an
entry with blanks around it, which may be empty (`parseLine_comment`, `parseLine_header`, `parseLine_entry`).
-/

namespace Newcoin.SectionFile

inductive LineEnd
  | lf
  | crlf
  | cr
  deriving DecidableEq, Repr

def LineEnd.bytes : LineEnd → Bytes
  | lf => [10]
  | crlf => [13, 10]
  | cr => [13]

/-- No character ends the line. -/
def IsLine (l : Bytes) : Prop := 10 ∉ l ∧ 13 ∉ l

structure Text where
  lines : List (Bytes × LineEnd)
  last : Bytes
  isLine : ∀ l ∈ lines, IsLine l.1
  isLast : IsLine last

namespace Text

def bytes (t : Text) : Bytes := t.lines.flatMap (fun l => l.1 ++ l.2.bytes) ++ t.last

/-- All its lines, the last one too. -/
def all (t : Text) : List Bytes := t.lines.map Prod.fst ++ [t.last]

end Text

variable {l cs rest : Bytes} {bTrim : Bool}

lemma isLine_nil : IsLine [] := ⟨List.not_mem_nil, List.not_mem_nil⟩

lemma IsLine.cons {c : UInt8} (h10 : c ≠ 10) (h13 : c ≠ 13) (h : IsLine cs) : IsLine (c :: cs) :=
  ⟨List.not_mem_cons_of_ne_of_not_mem (Ne.symm h10) h.1, List.not_mem_cons_of_ne_of_not_mem (Ne.symm h13) h.2⟩

/-- **Every string is a text.** -/
theorem exists_text (strInput : Bytes) : ∃ t : Text, t.bytes = strInput := by
  induction strInput using replaceCrLf.induct with
  | case1 cs ih =>
    obtain ⟨t, rfl⟩ := ih
    exact ⟨⟨([], .crlf) :: t.lines, t.last, List.forall_mem_cons.2 ⟨isLine_nil, t.isLine⟩, t.isLast⟩, rfl⟩
  | case2 c cs hno ih =>
    obtain ⟨t, rfl⟩ := ih
    by_cases h10 : c = 10
    · subst h10
      exact ⟨⟨([], .lf) :: t.lines, t.last, List.forall_mem_cons.2 ⟨isLine_nil, t.isLine⟩, t.isLast⟩, rfl⟩
    by_cases h13 : c = 13
    · subst h13
      exact ⟨⟨([], .cr) :: t.lines, t.last, List.forall_mem_cons.2 ⟨isLine_nil, t.isLine⟩, t.isLast⟩, rfl⟩
    · obtain ⟨lines, last, hlines, hlast⟩ := t
      cases lines with
      | nil => exact ⟨⟨[], c :: last, hlines, hlast.cons h10 h13⟩, rfl⟩
      | cons first lines =>
        obtain ⟨hfirst, hlines⟩ := List.forall_mem_cons.1 hlines
        exact ⟨⟨(c :: first.1, first.2) :: lines, last, List.forall_mem_cons.2 ⟨hfirst.cons h10 h13, hlines⟩, hlast⟩,
          rfl⟩
  | case3 => exact ⟨⟨[], [], fun l hl => absurd hl List.not_mem_nil, isLine_nil⟩, rfl⟩

/-! ### What is left of the ends -/

/-- The text after both replacements. -/
def toUnix (strInput : Bytes) : Bytes := replaceCr (replaceCrLf strInput)

lemma toUnix_cons {c : UInt8} (h : c ≠ 13) : toUnix (c :: cs) = c :: toUnix cs := by
  have hcrlf : replaceCrLf (c :: cs) = c :: replaceCrLf cs := by
    rw [replaceCrLf]
    rintro cs' rfl
    exact absurd rfl h
  rw [toUnix, hcrlf, replaceCr, List.map_cons, if_neg h]
  rfl

lemma toUnix_append (hl : 13 ∉ l) : toUnix (l ++ rest) = l ++ toUnix rest := by
  induction l with
  | nil => rfl
  | cons c l ih =>
    obtain ⟨hc, hl⟩ := not_or.1 (mt List.mem_cons.2 hl)
    rw [List.cons_append, toUnix_cons (Ne.symm hc), ih hl, List.cons_append]

/-- A carriage return is a line feed, unless it goes with the one behind it. -/
lemma toUnix_cr (rest : Bytes) :
    (∃ rest', rest = 10 :: rest' ∧ toUnix (13 :: rest) = 10 :: toUnix rest') ∨
      toUnix (13 :: rest) = 10 :: toUnix rest := by
  by_cases h : ∃ rest', rest = 10 :: rest'
  · obtain ⟨rest', rfl⟩ := h
    exact .inl ⟨rest', rfl, rfl⟩
  · refine .inr ?_
    have hcrlf : replaceCrLf (13 :: rest) = 13 :: replaceCrLf rest := by
      rw [replaceCrLf]
      rintro rest' - rfl
      exact h ⟨rest', rfl⟩
    rw [toUnix, hcrlf]
    rfl

/-! ### Line by line -/

lemma splitLines_cons (hl : 10 ∉ l) : splitLines (l ++ 10 :: rest) = l :: splitLines rest :=
  List.splitOn_append_cons_self_of_not_mem hl rest

@[simp] lemma parseLine_nil (st : Bytes × Section) : parseLine bTrim st [] = st := if_pos (.inl rfl)

/-- One line, and what comes behind it. -/
lemma foldl_line (hl : IsLine l) (e : LineEnd) (st : Bytes × Section) :
    (splitLines (toUnix (l ++ e.bytes ++ rest))).foldl (parseLine bTrim) st =
      (splitLines (toUnix rest)).foldl (parseLine bTrim) (parseLine bTrim st l) := by
  have hsplit (s : Bytes) : (splitLines (l ++ 10 :: s)).foldl (parseLine bTrim) st =
      (splitLines s).foldl (parseLine bTrim) (parseLine bTrim st l) := by
    rw [splitLines_cons hl.1, List.foldl_cons]
  rw [List.append_assoc, toUnix_append hl.2]
  cases e with
  | lf => exact hsplit _
  | crlf => exact hsplit _
  | cr =>
    rcases toUnix_cr rest with ⟨rest', rfl, hcr⟩ | hcr
    · -- The line feed behind it would be an empty line, which changes nothing.
      have hempty : splitLines (10 :: toUnix rest') = [] :: splitLines (toUnix rest') :=
        splitLines_cons List.not_mem_nil
      rw [LineEnd.bytes, List.singleton_append, hcr, hsplit, toUnix_cons (by decide), hempty, List.foldl_cons,
        parseLine_nil]
    · rw [LineEnd.bytes, List.singleton_append, hcr, hsplit]

/-- What `ParseSection` starts with. -/
def initial : Bytes × Section := ([], fun strSection => if strSection = [] then some [] else none)

/-- **The lines are parsed one by one**, whatever they end with. -/
theorem ParseSection_bytes (t : Text) : ParseSection t.bytes bTrim = (t.all.foldl (parseLine bTrim) initial).2 := by
  obtain ⟨lines, last, hlines, hlast⟩ := t
  have key (st : Bytes × Section) :
      (splitLines (toUnix (lines.flatMap (fun l => l.1 ++ l.2.bytes) ++ last))).foldl (parseLine bTrim) st =
        (lines.map Prod.fst ++ [last]).foldl (parseLine bTrim) st := by
    induction lines generalizing st with
    | nil =>
      have hend : toUnix last = last := by
        have happ := @toUnix_append last [] hlast.2
        rwa [List.append_nil, show toUnix [] = [] from rfl, List.append_nil] at happ
      have hsplit : splitLines last = [last] := List.splitOn_eq_singleton hlast.1
      rw [List.flatMap_nil, List.nil_append, hend, hsplit]
      rfl
    | cons line lines ih =>
      obtain ⟨hline, hlines⟩ := List.forall_mem_cons.1 hlines
      rw [List.flatMap_cons, List.append_assoc, foldl_line hline, ih hlines, List.map_cons, List.cons_append,
        List.foldl_cons]
  exact congrArg Prod.snd (key initial)

/-! ### Kinds of lines -/

/-- `strValue[0] == '#'`. -/
def IsComment (l : Bytes) : Prop := l.head? = some 35

/-- `strValue[0] == '[' && strValue[strValue.length()-1] == ']'`. -/
def IsHeader (l : Bytes) : Prop := l.head? = some 91 ∧ l.getLast? = some 93

instance : DecidablePred IsComment := fun l => by
  unfold IsComment
  infer_instance

instance : DecidablePred IsHeader := fun l => by
  unfold IsHeader
  infer_instance

/-- `strValue.substr(1, strValue.length()-2)`. -/
def sectionName (l : Bytes) : Bytes := (l.drop 1).take (l.length - 2)

/-- A section begins. -/
def openSection (st : Bytes × Section) (strSection : Bytes) : Bytes × Section :=
  (strSection, Function.update st.2 strSection (some []))

/-- An entry of the current section, unless it is empty. -/
def addEntry (st : Bytes × Section) (entry : Bytes) : Bytes × Section :=
  if entry = [] then st else (st.1, Function.update st.2 st.1 (some ((st.2 st.1).getD [] ++ [entry])))

variable {st : Bytes × Section}

lemma IsHeader.not_isComment (h : IsHeader l) : ¬ IsComment l := by
  intro hc
  have heq := h.1.symm.trans hc
  cases heq

lemma parseLine_comment (h : IsComment l) : parseLine bTrim st l = st := if_pos (.inr h)

lemma parseLine_header (h : IsHeader l) : parseLine bTrim st l = openSection st (sectionName l) := by
  have hne : ¬ (l = [] ∨ l.head? = some 35) := by
    rintro (rfl | hc)
    · cases h.1
    · exact h.not_isComment hc
  exact (if_neg hne).trans (if_pos h)

/-- With trimming on. -/
lemma parseLine_entry (hc : ¬ IsComment l) (hh : ¬ IsHeader l) : parseLine true st l = addEntry st (trim l) := by
  by_cases hne : l = []
  · subst hne
    rfl
  · have hne' : ¬ (l = [] ∨ l.head? = some 35) := not_or.2 ⟨hne, hc⟩
    rw [parseLine, if_neg hne']
    exact if_neg hh

/-! ### Blanks around a line -/

lemma trim_pad {pre post : Bytes} (hpre : Blank pre) (hpost : Blank post) : trim (pre ++ l ++ post) = trim l := by
  rw [trim, rdropWhile_blank hpost, trim]
  by_cases hl : Blank l
  · have hnil := trim_blank hl
    have hnil' := trim_blank (b := pre ++ l) fun c hc => (List.mem_append.1 hc).elim (hpre c) (hl c)
    rw [trim] at hnil hnil'
    rw [hnil, hnil']
  · have hkeep : (pre ++ l).rdropWhile isSpace = pre ++ l.rdropWhile isSpace := by
      have hsome : (l.reverse.dropWhile isSpace).isEmpty = false := by
        rw [List.isEmpty_eq_false_iff, Ne, List.dropWhile_eq_nil_iff]
        exact fun h => hl fun c hc => h c (List.mem_reverse.2 hc)
      rw [List.rdropWhile, List.reverse_append, List.dropWhile_append, hsome]
      simp [List.rdropWhile]
    rw [hkeep, dropWhile_blank hpre]

lemma trim_eq_nil_iff : trim l = [] ↔ Blank l := by
  constructor
  · intro h
    have hall : ∀ c ∈ l.rdropWhile isSpace, isSpace c = true := List.dropWhile_eq_nil_iff.1 h
    have hnil : l.rdropWhile isSpace = [] := by
      by_contra hne
      exact List.rdropWhile_last_not isSpace l hne (hall _ (List.getLast_mem hne))
    exact List.rdropWhile_eq_nil_iff.1 hnil
  · exact trim_blank

/-- Without blanks around it, a line is as it is. -/
lemma trim_eq_self (hhead : ∀ c ∈ l.head?, isSpace c = false) (hlast : ∀ c ∈ l.getLast?, isSpace c = false) :
    trim l = l := by
  have hr : l.rdropWhile isSpace = l := by
    refine List.rdropWhile_eq_self_iff.2 fun hne => ?_
    rw [hlast _ (List.getLast?_eq_getLast_of_ne_nil hne)]
    exact Bool.false_ne_true
  rw [trim, hr]
  cases l with
  | nil => rfl
  | cons c cs => exact List.dropWhile_cons_of_neg (by rw [hhead c rfl]; exact Bool.false_ne_true)

end Newcoin.SectionFile
