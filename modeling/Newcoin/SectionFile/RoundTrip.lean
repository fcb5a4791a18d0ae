import Newcoin.SectionFile.Lines

/-!
# Section files parse back

The entries of the section of no name, then the other sections in any order, each a header and its entries
(`body`), with blank lines and comments anywhere between: `ParseSection_layout`.
-/

namespace Newcoin.SectionFile

/-! ### The file of a map -/

/-- An entry that is not taken for something else. -/
structure IsEntry (e : Bytes) : Prop where
  ne_nil : e ≠ []
  first : ∀ c ∈ e.head?, isSpace c = false
  last : ∀ c ∈ e.getLast?, isSpace c = false
  not_comment : ¬ IsComment e
  not_header : ¬ IsHeader e

/-- The sections of the map, the one of no name apart, in an order. -/
structure IsOrder (M : Section) (order : List Bytes) : Prop where
  default : (M []).isSome
  nodup : order.Nodup
  mem : ∀ n, n ∈ order ↔ n ≠ [] ∧ (M n).isSome
  entries : ∀ n es, M n = some es → ∀ e ∈ es, IsEntry e

def header (n : Bytes) : Bytes := 91 :: n ++ [93]

def entriesOf (M : Section) (n : Bytes) : List Bytes := (M n).getD []

def body (M : Section) (order : List Bytes) : List Bytes :=
  entriesOf M [] ++ order.flatMap fun n => header n :: entriesOf M n

/-- Blank lines and comments. -/
def ignored (l : Bytes) : Bool := l.head? == some 35 || l.all isSpace

/-- The lines, all with the same end. -/
def layout (lines : List Bytes) (e : LineEnd) : Bytes := lines.flatMap fun l => l ++ e.bytes

/-! ### What its lines do -/

variable {M m : Section} {order lines es : List Bytes} {s n e : Bytes} {base : List Bytes}

lemma parseLine_ignored {l : Bytes} (h : ignored l = true) (st : Bytes × Section) : parseLine true st l = st := by
  rcases Bool.or_eq_true_iff.1 h with hc | hb
  · exact parseLine_comment (beq_iff_eq.1 hc)
  · have hb : Blank l := List.all_eq_true.1 hb
    by_cases hc : IsComment l
    · exact parseLine_comment hc
    by_cases hh : IsHeader l
    · exact absurd (hb 91 (List.mem_of_mem_head? hh.1)) (by decide)
    · rw [parseLine_entry hc hh, trim_blank hb, addEntry, if_pos rfl]

/-- The other lines do all the work. -/
lemma foldl_filter_ignored (lines : List Bytes) (st : Bytes × Section) :
    (lines.filter fun l => !ignored l).foldl (parseLine true) st = lines.foldl (parseLine true) st := by
  rw [List.foldl_filter]
  congr 1
  funext st l
  cases h : ignored l with
  | true => exact (parseLine_ignored h st).symm
  | false => rfl

lemma parseLine_isEntry (h : IsEntry e) (st : Bytes × Section) : parseLine true st e =
    (st.1, Function.update st.2 st.1 (some ((st.2 st.1).getD [] ++ [e]))) := by
  rw [parseLine_entry h.not_comment h.not_header, trim_eq_self h.first h.last, addEntry, if_neg h.ne_nil]

lemma foldl_entries (h : ∀ e ∈ es, IsEntry e) (hbase : m s = some base) :
    es.foldl (parseLine true) (s, m) = (s, Function.update m s (some (base ++ es))) := by
  induction es generalizing m base with
  | nil => rw [List.foldl_nil, List.append_nil, ← hbase, Function.update_eq_self]
  | cons e es ih =>
    obtain ⟨he, hes⟩ := List.forall_mem_cons.1 h
    rw [List.foldl_cons, parseLine_isEntry he]
    dsimp only
    rw [hbase, Option.getD_some, ih hes (Function.update_self _ _ _), Function.update_idem, List.append_assoc,
      List.singleton_append]

lemma isHeader_header (n : Bytes) : IsHeader (header n) := by
  refine ⟨rfl, ?_⟩
  rw [header, List.getLast?_concat]

lemma sectionName_header (n : Bytes) : sectionName (header n) = n := by
  rw [sectionName, header, List.cons_append, List.drop_one, List.tail_cons, List.length_cons, List.length_append]
  exact List.take_left

/-- A header and its entries. -/
lemma foldl_section (h : ∀ e ∈ es, IsEntry e) (st : Bytes × Section) :
    (header n :: es).foldl (parseLine true) st = (n, Function.update st.2 n (some es)) := by
  rw [List.foldl_cons, parseLine_header (isHeader_header n), sectionName_header, openSection,
    foldl_entries h (Function.update_self _ _ _), Function.update_idem, List.nil_append]

/-- Section after section; a name comes once. -/
lemma foldl_sections (hnodup : order.Nodup) (h : ∀ n ∈ order, ∀ e ∈ entriesOf M n, IsEntry e) (st : Bytes × Section) :
    ((order.flatMap fun n => header n :: entriesOf M n).foldl (parseLine true) st).2 =
      fun n => if n ∈ order then some (entriesOf M n) else st.2 n := by
  induction order generalizing st with
  | nil => rfl
  | cons first order ih =>
    obtain ⟨hfirst, hnodup⟩ := List.nodup_cons.1 hnodup
    obtain ⟨hentries, hrest⟩ := List.forall_mem_cons.1 h
    rw [List.flatMap_cons, List.foldl_append, foldl_section hentries, ih hnodup hrest]
    funext n
    dsimp only
    by_cases hn : n = first
    · subst hn
      rw [if_neg hfirst, if_pos List.mem_cons_self, Function.update_self]
    · rw [Function.update_of_ne hn]
      simp only [List.mem_cons, hn, false_or]

lemma entriesOf_of_isSome (h : (M n).isSome) : some (entriesOf M n) = M n := by
  obtain ⟨es, hes⟩ := Option.isSome_iff_exists.1 h
  rw [entriesOf, hes, Option.getD_some]

/-- The sections of the order and the one of no name are all there are. -/
lemma IsOrder.eq_map (h : IsOrder M order) : (fun n => if n ∈ order then some (entriesOf M n)
    else Function.update initial.2 [] (some (entriesOf M [])) n) = M := by
  funext n
  by_cases hn : n ∈ order
  · rw [if_pos hn, entriesOf_of_isSome ((h.mem n).1 hn).2]
  rw [if_neg hn]
  by_cases hnil : n = []
  · subst hnil
    rw [Function.update_self, entriesOf_of_isSome h.default]
  · have hnone : M n = none := by
      rw [← Option.not_isSome_iff_eq_none]
      exact fun hsome => hn ((h.mem n).2 ⟨hnil, hsome⟩)
    rw [Function.update_of_ne hnil, hnone]
    exact if_neg hnil

/-- **Section files parse back**, in whatever order the sections are, whatever the lines end with, and
whatever blank lines and comments stand between. -/
theorem ParseSection_layout (h : IsOrder M order) (e : LineEnd) (hlines : ∀ l ∈ lines, IsLine l)
    (hbody : lines.filter (fun l => !ignored l) = body M order) : ParseSection (layout lines e) true = M := by
  obtain ⟨t, hbytes, hall⟩ : ∃ t : Text, t.bytes = layout lines e ∧ t.all = lines ++ [[]] := by
    refine ⟨⟨lines.map fun l => (l, e), [], by simpa using hlines, isLine_nil⟩, ?_, ?_⟩
    · simp [Text.bytes, layout, List.flatMap_map]
    · simp [Text.all, Function.comp_def]
  have hentries (n : Bytes) : ∀ e ∈ entriesOf M n, IsEntry e := by
    cases hn : M n with
    | none => simp [entriesOf, hn]
    | some es =>
      rw [entriesOf, hn]
      exact h.entries n es hn
  have hdefault : (entriesOf M []).foldl (parseLine true) initial =
      ([], Function.update initial.2 [] (some (entriesOf M []))) :=
    @foldl_entries initial.2 _ [] [] (hentries []) rfl
  rw [← hbytes, ParseSection_bytes, hall, List.foldl_append, List.foldl_cons, parseLine_nil, List.foldl_nil,
    ← foldl_filter_ignored, hbody, body, List.foldl_append, hdefault, foldl_sections h.nodup fun n _ => hentries n]
  exact h.eq_map

/-- Two entries before the first header, a section of one entry, and an empty one. -/
def sampleMap : Section := fun n =>
  if n = [] then some [cString "first", cString "[second"]
  else if n = cString "peers" then some [cString "10.0.0.1 51235"]
  else if n = cString "#none" then some [] else none

def sampleLines : List Bytes :=
  [cString "# comment", cString "first", cString "[second", [], cString "[#none]", cString " \t", cString "[peers]",
    cString "10.0.0.1 51235"]

lemma sampleMap_isOrder : IsOrder sampleMap [cString "#none", cString "peers"] := by
  have hentries : ∀ e ∈ [cString "first", cString "[second", cString "10.0.0.1 51235"],
      e ≠ [] ∧ (∀ c ∈ e.head?, isSpace c = false) ∧ (∀ c ∈ e.getLast?, isSpace c = false) ∧ ¬ IsComment e ∧
        ¬ IsHeader e := by
    decide +kernel
  refine ⟨by decide +kernel, by decide +kernel, fun n => ?_, fun n es hes e he => ?_⟩
  · unfold sampleMap
    split_ifs with hnil hpeers hnone
    · rw [hnil]
      decide +kernel
    · rw [hpeers]
      decide +kernel
    · rw [hnone]
      decide +kernel
    · simp [hpeers, hnone]
  · have hmem : e ∈ [cString "first", cString "[second", cString "10.0.0.1 51235"] := by
      unfold sampleMap at hes
      split_ifs at hes with hnil hpeers hnone
      · obtain rfl := Option.some.inj hes
        exact List.mem_append_left [cString "10.0.0.1 51235"] he
      · obtain rfl := Option.some.inj hes
        exact List.mem_append_right [cString "first", cString "[second"] he
      · obtain rfl := Option.some.inj hes
        cases he
    obtain ⟨hne, hfirst, hlast, hcomment, hheader⟩ := hentries e hmem
    exact ⟨hne, hfirst, hlast, hcomment, hheader⟩

theorem ParseSection_layout_sample : ParseSection (layout sampleLines .crlf) true = sampleMap :=
  ParseSection_layout sampleMap_isOrder .crlf (by unfold IsLine; decide +kernel) (by decide +kernel)

end Newcoin.SectionFile
