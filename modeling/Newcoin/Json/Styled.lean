import Newcoin.Json.Texts

/-!
# What the styled writers write

Lines, indentation and values that were collected first make no difference: what `StyledWriter` and
`StyledStreamWriter` append to the document is a text of the same value, behind blanks (`exists_write`).
-/

namespace Newcoin.Json.StyledWriter

open Reader (isBlank)

variable {R : Type} {D : Doubles R} {style : Style} {comments : Bool}

def Blank (g : Bytes) : Prop := ∀ c ∈ g, isBlank c

lemma Blank.gap {g : Bytes} (h : Blank g) : Gap comments g := by
  induction g with
  | nil => exact .nil
  | cons c g ih => exact .blank (h c List.mem_cons_self) (ih fun d hd => h d (List.mem_cons_of_mem _ hd))

lemma Blank.append {g g' : Bytes} (h : Blank g) (h' : Blank g') : Blank (g ++ g') := List.forall_mem_append.2 ⟨h, h'⟩

lemma Blank.cons {c : UInt8} (hc : isBlank c) {g : Bytes} (h : Blank g) : Blank (c :: g) :=
  List.forall_mem_cons.2 ⟨hc, h⟩

lemma blank_nil : Blank [] := fun _ h => absurd h List.not_mem_nil

/-! ### What a call appends -/

/-- The document grows by `text`; nothing is collected. -/
structure Appends (w w' : StyledWriter) (text : Bytes) : Prop where
  document : w'.document = w.document ++ text
  indentString : w'.indentString = w.indentString
  addChildValues : w'.addChildValues = w.addChildValues

lemma Appends.trans {w w' w'' : StyledWriter} {text text' : Bytes} (h : Appends w w' text) (h' : Appends w' w'' text') :
    Appends w w'' (text ++ text') where
  document := by rw [h'.document, h.document, List.append_assoc]
  indentString := h'.indentString.trans h.indentString
  addChildValues := h'.addChildValues.trans h.addChildValues

lemma appends_append (w : StyledWriter) (text : Bytes) : Appends w (w.append text) text := ⟨rfl, rfl, rfl⟩

lemma pushValue_eq {w : StyledWriter} (hw : w.addChildValues = false) (value : Bytes) :
    w.pushValue value = w.append value := by
  rw [pushValue, if_neg (by simp [hw])]

lemma exists_writeIndent (style : Style) {w : StyledWriter} (hw : Blank w.indentString) :
    ∃ g, w.writeIndent style = w.append g ∧ Blank g := by
  have hline : Blank (10 :: w.indentString) := hw.cons (by decide)
  unfold writeIndent
  split_ifs
  · exact ⟨_, rfl, hline⟩
  split
  · exact ⟨_, rfl, hw⟩
  · split_ifs
    · exact ⟨[], by simp [append], blank_nil⟩
    · exact ⟨_, rfl, hline⟩
    · exact ⟨_, rfl, hw⟩

lemma exists_writeWithIndent (style : Style) {w : StyledWriter} (hw : Blank w.indentString) (value : Bytes) :
    ∃ g, w.writeWithIndent style value = w.append (g ++ value) ∧ Blank g := by
  obtain ⟨g, hwrite, hg⟩ := exists_writeIndent style hw
  exact ⟨g, by rw [writeWithIndent, hwrite, append, append, append, List.append_assoc], hg⟩

/-- Nothing is collected, and lines begin with blanks. -/
structure Ready (w : StyledWriter) : Prop where
  addChildValues : w.addChildValues = false
  indentString : Blank w.indentString

lemma Ready.of_appends {w w' : StyledWriter} (h : Ready w) {text : Bytes} (h' : Appends w w' text) : Ready w' where
  addChildValues := h'.addChildValues.trans h.addChildValues
  indentString := h'.indentString ▸ h.indentString

lemma Ready.indent {w : StyledWriter} (h : Ready w) (hstyle : Blank style.indentation) : Ready (w.indent style) where
  addChildValues := h.addChildValues
  indentString := h.indentString.append hstyle

/-- What is written between brackets, on lines of its own. -/
lemma exists_between {w w' : StyledWriter} (hw : Ready w) {opening closing : UInt8} {text : Bytes}
    (h : Appends ((w.writeWithIndent style [opening]).indent style) w' text) :
    ∃ g g', Blank g ∧ Blank g' ∧
      Appends w ((w'.unindent style).writeWithIndent style [closing])
        (g ++ opening :: ((text ++ g') ++ [closing])) := by
  obtain ⟨g, hopen, hg⟩ := exists_writeWithIndent style hw.indentString [opening]
  rw [hopen] at h
  have hrestored : (w'.unindent style).indentString = w.indentString := by
    rw [unindent, h.indentString]
    simp [indent, append]
  obtain ⟨g', hclose, hg'⟩ := exists_writeWithIndent style (w := w'.unindent style)
    (hrestored ▸ hw.indentString) [closing]
  refine ⟨g, g', hg, hg', ?_⟩
  rw [hclose]
  refine ⟨?_, hrestored, h.addChildValues⟩
  rw [append, unindent, h.document, indent, append]
  simp

/-! ### Values that are collected -/

/-- What is not an array or an object with something in it is written like by `FastWriter`. -/
lemma writeValue_eq {v : Value R} (hv : ((v.isArray || v.isObject) && 0 < v.size) = false) (w : StyledWriter) :
    writeValue D style v w = w.pushValue (FastWriter.writeValue D false v) := by
  cases v with
  | null | int | uint | real | string | boolean => simp only [writeValue, FastWriter.writeValue]
  | array values =>
    cases values with
    | nil =>
      rw [writeValue, if_pos List.isEmpty_nil]
      rfl
    | cons v values => simp [Value.isArray, Value.size] at hv
  | object members =>
    cases members with
    | nil =>
      rw [writeValue, if_pos List.isEmpty_nil]
      rfl
    | cons m members => simp [Value.isArray, Value.isObject, Value.size] at hv

lemma exists_collectValues (D : Doubles R) (style : Style) {values : List (Value R)}
    (hvalues : (values.any fun v => (v.isArray || v.isObject) && 0 < v.size) = false) (index lineLength : ℕ)
    {w : StyledWriter} (hw : w.addChildValues = true) :
    ∃ length, collectValues D style index lineLength values w =
      (length, { w with childValues := w.childValues ++ values.map (FastWriter.writeValue D false) }) := by
  induction values generalizing index lineLength w with
  | nil => exact ⟨lineLength, by simp [collectValues]⟩
  | cons v values ih =>
    rw [List.any_cons, Bool.or_eq_false_iff] at hvalues
    rw [collectValues, writeValue_eq hvalues.1, pushValue, if_pos hw]
    simp only
    obtain ⟨length, hlength⟩ := ih hvalues.2 (index + 1) _
      (w := { w with childValues := w.childValues ++ [FastWriter.writeValue D false v] }) hw
    exact ⟨length, by rw [hlength, List.map_cons, List.append_assoc, List.singleton_append]⟩

/-- On one line. -/
lemma spells_intercalate (comments : Bool) {v : Value R} {values : List (Value R)}
    (h : ∀ w ∈ v :: values, Spells D comments (.value (w.reread D)) (FastWriter.writeValue D false w)) :
    Spells D comments (.elements (rereadValues D (v :: values)))
      (32 :: ((cString ", ").intercalate ((v :: values).map (FastWriter.writeValue D false)) ++ [32])) := by
  have hspace : Gap comments [32] := .blank (by decide) .nil
  have hcomma : cString ", " = [44, 32] := by decide
  induction values generalizing v with
  | nil =>
    rw [List.map_singleton, List.intercalate_singleton]
    exact .lastElement hspace (h v List.mem_cons_self) hspace
  | cons w values ih =>
    have hcons := Spells.element hspace (h v List.mem_cons_self) .nil (ih fun u hu => h u (List.mem_cons_of_mem _ hu))
    have htext : (cString ", ").intercalate ((v :: w :: values).map (FastWriter.writeValue D false)) =
        FastWriter.writeValue D false v ++ 44 :: 32 ::
          (cString ", ").intercalate ((w :: values).map (FastWriter.writeValue D false)) := by
      rw [List.map_cons, List.map_cons, List.intercalate_cons_cons, hcomma]
      simp
    rw [htext, List.append_assoc]
    exact hcons

/-! ### Lines -/

/-- Elements up to the last one, and whatever blanks come before the bracket. -/
def Elements (D : Doubles R) (comments : Bool) (values : List (Value R)) (text : Bytes) : Prop :=
  ∀ g, Blank g → Spells D comments (.elements (rereadValues D values)) (text ++ g)

lemma exists_writeLines {v : Value R} {values : List (Value R)}
    (h : ∀ u ∈ v :: values, Spells D comments (.value (u.reread D)) (FastWriter.writeValue D false u))
    {w : StyledWriter} (hw : Ready w) :
    ∃ text, Appends w (w.writeLines style ((v :: values).map (FastWriter.writeValue D false))) text ∧
      Elements D comments (v :: values) text := by
  induction values generalizing v w with
  | nil =>
    obtain ⟨g, hwrite, hg⟩ := exists_writeWithIndent style hw.indentString (FastWriter.writeValue D false v)
    refine ⟨g ++ FastWriter.writeValue D false v, ?_, fun g' hg' => ?_⟩
    · rw [List.map_cons, writeLines, List.map_nil, List.isEmpty_nil, if_pos rfl, hwrite]
      exact appends_append _ _
    · rw [List.append_assoc]
      exact .lastElement hg.gap (h v List.mem_cons_self) hg'.gap
  | cons u values ih =>
    obtain ⟨g, hwrite, hg⟩ := exists_writeWithIndent style hw.indentString (FastWriter.writeValue D false v)
    have hfirst := (appends_append w (g ++ FastWriter.writeValue D false v)).trans (appends_append _ [44])
    obtain ⟨text, hrest, htext⟩ := ih (fun u hu => h u (List.mem_cons_of_mem _ hu)) (hw.of_appends hfirst)
    refine ⟨(g ++ FastWriter.writeValue D false v ++ [44]) ++ text, ?_, fun g' hg' => ?_⟩
    · rw [List.map_cons, writeLines, List.map_cons, List.isEmpty_cons, if_neg Bool.false_ne_true, hwrite,
        ← List.map_cons]
      exact hfirst.trans hrest
    · have hcons := Spells.element hg.gap (h v List.mem_cons_self) .nil (htext g' hg')
      simpa [rereadValues] using hcons

/-- What a call appends for a value: blanks, and a text of the value. -/
def Writes (D : Doubles R) (style : Style) (comments : Bool) (v : Value R) : Prop :=
  ∀ w, Ready w → ∃ g t, Appends w (writeValue D style v w) (g ++ t) ∧ Blank g ∧
    Spells D comments (.value (v.reread D)) t

lemma exists_writeValues {v : Value R} {values : List (Value R)} (h : ∀ u ∈ v :: values, Writes D style comments u)
    {w : StyledWriter} (hw : Ready w) :
    ∃ text, Appends w (writeValues D style (v :: values) w) text ∧ Elements D comments (v :: values) text := by
  induction values generalizing v w with
  | nil =>
    obtain ⟨g, hindent, hg⟩ := exists_writeIndent style hw.indentString
    have hfirst := appends_append w g
    obtain ⟨g', t, hwrite, hg', ht⟩ := h v List.mem_cons_self _ (hw.of_appends hfirst)
    refine ⟨g ++ (g' ++ t), ?_, fun g'' hg'' => ?_⟩
    · rw [writeValues, List.isEmpty_nil, if_pos rfl, hindent]
      exact hfirst.trans hwrite
    · have hlast := Spells.lastElement (hg.append hg').gap ht hg''.gap
      simpa [rereadValues] using hlast
  | cons u values ih =>
    obtain ⟨g, hindent, hg⟩ := exists_writeIndent style hw.indentString
    have hfirst := appends_append w g
    obtain ⟨g', t, hwrite, hg', ht⟩ := h v List.mem_cons_self _ (hw.of_appends hfirst)
    have hcomma := (hfirst.trans hwrite).trans (appends_append _ [44])
    obtain ⟨text, hrest, htext⟩ := ih (fun u hu => h u (List.mem_cons_of_mem _ hu)) (hw.of_appends hcomma)
    refine ⟨(g ++ (g' ++ t) ++ [44]) ++ text, ?_, fun g'' hg'' => ?_⟩
    · rw [writeValues, List.isEmpty_cons, if_neg Bool.false_ne_true, hindent]
      exact hcomma.trans hrest
    · have hcons := Spells.element (hg.append hg').gap ht .nil (htext g'' hg'')
      simpa [rereadValues] using hcons

/-- Members up to the last one, and whatever blanks come before the brace. -/
def MembersText (D : Doubles R) (comments : Bool) (members : Members R) (text : Bytes) : Prop :=
  ∀ g, Blank g → Spells D comments (.members (rereadMembers D members)) (text ++ g)

/-- The name of a member, and the value behind it. -/
lemma exists_writeMember {m : CZString × Value R} (h : Writes D style comments m.2) {w : StyledWriter} (hw : Ready w) :
    ∃ g n g' t, Blank g ∧ StringText n m.1.chars ∧ Gap comments g' ∧ Spells D comments (.value (m.2.reread D)) t ∧
      Appends w (writeValue D style m.2
        ((w.writeWithIndent style (valueToQuotedString m.1)).append (cString " : ")))
        (g ++ 34 :: (n ++ 34 :: ([32] ++ 58 :: (g' ++ t)))) := by
  obtain ⟨n, hquoted, hn⟩ := exists_valueToQuotedString m.1
  obtain ⟨g, hwrite, hg⟩ := exists_writeWithIndent style hw.indentString (valueToQuotedString m.1)
  have hname := (appends_append w (g ++ valueToQuotedString m.1)).trans (appends_append _ (cString " : "))
  obtain ⟨g', t, hvalue, hg', ht⟩ := h _ (hw.of_appends hname)
  have htext : (g ++ valueToQuotedString m.1 ++ cString " : ") ++ (g' ++ t) =
      g ++ 34 :: (n ++ 34 :: ([32] ++ 58 :: ((32 :: g') ++ t))) := by
    have hcolon : cString " : " = [32, 58, 32] := by decide
    rw [hquoted, hcolon]
    simp
  refine ⟨g, n, 32 :: g', t, hg, hn, .blank (by decide) hg'.gap, ht, ?_⟩
  rw [← htext, hwrite]
  exact hname.trans hvalue

lemma exists_writeMembers {m : CZString × Value R} {members : Members R}
    (h : ∀ n ∈ m :: members, Writes D style comments n.2) {w : StyledWriter} (hw : Ready w) :
    ∃ text, Appends w (writeMembers D style (m :: members) w) text ∧ MembersText D comments (m :: members) text := by
  have hspace : Gap false [32] := .blank (by decide) .nil
  induction members generalizing m w with
  | nil =>
    obtain ⟨g, n, g', t, hg, hn, hg', ht, hwrite⟩ := exists_writeMember (h m List.mem_cons_self) hw
    refine ⟨g ++ 34 :: (n ++ 34 :: ([32] ++ 58 :: (g' ++ t))), ?_, fun g'' hg'' => ?_⟩
    · rw [writeMembers, List.isEmpty_nil, if_pos rfl]
      exact hwrite
    · have hlast := Spells.lastMember hg.gap hn hspace hg' ht hg''.gap
      rw [CZString.ofBytes_chars] at hlast
      simpa [rereadMembers] using hlast
  | cons u members ih =>
    obtain ⟨g, n, g', t, hg, hn, hg', ht, hwrite⟩ := exists_writeMember (h m List.mem_cons_self) hw
    have hcomma := hwrite.trans (appends_append _ [44])
    obtain ⟨text, hrest, htext⟩ := ih (fun u hu => h u (List.mem_cons_of_mem _ hu)) (hw.of_appends hcomma)
    refine ⟨(g ++ 34 :: (n ++ 34 :: ([32] ++ 58 :: (g' ++ t))) ++ [44]) ++ text, ?_, fun g'' hg'' => ?_⟩
    · rw [writeMembers, List.isEmpty_cons, if_neg Bool.false_ne_true]
      exact hcomma.trans hrest
    · have hcons := Spells.member hg.gap hn hspace hg' ht .nil (htext g'' hg'')
      rw [CZString.ofBytes_chars] at hcons
      simpa [rereadMembers] using hcons

/-! ### Arrays and objects -/

lemma writes_collected {v : Value R} (hv : ((v.isArray || v.isObject) && 0 < v.size) = false)
    (h : Spells D comments (.value (v.reread D)) (FastWriter.writeValue D false v)) : Writes D style comments v := by
  intro w hw
  refine ⟨[], _, ?_, blank_nil, h⟩
  rw [writeValue_eq hv, pushValue_eq hw.addChildValues]
  exact appends_append _ _

/-- The lines of an array. -/
def linesOf (D : Doubles R) (style : Style) (values : List (Value R)) (w : StyledWriter) : StyledWriter :=
  if w.childValues.isEmpty then writeValues D style values w else w.writeLines style w.childValues

/-- An array with something in it: on one line if it is short, else on lines of its own, of what was collected or
not. -/
lemma writeValue_array (v : Value R) (values : List (Value R)) {w : StyledWriter} (hw : w.addChildValues = false) :
    writeValue D style (.array (v :: values)) w =
        ({ w with childValues := (v :: values).map (FastWriter.writeValue D false) }).writeOneLine ∨
      ∃ children, (children = [] ∨ children = (v :: values).map (FastWriter.writeValue D false)) ∧
        writeValue D style (.array (v :: values)) w =
          ((linesOf D style (v :: values) ((({ w with childValues := children }).writeWithIndent style [91]).indent
            style)).unindent style).writeWithIndent style [93] := by
  have hne : ¬ (v :: values).isEmpty = true := by simp
  rw [writeValue, if_neg hne]
  simp only
  by_cases hmulti : (v :: values).length * 3 ≥ rightMargin ∨
      ((v :: values).any fun v => (v.isArray || v.isObject) && 0 < v.size) = true
  · exact .inr ⟨[], .inl rfl, by simp only [hmulti, true_or, if_true, linesOf]⟩
  · obtain ⟨length, hcollect⟩ := exists_collectValues D style
      (Bool.not_eq_true _ ▸ (not_or.1 hmulti).2) 0 (4 + ((v :: values).length - 1) * 2)
      (w := { w with childValues := [], addChildValues := true }) rfl
    have hcollected :
        ({ w with childValues := [] ++ (v :: values).map (FastWriter.writeValue D false), addChildValues := false } :
          StyledWriter) = { w with childValues := (v :: values).map (FastWriter.writeValue D false) } := by
      rw [List.nil_append, ← hw]
    simp only [hmulti, if_false, false_or, hcollect, hcollected]
    by_cases hlong : length ≥ rightMargin
    · exact .inr ⟨_, .inr rfl, by simp only [if_pos hlong, linesOf]⟩
    · exact .inl (by simp only [if_neg hlong])

/-- Either kind of lines. -/
lemma exists_linesOf {v : Value R} {values : List (Value R)} (hall : ∀ u ∈ v :: values, u.All (Writable D))
    (h : ∀ u ∈ v :: values, Writes D style comments u) {w : StyledWriter} (hw : Ready w)
    (hchildren : w.childValues = [] ∨ w.childValues = (v :: values).map (FastWriter.writeValue D false)) :
    ∃ text, Appends w (linesOf D style (v :: values) w) text ∧ Elements D comments (v :: values) text := by
  unfold linesOf
  rcases hchildren with hchildren | hchildren
  · rw [hchildren, if_pos List.isEmpty_nil]
    exact exists_writeValues h hw
  · rw [hchildren, if_neg (by simp)]
    exact exists_writeLines (fun u hu => spells_writeValue (hall u hu)) hw

lemma writes_array {v : Value R} {values : List (Value R)} (hstyle : Blank style.indentation)
    (hall : ∀ u ∈ v :: values, u.All (Writable D)) (h : ∀ u ∈ v :: values, Writes D style comments u) :
    Writes D style comments (.array (v :: values)) := by
  intro w hw
  have hopening : cString "[ " = [91, 32] := by decide
  have hclosing : cString " ]" = [32, 93] := by decide
  rcases writeValue_array v values hw.addChildValues with hwrite | ⟨children, hchildren, hwrite⟩
  · have helements := spells_intercalate comments fun u hu => spells_writeValue (hall u hu)
    refine ⟨[], _, ?_, blank_nil, .array helements⟩
    rw [hwrite, writeOneLine, hopening, hclosing]
    exact ⟨by simp [append], rfl, rfl⟩
  · have hready : Ready { w with childValues := children } := ⟨hw.addChildValues, hw.indentString⟩
    obtain ⟨g, hopen, hg⟩ := exists_writeWithIndent style hready.indentString [91]
    have hinside := (hready.of_appends (hopen ▸ appends_append _ _)).indent hstyle
    obtain ⟨text, happends, htext⟩ := exists_linesOf hall h hinside (by rw [hopen]; exact hchildren)
    obtain ⟨g, g', hg, hg', hbetween⟩ := exists_between hready happends
    rw [hwrite]
    exact ⟨g, _, ⟨hbetween.document, hbetween.indentString, hbetween.addChildValues⟩, hg, .array (htext g' hg')⟩

lemma writes_object {m : CZString × Value R} {members : Members R} (hstyle : Blank style.indentation)
    (horder : InOrder (m :: members)) (h : ∀ n ∈ m :: members, Writes D style comments n.2) :
    Writes D style comments (.object (m :: members)) := by
  intro w hw
  obtain ⟨g, hopen, hg⟩ := exists_writeWithIndent style hw.indentString [123]
  have hinside := (hw.of_appends (hopen ▸ appends_append _ _)).indent hstyle
  obtain ⟨text, happends, htext⟩ := exists_writeMembers h hinside
  obtain ⟨g, g', hg, hg', hbetween⟩ := exists_between hw happends
  rw [writeValue, if_neg (by simp)]
  exact ⟨g, _, hbetween, hg, spells_object horder (htext g' hg')⟩

/-- By induction on the value. -/
theorem writes_writeValue (comments : Bool) (hstyle : Blank style.indentation) {v : Value R} (hv : v.All (Writable D)) :
    Writes D style comments v := by
  induction v with
  | null | int | uint | real | string | boolean => exact writes_collected rfl (spells_writeValue hv)
  | array values ih =>
    cases values with
    | nil => exact writes_collected rfl (spells_writeValue hv)
    | cons v values =>
      have hvalues := (all_array.1 hv).2
      exact writes_array hstyle hvalues fun u hu => ih u hu (hvalues u hu)
  | object members ih =>
    cases members with
    | nil => exact writes_collected rfl (spells_writeValue hv)
    | cons m members =>
      obtain ⟨horder, hmembers⟩ := all_object.1 hv
      exact writes_object hstyle horder fun n hn => ih n hn (hmembers n hn)

/-- **A styled document is a text of the value**, between blanks. -/
theorem exists_write (comments : Bool) (hstyle : Blank style.indentation) {v : Value R} (hv : v.All (Writable D)) :
    ∃ g t, write D style v = g ++ (t ++ [10]) ∧ Blank g ∧ Spells D comments (.value (v.reread D)) t := by
  obtain ⟨g, t, hwrite, hg, ht⟩ :=
    writes_writeValue comments hstyle hv ⟨[], [], [], false⟩ ⟨rfl, blank_nil⟩
  refine ⟨g, t, ?_, hg, ht⟩
  rw [write, hwrite.document, List.nil_append, List.append_assoc]

end Newcoin.Json.StyledWriter
