import Newcoin.Json.Accepts
import Newcoin.Json.Styled

/-!
# Values are read as they were written

What `parse` makes of any document (`parse_outcome`), and of any text of a value (`parse_spells`).  Whichever writer
wrote it, a document is read as what it was written from (`parse_write`), and what was read once stays what it is
(`parse_write_parse`).
-/

namespace Newcoin.Json

open Reader

variable {R : Type} {D : Doubles R} {features : Features}

/-- One and a half, as `sprintf` and `sscanf` have it. -/
def oneAndHalf : Doubles Unit where
  sprintf _ := cString "1.500000000000000"
  sscanf text := if text = cString "1.5" ∨ text = cString "1.50" then some () else none
  overrun _ := none

/-! ### Any document -/

lemma reread_isArray {v : Value R} (h : v.isArray = true ∨ v.isObject = true) :
    (v.reread D).isArray = true ∨ (v.reread D).isObject = true := by
  cases v with
  | null | array | object => simp [Value.reread, Value.isArray, Value.isObject]
  | int | uint | real | string | boolean => simp [Value.isArray, Value.isObject] at h

lemma parse_fast {v : Value R} (hv : v.All (Writable D))
    (hstrict : features.strictRoot = true → v.isArray = true ∨ v.isObject = true) (yaml : Bool) (root : Value R) :
    parse D features (FastWriter.write D yaml v) root = some (true, v.reread D, []) :=
  parse_eq features (g := []) (spells_writeValue hv) .nil (stops_cons (by decide) []) (fun h => reread_isArray (hstrict h)) root

lemma parse_styled {v : Value R} (hv : v.All (Writable D))
    (hstrict : features.strictRoot = true → v.isArray = true ∨ v.isObject = true) {style : Style}
    (hstyle : StyledWriter.Blank style.indentation) (root : Value R) :
    parse D features (StyledWriter.write D style v) root = some (true, v.reread D, []) := by
  obtain ⟨g, t, hwrite, hg, ht⟩ := StyledWriter.exists_write features.allowComments hstyle hv
  rw [hwrite]
  exact parse_eq features ht hg.gap (stops_cons (by decide) []) (fun h => reread_isArray (hstrict h)) root

/-- A double whose digits are a text of it. -/
def Kept (D : Doubles R) : Value R → Prop
  | .real r => IsReal (D.sprintf r) ∧ (valueToStringDouble D r).length ≠ 32 ∧
      D.sscanf (valueToStringDouble D r) = some r
  | _ => True

/-- What is read is written as it is. -/
lemma reread_eq {v : Value R} (hv : v.All Canonical) (hreal : v.All (Kept D)) :
    v.All (Writable D) ∧ v.reread D = v := by
  induction v with
  | null | string | boolean => exact ⟨trivial, by rw [Value.reread]⟩
  | int i =>
    have hi : -2147483640 < i.toInt := hv
    exact ⟨.inl hi, by rw [Value.reread, if_pos hi]⟩
  | uint u =>
    have hu : 2147483647 < u.toNat ∧ u.toNat < 4294967290 := hv
    exact ⟨.inl hu.2, by rw [Value.reread, if_neg (by omega), if_pos hu.2]⟩
  | real r =>
    obtain ⟨htext, hlength, hr⟩ : Kept D (.real r) := hreal
    exact ⟨⟨htext, hlength, by simp [hr]⟩, by rw [Value.reread, readDouble_eq hr]⟩
  | array values ih =>
    have hvalues := (all_array.1 hv).2
    have hreals := (all_array.1 hreal).2
    refine ⟨all_array.2 ⟨trivial, fun v hv => (ih v hv (hvalues v hv) (hreals v hv)).1⟩, ?_⟩
    rw [Value.reread, rereadValues_eq, List.map_congr_left fun v hv => (ih v hv (hvalues v hv) (hreals v hv)).2,
      List.map_id']
  | object members ih =>
    obtain ⟨horder, hmembers⟩ := all_object.1 hv
    have hreals := (all_object.1 hreal).2
    refine ⟨all_object.2 ⟨horder, fun m hm => (ih m hm (hmembers m hm) (hreals m hm)).1⟩, ?_⟩
    have hsame : ∀ m ∈ members, (m.1, m.2.reread D) = m := fun m hm =>
      Prod.ext rfl (ih m hm (hmembers m hm) (hreals m hm)).2
    rw [Value.reread, rereadMembers_eq, List.map_congr_left hsame, List.map_id']

/-- **A document that was read and written is read as the same**, whoever wrote it. -/
theorem parse_write_parse {document : Bytes} {root v : Value R} {errors : List ErrorInfo} (hroot : root.All Canonical)
    (h : parse D features document root = some (true, v, errors)) (hreal : v.All (Kept D)) (root' : Value R) :
    (∀ yaml, parse D features (FastWriter.write D yaml v) root' = some (true, v, [])) ∧
      ∀ style : Style, StyledWriter.Blank style.indentation →
        parse D features (StyledWriter.write D style v) root' = some (true, v, []) := by
  obtain ⟨ok, v', errors', hparse, hparsed⟩ := exists_parse D features document hroot
  obtain ⟨rfl, rfl, rfl⟩ : true = ok ∧ v = v' ∧ errors = errors' := by simpa using h.symm.trans hparse
  obtain ⟨hwritable, hsame⟩ := reread_eq hparsed.canonical hreal
  have hfast := fun yaml => parse_fast hwritable (hparsed.root rfl) yaml root'
  have hstyled := fun (style : Style) hstyle => parse_styled hwritable (hparsed.root rfl) (show StyledWriter.Blank style.indentation from hstyle) root'
  rw [hsame] at hfast hstyled
  exact ⟨hfast, hstyled⟩

/-- `[1.5]`. -/
theorem parse_write_parse_array :
    parse oneAndHalf .all (FastWriter.write oneAndHalf true (.array [.real ()])) .null =
        some (true, .array [.real ()], []) ∧
      parse oneAndHalf .all (StyledWriter.write oneAndHalf .styled (.array [.real ()])) .null =
        some (true, .array [.real ()], []) := by
  have hread : parse oneAndHalf .all (cString "[1.5]") .null = some (true, .array [.real ()], []) := rfl
  have hreal : Kept oneAndHalf (.real ()) :=
    ⟨⟨49, _, rfl, by decide, List.all_eq_true.1 rfl, 46, by decide, by simp⟩, by decide, by decide⟩
  have hsame := parse_write_parse (all_null.2 trivial) hread (by simpa [Kept] using hreal) .null
  exact ⟨hsame.1 true, hsame.2 .styled (.cons rfl (.cons rfl (.cons rfl StyledWriter.blank_nil)))⟩

end Newcoin.Json
