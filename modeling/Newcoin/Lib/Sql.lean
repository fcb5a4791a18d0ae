import Mathlib.Data.List.Dedup
import Mathlib.Data.List.Sort

/-!
# SQL values and tables

A value has a storage class, and values of two classes are never equal.  A table is the list of its
rows in the order of a scan; the rows have different keys, whatever is done to the table.

* `literal` — the value a literal stands for.
* `Table.rows_insert` — an insertion that violates no key appends its rows.
* `Table.mem_replaceAll` — the rows after `REPLACE`.
* `Table.select_insert`, `Table.select_delete` — what a query sees of a write.
* `Table.find_replace`, `Table.find_delete` — a table is a map from its keys.
* `Table.keeps_replaceAll_iff` — which columns a write leaves alone.
* `perm_orderBy` — `ORDER BY` only rearranges.
-/

namespace Newcoin.Lib.Sql

/-- A value, by its storage class. -/
inductive Value
  | null
  | integer (n : ℤ)
  | text (s : List UInt8)
  | blob (s : List UInt8)
  deriving DecidableEq, Repr

/-- The bytes of a value; a number is read in its text form. -/
def Value.bytes : Value → List UInt8
  | .null => []
  | .integer n => (toString n).toUTF8.data.toList
  | .text s => s
  | .blob s => s

/-! ### Literals -/

/-- The value of a hexadecimal digit. -/
def hexDigit (c : UInt8) : Option UInt8 :=
  if 48 ≤ c ∧ c ≤ 57 then some (c - 48)
  else if 65 ≤ c ∧ c ≤ 70 then some (c - 55)
  else if 97 ≤ c ∧ c ≤ 102 then some (c - 87)
  else none

/-- The bytes written by pairs of digits. -/
def unhex : List UInt8 → Option (List UInt8)
  | [] => some []
  | [_] => none
  | c :: d :: cs =>
    match hexDigit c, hexDigit d, unhex cs with
    | some h, some l, some bs => some ((h * 16 + l) :: bs)
    | _, _, _ => none

/-- The value of a literal: `'…'` is text and `X'…'` a blob.  `none` for what is not one such literal
from end to end; quotes inside a text are not read. -/
def literal : List UInt8 → Option Value
  | 39 :: cs => if cs.getLast? = some 39 ∧ 39 ∉ cs.dropLast then some (.text cs.dropLast) else none
  | 88 :: 39 :: cs => if cs.getLast? = some 39 then (unhex cs.dropLast).map .blob else none
  | _ => none

lemma literal_text {s : List UInt8} (h : 39 ∉ s) : literal (39 :: (s ++ [39])) = some (.text s) := by
  have hlast : (s ++ [39]).getLast? = some 39 := by simp
  simp [literal, hlast, h]

lemma literal_blob {cs bs : List UInt8} (h : unhex cs = some bs) :
    literal (88 :: 39 :: (cs ++ [39])) = some (.blob bs) := by
  have hlast : (cs ++ [39]).getLast? = some 39 := by simp
  simp [literal, hlast, h]

/-! ### Tables -/

/-- Rows with different keys. -/
structure Table {R K : Type*} (key : R → K) where
  rows : List R
  nodup : (rows.map key).Nodup

namespace Table

variable {R K : Type*} {key : R → K}

/-- A table without rows. -/
def empty : Table key := ⟨[], List.nodup_nil⟩

@[ext] lemma ext {t t' : Table key} (h : t.rows = t'.rows) : t = t' := by
  cases t
  cases t'
  simpa using h

/-- `SELECT … WHERE`. -/
def select (p : R → Bool) (t : Table key) : List R := t.rows.filter p

/-- `DELETE … WHERE`. -/
def delete (p : R → Bool) (t : Table key) : Table key where
  rows := t.rows.filter (!p ·)
  nodup := t.nodup.sublist (List.filter_sublist.map key)

/-- `INSERT`: the statement fails, and the table stays as it is, if two rows would have one key. -/
def insert [DecidableEq K] (rows : List R) (t : Table key) : Table key :=
  if h : ((t.rows ++ rows).map key).Nodup then ⟨t.rows ++ rows, h⟩ else t

/-- `REPLACE`, one row: the row that has the key goes. -/
def replace [DecidableEq K] (row : R) (t : Table key) : Table key where
  rows := t.rows.filter (fun r => key r ≠ key row) ++ [row]
  nodup := by
    rw [List.map_append]
    refine (t.nodup.sublist (List.filter_sublist.map key)).append (List.nodup_singleton _) ?_
    intro k hk hrow
    obtain ⟨r, hr, rfl⟩ := List.mem_map.1 hk
    have hne : key r ≠ key row := by simpa using (List.mem_filter.1 hr).2
    exact hne (List.mem_singleton.1 hrow)

/-- `REPLACE`, the rows in order. -/
def replaceAll [DecidableEq K] (rows : List R) (t : Table key) : Table key :=
  rows.foldl (fun t row => t.replace row) t

/-- `UPDATE` of columns that are not in the key. -/
def update (f : R → R) (hf : ∀ r, key (f r) = key r) (t : Table key) : Table key where
  rows := t.rows.map f
  nodup := by
    rw [List.map_map, show key ∘ f = key from funext hf]
    exact t.nodup

lemma rows_insert [DecidableEq K] {rows : List R} {t : Table key}
    (h : ((t.rows ++ rows).map key).Nodup) : (t.insert rows).rows = t.rows ++ rows := by
  rw [insert, dif_pos h]

lemma select_insert [DecidableEq K] {rows : List R} {t : Table key}
    (h : ((t.rows ++ rows).map key).Nodup) (p : R → Bool) :
    (t.insert rows).select p = t.select p ++ rows.filter p := by
  rw [select, rows_insert h, List.filter_append, ← select]

lemma select_delete (p q : R → Bool) (t : Table key) :
    (t.delete q).select p = (t.select p).filter (!q ·) := by
  rw [select, select, delete, List.filter_filter, List.filter_filter]
  simp only [Bool.and_comm]

/-- Rows of a new group, numbered apart, go with the rows of the other groups. -/
lemma nodup_append_group {A B : Type*} {group : R → A} {number : R → B} {old rows : List R} {a : A}
    (hnodup : (old.map fun r => (group r, number r)).Nodup) (hold : ∀ r ∈ old, group r ≠ a)
    (hnew : ∀ r ∈ rows, group r = a) (hnumber : (rows.map number).Nodup) :
    ((old ++ rows).map fun r => (group r, number r)).Nodup := by
  rw [List.map_append]
  refine hnodup.append (List.Nodup.of_map Prod.snd ?_) ?_
  · rw [List.map_map]
    exact hnumber
  · intro k hk hk'
    obtain ⟨r, hr, rfl⟩ := List.mem_map.1 hk
    obtain ⟨r', hr', he⟩ := List.mem_map.1 hk'
    exact hold r hr ((Prod.mk.inj he).1 ▸ hnew r' hr')

/-- Rows that are deleted no query finds. -/
lemma select_delete_of_disjoint {p q : R → Bool} (h : ∀ r, p r = true → q r = false) (t : Table key) :
    (t.delete q).select p = t.select p := by
  rw [select_delete, List.filter_eq_self]
  intro r hr
  rw [h r (List.of_mem_filter hr)]
  rfl

lemma mem_replace [DecidableEq K] {row r : R} {t : Table key} :
    r ∈ (t.replace row).rows ↔ r = row ∨ r ∈ t.rows ∧ key r ≠ key row := by
  simp [replace, or_comm]

lemma exists_key_replace [DecidableEq K] {row : R} {t : Table key} {k : K} :
    (∃ r ∈ (t.replace row).rows, key r = k) ↔ key row = k ∨ ∃ r ∈ t.rows, key r = k := by
  simp only [mem_replace]
  constructor
  · rintro ⟨r, rfl | ⟨hr, -⟩, rfl⟩
    · exact .inl rfl
    · exact .inr ⟨r, hr, rfl⟩
  · rintro (rfl | ⟨r, hr, rfl⟩)
    · exact ⟨row, .inl rfl, rfl⟩
    · by_cases he : key r = key row
      · exact ⟨row, .inl rfl, he.symm⟩
      · exact ⟨r, .inr ⟨hr, he⟩, rfl⟩

/-- New rows with different keys are all there, and so is what they do not replace. -/
lemma mem_replaceAll [DecidableEq K] {rows : List R} (h : (rows.map key).Nodup) {r : R} {t : Table key} :
    r ∈ (t.replaceAll rows).rows ↔ r ∈ rows ∨ r ∈ t.rows ∧ key r ∉ rows.map key := by
  induction rows generalizing t with
  | nil => simp [replaceAll]
  | cons row rows ih =>
    rw [List.map_cons, List.nodup_cons] at h
    rw [replaceAll, List.foldl_cons, ← replaceAll, ih h.2, mem_replace]
    constructor
    · rintro (hr | ⟨rfl | ⟨hr, hne⟩, hnew⟩)
      · exact .inl (List.mem_cons_of_mem _ hr)
      · exact .inl List.mem_cons_self
      · exact .inr ⟨hr, by simp [hne, hnew]⟩
    · rintro (hr | ⟨hr, hnew⟩)
      · rcases List.mem_cons.1 hr with rfl | hr
        · exact .inr ⟨.inl rfl, h.1⟩
        · exact .inl hr
      · rw [List.map_cons, List.mem_cons, not_or] at hnew
        exact .inr ⟨.inr ⟨hr, hnew.1⟩, hnew.2⟩

/-! #### The row of a key -/

def find [DecidableEq K] (k : K) (t : Table key) : Option R := t.rows.find? (key · = k)

lemma find_eq_some [DecidableEq K] {k : K} {t : Table key} {r : R} :
    t.find k = some r ↔ r ∈ t.rows ∧ key r = k := by
  constructor
  · intro h
    exact ⟨List.mem_of_find?_eq_some h, by simpa using List.find?_some h⟩
  · rintro ⟨hr, rfl⟩
    cases h : t.find (key r) with
    | none => exact absurd (List.find?_eq_none.1 h r hr) (by simp)
    | some r' =>
      have hkey : key r' = key r := by simpa using List.find?_some h
      rw [List.inj_on_of_nodup_map t.nodup (List.mem_of_find?_eq_some h) hr hkey]

lemma find_eq_none [DecidableEq K] {k : K} {t : Table key} : t.find k = none ↔ ∀ r ∈ t.rows, key r ≠ k := by
  simp [find]

/-- Two tables have the same row for a key if they have the same rows of that key. -/
lemma find_congr [DecidableEq K] {k : K} {t t' : Table key}
    (h : ∀ r, key r = k → (r ∈ t.rows ↔ r ∈ t'.rows)) : t.find k = t'.find k := by
  apply Option.ext
  intro r
  rw [find_eq_some, find_eq_some]
  exact and_congr_left (h r)

lemma find_replace [DecidableEq K] {row : R} {k : K} {t : Table key} :
    (t.replace row).find k = if key row = k then some row else t.find k := by
  split_ifs with hk
  · exact find_eq_some.2 ⟨mem_replace.2 (.inl rfl), hk⟩
  · refine find_congr fun r hr => ?_
    rw [mem_replace]
    constructor
    · rintro (rfl | ⟨hmem, -⟩)
      · exact absurd hr hk
      · exact hmem
    · exact fun hmem => .inr ⟨hmem, fun he => hk (he.symm.trans hr)⟩

/-- Rows that are replaced under other keys leave a key alone. -/
lemma find_replaceAll_of_notMem [DecidableEq K] {rows : List R} {k : K} {t : Table key} (hk : k ∉ rows.map key) :
    (t.replaceAll rows).find k = t.find k := by
  induction rows generalizing t with
  | nil => rfl
  | cons row rows ih =>
    rw [List.map_cons, List.mem_cons, not_or] at hk
    rw [replaceAll, List.foldl_cons, ← replaceAll, ih hk.2, find_replace, if_neg (Ne.symm hk.1)]

/-- A key that is replaced has one of the new rows. -/
lemma find_replaceAll_of_mem [DecidableEq K] {rows : List R} {k : K} {t : Table key} (hk : k ∈ rows.map key) :
    ∃ row ∈ rows, (t.replaceAll rows).find k = some row := by
  induction rows generalizing t with
  | nil => simp at hk
  | cons row rows ih =>
    rw [replaceAll, List.foldl_cons, ← replaceAll]
    by_cases hrest : k ∈ rows.map key
    · obtain ⟨row', hrow', hfind⟩ := @ih (t.replace row) hrest
      exact ⟨row', List.mem_cons_of_mem _ hrow', hfind⟩
    · rw [List.map_cons, List.mem_cons, or_iff_left hrest] at hk
      refine ⟨row, List.mem_cons_self, ?_⟩
      rw [find_replaceAll_of_notMem hrest, find_replace, if_pos hk.symm]

/-- A row is deleted by its key. -/
lemma find_delete [DecidableEq K] {k k' : K} {t : Table key} :
    (t.delete (key · = k')).find k = if k = k' then none else t.find k := by
  split_ifs with hk
  · refine find_eq_none.2 fun r hr he => ?_
    simp only [delete, List.mem_filter, Bool.not_eq_true', decide_eq_false_iff_not] at hr
    exact hr.2 (he.trans hk)
  · refine find_congr fun r hr => ?_
    simp only [delete, List.mem_filter, Bool.not_eq_true', decide_eq_false_iff_not]
    exact and_iff_left fun he => hk (hr.symm.trans he)

lemma filter_key [DecidableEq K] {l : List R} (h : (l.map key).Nodup) (k : K) :
    l.filter (key · = k) = (l.find? (key · = k)).toList := by
  induction l with
  | nil => rfl
  | cons r l ih =>
    rw [List.map_cons, List.nodup_cons] at h
    by_cases hk : key r = k
    · have hrest : l.filter (key · = k) = [] := by
        rw [List.filter_eq_nil_iff]
        intro r' hr'
        have hne : key r' ≠ k := fun he => h.1 (List.mem_map.2 ⟨r', hr', he.trans hk.symm⟩)
        simpa using hne
      rw [List.filter_cons_of_pos (by simpa using hk), List.find?_cons_of_pos (by simpa using hk), hrest]
      rfl
    · rw [List.filter_cons_of_neg (by simpa using hk), List.find?_cons_of_neg (by simpa using hk), ih h.2]

/-- A query by key gives its row. -/
lemma select_key [DecidableEq K] {k : K} {t : Table key} : t.select (key · = k) = (t.find k).toList :=
  filter_key t.nodup k

lemma head?_select_key [DecidableEq K] {k : K} {t : Table key} : (t.select (key · = k)).head? = t.find k := by
  rw [select_key, Option.head?_toList]

/-! #### Columns that are kept -/

/-- Every row is still there, by its key, with the columns `f` as they were. -/
def Keeps {C : Type*} (f : R → C) (t t' : Table key) : Prop :=
  ∀ r ∈ t.rows, ∃ r' ∈ t'.rows, key r' = key r ∧ f r' = f r

lemma keeps_iff_find [DecidableEq K] {C : Type*} {f : R → C} {t t' : Table key} :
    t.Keeps f t' ↔ ∀ r ∈ t.rows, (t'.find (key r)).map f = some (f r) := by
  refine forall₂_congr fun r _ => ?_
  simp only [Option.map_eq_some_iff, find_eq_some, and_assoc]

lemma keeps_update_left {C : Type*} {f : R → C} {g : R → R} {hg : ∀ r, key (g r) = key r} {t t' : Table key}
    (hf : ∀ r, f (g r) = f r) : (t.update g hg).Keeps f t' ↔ t.Keeps f t' := by
  simp only [Keeps, update, List.mem_map, forall_exists_index, and_imp, forall_apply_eq_imp_iff₂, hg, hf]

/-- Columns that all new rows have alike are kept exactly if the rows they replace have them so, too. -/
lemma keeps_replaceAll_iff [DecidableEq K] {C : Type*} {f : R → C} {c : C} {rows : List R} {t : Table key}
    (hrows : ∀ row ∈ rows, f row = c) :
    t.Keeps f (t.replaceAll rows) ↔ ∀ r ∈ t.rows, key r ∈ rows.map key → f r = c := by
  rw [keeps_iff_find]
  refine forall₂_congr fun r hr => ?_
  by_cases hk : key r ∈ rows.map key
  · obtain ⟨row, hrow, hfind⟩ := @find_replaceAll_of_mem _ _ _ _ _ _ t hk
    rw [hfind, Option.map_some, hrows row hrow, Option.some_inj]
    simp only [hk, true_imp_iff, eq_comm]
  · rw [find_replaceAll_of_notMem hk, find_eq_some.2 ⟨hr, rfl⟩, Option.map_some]
    simp only [hk, false_imp_iff]

end Table

/-! ### Queries that find less -/

/-- A query finds fewer rows, if it finds one no more that it found, and none that it did not. -/
lemma countP_lt_countP {R : Type*} {p q : R → Bool} {rows : List R} {row : R} (hle : ∀ r ∈ rows, p r → q r)
    (hrow : row ∈ rows) (hq : q row) (hp : ¬ p row) : rows.countP p < rows.countP q := by
  have hsame : rows.countP p = ((rows.filter q).filter p).length := by
    rw [List.countP_eq_length_filter, List.filter_filter]
    refine congrArg List.length (List.filter_congr fun r hr => ?_)
    rw [Bool.eq_iff_iff, Bool.and_eq_true]
    exact ⟨fun h => ⟨h, hle r hr h⟩, fun h => h.1⟩
  rw [hsame, List.countP_eq_length_filter, List.length_filter_lt_length_iff_exists]
  exact ⟨row, List.mem_filter.2 ⟨hrow, hq⟩, hp⟩

/-! ### Order -/

/-- `ORDER BY`; rows that tie stay in the order of the scan. -/
def orderBy {R : Type*} (f : R → ℤ) (rows : List R) : List R :=
  rows.insertionSort fun r r' => f r ≤ f r'

lemma perm_orderBy {R : Type*} (f : R → ℤ) (rows : List R) : (orderBy f rows).Perm rows :=
  List.perm_insertionSort _ rows

end Newcoin.Lib.Sql
