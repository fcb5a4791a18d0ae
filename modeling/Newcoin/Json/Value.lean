import Newcoin.Bytes
import Mathlib.Data.List.TakeWhile
import Mathlib.Order.Lex
import Mathlib.Data.List.Lex
import Mathlib.Data.Nat.Basic
import Mathlib.Order.Lattice

/-!
# JSON values

`Json::Value`, with `double` as a parameter `R`.  An object is a map from names to values, which is kept here as
the list of its entries in the order of the names (`InOrder`).
-/

namespace Newcoin.Json

/-- A string that ends at its first zero: `char*`. -/
structure CZString where
  chars : Bytes
  zero_notMem : 0 ∉ chars
  deriving DecidableEq

namespace CZString

@[ext] lemma ext {a b : CZString} (h : a.chars = b.chars) : a = b := by
  cases a
  cases b
  cases h
  rfl

/-- What is read of these bytes and a zero behind them. -/
def ofBytes (s : Bytes) : CZString := ⟨s.takeWhile (· ≠ 0), fun h => by simpa using List.mem_takeWhile_imp h⟩

lemma ofBytes_chars (s : CZString) : ofBytes s.chars = s := by
  ext1
  refine List.takeWhile_eq_self_iff.2 fun c hc => ?_
  rw [decide_eq_true_eq]
  rintro rfl
  exact s.zero_notMem hc

lemma charCodes_injective : Function.Injective fun s : CZString => charCodes s.chars := fun _ _ h =>
  ext (List.map_injective_iff.2 (fun _ _ => UInt8.toNat_inj.1) h)

/-- The order of `strcmp`. -/
instance : LinearOrder CZString := LinearOrder.lift' (fun s => charCodes s.chars) charCodes_injective

end CZString

/-- `Json::Value`. -/
inductive Value (R : Type) where
  | null
  | int (int : Int32)
  | uint (uint : UInt32)
  | real (real : R)
  | string (string : CZString)
  | boolean (bool : Bool)
  | array (values : List (Value R))
  | object (members : List (CZString × Value R))

/-- What is used of `double`. -/
structure Doubles (R : Type) where
  /-- `sprintf` with `%#.16g`. -/
  sprintf : R → Bytes
  /-- `sscanf` with `%lf`: the number, if there is one at the start. -/
  sscanf : Bytes → Option R
  /-- The same where the text's zero has been written behind its buffer. -/
  overrun : Bytes → Option R

/-- `Value::ObjectValues` of an object. -/
abbrev Members (R : Type) := List (CZString × Value R)

variable {R : Type}

/-- Induction over the values in a value. -/
@[induction_eliminator]
theorem Value.induct {P : Value R → Prop} (null : P .null) (int : ∀ i, P (.int i)) (uint : ∀ u, P (.uint u))
    (real : ∀ r, P (.real r)) (string : ∀ s, P (.string s)) (boolean : ∀ b, P (.boolean b))
    (array : ∀ values, (∀ v ∈ values, P v) → P (.array values))
    (object : ∀ members : Members R, (∀ m ∈ members, P m.2) → P (.object members)) (v : Value R) : P v := by
  refine @Value.rec R P (fun values => ∀ v ∈ values, P v) (fun members => ∀ m ∈ members, P m.2) (fun m => P m.2)
    null int uint real string boolean array object ?_ ?_ ?_ ?_ (fun _ _ h => h) v
  · simp
  · exact fun v values hv hvalues => List.forall_mem_cons.2 ⟨hv, hvalues⟩
  · simp
  · exact fun m members hm hmembers => List.forall_mem_cons.2 ⟨hm, hmembers⟩

/-! ### Objects -/

/-- What `(*this)[key]` refers to: a member that is new is null. -/
def resolveReference (key : CZString) (members : Members R) : Value R :=
  ((members.find? fun m => m.1 = key).map Prod.snd).getD .null

/-- `(*this)[key] = value`; a member that is new goes to the `lower_bound` of its key. -/
def assign (key : CZString) (value : Value R) : Members R → Members R
  | [] => [(key, value)]
  | m :: members =>
    if m.1 < key then m :: assign key value members
    else if m.1 = key then (key, value) :: members
    else (key, value) :: m :: members

/-- In the order of a map. -/
def InOrder (members : Members R) : Prop := members.Pairwise fun m n => m.1 < n.1

lemma mem_assign {key : CZString} {value : Value R} {members : Members R} {m : CZString × Value R}
    (h : m ∈ assign key value members) : m = (key, value) ∨ m ∈ members := by
  induction members with
  | nil => simpa [assign] using h
  | cons n members ih =>
    unfold assign at h
    split_ifs at h
    · rcases List.mem_cons.1 h with rfl | h
      · simp
      · exact (ih h).imp_right (List.mem_cons_of_mem _)
    · exact (List.mem_cons.1 h).imp_right (List.mem_cons_of_mem _)
    · exact List.mem_cons.1 h

lemma InOrder.assign {members : Members R} (h : InOrder members) (key : CZString) (value : Value R) :
    InOrder (assign key value members) := by
  induction members with
  | nil => simp [Json.assign, InOrder]
  | cons n members ih =>
    obtain ⟨hn, hmembers⟩ := List.pairwise_cons.1 h
    unfold Json.assign
    split_ifs with hlt heq
    · refine List.pairwise_cons.2 ⟨fun m hm => ?_, ih hmembers⟩
      rcases mem_assign hm with rfl | hm
      · exact hlt
      · exact hn m hm
    · exact List.pairwise_cons.2 ⟨fun m hm => heq ▸ hn m hm, hmembers⟩
    · have hkey : key < n.1 := lt_of_le_of_ne (not_lt.1 hlt) (Ne.symm heq)
      exact List.pairwise_cons.2 ⟨List.forall_mem_cons.2 ⟨hkey, fun m hm => hkey.trans (hn m hm)⟩, h⟩

/-- A key behind all others goes to the end. -/
lemma assign_of_lt {members : Members R} {key : CZString} (h : ∀ m ∈ members, m.1 < key) (value : Value R) :
    assign key value members = members ++ [(key, value)] := by
  induction members with
  | nil => rfl
  | cons n members ih =>
    obtain ⟨hn, hmembers⟩ := List.forall_mem_cons.1 h
    rw [assign, if_pos hn, ih hmembers, List.cons_append]

/-- Assignments in this order. -/
def assignAll (assignments members : Members R) : Members R :=
  assignments.foldl (fun members m => assign m.1 m.2 members) members

lemma assignAll_inOrder {assignments members : Members R} (h : InOrder (members ++ assignments)) :
    assignAll assignments members = members ++ assignments := by
  induction assignments generalizing members with
  | nil => simp [assignAll]
  | cons m assignments ih =>
    have hm : ∀ n ∈ members, n.1 < m.1 := fun n hn => (List.pairwise_append.1 h).2.2 n hn m List.mem_cons_self
    rw [assignAll, List.foldl_cons, assign_of_lt hm, ← assignAll, ih (by simpa using h), List.append_assoc]
    rfl

/-! ### All the values in a value -/

mutual
/-- `p` holds of the value and of all values in it. -/
def Value.All (p : Value R → Prop) : Value R → Prop
  | .array values => p (.array values) ∧ AllValues p values
  | .object members => p (.object members) ∧ AllMembers p members
  | v => p v
def AllValues (p : Value R → Prop) : List (Value R) → Prop
  | [] => True
  | v :: values => v.All p ∧ AllValues p values
def AllMembers (p : Value R → Prop) : Members R → Prop
  | [] => True
  | (_, v) :: members => v.All p ∧ AllMembers p members
end

variable {p q : Value R → Prop}

lemma allValues_iff {values : List (Value R)} : AllValues p values ↔ ∀ v ∈ values, v.All p := by
  induction values with
  | nil => simp [AllValues]
  | cons v values ih => simp [AllValues, ih]

lemma allMembers_iff {members : Members R} : AllMembers p members ↔ ∀ m ∈ members, m.2.All p := by
  induction members with
  | nil => simp [AllMembers]
  | cons m members ih => simp [AllMembers, ih]

@[simp] lemma all_array {values : List (Value R)} :
    (Value.array values).All p ↔ p (.array values) ∧ ∀ v ∈ values, v.All p := by
  rw [Value.All, allValues_iff]

@[simp] lemma all_object {members : Members R} :
    (Value.object members).All p ↔ p (.object members) ∧ ∀ m ∈ members, m.2.All p := by
  rw [Value.All, allMembers_iff]

@[simp] lemma all_null : (Value.null : Value R).All p ↔ p .null := Iff.rfl

@[simp] lemma all_int {i : Int32} : (Value.int i : Value R).All p ↔ p (.int i) := Iff.rfl

@[simp] lemma all_uint {u : UInt32} : (Value.uint u : Value R).All p ↔ p (.uint u) := Iff.rfl

@[simp] lemma all_real {r : R} : (Value.real r).All p ↔ p (.real r) := Iff.rfl

@[simp] lemma all_string {s : CZString} : (Value.string s : Value R).All p ↔ p (.string s) := Iff.rfl

@[simp] lemma all_boolean {b : Bool} : (Value.boolean b : Value R).All p ↔ p (.boolean b) := Iff.rfl

/-- A member that is found is a member. -/
lemma all_resolveReference {members : Members R} (hnull : p .null) (h : ∀ m ∈ members, m.2.All p) (key : CZString) :
    (resolveReference key members).All p := by
  cases hfind : members.find? fun m => m.1 = key with
  | none => simpa [resolveReference, hfind] using hnull
  | some m => simpa [resolveReference, hfind] using h m (List.mem_of_find?_eq_some hfind)

end Newcoin.Json
