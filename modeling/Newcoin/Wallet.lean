import Newcoin.Escape
import Mathlib.Data.List.Induction

/-!
# The data store of the wallet

`RPCData` is a table of two columns, written and read by statements that hold keys and values as blob
literals.  `DataCall.spec` is what a call does to a finite map; `Represents` connects the table to the
map, `represents_run` carries it along a run of calls, and `data_store_map` says what is fetched.
-/

namespace Newcoin

open Lib.Sql

/-- A row of `RPCData`. -/
structure RPCData where
  Key : Value
  Value : Value
  deriving DecidableEq, Repr

abbrev RPCTable := Table RPCData.Key

namespace Wallet

/-- `dataDelete`: what it returns, and the table after it.  A statement without a literal for the key
fails. -/
def dataDelete (strKey : Bytes) (db : RPCTable) : Bool × RPCTable :=
  (literal (Database.escape strKey)).elim (false, db) fun key => (true, db.delete (·.Key = key))

/-- `dataFetch`: what it returns, and `strValue` after it. -/
def dataFetch (strKey strValue : Bytes) (db : RPCTable) : Bool × Bytes :=
  (literal (Database.escape strKey)).elim (false, strValue) fun key =>
    match db.select (·.Key = key) with
    | row :: _ => (true, row.Value.bytes)
    | [] => (false, strValue)

/-- `dataStore`: what it returns, and the table after it. -/
def dataStore (strKey strValue : Bytes) (db : RPCTable) : Bool × RPCTable :=
  (literal (Database.escape strKey)).elim (false, db) fun key =>
    (literal (Database.escape strValue)).elim (false, db) fun value => (true, db.replace ⟨key, value⟩)

/-! ### Runs -/

/-- A call that changes the table. -/
inductive DataCall
  | dataStore (strKey strValue : Bytes)
  | dataDelete (strKey : Bytes)
  deriving DecidableEq, Repr

namespace DataCall

def run : DataCall → RPCTable → Bool × RPCTable
  | dataStore strKey strValue => Wallet.dataStore strKey strValue
  | dataDelete strKey => Wallet.dataDelete strKey

def key : DataCall → Bytes
  | dataStore strKey _ => strKey
  | dataDelete strKey => strKey

/-- The value the call leaves for its key. -/
def value : DataCall → Option Bytes
  | dataStore _ strValue => some strValue
  | dataDelete _ => none

/-- The sizes of its strings are `int`s. -/
def Sized : DataCall → Prop
  | dataStore strKey strValue => strKey.length < 2 ^ 31 ∧ strValue.length < 2 ^ 31
  | dataDelete strKey => strKey.length < 2 ^ 31

instance : DecidablePred Sized
  | dataStore strKey strValue => inferInstanceAs (Decidable (strKey.length < 2 ^ 31 ∧ strValue.length < 2 ^ 31))
  | dataDelete strKey => inferInstanceAs (Decidable (strKey.length < 2 ^ 31))

/-- What the call does to a map. -/
def spec (c : DataCall) (m : Bytes → Option Bytes) : Bytes → Option Bytes := Function.update m c.key c.value

end DataCall

/-- The table after a run of calls. -/
def after (calls : List DataCall) (db : RPCTable) : RPCTable := calls.foldl (fun db c => (c.run db).2) db

/-- The value of the last call on the key, if it is a `dataStore`. -/
def lastValue (strKey : Bytes) (calls : List DataCall) : Option Bytes :=
  (calls.reverse.find? (·.key = strKey)).bind DataCall.value

/-! ### The table is a map -/

/-- The table holds the map. -/
def Represents (db : RPCTable) (m : Bytes → Option Bytes) : Prop :=
  ∀ k : Bytes, db.find (.blob k) = (m k).map fun v => ⟨.blob k, .blob v⟩

lemma represents_empty : Represents Table.empty fun _ => none := fun _ => rfl

/-- A call does to the table what `spec` does to the map. -/
lemma represents_run {db : RPCTable} {m : Bytes → Option Bytes} (h : Represents db m) {c : DataCall} (hc : c.Sized) :
    (c.run db).1 = true ∧ Represents (c.run db).2 (c.spec m) := by
  cases c with
  | dataStore strKey strValue =>
    obtain ⟨hkey, hvalue⟩ : strKey.length < 2 ^ 31 ∧ strValue.length < 2 ^ 31 := hc
    have hrun : (DataCall.dataStore strKey strValue).run db
        = (true, db.replace ⟨.blob strKey, .blob strValue⟩) := by
      rw [DataCall.run, dataStore, literal_escape_iff.2 hkey, literal_escape_iff.2 hvalue]
      rfl
    rw [hrun]
    refine ⟨rfl, fun k => ?_⟩
    rw [Table.find_replace, DataCall.spec, Function.update_apply]
    by_cases hk : k = strKey
    · subst hk
      rw [if_pos rfl, if_pos (by rfl)]
      rfl
    · rw [if_neg fun he => hk (Value.blob.inj he).symm, if_neg (by exact hk), h k]
  | dataDelete strKey =>
    have hkey : strKey.length < 2 ^ 31 := hc
    have hrun : (DataCall.dataDelete strKey).run db = (true, db.delete (·.Key = .blob strKey)) := by
      rw [DataCall.run, dataDelete, literal_escape_iff.2 hkey]
      rfl
    rw [hrun]
    refine ⟨rfl, fun k => ?_⟩
    rw [Table.find_delete, DataCall.spec, Function.update_apply]
    by_cases hk : k = strKey
    · subst hk
      rw [if_pos rfl, if_pos (by rfl)]
      rfl
    · rw [if_neg fun he => hk (Value.blob.inj he), if_neg (by exact hk), h k]

lemma dataFetch_eq {db : RPCTable} {m : Bytes → Option Bytes} (h : Represents db m) {k : Bytes}
    (hk : k.length < 2 ^ 31) (v₀ : Bytes) :
    dataFetch k v₀ db = match m k with
      | some v => (true, v)
      | none => (false, v₀) := by
  rw [dataFetch, literal_escape_iff.2 hk]
  simp only [Option.elim_some, Table.select_key, h k]
  cases m k <;> rfl

/-- What the last of the calls leaves is there, and of the other keys what the calls before left. -/
lemma lastValue_concat (calls : List DataCall) (c : DataCall) :
    (fun k => lastValue k (calls ++ [c])) = c.spec fun k => lastValue k calls := by
  funext k
  rw [DataCall.spec, Function.update_apply, lastValue, List.reverse_append, List.reverse_singleton,
    List.singleton_append]
  by_cases hk : c.key = k
  · rw [List.find?_cons_of_pos (by simpa using hk), if_pos hk.symm]
    rfl
  · rw [List.find?_cons_of_neg (by simpa using hk), if_neg fun he => hk he.symm, lastValue]

/-- The value of a key is that of a `dataStore` with no call on the key behind it. -/
lemma lastValue_eq_some {k v : Bytes} {calls : List DataCall} : lastValue k calls = some v ↔
    ∃ pre post, calls = pre ++ .dataStore k v :: post ∧ ∀ c ∈ post, c.key ≠ k := by
  rw [lastValue, Option.bind_eq_some_iff]
  constructor
  · rintro ⟨c, hfind, hvalue⟩
    obtain ⟨hkey, before, behind, hsplit, hnone⟩ := List.find?_eq_some_iff_append.1 hfind
    have hkey : c.key = k := by simpa using hkey
    have hc : c = .dataStore k v := by
      cases c with
      | dataStore strKey strValue =>
        obtain rfl : strKey = k := hkey
        obtain rfl : strValue = v := Option.some.inj hvalue
        rfl
      | dataDelete strKey => cases hvalue
    refine ⟨behind.reverse, before.reverse, ?_, fun d hd => ?_⟩
    · rw [← List.reverse_reverse calls, hsplit, hc]
      simp
    · simpa using hnone d (List.mem_reverse.1 hd)
  · rintro ⟨pre, post, rfl, hpost⟩
    refine ⟨.dataStore k v, List.find?_eq_some_iff_append.2 ⟨by simp [DataCall.key], post.reverse, pre.reverse,
      by simp, ?_⟩, rfl⟩
    intro d hd
    simpa using hpost d (List.mem_reverse.1 hd)

lemma after_concat (calls : List DataCall) (c : DataCall) (db : RPCTable) :
    after (calls ++ [c]) db = (c.run (after calls db)).2 := by
  rw [after, List.foldl_append]
  rfl

/-- **The table holds the last values**, by induction on the calls from the first on. -/
lemma represents_after {calls : List DataCall} (hc : ∀ c ∈ calls, c.Sized) :
    Represents (after calls Table.empty) fun k => lastValue k calls := by
  induction calls using List.reverseRecOn with
  | nil => exact represents_empty
  | append_singleton calls c ih =>
    rw [after_concat, lastValue_concat]
    exact (represents_run (ih fun d hd => hc d (List.mem_append_left _ hd))
      (hc c (List.mem_append_right _ (List.mem_singleton_self c)))).2

/-- **The data store is a finite map** over strings whose size is an `int`: after any calls the next
one succeeds, a key is fetched with the value of the last call on it, or not at all, and a call on one
key changes nothing that is fetched for another. -/
theorem data_store_map (calls : List DataCall) (hc : ∀ c ∈ calls, c.Sized) :
    (∀ c : DataCall, c.Sized → (c.run (after calls Table.empty)).1 = true) ∧
    (∀ k v₀ : Bytes, k.length < 2 ^ 31 →
      (∀ v, (∃ pre post, calls = pre ++ .dataStore k v :: post ∧ ∀ c ∈ post, c.key ≠ k) →
        dataFetch k v₀ (after calls Table.empty) = (true, v)) ∧
      ((¬ ∃ v pre post, calls = pre ++ .dataStore k v :: post ∧ ∀ c ∈ post, c.key ≠ k) →
        dataFetch k v₀ (after calls Table.empty) = (false, v₀))) ∧
    ∀ c : DataCall, c.Sized → ∀ k v₀ : Bytes, k.length < 2 ^ 31 → c.key ≠ k →
      dataFetch k v₀ (c.run (after calls Table.empty)).2 = dataFetch k v₀ (after calls Table.empty) := by
  have hrep := represents_after hc
  refine ⟨fun c h => (represents_run hrep h).1, fun k v₀ hk => ⟨fun v hv => ?_, fun hno => ?_⟩, ?_⟩
  · rw [dataFetch_eq hrep hk, lastValue_eq_some.2 hv]
  · have hnone : lastValue k calls = none := by
      cases h : lastValue k calls with
      | none => rfl
      | some v => exact absurd ⟨v, lastValue_eq_some.1 h⟩ hno
    rw [dataFetch_eq hrep hk, hnone]
  · intro c h k v₀ hk hne
    rw [dataFetch_eq (represents_run hrep h).2 hk, dataFetch_eq hrep hk, DataCall.spec,
      Function.update_of_ne hne.symm]

/-- A value replaced, and a key with a zero and a quote deleted. -/
theorem data_store_map_calls :
    let calls : List DataCall := [.dataStore [] [1], .dataStore [0, 39] [2], .dataStore [] [], .dataDelete [0, 39]]
    dataFetch [] [9] (after calls Table.empty) = (true, []) ∧
      dataFetch [0, 39] [9] (after calls Table.empty) = (false, [9]) := by
  intro calls
  have hsized : ∀ c ∈ calls, c.Sized := by decide
  have h := (data_store_map calls hsized).2.1
  refine ⟨(h [] [9] (by decide)).1 []
      ⟨[.dataStore [] [1], .dataStore [0, 39] [2]], [.dataDelete [0, 39]], rfl, by decide⟩,
    (h [0, 39] [9] (by decide)).2 ?_⟩
  rintro ⟨v, hlast⟩
  have hnone : lastValue [0, 39] calls = none := by decide
  rw [lastValue_eq_some.2 hlast] at hnone
  cases hnone

/-- What is stored for a key of 2^31 bytes is fetched for the empty key. -/
theorem long_key_shared :
    dataFetch [] [] (after [.dataStore (List.replicate (2 ^ 31) 0) [1]] Table.empty) = (true, [1]) := by
  have hrun (s : Bytes) (h : s.length = 2 ^ 31) :
      dataFetch [] [] (after [.dataStore s [1]] Table.empty) = (true, [1]) := by
    rw [after, List.foldl_cons, List.foldl_nil, DataCall.run, dataStore, escape_of_length h]
    decide +kernel
  exact hrun _ List.length_replicate

end Wallet

end Newcoin
