import Newcoin.AddressText
import Newcoin.UniqueNodeList.Tables

/-!
# `[validators]` sections

`processValidators` replaces the rows of `ValidatorReferrals` for one validator.  The calls it makes to
add the validators it reads of are part of its result; what they do to other tables is not modelled
here.

* `processEntries_eq`: which rows the loop over the entries collects.
* `selectReferrals_iff`: when scoring reads the rows that were stored.
-/

namespace Newcoin.UniqueNodeList

open Lib.Sql NewcoinAddress

/-! ### The model -/

def REFERRAL_VALIDATORS_MAX : ℕ := 50

/-- The two captures of a match of `\s*(\S+)(?:\s+(.+))?\s*` with the whole string.  The second one has
all that follows the white space; where nothing does, the first `\s+` gives back its last character. -/
def reReferral (str : Bytes) : Option (Bytes × Bytes) :=
  let str := str.dropWhile isSpace
  let word := str.takeWhile (!isSpace ·)
  let spaced := str.dropWhile (!isSpace ·)
  let rest := spaced.dropWhile isSpace
  if word = [] then none
  else some (word, if rest = [] then (spaced.drop 1).getLast?.toList else rest)

/-- A call that adds a validator. -/
inductive NodeAdd
  | nodeAddPublic (naNodePublic : NewcoinAddress) (vsWhy : ValidatorSource) (strComment : Bytes)
  | nodeAddDomain (strDomain : Bytes) (vsWhy : ValidatorSource) (strComment : Bytes)
  deriving DecidableEq, Repr

/-- What the loop over the entries has done: entries counted, calls made, rows collected. -/
structure Collected where
  iValues : ℕ
  adds : List NodeAdd
  /-- The literals of a row. -/
  vstrValues : List (Bytes × ℕ × Bytes)

section

variable (env : Crypto) (m₁ m₂ : Rfc1751.Stale) (strNodePublic : Bytes) (naNodePublic : NewcoinAddress)
  (vsWhy : ValidatorSource)

/-- One entry. -/
def processEntry (st : Collected) (strReferral : Bytes) : Except Fault Collected :=
  match reReferral strReferral with
  | none => .ok st
  | some (strRefered, strComment) =>
    if (setSeedGeneric env m₁ m₂ clear strRefered).1 then .ok st
    else if (setNodePublic env strRefered).1 then do
      let naValidator := (setNodePublic env strRefered).2
      let values ← if naNodePublic.isValid env then do
          let strPublic ← naValidator.humanNodePublic env
          pure [(quoted strNodePublic, st.iValues, quoted strPublic)]
        else pure []
      return ⟨st.iValues + 1, st.adds ++ [.nodeAddPublic naValidator vsWhy strComment],
        st.vstrValues ++ values⟩
    else
      let values := if naNodePublic.isValid env then
        [(quoted strNodePublic, st.iValues, sqlEscape strRefered)] else []
      .ok ⟨st.iValues + 1, st.adds ++ [.nodeAddDomain strRefered vsWhy strComment], st.vstrValues ++ values⟩

/-- The loop over the entries. -/
def processEntries : Collected → List Bytes → Except Fault Collected
  | st, [] => .ok st
  | st, strReferral :: rest =>
    if st.iValues = REFERRAL_VALIDATORS_MAX then .ok st
    else do
      let st ← processEntry env m₁ m₂ strNodePublic naNodePublic vsWhy st strReferral
      processEntries st rest

/-- The row of three literals. -/
def referralRow (v : Bytes × ℕ × Bytes) : Option ValidatorReferral :=
  match literal v.1, literal v.2.2 with
  | some Validator, some Referral => some ⟨Validator, v.2.1, Referral⟩
  | _, _ => none

/-- `INSERT INTO ValidatorReferrals (Validator,Entry,Referral) VALUES …`. -/
def insertReferrals (vstrValues : List (Bytes × ℕ × Bytes)) (db : ValidatorReferrals) : ValidatorReferrals :=
  match vstrValues.mapM referralRow with
  | some rows => db.insert rows
  | none => db

/-- `DELETE FROM ValidatorReferrals WHERE Validator='%s'`. -/
def deleteReferrals (db : ValidatorReferrals) : ValidatorReferrals :=
  db.delete fun r => literal (quoted strNodePublic) = some r.Validator

/-- `processValidators`: the table, the calls that add validators, and the result. -/
def processValidators (strValidatorsSrc : Bytes) (pmtVecStrValidators : Option (List Bytes))
    (db : ValidatorReferrals) : Except Fault (ValidatorReferrals × List NodeAdd × ℕ) := do
  let strNodePublic ← if naNodePublic.isValid env then naNodePublic.humanNodePublic env else
    pure strValidatorsSrc
  let db := deleteReferrals strNodePublic db
  let st ← processEntries env m₁ m₂ strNodePublic naNodePublic vsWhy ⟨0, [], []⟩
    (pmtVecStrValidators.getD [])
  return (if st.vstrValues = [] then db else insertReferrals st.vstrValues db, st.adds, st.iValues)

/-! ### The loop -/

/-- The entry's first word is neither refused by the pattern nor taken for a seed. -/
def accepts (strReferral : Bytes) : Bool :=
  (reReferral strReferral).any fun m => !(setSeedGeneric env m₁ m₂ clear m.1).1

variable {env m₁ m₂ strNodePublic naNodePublic vsWhy}

lemma processEntry_refused {strReferral : Bytes} (h : accepts env m₁ m₂ strReferral = false) (st : Collected) :
    processEntry env m₁ m₂ strNodePublic naNodePublic vsWhy st strReferral = .ok st := by
  unfold processEntry
  unfold accepts at h
  split
  · rfl
  next strRefered strComment hm =>
    rw [hm] at h
    exact if_pos (by simpa using h)

/-- An entry that is accepted gives a row its number. -/
lemma processEntry_accepted {strReferral : Bytes} (hvalid : naNodePublic.isValid env = true)
    (h : accepts env m₁ m₂ strReferral = true) (st : Collected) :
    ∃ add lit Referral, literal lit = some Referral ∧
      processEntry env m₁ m₂ strNodePublic naNodePublic vsWhy st strReferral =
        .ok ⟨st.iValues + 1, st.adds ++ [add], st.vstrValues ++ [(quoted strNodePublic, st.iValues, lit)]⟩ := by
  unfold processEntry
  unfold accepts at h
  split
  next hm =>
    rw [hm] at h
    cases h
  next strRefered strComment hm =>
    rw [hm] at h
    rw [if_neg (by simpa using h)]
    split
    next hpublic =>
      have hv : (setNodePublic env strRefered).2.nVersion = VER_NODE_PUBLIC := SetString_eq env hpublic
      refine ⟨.nodeAddPublic (setNodePublic env strRefered).2 vsWhy strComment,
        quoted ((setNodePublic env strRefered).2.ToString env), _,
        literal_quoted (quote_notMem_ToString env _), ?_⟩
      dsimp only
      rw [humanNodePublic_eq env hv]
      rfl
    · refine ⟨.nodeAddDomain strRefered vsWhy strComment, _, _, literal_sqlEscape strRefered, ?_⟩
      rfl

/-- **The loop**: the rows it collects have the validator's text and consecutive numbers; there are none
exactly if no entry is accepted, or the limit was reached before. -/
theorem processEntries_eq (hvalid : naNodePublic.isValid env = true) (hquote : 39 ∉ strNodePublic)
    (entries : List Bytes) (st : Collected) :
    ∃ st' values rows, processEntries env m₁ m₂ strNodePublic naNodePublic vsWhy st entries = .ok st' ∧
      st'.vstrValues = st.vstrValues ++ values ∧ values.mapM referralRow = some rows ∧
      (∀ r ∈ rows, r.Validator = .text strNodePublic) ∧
      rows.map ValidatorReferral.Entry = (List.range' st.iValues rows.length).map Nat.cast ∧
      (rows = [] ↔ st.iValues = REFERRAL_VALIDATORS_MAX ∨ ∀ e ∈ entries, accepts env m₁ m₂ e = false) := by
  induction entries generalizing st with
  | nil => exact ⟨st, [], [], rfl, (List.append_nil _).symm, rfl, by simp, rfl, by simp⟩
  | cons strReferral entries ih =>
    rw [processEntries]
    split
    next hmax => exact ⟨st, [], [], rfl, (List.append_nil _).symm, rfl, by simp, rfl, by simp [hmax]⟩
    next hmax =>
      cases hacc : accepts env m₁ m₂ strReferral with
      | false =>
        obtain ⟨st', values, rows, hrun, hvalues, hrows, hall, hnum, hempty⟩ := ih st
        refine ⟨st', values, rows, ?_, hvalues, hrows, hall, hnum, ?_⟩
        · rw [processEntry_refused hacc]
          exact hrun
        · rw [hempty]
          simp [hacc]
      | true =>
        obtain ⟨add, lit, Referral, hlit, hentry⟩ :=
          @processEntry_accepted env m₁ m₂ strNodePublic naNodePublic vsWhy strReferral hvalid hacc st
        obtain ⟨st', values, rows, hrun, hvalues, hrows, hall, hnum, -⟩ := ih _
        refine ⟨st', (quoted strNodePublic, st.iValues, lit) :: values,
          ⟨.text strNodePublic, st.iValues, Referral⟩ :: rows, ?_, ?_, ?_, ?_, ?_, ?_⟩
        · rw [hentry]
          exact hrun
        · rw [hvalues, List.append_assoc]
          rfl
        · have hrow : referralRow (quoted strNodePublic, st.iValues, lit) =
              some ⟨.text strNodePublic, st.iValues, Referral⟩ := by
            simp only [referralRow, literal_quoted hquote, hlit]
          rw [List.mapM_cons, hrow, hrows]
          rfl
        · simpa using hall
        · rw [List.map_cons, hnum, List.length_cons, List.range'_succ, List.map_cons]
        · simp [hmax, hacc]

/-! ### What scoring reads -/

lemma rows_deleteReferrals (hquote : 39 ∉ strNodePublic) (db : ValidatorReferrals) :
    (deleteReferrals strNodePublic db).rows = db.rows.filter fun r => r.Validator ≠ .text strNodePublic := by
  rw [deleteReferrals, Table.delete, literal_quoted hquote]
  refine List.filter_congr fun r _ => ?_
  simp only [Option.some_inj, decide_not, eq_comm]

/-- What is left of a table, and the new rows, have different keys. -/
lemma nodup_stored {db : ValidatorReferrals} {rows : List ValidatorReferral} {n : ℕ}
    (hquote : 39 ∉ strNodePublic) (hall : ∀ r ∈ rows, r.Validator = .text strNodePublic)
    (hnum : rows.map ValidatorReferral.Entry = (List.range' n rows.length).map Nat.cast) :
    (((deleteReferrals strNodePublic db).rows ++ rows).map fun r => (r.Validator, r.Entry)).Nodup := by
  refine Table.nodup_append_group (deleteReferrals strNodePublic db).nodup ?_ hall ?_
  · intro r hr
    rw [rows_deleteReferrals hquote] at hr
    simpa using (List.mem_filter.1 hr).2
  · rw [hnum]
    exact (List.nodup_range' 1).map Nat.cast_injective

/-- The insertion, left out when there is nothing to insert. -/
lemma insertReferrals_eq {db : ValidatorReferrals} {values : List (Bytes × ℕ × Bytes)}
    {rows : List ValidatorReferral} (hrows : values.mapM referralRow = some rows)
    (hnodup : ((db.rows ++ rows).map fun r => (r.Validator, r.Entry)).Nodup) :
    (if values = [] then db else insertReferrals values db) = db.insert rows := by
  split
  next hnil =>
    subst hnil
    rw [List.mapM_nil] at hrows
    cases hrows
    exact Table.ext (by rw [Table.rows_insert hnodup, List.append_nil])
  · simp only [insertReferrals, hrows]

/-- The rows of a validator's text are no blob's rows. -/
lemma selectReferrals_stored {db : ValidatorReferrals} {rows : List ValidatorReferral}
    (hnodup : ((db.rows ++ rows).map fun r => (r.Validator, r.Entry)).Nodup)
    (hall : ∀ r ∈ rows, r.Validator = .text strNodePublic) :
    selectReferrals (db.insert rows) strNodePublic = selectReferrals db strNodePublic := by
  rw [selectReferrals_eq, selectReferrals_eq, Table.select_insert hnodup, List.filter_eq_nil_iff.2,
    List.append_nil]
  intro r hr
  simp [hall r hr]

lemma selectReferrals_delete (hquote : 39 ∉ strNodePublic) (db : ValidatorReferrals) :
    selectReferrals (deleteReferrals strNodePublic db) strNodePublic = selectReferrals db strNodePublic := by
  rw [selectReferrals_eq, selectReferrals_eq, deleteReferrals, Table.select_delete_of_disjoint]
  intro r hr
  rw [literal_quoted hquote]
  simp only [decide_eq_true_eq] at hr
  simp [hr]

lemma selectReferrals_eq_nil {db : ValidatorReferrals} :
    selectReferrals db strNodePublic = [] ↔ ∀ r ∈ db.rows, r.Validator ≠ .blob strNodePublic := by
  rw [selectReferrals_eq, ← List.length_eq_zero_iff, (perm_orderBy _ _).length_eq, List.length_eq_zero_iff,
    Table.select, List.filter_eq_nil_iff]
  simp

/-- What the call does for a validator with a valid key. -/
theorem processValidators_eq (hversion : naNodePublic.nVersion = VER_NODE_PUBLIC)
    (hvalid : naNodePublic.isValid env = true) (strValidatorsSrc : Bytes) (entries : Option (List Bytes))
    (db : ValidatorReferrals) :
    ∃ adds iValues rows,
      processValidators env m₁ m₂ naNodePublic vsWhy strValidatorsSrc entries db =
        .ok ((deleteReferrals (naNodePublic.ToString env) db).insert rows, adds, iValues) ∧
      (∀ r ∈ rows, r.Validator = .text (naNodePublic.ToString env)) ∧
      (((deleteReferrals (naNodePublic.ToString env) db).rows ++ rows).map
        fun r => (r.Validator, r.Entry)).Nodup ∧
      (rows = [] ↔ ∀ e ∈ entries.getD [], accepts env m₁ m₂ e = false) := by
  have hquote := quote_notMem_ToString env naNodePublic
  obtain ⟨st, values, rows, hrun, hvalues, hrows, hall, hnum, hempty⟩ :=
    @processEntries_eq env m₁ m₂ _ naNodePublic vsWhy hvalid hquote (entries.getD []) ⟨0, [], []⟩
  have hnodup := @nodup_stored _ db _ _ hquote hall hnum
  refine ⟨st.adds, st.iValues, rows, ?_, hall, hnodup, ?_⟩
  · rw [processValidators, if_pos hvalid, humanNodePublic_eq env hversion]
    simp only [bind, Except.bind, hrun, pure, Except.pure]
    rw [hvalues, List.nil_append, insertReferrals_eq hrows hnodup]
  · rw [hempty]
    simp [REFERRAL_VALIDATORS_MAX]

/-- **What is stored is not what is read**: `processValidators` replaces the rows under the validator's
text, and scoring asks for the rows under its blob.  The query gives the stored rows exactly if there is
nothing to store and nothing to find. -/
theorem selectReferrals_iff (hversion : naNodePublic.nVersion = VER_NODE_PUBLIC)
    (hvalid : naNodePublic.isValid env = true) (strValidatorsSrc : Bytes) (entries : Option (List Bytes))
    (db : ValidatorReferrals) :
    ∃ db' adds iValues stored,
      processValidators env m₁ m₂ naNodePublic vsWhy strValidatorsSrc entries db = .ok (db', adds, iValues) ∧
      db'.rows = db.rows.filter (fun r => r.Validator ≠ .text (naNodePublic.ToString env)) ++ stored ∧
      (selectReferrals db' (naNodePublic.ToString env) = stored ↔
        (∀ e ∈ entries.getD [], accepts env m₁ m₂ e = false) ∧
          ∀ r ∈ db.rows, r.Validator ≠ .blob (naNodePublic.ToString env)) := by
  have hquote := quote_notMem_ToString env naNodePublic
  obtain ⟨adds, iValues, rows, hrun, hall, hnodup, hempty⟩ :=
    @processValidators_eq env m₁ m₂ naNodePublic vsWhy hversion hvalid strValidatorsSrc entries db
  refine ⟨_, adds, iValues, rows, hrun, ?_, ?_⟩
  · rw [Table.rows_insert hnodup, rows_deleteReferrals hquote]
  · rw [selectReferrals_stored hnodup hall, selectReferrals_delete hquote, ← selectReferrals_eq_nil, ← hempty]
    constructor
    · intro h
      have hnil : rows = [] := by
        by_contra hne
        obtain ⟨r, hr⟩ := List.exists_mem_of_ne_nil rows hne
        have hblob : r.Validator = .blob (naNodePublic.ToString env) := by
          rw [← h, selectReferrals_eq] at hr
          simpa using List.of_mem_filter ((perm_orderBy _ _).mem_iff.1 hr)
        rw [hall r hr] at hblob
        cases hblob
      exact ⟨hnil, h.trans hnil⟩
    · rintro ⟨hnil, h⟩
      rw [hnil]
      exact h

end

/-! ### Two validators -/

def referrer : NewcoinAddress where
  nVersion := VER_NODE_PUBLIC
  vchData := [3, 212, 156, 86, 225, 177, 133, 241, 190, 137, 154, 230, 106, 2, 239, 193, 127, 120, 234, 111, 197,
    58, 248, 94, 15, 229, 76, 110, 139, 127, 140, 113, 168]

def referred : NewcoinAddress where
  nVersion := VER_NODE_PUBLIC
  vchData := [2, 121, 190, 102, 126, 249, 220, 187, 172, 85, 160, 98, 149, 206, 135, 11, 7, 2, 155, 252, 219, 45,
    206, 40, 217, 89, 242, 129, 91, 22, 248, 23, 152]

/-- The hashes of the two keys. -/
def twoKeys : Crypto where
  SHA256Hash vch := BaseUInt.ofBytes 256 <|
    if vch = VER_NODE_PUBLIC :: referrer.vchData then
      [244, 203, 224, 158, 172, 51, 127, 33, 255, 107, 98, 148, 148, 151, 51, 57, 90, 231, 174, 42, 165, 57, 76,
        100, 86, 81, 217, 199, 176, 246, 219, 8]
    else if vch = VER_NODE_PUBLIC :: referred.vchData then
      [73, 13, 197, 158, 29, 214, 251, 113, 236, 54, 148, 219, 42, 132, 116, 166, 202, 19, 242, 214, 141, 177, 71,
        161, 232, 79, 63, 89, 218, 231, 180, 91]
    else []
  PassPhraseToKey _ := BaseUInt.zero 128
  SetPubKey vch := vch = referrer.vchData || vch = referred.vchData
  SetPrivateKeyU _ := true

lemma takesPoints_twoKeys : TakesPoints twoKeys := by
  intro vch hvch
  have hkeys : vch = referrer.vchData ∨ vch = referred.vchData := by simpa [twoKeys] using hvch
  rcases hkeys with rfl | rfl <;> decide

/-- The text of `referrer`. -/
def referrerText : Bytes := cString "n94a1u4jAz288pZLtw6yFWVbr89YamrC6JBXPVUj5zmExe5fTVg9"

/-- The text of `referred`. -/
def referredText : Bytes := cString "n9K7feq7Vdgt5GQoz1WW5aCF3nc4hgCUZ6sJqssp9CKy6BrKYNFD"

/-- An entry of a `[validators]` section, with a comment. -/
def referral : Bytes := referredText ++ cString " second"

lemma setNodePublic_referrerText : setNodePublic twoKeys referrerText = (true, referrer) := by decide +kernel

lemma setNodePublic_referredText : setNodePublic twoKeys referredText = (true, referred) := by decide +kernel

lemma processEntry_referral :
    processEntry twoKeys (fun _ _ _ => 0) (fun _ _ _ => 0) referrerText referrer .vsReferral ⟨0, [], []⟩ referral =
      .ok ⟨1, [.nodeAddPublic referred .vsReferral (cString "second")],
        [(quoted referrerText, 0, quoted referredText)]⟩ := by
  have hmatch : reReferral referral = some (referredText, cString "second") := by decide
  have hseed : (setSeedGeneric twoKeys (fun _ _ _ => 0) (fun _ _ _ => 0) clear referredText).1 = false := by
    decide +kernel
  have hvalid : referrer.isValid twoKeys = true := by decide
  have hhuman : referred.humanNodePublic twoKeys = .ok referredText := by
    rw [humanNodePublic_eq _ rfl, ToString_of_text _ (by decide) setNodePublic_referredText]
  simp only [processEntry, hmatch, hseed, setNodePublic_referredText, hvalid, hhuman, Bool.false_eq_true, if_false,
    if_true]
  rfl

/-- One entry, stored in an empty table: the query finds nothing. -/
theorem selectReferrals_unread : ∃ db' adds,
    processValidators twoKeys (fun _ _ _ => 0) (fun _ _ _ => 0) referrer .vsReferral (cString "newcoin.txt")
      (some [referral]) Table.empty = .ok (db', adds, 1) ∧
    db'.rows = [⟨.text referrerText, 0, .text referredText⟩] ∧ selectReferrals db' referrerText = [] := by
  have hvalid : referrer.isValid twoKeys = true := by decide
  have hrows : [(quoted referrerText, 0, quoted referredText)].mapM referralRow =
      some [⟨.text referrerText, 0, .text referredText⟩] := by decide
  have hnodup (r : ValidatorReferral) :
      (([] ++ [r]).map fun r : ValidatorReferral => (r.Validator, r.Entry)).Nodup := List.nodup_singleton _
  refine ⟨Table.empty.insert [⟨.text referrerText, 0, .text referredText⟩],
    [.nodeAddPublic referred .vsReferral (cString "second")], ?_, ?_, ?_⟩
  · rw [processValidators, if_pos hvalid, humanNodePublic_eq _ rfl,
      ToString_of_text _ (by decide) setNodePublic_referrerText]
    simp only [bind, Except.bind, Option.getD_some, processEntries, processEntry_referral]
    have hdelete : deleteReferrals referrerText Table.empty = Table.empty := rfl
    rw [if_neg (by decide), hdelete]
    simp only [pure, Except.pure, insertReferrals, hrows, reduceCtorEq, if_false]
  · exact Table.rows_insert (hnodup _)
  · rw [selectReferrals_stored (hnodup _) (by simp), selectReferrals_eq_nil]
    intro r hr
    cases hr

/-- The same call. -/
theorem selectReferrals_iff_referral : ∃ db' adds iValues stored,
    processValidators twoKeys (fun _ _ _ => 0) (fun _ _ _ => 0) referrer .vsReferral (cString "newcoin.txt")
      (some [referral]) Table.empty = .ok (db', adds, iValues) ∧
    db'.rows = [] ++ stored ∧
    (selectReferrals db' (referrer.ToString twoKeys) = stored ↔
      (∀ e ∈ [referral], accepts twoKeys (fun _ _ _ => 0) (fun _ _ _ => 0) e = false) ∧
        ∀ r ∈ ([] : List ValidatorReferral), r.Validator ≠ .blob (referrer.ToString twoKeys)) :=
  selectReferrals_iff rfl (by decide) (cString "newcoin.txt") (some [referral]) Table.empty

end Newcoin.UniqueNodeList
