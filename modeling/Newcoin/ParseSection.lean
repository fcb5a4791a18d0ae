import Newcoin.Strings

/-!
# Section files

`ParseSection` and the accessors of its result, a map from section names to their lines.  `sectionCount` is
written the wrong way round (`not_accessorsAgree`); the other two say what there is (`sectionSingleOut_eq`).
-/

namespace Newcoin

/-- `std::map<const std::string, std::vector<std::string>>`. -/
abbrev Section := Bytes → Option (List Bytes)

/-- `boost::algorithm::replace_all(strData, "\r\n", "\n")`. -/
def replaceCrLf : Bytes → Bytes
  | 13 :: 10 :: cs => 10 :: replaceCrLf cs
  | c :: cs => c :: replaceCrLf cs
  | [] => []

/-- `boost::algorithm::replace_all(strData, "\r", "\n")`. -/
def replaceCr (strData : Bytes) : Bytes := strData.map fun c => if c = 13 then 10 else c

/-- `boost::algorithm::split` at every line feed. -/
def splitLines (strData : Bytes) : List Bytes := strData.splitOn 10

/-- One line: the name of the current section, and the map. -/
def parseLine (bTrim : Bool) (st : Bytes × Section) (strValue : Bytes) : Bytes × Section :=
  if strValue = [] ∨ strValue.head? = some 35 then st
  else if strValue.head? = some 91 ∧ strValue.getLast? = some 93 then
    let strSection := (strValue.drop 1).take (strValue.length - 2)
    (strSection, Function.update st.2 strSection (some []))
  else
    let strValue := if bTrim then trim strValue else strValue
    if strValue = [] then st
    else (st.1, Function.update st.2 st.1 (some ((st.2 st.1).getD [] ++ [strValue])))

def ParseSection (strInput : Bytes) (bTrim : Bool) : Section :=
  let strData := replaceCr (replaceCrLf strInput)
  let vLines := splitLines strData
  let secResult : Section := fun strSection => if strSection = [] then some [] else none
  (vLines.foldl (parseLine bTrim) ([], secResult)).2

/-- `sectionEntries`: `none` is the null pointer. -/
def sectionEntries (secSource : Section) (strSection : Bytes) : Option (List Bytes) := secSource strSection

/-- `sectionSingleB`: the value, if there is exactly one. -/
def sectionSingleB (secSource : Section) (strSection : Bytes) : Option Bytes :=
  match sectionEntries secSource strSection with
  | some [strValue] => some strValue
  | _ => none

/-- `sectionSingleB` with the value it writes to: what it returns, and the value after it. -/
def sectionSingleOut (secSource : Section) (strSection strValue : Bytes) : Bool × Bytes :=
  match sectionSingleB secSource strSection with
  | some single => (true, single)
  | none => (false, strValue)

/-- `pmtEntries ? -1 : pmtEntries->size()`. -/
def sectionCount (secSource : Section) (strSection : Bytes) : Except Fault ℤ :=
  let pmtEntries := sectionEntries secSource strSection
  if pmtEntries.isSome then .ok (-1)
  else
    match pmtEntries with
    | some entries => .ok (toInt entries.length)
    | none => .error .outOfBounds

/-! ### The accessors -/

/-- A single entry is found, and nothing else. -/
lemma sectionSingleOut_eq (secSource : Section) (strSection strValue : Bytes) :
    ((sectionSingleOut secSource strSection strValue).1 = true ↔ ∃ single, secSource strSection = some [single]) ∧
    ((sectionSingleOut secSource strSection strValue).1 = true →
      secSource strSection = some [(sectionSingleOut secSource strSection strValue).2]) ∧
    ((sectionSingleOut secSource strSection strValue).1 = false →
      (sectionSingleOut secSource strSection strValue).2 = strValue) := by
  unfold sectionSingleOut sectionSingleB sectionEntries
  rcases secSource strSection with _ | _ | ⟨single, _ | ⟨other, entries⟩⟩ <;> simp

/-- What the accessors are to say of a section. -/
structure AccessorsAgree (secSource : Section) (strSection : Bytes) : Prop where
  entries : sectionEntries secSource strSection = none ↔ secSource strSection = none
  count : sectionCount secSource strSection = .ok ((secSource strSection).elim (-1) fun entries => entries.length)
  single : ∀ strValue,
    (sectionSingleOut secSource strSection strValue).1 = true ↔ sectionCount secSource strSection = .ok 1
  value : ∀ strValue, (sectionSingleOut secSource strSection strValue).1 = true →
    secSource strSection = some [(sectionSingleOut secSource strSection strValue).2]
  unchanged : ∀ strValue, (sectionSingleOut secSource strSection strValue).1 = false →
    (sectionSingleOut secSource strSection strValue).2 = strValue

/-- A section that is there counts as absent; of one that is not, the size is read through the null pointer. -/
lemma sectionCount_eq (secSource : Section) (strSection : Bytes) : sectionCount secSource strSection =
    if (secSource strSection).isSome then .ok (-1) else .error .outOfBounds := by
  unfold sectionCount sectionEntries
  cases secSource strSection <;> rfl

/-- **`sectionCount` is never right**, whatever the text. -/
theorem not_accessorsAgree (strInput : Bytes) (bTrim : Bool) (strSection : Bytes) :
    ¬ AccessorsAgree (ParseSection strInput bTrim) strSection := by
  intro h
  have hcount := h.count
  rw [sectionCount_eq] at hcount
  cases hsec : ParseSection strInput bTrim strSection with
  | none =>
    rw [hsec] at hcount
    cases hcount
  | some entries =>
    rw [hsec, if_pos Option.isSome_some, Except.ok.injEq, Option.elim_some] at hcount
    omega

/-- One entry in the section of no name, and no other section. -/
theorem sectionCount_one_entry :
    ParseSection (cString "entry") true [] = some [cString "entry"] ∧
    sectionCount (ParseSection (cString "entry") true) [] = .ok (-1) ∧
    ParseSection (cString "entry") true (cString "other") = none ∧
    sectionCount (ParseSection (cString "entry") true) (cString "other") = .error .outOfBounds := by
  decide +kernel

end Newcoin
