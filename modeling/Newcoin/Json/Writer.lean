import Newcoin.Escape
import Newcoin.Json.Value
import Mathlib.Data.List.DropRight

/-!
# Writing JSON

The three writers.  Values have no comments here.  A string is written with what needs no escape as it is
(`valueToQuotedString_eq`: the shortcut for strings without any escape makes no difference).
-/

namespace Newcoin.Json

variable {R : Type}

/-! ### Parts -/

def isControlCharacter (ch : UInt8) : Bool := 0 < ch && ch ≤ 0x1F

def containsControlCharacter (str : Bytes) : Bool := str.any isControlCharacter

/-- `do … while ( value != 0 )`, with room for so many characters before `current`. -/
def uintToStringFrom : ℕ → UInt32 → Bytes → Bytes
  | 0, _, current => current
  | room + 1, value, current =>
    let current' := UInt8.ofNat ((value % 10).toNat + 48) :: current
    if value / 10 ≠ 0 then uintToStringFrom room (value / 10) current' else current'

/-- `valueToString( UInt )`, in a buffer of 32 characters. -/
def valueToStringUInt (value : UInt32) : Bytes := uintToStringFrom 31 value []

/-- `valueToString( Int )`; `-value` wraps. -/
def valueToStringInt (value : Int32) : Bytes :=
  if value < 0 then 45 :: valueToStringUInt (-value).toUInt32 else valueToStringUInt value.toUInt32

/-- `valueToString( double )`, once it is printed: zeroes are truncated, if only digits are between them and the
point, but one is kept. -/
def truncateZeroes (buffer : Bytes) : Bytes :=
  if buffer.getLast? ≠ some 48 then buffer
  else
    let toLastNonzero := buffer.take 1 ++ buffer.tail.rdropWhile (· = 48)
    if (toLastNonzero.rdropWhile fun c => 48 ≤ c ∧ c ≤ 57).getLast? = some 46 then
      buffer.take (toLastNonzero.length + 1)
    else buffer

/-- `valueToString( double )`. -/
def valueToStringDouble (D : Doubles R) (value : R) : Bytes := truncateZeroes (D.sprintf value)

/-- `valueToString( bool )`. -/
def valueToStringBool (value : Bool) : Bytes := if value then cString "true" else cString "false"

/-- `switch(*c)` of `valueToQuotedString`. -/
def escapeChar (c : UInt8) : Bytes :=
  match c with
  | 0x22 => [92, 34]
  | 0x5C => [92, 92]
  | 0x08 => [92, 98]
  | 0x0C => [92, 102]
  | 0x0A => [92, 110]
  | 0x0D => [92, 114]
  | 0x09 => [92, 116]
  | _ => if isControlCharacter c then [92, 117, 48, 48] ++ hex02X c else [c]

/-- `"\"\\\b\f\n\r\t"`. -/
def escaped : Bytes := [0x22, 0x5C, 0x08, 0x0C, 0x0A, 0x0D, 0x09]

def valueToQuotedString (value : CZString) : Bytes :=
  if (value.chars.any fun c => escaped.contains c) = false ∧ containsControlCharacter value.chars = false then
    34 :: value.chars ++ [34]
  else 34 :: value.chars.flatMap escapeChar ++ [34]

lemma escapeChar_of_plain {c : UInt8} (h : escaped.contains c = false) (hcontrol : isControlCharacter c = false) :
    escapeChar c = [c] := by
  unfold escapeChar
  split <;> first | (exact absurd h (by decide)) | simp [hcontrol]

theorem valueToQuotedString_eq (value : CZString) :
    valueToQuotedString value = 34 :: value.chars.flatMap escapeChar ++ [34] := by
  unfold valueToQuotedString
  split_ifs with h
  · have hplain : value.chars.flatMap escapeChar = value.chars := by
      have hchar : ∀ c ∈ value.chars, escapeChar c = [c] := fun c hc =>
        escapeChar_of_plain (by simpa using List.any_eq_false.1 h.1 c hc) (by simpa using List.any_eq_false.1 h.2 c hc)
      rw [List.flatMap_congr hchar, List.flatMap_singleton']
    rw [hplain]
  · rfl

/-! ### `FastWriter` -/

namespace FastWriter

variable (D : Doubles R) (yamlCompatiblityEnabled : Bool)

mutual
/-- `writeValue`: what is appended to the document. -/
def writeValue : Value R → Bytes
  | .null => cString "null"
  | .int int => valueToStringInt int
  | .uint uint => valueToStringUInt uint
  | .real real => valueToStringDouble D real
  | .string string => valueToQuotedString string
  | .boolean bool => valueToStringBool bool
  | .array values => 91 :: writeValues true values ++ [93]
  | .object members => 123 :: writeMembers true members ++ [125]
def writeValues (first : Bool) : List (Value R) → Bytes
  | [] => []
  | v :: values => (if first then [] else [44]) ++ writeValue v ++ writeValues false values
def writeMembers (first : Bool) : Members R → Bytes
  | [] => []
  | (name, v) :: members =>
    (if first then [] else [44]) ++ valueToQuotedString name ++ (if yamlCompatiblityEnabled then [58, 32] else [58]) ++
      writeValue v ++ writeMembers false members
end

def write (root : Value R) : Bytes := writeValue D yamlCompatiblityEnabled root ++ [10]

end FastWriter

/-! ### `StyledWriter` and `StyledStreamWriter` -/

/-- What tells the two writers apart. -/
structure Style where
  /-- `indentation_`, or as many spaces as `indentSize_`. -/
  indentation : Bytes
  /-- `StyledStreamWriter`, whose `writeIndent` always begins a line. -/
  stream : Bool

/-- `StyledWriter`. -/
def Style.styled : Style := ⟨[32, 32, 32], false⟩

/-- `StyledStreamWriter` with its default. -/
def Style.streamed : Style := ⟨[9], true⟩

def rightMargin : ℕ := 74

/-- The members of a writer. -/
structure StyledWriter where
  document : Bytes
  childValues : List Bytes
  indentString : Bytes
  addChildValues : Bool
  deriving DecidableEq

namespace Value

/-- `size`. -/
def size : Value R → ℕ
  | .array values => values.length
  | .object members => members.length
  | _ => 0

/-- `isArray`, which `null` is too. -/
def isArray : Value R → Bool
  | .null | .array _ => true
  | _ => false

/-- `isObject`, which `null` is too. -/
def isObject : Value R → Bool
  | .null | .object _ => true
  | _ => false

end Value

namespace StyledWriter

variable (D : Doubles R) (style : Style)

/-- `document_ += text`. -/
def append (text : Bytes) (w : StyledWriter) : StyledWriter := { w with document := w.document ++ text }

def pushValue (value : Bytes) (w : StyledWriter) : StyledWriter :=
  if w.addChildValues then { w with childValues := w.childValues ++ [value] } else w.append value

def writeIndent (w : StyledWriter) : StyledWriter :=
  if style.stream then w.append (10 :: w.indentString)
  else
    match w.document.getLast? with
    | none => w.append w.indentString
    | some last =>
      if last = 32 then w
      else if last ≠ 10 then w.append (10 :: w.indentString)
      else w.append w.indentString

def writeWithIndent (value : Bytes) (w : StyledWriter) : StyledWriter := (w.writeIndent style).append value

def indent (w : StyledWriter) : StyledWriter := { w with indentString := w.indentString ++ style.indentation }

def unindent (w : StyledWriter) : StyledWriter :=
  { w with indentString := w.indentString.take (w.indentString.length - style.indentation.length) }

/-- `[ `, the values that were collected, ` ]`. -/
def writeOneLine (w : StyledWriter) : StyledWriter :=
  w.append (cString "[ " ++ (cString ", ").intercalate w.childValues ++ cString " ]")

/-- The values that were collected, a line for each. -/
def writeLines (w : StyledWriter) : List Bytes → StyledWriter
  | [] => w
  | value :: values =>
    let w := w.writeWithIndent style value
    if values.isEmpty then w else writeLines (w.append [44]) values

mutual
/-- `writeValue`, with `writeArrayValue` and `isMultineArray`. -/
def writeValue : Value R → StyledWriter → StyledWriter
  | .null, w => w.pushValue (cString "null")
  | .int int, w => w.pushValue (valueToStringInt int)
  | .uint uint, w => w.pushValue (valueToStringUInt uint)
  | .real real, w => w.pushValue (valueToStringDouble D real)
  | .string string, w => w.pushValue (valueToQuotedString string)
  | .boolean bool, w => w.pushValue (valueToStringBool bool)
  | .array values, w =>
    if values.isEmpty then w.pushValue (cString "[]")
    else
      let w := { w with childValues := [] }
      let isMultiLine := values.length * 3 ≥ rightMargin ∨
        values.any fun v => (v.isArray || v.isObject) && 0 < v.size
      let collected :=
        if isMultiLine then (0, w)
        else collectValues 0 (4 + (values.length - 1) * 2) values { w with addChildValues := true }
      let w := if isMultiLine then w else { collected.2 with addChildValues := false }
      if isMultiLine ∨ collected.1 ≥ rightMargin then
        let w := (w.writeWithIndent style [91]).indent style
        let w := if w.childValues.isEmpty then writeValues values w else w.writeLines style w.childValues
        (w.unindent style).writeWithIndent style [93]
      else w.writeOneLine
  | .object members, w =>
    if members.isEmpty then w.pushValue (cString "{}")
    else
      let w := (w.writeWithIndent style [123]).indent style
      let w := writeMembers members w
      (w.unindent style).writeWithIndent style [125]
/-- The loop of `isMultineArray` that collects values: `lineLength`, and the writer after it. -/
def collectValues (index lineLength : ℕ) : List (Value R) → StyledWriter → ℕ × StyledWriter
  | [], w => (lineLength, w)
  | v :: values, w =>
    let w := writeValue v w
    collectValues (index + 1) (lineLength + (w.childValues.getD index []).length) values w
/-- The loop of `writeArrayValue` over values that were not collected. -/
def writeValues : List (Value R) → StyledWriter → StyledWriter
  | [], w => w
  | v :: values, w =>
    let w := writeValue v (w.writeIndent style)
    if values.isEmpty then w else writeValues values (w.append [44])
/-- The loop of `writeValue` over the members of an object. -/
def writeMembers : Members R → StyledWriter → StyledWriter
  | [], w => w
  | (name, v) :: members, w =>
    let w := writeValue v ((w.writeWithIndent style (valueToQuotedString name)).append (cString " : "))
    if members.isEmpty then w else writeMembers members (w.append [44])
end

/-- `write`: the document. -/
def write (root : Value R) : Bytes :=
  (writeValue D style root ⟨[], [], [], false⟩).document ++ [10]

end StyledWriter

end Newcoin.Json
