import Newcoin.ConnectionPool.PeerIps
import Newcoin.Json.Writer

/-!
# Reading JSON

`Reader::parse` of a string, with comments that are skipped rather than collected.  A location is given by the bytes
from there to the end of the document.  Calls are given `fuel`; `parse` has enough (`Reader.exists_parse`).
-/

namespace Newcoin.Json

variable {R : Type}

/-- `Features`. -/
structure Features where
  allowComments : Bool
  strictRoot : Bool

def Features.all : Features := ⟨true, false⟩

def Features.strictMode : Features := ⟨false, true⟩

namespace Reader

/-! ### Tokens -/

inductive TokenType
  | endOfStream
  | objectBegin
  | objectEnd
  | arrayBegin
  | arrayEnd
  | string
  | number
  | true
  | false
  | null
  | arraySeparator
  | memberSeparator
  | comment
  | error
  deriving DecidableEq

/-- What begins at `start_`, and how many bytes of it are before `end_`. -/
structure Token where
  type : TokenType
  start : Bytes
  length : ℕ
  deriving DecidableEq

/-- `std::string( token.start_, token.end_ )`. -/
def Token.text (token : Token) : Bytes := token.start.take token.length

/-- The characters that `skipSpaces` skips. -/
def isBlank (c : UInt8) : Bool := c = 32 ∨ c = 9 ∨ c = 13 ∨ c = 10

def skipSpaces (current : Bytes) : Bytes := current.dropWhile isBlank

/-- `match`: whether the pattern is there, and the location after it. -/
def matchPattern (pattern current : Bytes) : Bool × Bytes :=
  if pattern.isPrefixOf current then (true, current.drop pattern.length) else (false, current)

/-- `readCStyleComment`; at the end `getNextChar` gives zero. -/
def readCStyleComment : Bytes → Bool × Bytes
  | [] => (false, [])
  | c :: current => if c = 42 ∧ current.head? = some 47 then (true, current.tail) else readCStyleComment current

def readCppStyleComment : Bytes → Bool × Bytes
  | [] => (true, [])
  | c :: current => if c = 13 ∨ c = 10 then (true, current) else readCppStyleComment current

def readComment : Bytes → Bool × Bytes
  | [] => (false, [])
  | c :: current =>
    if c = 42 then readCStyleComment current
    else if c = 47 then readCppStyleComment current
    else (false, current)

/-- The characters that `readNumber` takes. -/
def isNumberChar (c : UInt8) : Bool := (48 ≤ c ∧ c ≤ 57) ∨ c = 46 ∨ c = 101 ∨ c = 69 ∨ c = 43 ∨ c = 45

def readNumber (current : Bytes) : Bytes := current.dropWhile isNumberChar

/-- `readString`; the character after a backslash is skipped. -/
def readString : Bytes → Bool × Bytes
  | [] => (false, [])
  | c :: current =>
    if c = 92 then
      match current with
      | [] => (false, [])
      | _ :: current => readString current
    else if c = 34 then (true, current)
    else readString current

/-- `switch ( c )` of `readToken`: the type, whether it is `ok`, and the location after the token. -/
def scan (c : UInt8) (current : Bytes) : TokenType × Bool × Bytes :=
  match c with
  | 0x7B => (.objectBegin, true, current)
  | 0x7D => (.objectEnd, true, current)
  | 0x5B => (.arrayBegin, true, current)
  | 0x5D => (.arrayEnd, true, current)
  | 0x22 => (.string, readString current)
  | 0x2F => (.comment, readComment current)
  | 0x74 => (.true, matchPattern (cString "rue") current)
  | 0x66 => (.false, matchPattern (cString "alse") current)
  | 0x6E => (.null, matchPattern (cString "ull") current)
  | 0x2C => (.arraySeparator, true, current)
  | 0x3A => (.memberSeparator, true, current)
  | 0 => (.endOfStream, true, current)
  | _ => if (48 ≤ c ∧ c ≤ 57) ∨ c = 45 then (.number, true, readNumber current) else (.error, false, current)

/-- `readToken`: the token, and the location after it. -/
def readToken (current : Bytes) : Token × Bytes :=
  match skipSpaces current with
  | [] => (⟨.endOfStream, [], 0⟩, [])
  | c :: rest =>
    let r := scan c rest
    (⟨if r.2.1 then r.1 else .error, c :: rest, rest.length + 1 - r.2.2.length⟩, r.2.2)

/-! ### Errors -/

/-- `ErrorInfo`; `extra` is null where it is not given. -/
structure ErrorInfo where
  token : Token
  message : Bytes
  extra : Option Bytes
  deriving DecidableEq

/-! ### Numbers -/

variable (D : Doubles R)

/-- `'…' is not a number.` -/
def notANumber (token : Token) : ErrorInfo := ⟨token, cString "'" ++ token.text ++ cString "' is not a number.", none⟩

/-- `decodeDouble`; a text of 32 characters has its zero behind the buffer. -/
def decodeDouble (token : Token) : Except ErrorInfo (Value R) :=
  match if token.length = 32 then D.overrun token.text else D.sscanf token.text with
  | some value => .ok (.real value)
  | none => .error (notANumber token)

/-- The loop of `decodeNumber`: `value` after it, or `none` where it turns to `decodeDouble`. -/
def decodeDigits (token : Token) (threshold : UInt32) : UInt32 → Bytes → Except ErrorInfo (Option UInt32)
  | value, [] => .ok (some value)
  | value, c :: current =>
    if c < 48 ∨ 57 < c then .error (notANumber token)
    else if value ≥ threshold then .ok none
    else decodeDigits token threshold (value * 10 + (c - 48).toUInt32) current

/-- `isDouble`. -/
def isDouble : Bytes → Bool
  | [] => false
  | c :: text => (c = 46 ∨ c = 101 ∨ c = 69 ∨ c = 43) ∨ text.any fun c => c = 46 ∨ c = 101 ∨ c = 69 ∨ c = 43 ∨ c = 45

/-- `threshold`; the least `Int` is what `-Value::minInt` wraps to. -/
def threshold (isNegative : Bool) : UInt32 := (if isNegative then 2147483648 else 4294967295) / 10

/-- What `decodeNumber` assigns at its end. -/
def decodedInteger (isNegative : Bool) (value : UInt32) : Value R :=
  if isNegative then .int (-value.toInt32)
  else if value ≤ 2147483647 then .int value.toInt32
  else .uint value

def decodeNumber (token : Token) : Except ErrorInfo (Value R) :=
  if isDouble token.text then decodeDouble D token
  else
    let isNegative : Bool := token.text.head? = some 45
    match decodeDigits token (threshold isNegative) 0 (if isNegative then token.text.tail else token.text) with
    | .error e => .error e
    | .ok none => decodeDouble D token
    | .ok (some value) => .ok (decodedInteger isNegative value)

/-! ### Strings -/

/-- A byte of `codePointToUTF8`. -/
def utf8Byte (cp mark mask shift : UInt32) : UInt8 := (mark ||| (mask &&& (cp >>> shift))).toUInt8

/-- `codePointToUTF8`. -/
def codePointToUTF8 (cp : UInt32) : Bytes :=
  if cp ≤ 0x7f then [cp.toUInt8]
  else if cp ≤ 0x7FF then [utf8Byte cp 0xC0 0x1f 6, utf8Byte cp 0x80 0x3f 0]
  else if cp ≤ 0xFFFF then [utf8Byte cp 0xE0 0xf 12, utf8Byte cp 0x80 0x3f 6, utf8Byte cp 0x80 0x3f 0]
  else if cp ≤ 0x10FFFF then
    [utf8Byte cp 0xF0 0x7 18, utf8Byte cp 0x80 0x3f 12, utf8Byte cp 0x80 0x3f 6, utf8Byte cp 0x80 0x3f 0]
  else []

/-- The value of a hexadecimal digit. -/
def hexDigit (c : UInt8) : Option UInt32 :=
  if 48 ≤ c ∧ c ≤ 57 then some (c - 48).toUInt32
  else if 97 ≤ c ∧ c ≤ 102 then some ((c - 97).toUInt32 + 10)
  else if 65 ≤ c ∧ c ≤ 70 then some ((c - 65).toUInt32 + 10)
  else none

section decodeString

/-! `endLeft` is how many bytes are left at `end`. -/

variable (token : Token) (endLeft : ℕ)

/-- The loop of `decodeUnicodeEscapeSequence`: `unicode`, and the location after the digits. -/
def decodeHex : ℕ → UInt32 → Bytes → Except ErrorInfo (UInt32 × Bytes)
  | 0, unicode, current => .ok (unicode, current)
  | _ + 1, unicode, [] => .ok (unicode, [])
  | n + 1, unicode, c :: current =>
    match hexDigit c with
    | some digit => decodeHex n (unicode * 16 + digit) current
    | none =>
      .error ⟨token, cString "Bad unicode escape sequence in string: hexadecimal digit expected.", some current⟩

def decodeUnicodeEscapeSequence (current : Bytes) : Except ErrorInfo (UInt32 × Bytes) :=
  if current.length - endLeft < 4 then
    .error ⟨token, cString "Bad unicode escape sequence in string: four digits expected.", some current⟩
  else decodeHex token 4 0 current

/-- Of the second half of a surrogate pair. -/
def surrogateExpected : Bytes :=
  cString "expecting another \\u token to begin the second half of a unicode surrogate pair"

def decodeUnicodeCodePoint (current : Bytes) : Except ErrorInfo (UInt32 × Bytes) := do
  let (unicode, current) ← decodeUnicodeEscapeSequence token endLeft current
  if 0xD800 ≤ unicode ∧ unicode ≤ 0xDBFF then
    if current.length - endLeft < 6 then
      .error ⟨token, cString "additional six characters expected to parse unicode surrogate pair.", some current⟩
    else if current.head? ≠ some 92 then .error ⟨token, surrogateExpected, some (current.drop 1)⟩
    else if current.tail.head? ≠ some 117 then .error ⟨token, surrogateExpected, some (current.drop 2)⟩
    else
      let (surrogatePair, current) ← decodeUnicodeEscapeSequence token endLeft (current.drop 2)
      .ok ((0x10000 : UInt32) + ((unicode &&& 0x3FF) <<< 10) + (surrogatePair &&& 0x3FF), current)
  else .ok (unicode, current)

/-- What an escape other than `u` stands for. -/
def unescape (escape : UInt8) : Option UInt8 :=
  match escape with
  | 0x22 => some 0x22
  | 0x2F => some 0x2F
  | 0x5C => some 0x5C
  | 0x62 => some 0x08
  | 0x66 => some 0x0C
  | 0x6E => some 0x0A
  | 0x72 => some 0x0D
  | 0x74 => some 0x09
  | _ => none

/-- `while ( current != end )`: what is decoded from a location on.  The first `skip` bytes have been read. -/
def decodeChars : ℕ → Bytes → Except ErrorInfo Bytes
  | _, [] => .ok []
  | skip + 1, _ :: current => decodeChars skip current
  | 0, c :: current =>
    if current.length + 1 = endLeft ∨ c = 34 then .ok []
    else if c = 92 then
      match current with
      | [] => .ok []
      | escape :: current =>
        if current.length + 1 = endLeft then
          .error ⟨token, cString "Empty escape sequence in string", some (escape :: current)⟩
        else if escape = 117 then
          match decodeUnicodeCodePoint token endLeft current with
          | .error e => .error e
          | .ok (unicode, current') => do
            let decoded ← decodeChars (current.length - current'.length) current
            .ok (codePointToUTF8 unicode ++ decoded)
        else
          match unescape escape with
          | none => .error ⟨token, cString "Bad escape sequence in string", some current⟩
          | some c => do
            let decoded ← decodeChars 0 current
            .ok (c :: decoded)
    else do
      let decoded ← decodeChars 0 current
      .ok (c :: decoded)

end decodeString

/-- `decodeString`, without the quotes at both ends of the token. -/
def decodeString (token : Token) : Except ErrorInfo Bytes :=
  decodeChars token (token.start.length - token.length + 1) 0 token.start.tail

/-! ### Values -/

variable (features : Features)

/-- What the calls below change of a reader. -/
structure State where
  current : Bytes
  errors : List ErrorInfo
  deriving DecidableEq

/-- Whether a call was successful, and the value and the reader after it. -/
abbrev Read (R : Type) := Bool × Value R × State

def State.addError (message : Bytes) (token : Token) (s : State) : State :=
  { s with errors := s.errors ++ [⟨token, message, none⟩] }

/-- `do readToken( token ) while ( token.type_ == tokenComment )`. -/
def skipComments : ℕ → Bytes → Option (Token × Bytes)
  | 0, _ => none
  | fuel + 1, current =>
    let r := readToken current
    if r.1.type = .comment then skipComments fuel r.2 else some r

def skipCommentTokens (fuel : ℕ) (current : Bytes) : Option (Token × Bytes) :=
  if features.allowComments then skipComments fuel current else some (readToken current)

/-- The loop of `recoverFromError`; no token adds an error. -/
def skipUntil (skipUntilToken : TokenType) : ℕ → Bytes → Option Bytes
  | 0, _ => none
  | fuel + 1, current =>
    let r := readToken current
    if r.1.type = skipUntilToken ∨ r.1.type = .endOfStream then some r.2 else skipUntil skipUntilToken fuel r.2

/-- `comma`, or the token behind it if it is a comment. -/
def skipCommaComments (fuel : ℕ) (comma : Token) (current : Bytes) : Option (Token × Bytes) :=
  if comma.type = .comment then skipComments fuel current else some (comma, current)

/-- `recoverFromError`; the value is as it is. -/
def recoverFromError (fuel : ℕ) (skipUntilToken : TokenType) (value : Value R) (s : State) : Option (Read R) := do
  let current ← skipUntil skipUntilToken fuel s.current
  return (false, value, { s with current })

def addErrorAndRecover (fuel : ℕ) (message : Bytes) (token : Token) (skipUntilToken : TokenType) (value : Value R)
    (s : State) : Option (Read R) :=
  recoverFromError fuel skipUntilToken value (s.addError message token)

/-- `decodeNumber` or `decodeString`, which assigns the value if it is successful. -/
def assignDecoded (decoded : Except ErrorInfo (Value R)) (value : Value R) (s : State) : Read R :=
  match decoded with
  | .ok decoded => (true, decoded, s)
  | .error e => (false, value, { s with errors := s.errors ++ [e] })

mutual
/-- `readValue`; `value` is what `currentValue()` was before. -/
def readValue : ℕ → Value R → State → Option (Read R)
  | 0, _, _ => none
  | fuel + 1, value, s => do
    let (token, current) ← skipCommentTokens features fuel s.current
    let s := { s with current }
    match token.type with
    | .objectBegin => readObject fuel [] [] s
    | .arrayBegin => readArray fuel s
    | .number => some (assignDecoded (decodeNumber D token) value s)
    | .string => some (assignDecoded ((decodeString token).map fun decoded => .string (.ofBytes decoded)) value s)
    | .true => some (true, .boolean true, s)
    | .false => some (true, .boolean false, s)
    | .null => some (true, .null, s)
    | _ => some (false, value, s.addError (cString "Syntax error: value, object or array expected.") token)
/-- The loop of `readObject`, with the members so far and the last name. -/
def readObject : ℕ → Members R → Bytes → State → Option (Read R)
  | 0, _, _, _ => none
  | fuel + 1, members, name, s => do
    let (tokenName, current) ← skipComments fuel s.current
    let s := { s with current }
    if tokenName.type = .objectEnd ∧ name = [] then some (true, .object members, s)
    else if tokenName.type ≠ .string then
      addErrorAndRecover fuel (cString "Missing '\x7d' or object member name") tokenName .objectEnd (.object members) s
    else
      match decodeString tokenName with
      | .error e => recoverFromError fuel .objectEnd (.object members) { s with errors := s.errors ++ [e] }
      | .ok name =>
        let (colon, current) := readToken s.current
        let s := { s with current }
        if colon.type ≠ .memberSeparator then
          addErrorAndRecover fuel (cString "Missing ':' after object member name") colon .objectEnd (.object members) s
        else do
          let key := CZString.ofBytes name
          let (ok, value, s) ← readValue fuel (resolveReference key members) s
          let members := assign key value members
          if !ok then recoverFromError fuel .objectEnd (.object members) s
          else
            let (comma, current) := readToken s.current
            let s := { s with current }
            if comma.type ≠ .objectEnd ∧ comma.type ≠ .arraySeparator ∧ comma.type ≠ .comment then
              addErrorAndRecover fuel (cString "Missing ',' or '\x7d' in object declaration") comma .objectEnd
                (.object members) s
            else do
              -- whatever stands behind a comment is taken for the comma
              let (comma, current) ← skipCommaComments fuel comma s.current
              let s := { s with current }
              if comma.type = .objectEnd then some (true, .object members, s)
              else readObject fuel members name s
/-- `readArray`. -/
def readArray : ℕ → State → Option (Read R)
  | 0, _ => none
  | fuel + 1, s =>
    let s := { s with current := skipSpaces s.current }
    if s.current.head? = some 93 then some (true, .array [], { s with current := (readToken s.current).2 })
    else readItems fuel [] s
/-- The loop of `readArray`, with the values so far.  Any token is taken for the comma: `badTokenType` is false. -/
def readItems : ℕ → List (Value R) → State → Option (Read R)
  | 0, _, _ => none
  | fuel + 1, values, s => do
    let (ok, value, s) ← readValue fuel .null s
    let values := values ++ [value]
    if !ok then recoverFromError fuel .arrayEnd (.array values) s
    else do
      let (token, current) ← skipComments fuel s.current
      let s := { s with current }
      if token.type = .arraySeparator ∧ token.type = .arrayEnd then
        addErrorAndRecover fuel (cString "Missing ',' or ']' in array declaration") token .arrayEnd (.array values) s
      else if token.type = .arrayEnd then some (true, .array values, s)
      else readItems fuel values s
end

/-- `parse`: whether it is successful, `root` after it, and the errors. -/
def parse (document : Bytes) (root : Value R) : Option (Bool × Value R × List ErrorInfo) := do
  let fuel := 3 * document.length + 3
  let (successful, root, s) ← readValue D features fuel root ⟨document, []⟩
  let _ ← skipCommentTokens features fuel s.current
  if features.strictRoot ∧ ¬ root.isArray ∧ ¬ root.isObject then
    let s := s.addError (cString "A valid JSON document must be either an array or an object value.")
      ⟨.error, document, document.length⟩
    return (false, root, s.errors)
  else return (successful, root, s.errors)

/-! ### The text of the errors -/

/-- The loop of `getLocationLineAndColumn`, for a location with so many bytes left: the line, and how many are left
at `lastLineStart`. -/
def lineFrom (left : ℕ) : ℕ → ℕ → Bytes → ℕ × ℕ
  | line, lastLineStart, [] => (line, lastLineStart)
  | line, lastLineStart, c :: current =>
    if current.length + 1 ≤ left then (line, lastLineStart)
    else if c = 13 then
      match current with
      | 10 :: current => lineFrom left (line + 1) current.length current
      | current => lineFrom left (line + 1) current.length current
    else if c = 10 then lineFrom left (line + 1) current.length current
    else lineFrom left line lastLineStart current

/-- `getLocationLineAndColumn`: `Line %d, Column %d`. -/
def getLocationLineAndColumn (document location : Bytes) : Bytes :=
  let (line, lastLineStart) := lineFrom location.length 0 document.length document
  let column : ℤ := lastLineStart - location.length + 1
  cString "Line " ++ ConnectionPool.decimal (line + 1) ++ cString ", Column " ++ ConnectionPool.decimal column

def getFormatedErrorMessages (document : Bytes) (errors : List ErrorInfo) : Bytes :=
  errors.flatMap fun error =>
    cString "* " ++ getLocationLineAndColumn document error.token.start ++ cString "\n" ++ cString "  " ++
      error.message ++ cString "\n" ++
      match error.extra with
      | some extra => cString "See " ++ getLocationLineAndColumn document extra ++ cString " for detail.\n"
      | none => []

end Reader

end Newcoin.Json
