import Packwright.Json.Problem

/-!
# Reading JSON text

A reader of JSON text that reports the line and the byte column of the first mistake. Nesting is
bounded. Numbers outside the range of integers become double-precision numbers; their digits are
gathered into an integer of 64 bits, the digits that no longer fit only count for the exponent, and
the result is one multiplication or division by a power of ten.

## Main definitions

- `Json.Reader`, `Json.Read` — the text still to be read, with its position, and steps over it
- `Json.readString`, `Json.readNumber`, `Json.readValue` — parts of the grammar
- `Json.parse` — a whole text
-/

namespace Packwright.Json

/-- The text still to be read, with the line it begins on and the number of bytes already read of
that line. -/
structure Reader where
  rest : List Char
  line : Nat := 1
  column : Nat := 0
  deriving DecidableEq, Repr, Inhabited

namespace Reader

/-- The reader after one more character. -/
def advance (r : Reader) (c : Char) (rest : List Char) : Reader :=
  if c = '\n' then ⟨rest, r.line + 1, 0⟩ else ⟨rest, r.line, r.column + c.utf8Size⟩

/-- A mistake at the reader's position. -/
def mistake (r : Reader) (p : Problem) : Mistake := ⟨p, r.line, r.column⟩

/-- A mistake one byte further on, unless the text is at its end. -/
def mistakeNext (r : Reader) (p : Problem) : Mistake :=
  match r.rest with
  | [] => r.mistake p
  | '\n' :: _ => ⟨p, r.line + 1, 0⟩
  | _ => ⟨p, r.line, r.column + 1⟩

/-- The reader behind `n` more bytes of a text; the last character may be cut. -/
def skipFrom (r : Reader) : Nat → List Char → Reader
  | 0, cs => { r with rest := cs }
  | _ + 1, [] => { r with rest := [] }
  | n + 1, c :: rest =>
    if c.utf8Size ≤ n + 1 then skipFrom (r.advance c rest) (n + 1 - c.utf8Size) rest
    else ⟨c :: rest, r.line, r.column + (n + 1)⟩
  termination_by structural _ cs => cs

/-- Passes over bytes; the last character may be cut. -/
def skipBytes (n : Nat) (r : Reader) : Reader := r.skipFrom n r.rest

end Reader

/-- Steps over a JSON text. -/
abbrev Read := StateT Reader (Except Mistake)

/-- Fails at the reader's position. -/
def failHere {α : Type} (p : Problem) : Read α := do throw ((← get).mistake p)

/-- Fails one byte further on. -/
def failNext {α : Type} (p : Problem) : Read α := do throw ((← get).mistakeNext p)

/-- The next character, which is not read. -/
def peek : Read (Option Char) := do return (← get).rest.head?

/-- Reads one character. -/
def next : Read (Option Char) := do
  let r ← get
  match r.rest with
  | [] => return none
  | c :: rest =>
    set (r.advance c rest)
    return some c

/-- Reads one byte and gives the character it belongs to. After a byte of a longer character only
failure is left. -/
def nextByte : Read (Option Char) := do
  let c ← peek
  modify (·.skipBytes 1)
  return c

/-- Blanks between the parts of a JSON text. -/
def isSpace (c : Char) : Bool := c = ' ' || c = '\n' || c = '\t' || c = '\r'

/-- Passes over characters as long as a test holds. -/
def skipWhile (test : Char → Bool) (r : Reader) : List Char → Reader
  | [] => { r with rest := [] }
  | c :: rest =>
    if test c then skipWhile test (r.advance c rest) rest
    else { r with rest := c :: rest }

/-- Passes over blanks and gives the next character, which is not read. -/
def peekPastSpace : Read (Option Char) := do
  modify fun r => skipWhile isSpace r r.rest
  peek

/-- Reads the rest of a fixed word. -/
def readWord : List Char → Read Unit
  | [] => return
  | c :: rest => do
    match ← nextByte with
    | none => failHere .endInValue
    | some d => if d = c then readWord rest else failHere .expectedIdent

/-! ### Strings -/

/-- The value of a hexadecimal digit. -/
def hexValue? (c : Char) : Option Nat :=
  if c.isDigit then some (c.toNat - '0'.toNat)
  else if 'a' ≤ c && c ≤ 'f' then some (c.toNat - 'a'.toNat + 10)
  else if 'A' ≤ c && c ≤ 'F' then some (c.toNat - 'A'.toNat + 10)
  else none

/-- The value of four hexadecimal digits. -/
def hexValue4? : List Char → Option Nat
  | [a, b, c, d] => do
    return ((← hexValue? a) * 16 + (← hexValue? b)) * 256 + ((← hexValue? c) * 16 + (← hexValue? d))
  | _ => none

/-- Reads four hexadecimal digits, which are four bytes. -/
def readHex4 : Read Nat := do
  let r ← get
  if Text.byteLength r.rest < 4 then
    set (r.skipBytes (Text.byteLength r.rest))
    failHere .endInString
  else
    set (r.skipBytes 4)
    match hexValue4? (r.rest.take 4) with
    | some n => return n
    | none => failHere .invalidEscape

/-- Reads a fixed character that must follow the first half of a surrogate pair. -/
def expectInPair (c : Char) : Read Unit := do
  match ← peek with
  | none => failHere .endInString
  | some d =>
    let _ ← nextByte
    if d ≠ c then failHere .endInEscape

/-- Reads the rest of a `\u` escape, two of them for a character outside the basic plane. -/
def readUnicode : Read Char := do
  let n ← readHex4
  if 0xDC00 ≤ n && n ≤ 0xDFFF then failHere .loneSurrogate
  else if n < 0xD800 || 0xDBFF < n then return Char.ofNat n
  else
    expectInPair '\\'
    expectInPair 'u'
    let m ← readHex4
    if m < 0xDC00 || 0xDFFF < m then failHere .loneSurrogate
    else return Char.ofNat ((n - 0xD800) * 1024 + (m - 0xDC00) + 0x10000)

/-- Reads the rest of an escape. -/
def readEscape : Read Char := do
  match ← nextByte with
  | none => failHere .endInString
  | some '"' => return '"'
  | some '\\' => return '\\'
  | some '/' => return '/'
  | some 'b' => return Char.ofNat 0x08
  | some 'f' => return Char.ofNat 0x0C
  | some 'n' => return '\n'
  | some 'r' => return '\r'
  | some 't' => return '\t'
  | some 'u' => readUnicode
  | some _ => failHere .invalidEscape

/-- Reads a string after its opening quote, at most `fuel` characters and escapes of it. -/
def readStringWithin : Nat → List Char → Read (List Char)
  | 0, _ => failHere .endInString
  | fuel + 1, read => do
    match ← next with
    | none => failHere .endInString
    | some c =>
      if c = '"' then return read.reverse
      else if c = '\\' then readStringWithin fuel ((← readEscape) :: read)
      else if c.toNat < 0x20 then failHere .controlCharacter
      else readStringWithin fuel (c :: read)

/-- Reads a string after its opening quote. -/
def readString : Read String := do
  let r ← get
  return String.ofList (← readStringWithin (r.rest.length + 1) [])

/-! ### Numbers -/

/-- The greatest integer that digits are gathered into. -/
def digitLimit : Nat := UInt64.size - 1

/-- Reads the digits at the front of the text. -/
def readDigits : Read (List Char) := do
  let r ← get
  set (skipWhile Char.isDigit r r.rest)
  return r.rest.takeWhile Char.isDigit

/-- Gathers digits into an integer as long as it stays within the limit; gives the integer, the
count of digits gathered and the digits left over. -/
def gather (n count : Nat) : List Char → Nat × Nat × List Char
  | [] => (n, count, [])
  | c :: rest =>
    let n' := 10 * n + (c.toNat - '0'.toNat)
    if n' ≤ digitLimit then gather n' (count + 1) rest else (n, count, c :: rest)

/-- A power of ten as a double-precision number. -/
def powerOfTen (n : Nat) : Float := Float.ofScientific 1 false n

/-- An integer of 64 bits divided by powers of ten, in steps as long as the exponent is out of the
table of powers. -/
def divideByTens (f : Float) : Nat → Nat → Float
  | 0, _ => f
  | fuel + 1, e =>
    if e ≤ 308 then f / powerOfTen e
    else if f == 0.0 then f
    else divideByTens (f / 1e308) fuel (e - 308)

/-- Zero as a double-precision number: no bit is set but that of the sign. -/
def signedZero (negative : Bool) : Number := .double (if negative then 0x8000000000000000 else 0)

/-- The number `± n · 10 ^ e`, computed with one multiplication or repeated division, unless it is out
of range. -/
def double? (negative : Bool) (n : Nat) (e : Int) : Option Number :=
  let f := (UInt64.ofNat n).toFloat
  let sign (f : Float) : Number := .double (if negative then -f else f).toBits
  if n = 0 then some (signedZero negative)
  else if e < 0 then some (sign (divideByTens f (e.natAbs / 308 + 1) e.natAbs))
  else if e ≤ 308 then
    let f := f * powerOfTen e.toNat
    if f.isInf then none else some (sign f)
  else none

/-- Gives the number `± n · 10 ^ e`. -/
def ofParts (negative : Bool) (n : Nat) (e : Int) : Read Number :=
  match double? negative n e with
  | some value => return value
  | none => failHere .numberOutOfRange

/-- The greatest exponent that is read as a number. -/
def exponentLimit : Nat := 2147483647

/-- Keeps an exponent within 32 bits. -/
def clampExponent (e : Int) : Int := max (-2147483648) (min e 2147483647)

/-- Reads digits of an exponent until it would pass its limit; tells whether it did. -/
def readExponentDigits (n : Nat) : Nat → Read (Nat × Bool)
  | 0 => return (n, false)
  | fuel + 1 => do
    match ← peek with
    | some c =>
      if c.isDigit then
        let _ ← next
        let n' := 10 * n + (c.toNat - '0'.toNat)
        if n' ≤ exponentLimit then readExponentDigits n' fuel else return (n, true)
      else return (n, false)
    | none => return (n, false)

/-- Reads the sign of an exponent, if there is one; tells whether it is a minus sign. -/
def readSign : Read Bool := do
  match ← peek with
  | some '+' =>
    let _ ← next
    return false
  | some '-' =>
    let _ ← next
    return true
  | _ => return false

/-- Reads an exponent behind its sign and gives the number `± n · 10 ^ start` with it. -/
def readScale (below negative : Bool) (n : Nat) (start : Int) : Read Number := do
  match ← nextByte with
  | none => failHere .endInValue
  | some c =>
    if c.isDigit then
      let (e, passed) ← readExponentDigits (c.toNat - '0'.toNat) (← get).rest.length
      if passed then
        if n ≠ 0 && !below then failHere .numberOutOfRange
        else
          let _ ← readDigits
          return signedZero negative
      else ofParts negative n (clampExponent (if below then start - e else start + e))
    else failHere .invalidNumber

/-- Reads an exponent from its letter on. -/
def readExponent (negative : Bool) (n : Nat) (start : Int) : Read Number := do
  let _ ← next
  let below ← readSign
  readScale below negative n start

/-- Finishes a number with an exponent part or without one. -/
def readTail (negative : Bool) (n : Nat) (e : Int) : Read Number := do
  match ← peek with
  | some 'e' | some 'E' => readExponent negative n e
  | _ => ofParts negative n e

/-- Reads a fraction from its point on; `e` counts the digits before the point that were left
over. -/
def readFraction (negative : Bool) (n : Nat) (e : Int) : Read Number := do
  let _ ← next
  let digits ← readDigits
  if digits.isEmpty then
    match ← peek with
    | none => failNext .endInValue
    | some _ => failNext .invalidNumber
  else
    let (n, count, _) := gather n 0 digits
    readTail negative n (e - count)

/-- The number of digits that are neither followed by a fraction nor by an exponent. -/
def ofInteger (negative : Bool) (n : Nat) : Number :=
  if !negative then .natural n
  else if n = 0 then signedZero true
  else if 9223372036854775808 < n then .double (-(UInt64.ofNat n).toFloat).toBits
  else .negative n

/-- Reads the digits before the point, given the first of them. No digit may stand behind a zero. -/
def readWhole (c : Char) : Read (List Char) := do
  if c = '0' then
    if ((← peek).map Char.isDigit).getD false then failNext .invalidNumber
    else return [c]
  else return c :: (← readDigits)

/-- Finishes a number, given its digits before the point. -/
def readBehindWhole (negative : Bool) (whole : List Char) : Read Number := do
  let (n, _, extra) := gather 0 0 whole
  match ← peek with
  | some '.' => readFraction negative n extra.length
  | some 'e' | some 'E' => readExponent negative n extra.length
  | _ =>
    if extra.isEmpty then return ofInteger negative n
    else ofParts negative n extra.length

/-- Reads a number after its sign. -/
def readNumber (negative : Bool) : Read Number := do
  match ← nextByte with
  | none => failHere .endInValue
  | some c =>
    if c.isDigit then readBehindWhole negative (← readWhole c) else failHere .invalidNumber

/-! ### Values -/

/-- Reads the colon behind a key. -/
def readColon : Read Unit := do
  match ← peekPastSpace with
  | some ':' => let _ ← next
  | some _ => failNext .expectedColon
  | none => failNext .endInObject

/-- Whether another item of a list follows; the comma before it is read. -/
def hasNextItem (first : Bool) : Read Bool := do
  match ← peekPastSpace with
  | none => failNext .endInList
  | some c =>
    if c = ']' then return false
    else if first then return true
    else if c = ',' then
      let _ ← next
      match ← peekPastSpace with
      | some ']' => failNext .trailingComma
      | some _ => return true
      | none => failNext .endInValue
    else failNext .expectedListEnd

/-- Whether another member of an object follows; the comma before it and the opening quote of its
key are read. -/
def hasNextKey (first : Bool) : Read Bool := do
  match ← peekPastSpace with
  | none => failNext .endInObject
  | some c =>
    if c = '\x7d' then return false
    else if first then
      if c = '"' then
        let _ ← next
        return true
      else failNext .keyNotString
    else if c = ',' then
      let _ ← next
      match ← peekPastSpace with
      | some '"' => let _ ← next; return true
      | some '\x7d' => failNext .trailingComma
      | some _ => failNext .keyNotString
      | none => failNext .endInValue
    else failNext .expectedObjectEnd

/-- Reads the items of a list up to its end, at most `fuel` of them. -/
def readItems (item : Read Json) : Nat → Bool → Read (List Json)
  | 0, _ => failNext .endInList
  | fuel + 1, first => do
    if ← hasNextItem first then
      let v ← item
      return v :: (← readItems item fuel false)
    else
      let _ ← next
      return []

/-- Reads the members of an object up to its end, at most `fuel` of them. -/
def readMembers (item : Read Json) : Nat → Bool → Read (List (String × Json))
  | 0, _ => failNext .endInObject
  | fuel + 1, first => do
    if ← hasNextKey first then
      let key ← readString
      readColon
      let v ← item
      return (key, v) :: (← readMembers item fuel false)
    else
      let _ ← next
      return []

/-- Reads a value that is neither a list nor an object and begins with a given character. -/
def readScalar (c : Char) : Read Json := do
  if c = 'n' then
    readWord ['n', 'u', 'l', 'l']
    return .null
  else if c = 't' then
    readWord ['t', 'r', 'u', 'e']
    return .bool true
  else if c = 'f' then
    readWord ['f', 'a', 'l', 's', 'e']
    return .bool false
  else if c = '-' then
    let _ ← next
    return .number (← readNumber true)
  else if c.isDigit then return .number (← readNumber false)
  else if c = '"' then
    let _ ← next
    return .string (← readString)
  else failNext .expectedValue

/-- Reads a list or object that begins with a given bracket. -/
def readNested (item : Read Json) (c : Char) : Read Json := do
  let _ ← next
  let fuel := (← get).rest.length + 1
  if c = '[' then return .array (← readItems item fuel true)
  else return ofMembers (← readMembers item fuel true)

/-- Reads a value, given how to read the parts of a list or object, if there may be one. -/
def readValueWith (item? : Option (Read Json)) : Read Json := do
  match ← peekPastSpace with
  | none => failNext .endInValue
  | some c =>
    if c = '[' || c = '\x7b' then
      match item? with
      | none => failNext .tooDeep
      | some item => readNested item c
    else readScalar c

/-- Reads a value with at most `depth` levels of lists and objects. -/
def readValue : Nat → Read Json
  | 0 => readValueWith none
  | depth + 1 => readValueWith (some (readValue depth))

/-- The greatest number of levels of a text. -/
def maxDepth : Nat := 127

/-- Reads the end of a text. -/
def readEnd : Read Unit := do
  match ← peekPastSpace with
  | none => return
  | some _ => failNext .trailingCharacters

/-- Runs steps over a whole text. -/
def run {α : Type} (read : Read α) (text : String) : Except Mistake α :=
  match (do let v ← read; readEnd; return v : Read α) { rest := text.toList } with
  | .ok (v, _) => .ok v
  | .error m => .error m

/-- The value of a JSON text. -/
def parse (text : String) : Except Mistake Json := run (readValue maxDepth) text

end Packwright.Json
