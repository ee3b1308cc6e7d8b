import Packwright.Json.Parser

/-!
# Records in JSON text

A record is read straight from the text: from an object with some of its fields in any order, or
from a list with the first of its fields in their own order. Fields that are not there keep the
value they have. A field that is not known, or that is there twice, is a mistake.

## Main definitions

- `Json.readText`, `Json.readBool`, `Json.readWord32` — values of one kind
- `Json.RecordField` — a field by its name and what its value does to the record
- `Json.readRecord` — a record
-/

namespace Packwright.Json

/-- Fails at a value of another kind than the one wanted, which begins with a given character. A
list or an object is not read. -/
def failKind {α : Type} (wanted : String) (c : Char) : Read α := do
  if c = '[' then failHere (.wrongKind .list wanted)
  else if c = '\x7b' then failHere (.wrongKind .object wanted)
  else
    match ← readScalar c with
    | .null => failHere (.wrongKind .null wanted)
    | .bool b => failHere (.wrongKind (.bool b) wanted)
    | .number n => failHere (.wrongKind (.number n) wanted)
    | .string s => failHere (.wrongKind (.string s) wanted)
    | .array _ => failHere (.wrongKind .list wanted)
    | .object _ => failHere (.wrongKind .object wanted)

/-- The character that a value begins with, which is not read. -/
def peekValue : Read Char := do
  match ← peekPastSpace with
  | none => failNext .endInValue
  | some c => return c

/-- Reads a string. -/
def readText (wanted : String) : Read String := do
  let c ← peekValue
  if c = '"' then
    let _ ← next
    readString
  else failKind wanted c

/-- Reads a truth value. -/
def readBool : Read Bool := do
  let c ← peekValue
  if c = 't' then
    readWord ['t', 'r', 'u', 'e']
    return true
  else if c = 'f' then
    readWord ['f', 'a', 'l', 's', 'e']
    return false
  else failKind "a boolean" c

/-- The integer of 32 bits that a number stands for. -/
def word32 (n : Number) : Read UInt32 := do
  match n with
  | .natural n =>
    if n < UInt32.size then return UInt32.ofNat n else failHere (.wrongInteger n "u32")
  | .negative n => failHere (.wrongInteger (-n) "u32")
  | .double bits => failHere (.wrongKind (.number (.double bits)) "u32")

/-- Reads an integer of 32 bits without a sign. -/
def readWord32 : Read UInt32 := do
  let c ← peekValue
  if c = '-' then
    let _ ← next
    word32 (← readNumber true)
  else if c.isDigit then word32 (← readNumber false)
  else failKind "u32" c

/-- A field of a record: its name, and how its value is read into the record. -/
structure RecordField (ρ : Type) where
  name : String
  read : ρ → Read ρ

/-- Reads the items of a list into the fields, as long as there are both. -/
def readPositional {ρ : Type} : List (RecordField ρ) → Bool → ρ → Read ρ
  | [], _, r => return r
  | field :: fields, first, r => do
    if ← hasNextItem first then readPositional fields false (← field.read r) else return r

/-- Reads the end of a list that has no more items to give. -/
def closeList : Read Unit := do
  match ← peekPastSpace with
  | none => failNext .endInList
  | some ']' => let _ ← next
  | some ',' =>
    let _ ← next
    match ← peekPastSpace with
    | some ']' => failNext .trailingComma
    | _ => failNext .trailingCharacters
  | some _ => failNext .trailingCharacters

/-- Fails behind the key of a field and, if it comes next, the end of its object. -/
def failField {α : Type} (p : Problem) : Read α := do
  if (← peekPastSpace) = some '\x7d' then
    let _ ← next
  failHere p

/-- Reads the members of an object into the fields up to its end, at most `fuel` of them; `seen`
holds the names that were there before. -/
def readNamed {ρ : Type} (fields : List (RecordField ρ)) :
    Nat → Bool → List String → ρ → Read ρ
  | 0, _, _, _ => failNext .endInObject
  | fuel + 1, first, seen, r => do
    if ← hasNextKey first then
      let name ← readString
      match fields.find? (·.name = name) with
      | none => failField (.unknownField name (fields.map RecordField.name))
      | some field =>
        if seen.contains name then failField (.repeatedField name)
        readColon
        readNamed fields fuel false (name :: seen) (← field.read r)
    else
      let _ ← next
      return r

/-- Reads a record, which begins with the values in `r`. -/
def readRecord {ρ : Type} (wanted : String) (fields : List (RecordField ρ)) (r : ρ) : Read ρ := do
  let c ← peekValue
  if c = '[' then
    let _ ← next
    let r ← readPositional fields true r
    closeList
    return r
  else if c = '\x7b' then
    let _ ← next
    readNamed fields ((← get).rest.length + 1) true [] r
  else failKind wanted c

end Packwright.Json
