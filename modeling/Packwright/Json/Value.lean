import Packwright.Decimal.Double

/-!
# JSON values and their text

Values of JSON text and how they are written. An object that is read keeps its members sorted by
key with one member for each key. A number is an integer of at most 64 bits or a double-precision
number, kept by its bits.

## Main definitions

- `Json.Number`, `Json` — numbers and values
- `Json.insertMember` — a member put into its place, replacing one of the same key
- `Json.quote` — a string in quotes with its escapes
- `Json.pretty` — a value on several lines, two spaces deep for each level
-/

namespace Packwright

namespace Json

/-- A number of JSON text. -/
inductive Number where
  /-- An integer from zero on. -/
  | natural (n : Nat)
  /-- The negative of a positive integer. -/
  | negative (n : Nat)
  /-- A double-precision number, by its bits. -/
  | double (bits : UInt64)
  deriving DecidableEq, Repr, Inhabited

end Json

/-- A JSON value. -/
inductive Json where
  | null
  | bool (b : Bool)
  | number (n : Json.Number)
  | string (s : String)
  | array (items : List Json)
  | object (members : List (String × Json))
  deriving Repr, Inhabited

namespace Json

/-- Puts a member into its place by key, replacing one of the same key. -/
def insertMember (key : String) (value : Json) : List (String × Json) → List (String × Json)
  | [] => [(key, value)]
  | (k, v) :: rest =>
    if key = k then (key, value) :: rest
    else if key < k then (key, value) :: (k, v) :: rest
    else (k, v) :: insertMember key value rest

/-- An object from members in the order of their reading; of members with one key the last
counts. -/
def ofMembers (members : List (String × Json)) : Json :=
  .object (members.foldl (fun sorted (k, v) => insertMember k v sorted) [])

/-- A hexadecimal digit in lower case. -/
def hexDigit (n : Nat) : Char := (Nat.toDigits 16 (n % 16)).headD '0'

/-- A character inside a string. Quotes, backslashes and control characters are escaped. -/
def escapeChar (c : Char) : List Char :=
  if c = '"' then ['\\', '"']
  else if c = '\\' then ['\\', '\\']
  else if c = '\n' then ['\\', 'n']
  else if c = '\r' then ['\\', 'r']
  else if c = '\t' then ['\\', 't']
  else if c.toNat = 0x08 then ['\\', 'b']
  else if c.toNat = 0x0C then ['\\', 'f']
  else if c.toNat < 0x20 then ['\\', 'u', '0', '0', hexDigit (c.toNat / 16), hexDigit c.toNat]
  else [c]

/-- A string in quotes with its escapes. -/
def quote (s : String) : String :=
  String.ofList ('"' :: s.toList.flatMap escapeChar ++ ['"'])

/-- Digits with a point among or behind them, given the count of digits before the point. -/
def positional (digits : List Char) (place : Int) : List Char :=
  if place ≤ 0 then '0' :: '.' :: List.replicate (-place).toNat '0' ++ digits
  else
    let whole := digits.take place.toNat
    let fraction := digits.drop place.toNat
    whole ++ List.replicate (place.toNat - whole.length) '0' ++ '.' ::
      (if fraction.isEmpty then ['0'] else fraction)

/-- Digits with the point behind the first one and a signed exponent. -/
def scientific (digits : List Char) (place : Int) : List Char :=
  let exponent := place - 1
  let fraction := digits.drop 1
  digits.take 1 ++ (if fraction.isEmpty then [] else '.' :: fraction) ++ 'e' ::
    (if exponent < 0 then '-' else '+') :: Nat.toDigits 10 exponent.natAbs

/-- A double-precision number in its shortest form: positional from `0.00001` up to below `10 ^ 16`,
and always with a fraction there; with an exponent otherwise. -/
def renderDouble (bits : UInt64) : String :=
  let d := Double.ofBits bits
  let sign := if d.negative then ['-'] else []
  if d.significand = 0 then String.ofList (sign ++ ['0', '.', '0'])
  else
    let (n, e) := d.shortest
    let digits := Nat.toDigits 10 n
    let place := digits.length + e
    let body :=
      if -5 < place && place ≤ 16 then positional digits place else scientific digits place
    String.ofList (sign ++ body)

/-- The text of a number. -/
def Number.render : Number → String
  | .natural n => toString n
  | .negative n => "-" ++ toString n
  | .double bits => renderDouble bits

/-- A line break and the indentation of a level. -/
def newline (level : Nat) : String := "\n" ++ String.ofList (List.replicate (2 * level) ' ')

mutual

/-- A value whose first line is already indented. -/
def prettyAt (level : Nat) : Json → String
  | .null => "null"
  | .bool b => if b then "true" else "false"
  | .number n => n.render
  | .string s => quote s
  | .array [] => "[]"
  | .array (item :: items) =>
    "[" ++ newline (level + 1) ++ prettyAt (level + 1) item ++ prettyItems (level + 1) items ++
      newline level ++ "]"
  | .object [] => "\x7b\x7d"
  | .object ((key, value) :: members) =>
    "\x7b" ++ newline (level + 1) ++ quote key ++ ": " ++ prettyAt (level + 1) value ++
      prettyMembers (level + 1) members ++ newline level ++ "\x7d"

/-- The items of an array behind the first one. -/
def prettyItems (level : Nat) : List Json → String
  | [] => ""
  | item :: items => "," ++ newline level ++ prettyAt level item ++ prettyItems level items

/-- The members of an object behind the first one. -/
def prettyMembers (level : Nat) : List (String × Json) → String
  | [] => ""
  | (key, value) :: members =>
    "," ++ newline level ++ quote key ++ ": " ++ prettyAt level value ++
      prettyMembers level members

end

/-- A value on several lines, two spaces deep for each level. -/
def pretty (v : Json) : String := prettyAt 0 v

end Json

end Packwright
