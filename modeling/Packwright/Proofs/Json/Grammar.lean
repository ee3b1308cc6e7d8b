import Mathlib.Data.Option.NAry
import Packwright.Json.Codec
import Packwright.Proofs.Token.Pieces

/-!
# The grammar of JSON text

The texts of JSON values, told without a reader, together with the values that they stand for. A text of
the grammar need not stand for a value: a number can be too great, and half of a surrogate pair is no
character. What is grouped by brackets and quotes in JSON text is grouped alike by the lexer, so a value
is balanced text, whatever stands in its strings.

## Main definitions

- `Json.Numeral`, `Json.Numeral.value?` — numbers as they are written, and what they stand for
- `Json.StringText` — what stands between the quotes of a string
- `Json.Listed` — entries with commas between them
- `Json.ValueText`, `Json.Spells` — values, with a bound on the levels of lists and objects
- `Json.NumberText`, `Json.NumeralText`, `Json.IntegerText` — all numbers, all with the values that the program
  gives them, and the integers of 64 bits
- `Json.Codec.Lawful` — a codec reads and writes the texts of the grammar

## Main results

- `Json.Spells.balanced` — JSON text is balanced
- `Json.Spells.mono` — fewer numbers, and fewer texts
-/

namespace Packwright.Json

variable {α β : Type}

/-! ### Numbers -/

/-- Decimal digits, at least one. -/
structure Digits where
  first : Char
  more : List Char
  isDigit : ∀ c ∈ first :: more, c.isDigit = true

/-- The digits as they are written. -/
def Digits.text (ds : Digits) : List Char := ds.first :: ds.more

/-- The exponent of a number: its letter, its sign if it has one, and its digits. -/
structure Exponent where
  upper : Bool
  sign : Option Bool
  digits : Digits

/-- A number as it is written. No digit stands behind a zero in front. -/
structure Numeral where
  negative : Bool
  whole : Digits
  fraction : Option Digits
  exponent : Option Exponent
  noLeadingZero : whole.first = '0' → whole.more = []

/-- The sign of an exponent; the minus sign stands for `true`. -/
def signText : Option Bool → List Char
  | none => []
  | some true => ['-']
  | some false => ['+']

/-- The exponent as it is written. -/
def Exponent.text (e : Exponent) : List Char :=
  (if e.upper then 'E' else 'e') :: (signText e.sign ++ e.digits.text)

/-- The fraction as it is written, with its point. -/
def fractionText : Option Digits → List Char
  | none => []
  | some ds => '.' :: ds.text

/-- The exponent as it is written, if there is one. -/
def exponentText : Option Exponent → List Char
  | none => []
  | some e => e.text

/-- A number behind its sign. -/
def Numeral.magnitude (l : Numeral) : List Char :=
  l.whole.text ++ (fractionText l.fraction ++ exponentText l.exponent)

/-- The number as it is written. -/
def Numeral.text (l : Numeral) : List Char :=
  (if l.negative then ['-'] else []) ++ l.magnitude

/-- Digits of an exponent as a number, up to the digit that passes the limit; tells whether one does. -/
def gatherExponent (n : Nat) : List Char → Nat × Bool
  | [] => (n, false)
  | c :: cs =>
    let n' := 10 * n + (c.toNat - '0'.toNat)
    if n' ≤ exponentLimit then gatherExponent n' cs else (n, true)

/-- The number `± n · 10 ^ start` with an exponent behind it. One that passes the limit makes the number
zero, or too great. -/
def Exponent.scale? (e : Exponent) (negative : Bool) (n : Nat) (start : Int) : Option Number :=
  let below := e.sign = some true
  let (value, passed) := gatherExponent (e.digits.first.toNat - '0'.toNat) e.digits.more
  if passed then
    if n ≠ 0 && !below then none else some (signedZero negative)
  else double? negative n (clampExponent (if below then start - value else start + value))

/-- The number `± n · 10 ^ e` with an exponent behind it or without one. -/
def scaled? (negative : Bool) (n : Nat) (e : Int) : Option Exponent → Option Number
  | none => double? negative n e
  | some exponent => exponent.scale? negative n e

/-- What a number stands for, unless it is out of range: an integer if it has neither a fraction nor an
exponent and its digits fit, a double-precision number otherwise. -/
def Numeral.value? (l : Numeral) : Option Number :=
  let (n, _, extra) := gather 0 0 l.whole.text
  match l.fraction, l.exponent with
  | none, none =>
    if extra.isEmpty then some (ofInteger l.negative n) else double? l.negative n extra.length
  | none, some e => e.scale? l.negative n extra.length
  | some ds, exponent =>
    let (n, count, _) := gather n 0 ds.text
    scaled? l.negative n (extra.length - count) exponent

/-- The digits before the point as a natural number. -/
def Numeral.natural (l : Numeral) : Nat := Nat.ofDigitChars 10 l.whole.text 0

/-- A number without a fraction or an exponent whose digits fit 64 bits, with their sign. -/
structure Numeral.Integral (l : Numeral) : Prop where
  fraction : l.fraction = none
  exponent : l.exponent = none
  fits : l.natural ≤ if l.negative then 9223372036854775808 else digitLimit

/-- The texts of numbers, with what they stand for. -/
def NumberText (value? : Numeral → Option Number) (cs : List Char) (n? : Option Number) : Prop :=
  ∃ l : Numeral, l.text = cs ∧ value? l = n?

/-- The texts of numbers, with what the codec of the program makes of them. -/
abbrev NumeralText : List Char → Option Number → Prop := NumberText Numeral.value?

/-- The texts of integers of 64 bits, with what they stand for. -/
def IntegerText (cs : List Char) (n? : Option Number) : Prop :=
  ∃ l : Numeral, l.Integral ∧ l.text = cs ∧ some (ofInteger l.negative l.natural) = n?

/-! ### Strings -/

/-- The letters of escapes, and the characters that they stand for. -/
def escapes : List (Char × Char) :=
  [('"', '"'), ('\\', '\\'), ('/', '/'), ('b', Char.ofNat 0x08), ('f', Char.ofNat 0x0C),
    ('n', '\n'), ('r', '\r'), ('t', '\t')]

/-- The first half of a surrogate pair. -/
def IsHighSurrogate (n : Nat) : Prop := 0xD800 ≤ n ∧ n ≤ 0xDBFF

/-- The second half of a surrogate pair. -/
def IsLowSurrogate (n : Nat) : Prop := 0xDC00 ≤ n ∧ n ≤ 0xDFFF

/-- The text goes on with the escape of the second half of a surrogate pair. -/
def GoesOnLow (cs : List Char) : Prop :=
  ∃ low m rest, hexValue4? low = some m ∧ IsLowSurrogate m ∧ cs = '\\' :: 'u' :: (low ++ rest)

/-- What stands between the quotes of a string, with the characters it stands for. Half of a surrogate pair
that stands alone stands for none. -/
inductive StringText : List Char → Option (List Char) → Prop
  | nil : StringText [] (some [])
  | plain {c : Char} {cs : List Char} {s? : Option (List Char)} (hquote : c ≠ '"') (hslash : c ≠ '\\')
    (hcontrol : 0x20 ≤ c.toNat) (h : StringText cs s?) : StringText (c :: cs) (s?.map (c :: ·))
  | escape {c d : Char} {cs : List Char} {s? : Option (List Char)} (hc : (c, d) ∈ escapes)
    (h : StringText cs s?) : StringText ('\\' :: c :: cs) (s?.map (d :: ·))
  | unicode {digits cs : List Char} {n : Nat} {s? : Option (List Char)} (hn : hexValue4? digits = some n)
    (hhigh : ¬IsHighSurrogate n) (hlow : ¬IsLowSurrogate n) (h : StringText cs s?) :
    StringText ('\\' :: 'u' :: (digits ++ cs)) (s?.map (Char.ofNat n :: ·))
  | pair {high low cs : List Char} {n m : Nat} {s? : Option (List Char)} (hn : hexValue4? high = some n)
    (hhigh : IsHighSurrogate n) (hm : hexValue4? low = some m) (hlow : IsLowSurrogate m)
    (h : StringText cs s?) :
    StringText ('\\' :: 'u' :: (high ++ '\\' :: 'u' :: (low ++ cs)))
      (s?.map (Char.ofNat ((n - 0xD800) * 1024 + (m - 0xDC00) + 0x10000) :: ·))
  | lone {digits cs : List Char} {n : Nat} {s? : Option (List Char)} (hn : hexValue4? digits = some n)
    (hhalf : IsLowSurrogate n ∨ IsHighSurrogate n ∧ ¬GoesOnLow cs) (h : StringText cs s?) :
    StringText ('\\' :: 'u' :: (digits ++ cs)) none

/-! ### Values -/

/-- Blanks between the parts of a text, or none. -/
def Spaces (cs : List Char) : Prop := ∀ c ∈ cs, isSpace c = true

/-- Entries with commas between them and blanks around them. They stand for a list if each of them stands
for something. -/
inductive Listed (entry : List Char → Option α → Prop) : List Char → Option (List α) → Prop
  | last {before cs after : List Char} {a? : Option α} (hbefore : Spaces before) (h : entry cs a?)
    (hafter : Spaces after) : Listed entry (before ++ (cs ++ after)) (Option.map₂ List.cons a? (some []))
  | more {before cs after later : List Char} {a? : Option α} {as? : Option (List α)}
    (hbefore : Spaces before) (h : entry cs a?) (hafter : Spaces after) (hlater : Listed entry later as?) :
    Listed entry (before ++ (cs ++ (after ++ ',' :: later))) (Option.map₂ List.cons a? as?)

/-- A member of an object, with its key and its value. -/
inductive MemberText (item : List Char → Option Json → Prop) : List Char → Option (String × Json) → Prop
  | mk {key before after cs : List Char} {s? : Option (List Char)} {v? : Option Json}
    (hkey : StringText key s?) (hbefore : Spaces before) (hafter : Spaces after) (h : item cs v?) :
    MemberText item ('"' :: (key ++ '"' :: (before ++ ':' :: (after ++ cs))))
      (Option.map₂ (fun s v => (String.ofList s, v)) s? v?)

/-- The text of a value, given the texts of numbers and, if there may be lists and objects, the texts of
what is in them. Of members with one key the last counts. -/
inductive ValueText (number : List Char → Option Number → Prop)
    (item? : Option (List Char → Option Json → Prop)) : List Char → Option Json → Prop
  | null : ValueText number item? ['n', 'u', 'l', 'l'] (some .null)
  | yes : ValueText number item? ['t', 'r', 'u', 'e'] (some (.bool true))
  | no : ValueText number item? ['f', 'a', 'l', 's', 'e'] (some (.bool false))
  | number {cs : List Char} {n? : Option Number} (h : number cs n?) :
    ValueText number item? cs (n?.map .number)
  | string {cs : List Char} {s? : Option (List Char)} (h : StringText cs s?) :
    ValueText number item? ('"' :: (cs ++ ['"'])) (s?.map fun s => .string (String.ofList s))
  | noItems {item : List Char → Option Json → Prop} {gap : List Char} (hitem : item? = some item)
    (hgap : Spaces gap) : ValueText number item? ('[' :: (gap ++ [']'])) (some (.array []))
  | array {item : List Char → Option Json → Prop} {cs : List Char} {vs? : Option (List Json)}
    (hitem : item? = some item) (h : Listed item cs vs?) :
    ValueText number item? ('[' :: (cs ++ [']'])) (vs?.map .array)
  | noMembers {item : List Char → Option Json → Prop} {gap : List Char} (hitem : item? = some item)
    (hgap : Spaces gap) : ValueText number item? ('\x7b' :: (gap ++ ['\x7d'])) (some (.object []))
  | object {item : List Char → Option Json → Prop} {cs : List Char}
    {members? : Option (List (String × Json))} (hitem : item? = some item)
    (h : Listed (MemberText item) cs members?) :
    ValueText number item? ('\x7b' :: (cs ++ ['\x7d'])) (members?.map ofMembers)

/-- The texts of values with at most so many levels of lists and objects, with the values that they stand
for. -/
def Spells (number : List Char → Option Number → Prop) : Nat → List Char → Option Json → Prop
  | 0 => ValueText number none
  | depth + 1 => ValueText number (some (Spells number depth))

/-! ### Lists -/

variable {entry entry' : List Char → Option α → Prop} {item item' : List Char → Option Json → Prop}
  {number number' : List Char → Option Number → Prop} {value? : Numeral → Option Number} {cs : List Char}
  {depth : Nat}

theorem Listed.mono {as? : Option (List α)} (h : Listed entry cs as?)
    (hentry : ∀ cs a?, entry cs a? → entry' cs a?) : Listed entry' cs as? := by
  induction h with
  | last hbefore h hafter => exact .last hbefore (hentry _ _ h) hafter
  | more hbefore h hafter _ ih => exact .more hbefore (hentry _ _ h) hafter ih

theorem MemberText.mono {member? : Option (String × Json)} (h : MemberText item cs member?)
    (hitem : ∀ cs v?, item cs v? → item' cs v?) : MemberText item' cs member? := by
  obtain ⟨hkey, hbefore, hafter, h⟩ := h
  exact .mk hkey hbefore hafter (hitem _ _ h)

theorem ValueText.mono {item? item'? : Option (List Char → Option Json → Prop)} {v? : Option Json}
    (h : ValueText number item? cs v?) (hnumber : ∀ cs n?, number cs n? → number' cs n?)
    (hitem : ∀ item, item? = some item → ∃ item', item'? = some item' ∧ ∀ cs v?, item cs v? → item' cs v?) :
    ValueText number' item'? cs v? := by
  cases h with
  | null => exact .null
  | yes => exact .yes
  | no => exact .no
  | number h => exact .number (hnumber _ _ h)
  | string h => exact .string h
  | noItems hsome hgap =>
    obtain ⟨_, hsome', -⟩ := hitem _ hsome
    exact .noItems hsome' hgap
  | noMembers hsome hgap =>
    obtain ⟨_, hsome', -⟩ := hitem _ hsome
    exact .noMembers hsome' hgap
  | array hsome h =>
    obtain ⟨_, hsome', hmore⟩ := hitem _ hsome
    exact .array hsome' (h.mono hmore)
  | object hsome h =>
    obtain ⟨_, hsome', hmore⟩ := hitem _ hsome
    exact .object hsome' (h.mono fun _ _ h => h.mono hmore)

/-- Fewer numbers, and fewer texts. -/
theorem Spells.mono {v? : Option Json} (hnumber : ∀ cs n?, number cs n? → number' cs n?)
    (h : Spells number depth cs v?) : Spells number' depth cs v? := by
  induction depth generalizing cs v? with
  | zero => exact ValueText.mono h hnumber fun _ hsome => nomatch hsome
  | succ depth ih =>
    refine ValueText.mono h hnumber fun item hsome => ⟨_, rfl, fun _ _ hitem => ih ?_⟩
    rwa [Option.some.inj hsome]

/-! ### Balance -/

/-- A character that is neither a quote nor a bracket passes a test that those do not pass. -/
theorem plain_of_test {test : Char → Bool} {c : Char} (h : test c = true)
    (hnone : ∀ d ∈ ['"', '(', ')', '[', ']', '\x7b', '\x7d'], test d = false) :
    c ≠ '"' ∧ ∀ b : Bracket, c ≠ b.opening ∧ c ≠ b.closing := by
  have hne : ∀ d ∈ ['"', '(', ')', '[', ']', '\x7b', '\x7d'], c ≠ d := by
    rintro d hd rfl
    exact absurd h (by simp [hnone c hd])
  refine ⟨hne _ (by simp), fun b => ?_⟩
  cases b <;> exact ⟨hne _ (by simp [Bracket.opening]), hne _ (by simp [Bracket.closing])⟩

theorem balanced_of_test (test : Char → Bool) (h : ∀ c ∈ cs, test c = true)
    (hnone : ∀ d ∈ ['"', '(', ')', '[', ']', '\x7b', '\x7d'], test d = false) : Balanced cs :=
  balanced_of_forall fun c hc => plain_of_test (h c hc) hnone

theorem Spaces.balanced (h : Spaces cs) : Balanced cs := balanced_of_test _ h (forall_of_all (by decide))

/-- The characters of numbers. -/
def isNumberChar (c : Char) : Bool := c.isDigit || ['-', '+', '.', 'e', 'E'].contains c

theorem Digits.forall_isNumberChar (ds : Digits) : ∀ c ∈ ds.text, isNumberChar c = true := by
  intro c hc
  simp [isNumberChar, ds.isDigit c hc]

theorem Numeral.forall_isNumberChar (l : Numeral) : ∀ c ∈ l.text, isNumberChar c = true := by
  have hfraction : ∀ c ∈ fractionText l.fraction, isNumberChar c = true := by
    cases l.fraction with
    | none => simp [fractionText]
    | some ds => exact List.forall_mem_cons.mpr ⟨rfl, ds.forall_isNumberChar⟩
  have hexponent : ∀ c ∈ exponentText l.exponent, isNumberChar c = true := by
    cases l.exponent with
    | none => simp [exponentText]
    | some e =>
      have hsign : ∀ c ∈ signText e.sign, isNumberChar c = true := by
        rcases e.sign with _ | _ | _ <;> exact forall_of_all (by decide)
      refine List.forall_mem_cons.mpr ⟨?_, List.forall_mem_append.mpr ⟨hsign, e.digits.forall_isNumberChar⟩⟩
      cases e.upper <;> decide
  refine List.forall_mem_append.mpr ⟨?_, List.forall_mem_append.mpr
    ⟨l.whole.forall_isNumberChar, List.forall_mem_append.mpr ⟨hfraction, hexponent⟩⟩⟩
  cases l.negative <;> exact forall_of_all (by decide)

theorem Numeral.balanced (l : Numeral) : Balanced l.text :=
  balanced_of_test _ l.forall_isNumberChar (forall_of_all (by decide))

theorem Quoted.of_test (test : Char → Bool) {ds : List Char} (h : ∀ c ∈ cs, test c = true)
    (hnone : ∀ d ∈ ['"', '\\', '\n'], test d = false) (hds : Quoted ds) : Quoted (cs ++ ds) := by
  induction cs with
  | nil => exact hds
  | cons c cs ih =>
    obtain ⟨hc, hcs⟩ := List.forall_mem_cons.mp h
    have hne : ∀ d ∈ ['"', '\\', '\n'], c ≠ d := by
      rintro d hd rfl
      exact absurd hc (by simp [hnone c hd])
    exact .plain (hne _ (by simp)) (hne _ (by simp)) (hne _ (by simp)) (ih hcs)

/-- The digits of an escape are no quotes, backslashes or line feeds. -/
theorem Quoted.hex {digits ds : List Char} {n : Nat} (h : hexValue4? digits = some n) (hds : Quoted ds) :
    Quoted (digits ++ ds) := by
  refine Quoted.of_test (fun c => (hexValue? c).isSome) ?_ (forall_of_all (by decide)) hds
  unfold hexValue4? at h
  split at h
  · obtain ⟨_, ha, h⟩ := Option.bind_eq_some_iff.mp h
    obtain ⟨_, hb, h⟩ := Option.bind_eq_some_iff.mp h
    obtain ⟨_, hc, h⟩ := Option.bind_eq_some_iff.mp h
    obtain ⟨_, hd, -⟩ := Option.bind_eq_some_iff.mp h
    simp [ha, hb, hc, hd]
  · cases h

/-- What stands between the quotes of a string of JSON text may stand there for the lexer too. -/
theorem StringText.quoted {s? : Option (List Char)} (h : StringText cs s?) : Quoted cs := by
  induction h with
  | nil => exact .nil
  | @plain c _ _ hquote hslash hcontrol _ ih =>
    refine .plain hquote hslash ?_ ih
    rintro rfl
    exact absurd hcontrol (by decide)
  | escape _ _ ih => exact .escape _ ih
  | unicode hn _ _ _ ih | lone hn _ _ ih => exact .escape 'u' (Quoted.hex hn ih)
  | pair hn _ hm _ _ ih => exact .escape 'u' (Quoted.hex hn (.escape 'u' (Quoted.hex hm ih)))

theorem StringText.balanced {s? : Option (List Char)} (h : StringText cs s?) {ds : List Char}
    (hds : Balanced ds) : Balanced ('"' :: (cs ++ '"' :: ds)) := .string h.quoted hds

theorem Listed.balanced {as? : Option (List α)} (h : Listed entry cs as?)
    (hentry : ∀ cs a?, entry cs a? → Balanced cs) : Balanced cs := by
  induction h with
  | last hbefore h hafter => exact hbefore.balanced.append ((hentry _ _ h).append hafter.balanced)
  | more hbefore h hafter _ ih =>
    have hcomma : Balanced [','] := balanced_of_test (· = ',') (forall_of_all (by decide)) (forall_of_all (by decide))
    exact hbefore.balanced.append ((hentry _ _ h).append (hafter.balanced.append (hcomma.append ih)))

theorem MemberText.balanced {member? : Option (String × Json)} (h : MemberText item cs member?)
    (hitem : ∀ cs v?, item cs v? → Balanced cs) : Balanced cs := by
  obtain ⟨hkey, hbefore, hafter, h⟩ := h
  have hcolon : Balanced [':'] := balanced_of_test (· = ':') (forall_of_all (by decide)) (forall_of_all (by decide))
  exact hkey.balanced (hbefore.balanced.append (hcolon.append (hafter.balanced.append (hitem _ _ h))))

theorem ValueText.balanced {item? : Option (List Char → Option Json → Prop)} {v? : Option Json}
    (h : ValueText (NumberText value?) item? cs v?)
    (hitem : ∀ item, item? = some item → ∀ cs v?, item cs v? → Balanced cs) : Balanced cs := by
  have hgroup : ∀ (b : Bracket) {cs : List Char}, Balanced cs → Balanced (b.opening :: (cs ++ [b.closing])) :=
    fun b _ h => .group b h .nil
  cases h with
  | null | yes | no => exact balanced_of_test Char.isAlpha (forall_of_all (by decide)) (forall_of_all (by decide))
  | number h =>
    obtain ⟨l, rfl, -⟩ := h
    exact l.balanced
  | string h => exact h.balanced .nil
  | noItems _ hgap => exact hgroup .square hgap.balanced
  | noMembers _ hgap => exact hgroup .curly hgap.balanced
  | array hsome h => exact hgroup .square (h.balanced (hitem _ hsome))
  | object hsome h => exact hgroup .curly (h.balanced fun _ _ h => h.balanced (hitem _ hsome))

/-- What may be in a list or an object is balanced. -/
theorem Spells.exists_item {v? : Option Json} (h : Spells (NumberText value?) depth cs v?) :
    ∃ item?, (∀ item, item? = some item → ∀ cs v?, item cs v? → Balanced cs) ∧
      ValueText (NumberText value?) item? cs v? := by
  induction depth generalizing cs v? with
  | zero => exact ⟨none, nofun, h⟩
  | succ depth ih =>
    refine ⟨some (Spells (NumberText value?) depth), ?_, h⟩
    rintro _ ⟨⟩ cs v? hitem
    obtain ⟨_, hbelow, htext⟩ := ih hitem
    exact htext.balanced hbelow

/-- JSON text is balanced, whatever stands in its strings. -/
theorem Spells.balanced {v? : Option Json} (h : Spells (NumberText value?) depth cs v?) : Balanced cs := by
  obtain ⟨_, hitem, htext⟩ := h.exists_item
  exact htext.balanced hitem

/-- A value whose text begins with a brace is one bracket group for the lexer. -/
theorem Spells.groupText {v? : Option Json} (h : Spells (NumberText value?) depth cs v?)
    (hbrace : cs.head? = some '\x7b') : GroupText .curly cs := by
  obtain ⟨_, hitem, htext⟩ := h.exists_item
  cases htext with
  | null | yes | no | string | noItems | array => exact absurd hbrace (by simp)
  | number hnumber =>
    obtain ⟨l, rfl, -⟩ := hnumber
    exact absurd (l.forall_isNumberChar _ (List.mem_of_head? hbrace)) (by decide)
  | noMembers _ hgap => exact ⟨_, hgap.balanced, rfl⟩
  | object hsome hmembers =>
    exact ⟨_, hmembers.balanced fun _ _ hmember => hmember.balanced (hitem _ hsome), rfl⟩

/-- Objects are written in braces. -/
theorem Spells.head_of_object {members : List (String × Json)}
    (h : Spells number (depth + 1) cs (some (.object members))) : cs.head? = some '\x7b' := by
  generalize hv : some (Json.object members) = v? at h
  cases h with
  | null | yes | no | noItems => cases hv
  | @number _ n? _ | @string _ n? _ | @array _ _ n? _ _ => cases n? <;> cases hv
  | noMembers | object => rfl

/-! ### Codecs -/

/-- What is relied on where a value is read from a text and written again, with what numbers stand for. -/
structure Codec.Lawful (codec : Codec) (value? : Numeral → Option Number) : Prop where
  /-- Integers of 64 bits are read as what they are. -/
  integer : ∀ {l : Numeral}, l.Integral → value? l = some (ofInteger l.negative l.natural)
  /-- The texts that are accepted are those of the grammar that stand for a value, with blanks around them. -/
  decode_eq_ok_iff : ∀ {text : String} {v : Json}, codec.decode text = .ok v ↔
    ∃ before cs after, text.toList = before ++ (cs ++ after) ∧ Spaces before ∧ Spaces after ∧
      Spells (NumberText value?) maxDepth cs (some v)
  /-- A value that has no other numbers than such integers is written as a text that stands for it. -/
  pretty_spells : ∀ {depth : Nat} {cs : List Char} {v : Json}, Spells IntegerText depth cs (some v) →
    Spells (NumberText value?) depth (codec.pretty v).toList (some v)

end Packwright.Json
