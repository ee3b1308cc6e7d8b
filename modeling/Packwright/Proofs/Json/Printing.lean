import Mathlib.Data.String.Basic
import Packwright.Proofs.Json.Acceptance

/-!
# Printed JSON text is read again

A value that is printed is a text of the grammar and stands for the same value, as long as its numbers are
integers of 64 bits. A negative zero counts as one of them: it is read as a double-precision number, and its
text is read as the same number again. The members of an object that was read are sorted by key, and so
they stay where they are when they are read again.

## Main definitions

- `Json.decimal` — the decimal digits of a natural number
- `Json.Reprints` — a value whose printed text stands for it, with a bound on the levels in it

## Main results

- `Json.stringText_escaped` — strings with their escapes
- `Json.numberText_render` — integers of 64 bits
- `Json.Spells.reprints` — what is read from a text whose numbers are integers of 64 bits
- `Json.Codec.lawful_standard` — the codec of the program
-/

namespace Packwright.Json

variable {α : Type} {cs ds : List Char} {depth : Nat}

/-! ### Strings -/

/-- A character stands for itself inside a string, with its escape. -/
theorem StringText.escapeChar {s : List Char} (h : StringText ds (some s)) (c : Char) :
    StringText (escapeChar c ++ ds) (some (c :: s)) := by
  have hletter : ∀ {e : Char}, (e, c) ∈ escapes → StringText ('\\' :: e :: ds) (some (c :: s)) :=
    fun he => .escape he h
  unfold Json.escapeChar
  split
  · next hc => exact hletter (by rw [hc]; decide)
  split
  · next hc => exact hletter (by rw [hc]; decide)
  split
  · next hc => exact hletter (by rw [hc]; decide)
  split
  · next hc => exact hletter (by rw [hc]; decide)
  split
  · next hc => exact hletter (by rw [hc]; decide)
  split
  · next hc => exact hletter (by rw [← c.ofNat_toNat, hc]; decide)
  split
  · next hc => exact hletter (by rw [← c.ofNat_toNat, hc]; decide)
  split
  · next hc =>
    have hdigits : ∀ n < 0x20, hexValue4? ['0', '0', hexDigit (n / 16), hexDigit n] = some n ∧
        ¬IsHighSurrogate n ∧ ¬IsLowSurrogate n := by
      unfold IsHighSurrogate IsLowSurrogate
      decide
    obtain ⟨hn, hhigh, hlow⟩ := hdigits _ hc
    have htext := StringText.unicode hn hhigh hlow h
    rwa [Char.ofNat_toNat] at htext
  · next hquote hslash _ _ _ _ _ hcontrol => exact .plain hquote hslash (Nat.not_lt.mp hcontrol) h

theorem stringText_escaped (s : List Char) : StringText (s.flatMap escapeChar) (some s) := by
  induction s with
  | nil => exact .nil
  | cons c s ih => exact ih.escapeChar c

/-! ### Numbers -/

theorem head_toDigits {n : Nat} (h : (Nat.toDigits 10 n).head? = some '0') : n = 0 := by
  induction n using Nat.strongRecOn with
  | ind n ih =>
    by_cases hn : n < 10
    · rw [Nat.toDigits_of_lt_base hn] at h
      have hdigits : ∀ d < 10, Nat.digitChar d = '0' → d = 0 := by decide
      exact hdigits n hn (Option.some.inj h)
    · rw [Nat.toDigits_of_base_le (by omega) (by omega), List.head?_append] at h
      have hsome : (Nat.toDigits 10 (n / 10)).head?.isSome = true := List.isSome_head?.mpr Nat.toDigits_ne_nil
      rw [Option.or_of_isSome hsome] at h
      have hzero := ih (n / 10) (by omega) h
      omega

/-- The decimal digits of a natural number. -/
def decimal (n : Nat) : Digits where
  first := (Nat.toDigits 10 n).head Nat.toDigits_ne_nil
  more := (Nat.toDigits 10 n).tail
  isDigit := by
    rw [List.cons_head_tail]
    exact fun c hc => Nat.isDigit_of_mem_toDigits (by omega) (by omega) hc

theorem decimal_text (n : Nat) : (decimal n).text = Nat.toDigits 10 n := List.cons_head_tail _

theorem decimal_noLeadingZero (n : Nat) (h : (decimal n).first = '0') : (decimal n).more = [] := by
  have hzero : n = 0 := head_toDigits (by rw [← decimal_text]; exact congrArg some h)
  rw [hzero]
  rfl

/-- An integer as it is written. -/
def integer (negative : Bool) (n : Nat) : Numeral := ⟨negative, decimal n, none, none, decimal_noLeadingZero n⟩

theorem le_ofDigitChars (cs : List Char) (n : Nat) : n ≤ Nat.ofDigitChars 10 cs n := by
  induction cs generalizing n with
  | nil => exact le_rfl
  | cons c cs ih =>
    rw [Nat.ofDigitChars_cons]
    exact le_trans (by omega) (ih _)

/-- Digits that fit are gathered whole. -/
theorem gather_of_le {n : Nat} (h : Nat.ofDigitChars 10 cs n ≤ digitLimit) (count : Nat) :
    gather n count cs = (Nat.ofDigitChars 10 cs n, count + cs.length, []) := by
  induction cs generalizing n count with
  | nil => rfl
  | cons c cs ih =>
    rw [Nat.ofDigitChars_cons] at h ⊢
    have hfirst := (le_ofDigitChars cs _).trans h
    rw [gather, if_pos hfirst, ih h, List.length_cons]
    congr 2
    omega

/-- What an integer that fits stands for. -/
theorem Numeral.Integral.value?_eq {l : Numeral} (h : l.Integral) :
    l.value? = some (ofInteger l.negative l.natural) := by
  have hfits : Nat.ofDigitChars 10 l.whole.text 0 ≤ digitLimit := by
    refine h.fits.trans ?_
    split
    · decide
    · exact le_rfl
  unfold Numeral.value?
  rw [gather_of_le hfits, h.fraction, h.exponent]
  rfl

theorem integral_integer {negative : Bool} {n : Nat} (h : n ≤ if negative then 9223372036854775808 else digitLimit) :
    (integer negative n).Integral := by
  refine ⟨rfl, rfl, ?_⟩
  show Nat.ofDigitChars 10 (decimal n).text 0 ≤ _
  rwa [decimal_text, Nat.ofDigitChars_ten_toDigits]

theorem integer_value? {negative : Bool} {n : Nat} (h : n ≤ if negative then 9223372036854775808 else digitLimit) :
    (integer negative n).value? = some (ofInteger negative n) := by
  rw [(integral_integer h).value?_eq]
  show some (ofInteger negative (Nat.ofDigitChars 10 (decimal n).text 0)) = _
  rw [decimal_text, Nat.ofDigitChars_ten_toDigits]

theorem integer_text (negative : Bool) (n : Nat) :
    (integer negative n).text = (if negative then ['-'] else []) ++ Nat.toDigits 10 n := by
  show _ ++ ((decimal n).text ++ []) = _
  rw [decimal_text, List.append_nil]
  rfl

/-- An integer of 64 bits that is printed is read as the same number again. -/
theorem numberText_render {n : Number} (h : IntegerText cs (some n)) : NumeralText n.render.toList (some n) := by
  obtain ⟨l, hl, -, hvalue⟩ := h
  have hfits := hl.fits
  obtain rfl := Option.some.inj hvalue
  generalize l.natural = k at hfits ⊢
  have hread := integer_value? hfits
  cases hnegative : l.negative with
  | false =>
    rw [hnegative] at hread
    refine ⟨integer false k, ?_, hread⟩
    rw [integer_text]
    exact Nat.toList_repr.symm
  | true =>
    rw [hnegative] at hread hfits
    by_cases hzero : k = 0
    · -- a negative zero is printed with a fraction
      rw [hzero]
      exact ⟨⟨true, decimal 0, some (decimal 0), none, decimal_noLeadingZero 0⟩, rfl, rfl⟩
    · have hvalue : ofInteger true k = .negative k := by
        have hle : ¬9223372036854775808 < k := Nat.not_lt.mpr hfits
        simp [ofInteger, hzero, hle]
      refine ⟨integer true k, ?_, hread⟩
      rw [integer_text, hvalue, Number.render, String.toList_append]
      exact congrArg _ Nat.toList_repr.symm

/-! ### Lists -/

/-- Entries that are printed one by one, with a comma and the same blanks before every other one. -/
theorem listed_printed {entry : List Char → Option α → Prop} {print : α → List Char} {gap close : List Char}
    (hgap : Spaces gap) (hclose : Spaces close) {a : α} {more : List α}
    (h : ∀ b ∈ a :: more, entry (print b) (some b)) :
    Listed entry (gap ++ (print a ++ (more.flatMap (fun b => ',' :: (gap ++ print b)) ++ close)))
      (some (a :: more)) := by
  obtain ⟨ha, hmore⟩ := List.forall_mem_cons.mp h
  induction more generalizing a with
  | nil => exact .last hgap ha hclose
  | cons b more ih =>
    have hlater := ih hmore (hmore b List.mem_cons_self) (List.forall_mem_cons.mp hmore).2
    have hlisted := Listed.more hgap ha spaces_nil hlater
    simpa using hlisted

theorem spaces_newline (level : Nat) : Spaces (newline level).toList := by
  intro c hc
  simp only [newline, String.toList_append, String.toList_ofList, List.mem_append] at hc
  rcases hc with hfeed | hblank
  · obtain rfl := List.mem_singleton.mp hfeed
    rfl
  · obtain rfl := List.eq_of_mem_replicate hblank
    rfl

theorem prettyItems_toList (level : Nat) (items : List Json) : (prettyItems level items).toList =
    items.flatMap fun v => ',' :: ((newline level).toList ++ (prettyAt level v).toList) := by
  induction items with
  | nil => rfl
  | cons v items ih => simp [prettyItems, ih]

/-- A member of an object as it is printed. -/
def printMember (level : Nat) (member : String × Json) : List Char :=
  (quote member.1).toList ++ ':' :: ' ' :: (prettyAt level member.2).toList

theorem prettyMembers_toList (level : Nat) (members : List (String × Json)) : (prettyMembers level members).toList =
    members.flatMap fun member => ',' :: ((newline level).toList ++ printMember level member) := by
  induction members with
  | nil => rfl
  | cons member members ih => simp [prettyMembers, printMember, ih]

/-! ### Values -/

/-- The printed text stands for the value, at every level, with at most so many levels of lists and objects in
it. -/
def Reprints (depth : Nat) (v : Json) : Prop :=
  ∀ level, Spells NumeralText depth (prettyAt level v).toList (some v)

theorem reprints_array {items : List Json} (h : ∀ v ∈ items, Reprints depth v) :
    Reprints (depth + 1) (.array items) := by
  intro level
  show ValueText NumeralText (some (Spells NumeralText depth)) _ _
  cases items with
  | nil =>
    have htext : (prettyAt level (.array [])).toList = '[' :: ([] ++ [']']) := by simp [prettyAt]
    rw [htext]
    exact .noItems rfl spaces_nil
  | cons v items =>
    have hlisted := listed_printed (spaces_newline (level + 1)) (spaces_newline level)
      (fun w hw => h w hw (level + 1))
    have htext : ValueText NumeralText (some (Spells NumeralText depth)) _ _ := .array rfl hlisted
    simpa [prettyAt, prettyItems_toList] using htext

theorem memberText_printMember {texts : List Char → Option Json → Prop} (level : Nat) {member : String × Json}
    (h : texts (prettyAt level member.2).toList (some member.2)) :
    MemberText texts (printMember level member) (some member) := by
  have hspace : Spaces [' '] := List.forall_mem_singleton.mpr rfl
  have hmember := MemberText.mk (stringText_escaped member.1.toList) spaces_nil hspace h
  simpa [printMember, quote] using hmember

/-- Members in the order of their keys stay where they are. -/
theorem reprints_object {members : List (String × Json)} (h : ∀ member ∈ members, Reprints depth member.2)
    (hsorted : ofMembers members = .object members) : Reprints (depth + 1) (.object members) := by
  intro level
  show ValueText NumeralText (some (Spells NumeralText depth)) _ _
  cases members with
  | nil =>
    have htext : (prettyAt level (.object [])).toList = '\x7b' :: ([] ++ ['\x7d']) := by simp [prettyAt]
    rw [htext]
    exact .noMembers rfl spaces_nil
  | cons member members =>
    have hlisted := listed_printed (spaces_newline (level + 1)) (spaces_newline level)
      (fun other hother => memberText_printMember (level + 1) (h other hother (level + 1)))
    have htext : ValueText NumeralText (some (Spells NumeralText depth)) _ _ := .object rfl hlisted
    rw [Option.map_some, hsorted] at htext
    simpa [prettyAt, prettyMembers_toList, printMember] using htext

/-! ### Members in order -/

/-- Members with one key each, in the order of the keys. -/
def Sorted (members : List (String × Json)) : Prop := members.Pairwise fun a b => a.1 < b.1

variable {key : String} {value : Json} {members : List (String × Json)}

theorem mem_of_mem_insertMember {member : String × Json} (h : member ∈ insertMember key value members) :
    member = (key, value) ∨ member ∈ members := by
  induction members with
  | nil => exact .inl (List.mem_singleton.mp h)
  | cons first members ih =>
    obtain ⟨k, v⟩ := first
    rw [insertMember] at h
    split at h
    · rcases List.mem_cons.mp h with hhere | hlater
      · exact .inl hhere
      · exact .inr (List.mem_cons_of_mem _ hlater)
    split at h
    · exact List.mem_cons.mp h
    · rcases List.mem_cons.mp h with hhere | hlater
      · exact .inr (hhere ▸ List.mem_cons_self)
      · exact (ih hlater).imp_right (List.mem_cons_of_mem _)

theorem Sorted.insertMember (h : Sorted members) (key : String) (value : Json) :
    Sorted (insertMember key value members) := by
  induction members with
  | nil => exact List.pairwise_singleton _ _
  | cons first members ih =>
    obtain ⟨k, v⟩ := first
    obtain ⟨hfirst, hmore⟩ := List.pairwise_cons.mp h
    rw [Json.insertMember]
    split
    · next heq => exact List.pairwise_cons.mpr ⟨heq ▸ hfirst, hmore⟩
    split
    · next hlt =>
      refine List.pairwise_cons.mpr ⟨List.forall_mem_cons.mpr ⟨hlt, fun b hb => ?_⟩, h⟩
      exact lt_trans hlt (hfirst b hb)
    · next hne hle =>
      refine List.pairwise_cons.mpr ⟨fun b hb => ?_, ih hmore⟩
      rcases mem_of_mem_insertMember hb with rfl | hold
      · exact lt_of_le_of_ne (not_lt.mp hle) (Ne.symm hne)
      · exact hfirst b hold

/-- A member with a key behind all others comes last. -/
theorem insertMember_append (h : ∀ member ∈ members, member.1 < key) :
    insertMember key value members = members ++ [(key, value)] := by
  induction members with
  | nil => rfl
  | cons first members ih =>
    obtain ⟨k, v⟩ := first
    obtain ⟨hfirst, hmore⟩ := List.forall_mem_cons.mp h
    rw [insertMember, if_neg hfirst.ne', if_neg hfirst.not_gt, ih hmore]
    rfl

theorem foldl_insertMember {front : List (String × Json)} (h : Sorted (front ++ members)) :
    members.foldl (fun sorted (k, v) => insertMember k v sorted) front = front ++ members := by
  induction members generalizing front with
  | nil => exact (List.append_nil front).symm
  | cons first members ih =>
    obtain ⟨k, v⟩ := first
    have hbefore := (List.pairwise_append.mp h).2.2
    have hlast : insertMember k v front = front ++ [(k, v)] :=
      insertMember_append fun member hmember => hbefore member hmember (k, v) List.mem_cons_self
    show members.foldl _ (insertMember k v front) = _
    rw [hlast, ih (by simpa using h), List.append_assoc]
    rfl

/-- An object whose members are in order is made of them as they are. -/
theorem Sorted.ofMembers (h : Sorted members) : ofMembers members = .object members :=
  congrArg Json.object (foldl_insertMember (show Sorted ([] ++ members) from h))

/-- Members put into their places one by one are in order, and each of them was there. -/
theorem Sorted.foldl_insertMember {front : List (String × Json)} (h : Sorted front)
    (members : List (String × Json)) :
    Sorted (members.foldl (fun sorted (k, v) => Json.insertMember k v sorted) front) ∧
      ∀ member ∈ members.foldl (fun sorted (k, v) => Json.insertMember k v sorted) front,
        member ∈ front ∨ member ∈ members := by
  induction members generalizing front with
  | nil => exact ⟨h, fun _ => .inl⟩
  | cons first members ih =>
    obtain ⟨hsorted, hmem⟩ := ih (h.insertMember first.1 first.2)
    refine ⟨hsorted, fun member hmember => ?_⟩
    rcases hmem member hmember with hfront | hlater
    · rcases mem_of_mem_insertMember hfront with rfl | hold
      · exact .inr List.mem_cons_self
      · exact .inl hold
    · exact .inr (List.mem_cons_of_mem _ hlater)

/-! ### What was read -/

theorem Listed.exists_entry {entry : List Char → Option α → Prop} {as : List α} (h : Listed entry cs (some as)) :
    ∀ a ∈ as, ∃ cs, entry cs (some a) := by
  generalize has : some as = as? at h
  induction h generalizing as with
  | @last _ cs _ a? _ hentry _ =>
    cases a? with
    | none => cases has
    | some a =>
      obtain rfl := Option.some.inj has
      exact List.forall_mem_singleton.mpr ⟨cs, hentry⟩
  | @more _ cs _ _ a? as? _ hentry _ _ ih =>
    cases a? with
    | none => cases has
    | some a =>
      cases as? with
      | none => cases has
      | some as =>
        obtain rfl := Option.some.inj has
        exact List.forall_mem_cons.mpr ⟨⟨cs, hentry⟩, ih rfl⟩

theorem MemberText.exists_value {texts : List Char → Option Json → Prop} {member : String × Json}
    (h : MemberText texts cs (some member)) : ∃ cs, texts cs (some member.2) := by
  generalize hmember : some member = member? at h
  obtain @⟨_, _, _, cs, s?, v?, _, _, _, hvalue⟩ := h
  cases s? with
  | none => cases hmember
  | some s =>
    cases v? with
    | none => cases hmember
    | some v =>
      obtain rfl := Option.some.inj hmember
      exact ⟨cs, hvalue⟩

/-- A value without levels is printed alike at every level. -/
theorem reprints_scalar {v : Json} {text : String} (hprint : ∀ level, prettyAt level v = text)
    (h : ∀ texts?, ValueText NumeralText texts? text.toList (some v)) (depth : Nat) : Reprints depth v := by
  intro level
  rw [hprint level]
  cases depth <;> exact h _

theorem ValueText.reprints {texts? : Option (List Char → Option Json → Prop)} {v : Json}
    (h : ValueText IntegerText texts? cs (some v))
    (hbelow : ∀ texts, texts? = some texts →
      ∃ d, depth = d + 1 ∧ ∀ cs w, texts cs (some w) → Reprints d w) : Reprints depth v := by
  generalize hv : some v = v? at h
  cases h with
  | null =>
    obtain rfl := Option.some.inj hv
    exact reprints_scalar (fun _ => rfl) (fun _ => .null) depth
  | yes =>
    obtain rfl := Option.some.inj hv
    exact reprints_scalar (fun _ => rfl) (fun _ => .yes) depth
  | no =>
    obtain rfl := Option.some.inj hv
    exact reprints_scalar (fun _ => rfl) (fun _ => .no) depth
  | @number cs n? hnumber =>
    cases n? with
    | none => cases hv
    | some n =>
      obtain rfl := Option.some.inj hv
      exact reprints_scalar (fun _ => rfl) (fun _ => .number (numberText_render hnumber)) depth
  | @string cs s? _ =>
    cases s? with
    | none => cases hv
    | some s =>
      obtain rfl := Option.some.inj hv
      have hprint : ∀ level, prettyAt level (.string (String.ofList s)) = quote (String.ofList s) := fun _ => rfl
      refine reprints_scalar hprint (fun texts'? => ?_) depth
      have htext : ValueText NumeralText texts'? _ _ := .string (stringText_escaped s)
      simpa [quote] using htext
  | noItems hsome =>
    obtain rfl := Option.some.inj hv
    obtain ⟨d, rfl, -⟩ := hbelow _ hsome
    exact reprints_array (List.forall_mem_nil _)
  | @array _ cs vs? hsome hitems =>
    obtain ⟨d, rfl, hitem⟩ := hbelow _ hsome
    cases vs? with
    | none => cases hv
    | some vs =>
      obtain rfl := Option.some.inj hv
      refine reprints_array fun w hw => ?_
      obtain ⟨cs, hcs⟩ := hitems.exists_entry w hw
      exact hitem cs w hcs
  | noMembers hsome =>
    obtain rfl := Option.some.inj hv
    obtain ⟨d, rfl, -⟩ := hbelow _ hsome
    exact reprints_object (List.forall_mem_nil _) rfl
  | @object _ cs members? hsome hmembers =>
    obtain ⟨d, rfl, hitem⟩ := hbelow _ hsome
    cases members? with
    | none => cases hv
    | some members =>
      obtain rfl := Option.some.inj hv
      obtain ⟨hsorted, hmem⟩ := Sorted.foldl_insertMember (show Sorted [] from .nil) members
      refine reprints_object (fun member hmember => ?_) hsorted.ofMembers
      have hthere := (hmem member hmember).resolve_left List.not_mem_nil
      obtain ⟨_, hentry⟩ := hmembers.exists_entry member hthere
      obtain ⟨cs, hcs⟩ := hentry.exists_value
      exact hitem cs _ hcs

/-- What is read from a text whose numbers are integers of 64 bits is printed as a text of the grammar that
stands for it. -/
theorem Spells.reprints {v : Json} (h : Spells IntegerText depth cs (some v)) : Reprints depth v := by
  induction depth generalizing cs v with
  | zero => exact ValueText.reprints h nofun
  | succ depth ih =>
    refine ValueText.reprints h fun texts hsome => ⟨depth, rfl, fun cs w hw => ?_⟩
    rw [← Option.some.inj hsome] at hw
    exact ih hw

/-- The codec of the program reads and writes the texts of the grammar. -/
theorem Codec.lawful_standard : Codec.standard.Lawful Numeral.value? where
  integer := Numeral.Integral.value?_eq
  decode_eq_ok_iff {text v} := by
    rw [← parse_eq_ok_iff]
    show (parse text).mapError Mistake.report = .ok v ↔ _
    cases parse text with
    | error m => exact ⟨nofun, nofun⟩
    | ok w => exact ⟨fun h => congrArg Except.ok (Except.ok.inj h), fun h => congrArg Except.ok (Except.ok.inj h)⟩
  pretty_spells h := h.reprints 0

end Packwright.Json
