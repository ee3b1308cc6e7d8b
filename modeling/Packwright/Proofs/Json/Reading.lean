import Packwright.Proofs.Json.Grammar

/-!
# Reading the grammar of JSON text

The reader accepts a text of the grammar exactly if it stands for a value, and gives this value. A step of
the reader is told by the piece of the text that it takes, whatever stands behind it; the piece may end
where what follows cannot go on with it. Where a piece stands for nothing, the step fails, and so do the
steps around it.

## Main definitions

- `Json.Takes` — a step takes a piece of the text and gives what it stands for
- `Json.Stops`, `Json.Ends` — what follows cannot go on with digits, or with a number

## Main results

- `Json.takes_readString`, `Json.takes_readNumber`, `Json.takes_readValue` — strings, numbers and values
- `Json.parse_of_spells` — a whole text
-/

namespace Packwright.Json

variable {α β : Type} {m : Read α} {a? : Option α} {cs ds rest : List Char} {c d : Char} {r : Reader}

/-- What is there is given, and `rest` is still to be read; where there is nothing, the step fails. -/
def Gives (result : Except Mistake (α × Reader)) (rest : List Char) : Option α → Prop
  | some a => ∃ r, result = .ok (a, r) ∧ r.rest = rest
  | none => ∃ e, result = .error e

/-- In front of `rest` the step takes the piece `cs` and gives what it stands for; it fails where the piece
stands for nothing. -/
def Takes (m : Read α) (cs rest : List Char) (a? : Option α) : Prop :=
  ∀ r : Reader, r.rest = cs ++ rest → Gives (m r) rest a?

/-- The text does not begin with a character that passes the test. -/
def Stops (test : Char → Bool) (cs : List Char) : Prop := ∀ c ∈ cs.head?, test c = false

/-- A number is at its end in front of this text. -/
def Ends (cs : List Char) : Prop := ∀ c ∈ cs.head?, isSpace c = true ∨ c ∈ [',', ']', '\x7d']

/-! ### Steps -/

theorem takes_pure (a : α) : Takes (pure a) [] rest (some a) := fun r h => ⟨r, rfl, h⟩

theorem takes_failHere (p : Problem) : Takes (failHere p : Read α) cs rest none := fun _ _ => ⟨_, rfl⟩

/-- A step that depends on the reader. -/
theorem takes_get_bind {f : Reader → Read α} (hf : ∀ r, r.rest = cs ++ rest → Gives (f r r) rest a?) :
    Takes (get >>= f) cs rest a? := hf

/-- Two steps, the second one where the first one gives something. -/
theorem Takes.bind {f : α → Read β} {g : α → Option β} (hm : Takes m cs (ds ++ rest) a?)
    (hf : ∀ a, a? = some a → Takes (f a) ds rest (g a)) : Takes (m >>= f) (cs ++ ds) rest (a?.bind g) := by
  intro r hr
  rw [List.append_assoc] at hr
  have hfirst := hm r hr
  show Gives ((m r).bind fun p => f p.1 p.2) rest _
  cases a? with
  | none =>
    obtain ⟨e, he⟩ := hfirst
    exact ⟨e, by rw [he]; rfl⟩
  | some a =>
    obtain ⟨r', hok, hrest⟩ := hfirst
    rw [hok]
    exact hf a rfl r' hrest

/-- Two steps, the first of which gives something. -/
theorem Takes.next {f : α → Read β} {a : α} {b? : Option β} (hm : Takes m cs (ds ++ rest) (some a))
    (hf : Takes (f a) ds rest b?) : Takes (m >>= f) (cs ++ ds) rest b? :=
  Takes.bind (g := fun _ => b?) hm fun _ ha => Option.some.inj ha ▸ hf

/-- Two steps, the second of which only looks at what follows. -/
theorem Takes.last {f : α → Read β} {a : α} {b? : Option β} (hm : Takes m cs rest (some a))
    (hf : Takes (f a) [] rest b?) : Takes (m >>= f) cs rest b? := by
  rw [← List.append_nil cs]
  exact Takes.next hm hf

theorem Takes.ite {m' : Read α} {b? : Option α} {p : Prop} [Decidable p] (h : p → Takes m cs rest a?)
    (h' : ¬p → Takes m' cs rest b?) : Takes (if p then m else m') cs rest (if p then a? else b?) := by
  by_cases hp : p
  · simpa only [if_pos hp] using h hp
  · simpa only [if_neg hp] using h' hp

/-- What is made of the result. -/
theorem Takes.map (hm : Takes m cs rest a?) (g : α → β) :
    Takes (m >>= fun a => pure (g a)) cs rest (a?.map g) := by
  rw [Option.map_eq_bind, ← List.append_nil cs]
  exact Takes.bind hm fun a _ => takes_pure (g a)

/-- A step that fails does so wherever the piece is thought to end. -/
theorem Takes.refuse {back : List Char} (heq : cs ++ rest = ds ++ back) (hm : Takes m cs rest none) :
    Takes m ds back none := fun r hr => hm r (hr.trans heq.symm)

theorem Takes.fails {f : α → Read β} (hm : Takes m cs rest none) : Takes (m >>= f) cs rest none := by
  intro r hr
  obtain ⟨e, he⟩ := hm r hr
  exact ⟨e, by show (m r).bind _ = _; rw [he]; rfl⟩

theorem takes_peek : Takes peek [] rest (some rest.head?) := by
  rintro ⟨_, line, column⟩ rfl
  exact ⟨_, rfl, rfl⟩

/-- A character that is looked at first. -/
theorem Takes.peek {f : Option Char → Read α} (h : Takes (f (cs ++ rest).head?) cs rest a?) :
    Takes (peek >>= f) cs rest a? := Takes.next takes_peek h

theorem takes_next (c : Char) : Takes next [c] rest (some (some c)) := by
  rintro ⟨_, line, column⟩ rfl
  exact ⟨_, rfl, by unfold Reader.advance; split <;> rfl⟩

/-- Characters that are single bytes are passed over. -/
theorem skipFrom_rest (hone : ∀ c ∈ cs, c.utf8Size = 1) (r : Reader) :
    (r.skipFrom cs.length (cs ++ rest)).rest = rest := by
  induction cs generalizing r with
  | nil => cases rest <;> rfl
  | cons c cs ih =>
    obtain ⟨hc, hcs⟩ := List.forall_mem_cons.mp hone
    rw [List.length_cons, List.cons_append, Reader.skipFrom, hc, if_pos (by omega), Nat.add_sub_cancel]
    exact ih hcs _

theorem takes_nextByte (hc : c.utf8Size = 1) : Takes nextByte [c] rest (some (some c)) := by
  rintro ⟨_, line, column⟩ rfl
  have hone : ∀ d ∈ [c], d.utf8Size = 1 := List.forall_mem_singleton.mpr hc
  exact ⟨_, rfl, skipFrom_rest hone _⟩

theorem skipWhile_rest (test : Char → Bool) (r : Reader) (cs : List Char) :
    (skipWhile test r cs).rest = cs.dropWhile test := by
  induction cs generalizing r with
  | nil => rfl
  | cons c cs ih =>
    rw [skipWhile, List.dropWhile_cons]
    split
    · exact ih _
    · rfl

theorem Stops.dropWhile_append {test : Char → Bool} (hrest : Stops test rest)
    (hcs : ∀ c ∈ cs, test c = true) : (cs ++ rest).dropWhile test = rest := by
  rw [List.dropWhile_append_of_pos hcs]
  cases rest with
  | nil => rfl
  | cons c rest => exact List.dropWhile_cons_of_neg (by simp [hrest c rfl])

theorem Stops.takeWhile_append {test : Char → Bool} (hrest : Stops test rest)
    (hcs : ∀ c ∈ cs, test c = true) : (cs ++ rest).takeWhile test = cs := by
  rw [List.takeWhile_append_of_pos hcs]
  cases rest with
  | nil => simp
  | cons c rest => rw [List.takeWhile_cons_of_neg (by simp [hrest c rfl]), List.append_nil]

/-- Blanks in front are passed over. -/
theorem takes_peekPastSpace (hcs : Spaces cs) (hrest : Stops isSpace rest) :
    Takes peekPastSpace cs rest (some rest.head?) := by
  intro r hr
  have hskip : (skipWhile isSpace r r.rest).rest = rest := by
    rw [skipWhile_rest, hr, hrest.dropWhile_append hcs]
  exact ⟨_, by rw [← hskip]; rfl, hskip⟩

theorem takes_readWord (hcs : ∀ c ∈ cs, c.utf8Size = 1) : Takes (readWord cs) cs rest (some ()) := by
  induction cs with
  | nil => exact takes_pure ()
  | cons c cs ih =>
    obtain ⟨hc, hcs⟩ := List.forall_mem_cons.mp hcs
    refine (takes_nextByte hc).next ?_
    simpa using ih hcs

/-! ### Strings -/

theorem takes_readHex4 {n : Nat} (hn : hexValue4? cs = some n) : Takes readHex4 cs rest (some n) := by
  refine takes_get_bind fun r hr => ?_
  obtain ⟨hlength, hone⟩ := exists_of_hexValue4? hn
  have hbytes : ¬Text.byteLength r.rest < 4 := by
    rw [hr, Text.byteLength_append]
    have hle := Text.length_le_byteLength cs
    omega
  have htake : r.rest.take 4 = cs := by rw [hr, ← hlength, List.take_left]
  rw [if_neg hbytes, htake, hn]
  refine ⟨_, rfl, ?_⟩
  rw [Reader.skipBytes, hr, ← hlength]
  exact skipFrom_rest hone r

theorem takes_expectInPair (hc : c.utf8Size = 1) : Takes (expectInPair c) [c] rest (some ()) := by
  refine Takes.peek ((takes_nextByte hc).last ?_)
  rw [if_neg (not_not.mpr rfl)]
  exact takes_pure ()

theorem refuses_expectInPair (hd : d ≠ c) : Takes (expectInPair c) [] (d :: rest) none := by
  refine Takes.peek ?_
  show Takes (nextByte >>= fun _ => if d ≠ c then failHere .endInEscape else pure ()) _ _ _
  rw [if_pos hd]
  exact fun _ _ => ⟨_, rfl⟩

theorem takes_readUnicode {n : Nat} (hn : hexValue4? cs = some n) (hhigh : ¬IsHighSurrogate n)
    (hlow : ¬IsLowSurrogate n) : Takes readUnicode cs rest (some (Char.ofNat n)) := by
  unfold IsHighSurrogate IsLowSurrogate at *
  refine (takes_readHex4 hn).last ?_
  rw [if_neg (by simpa using hlow), if_pos (by simp; omega)]
  exact takes_pure _

theorem takes_readUnicode_pair {low : List Char} {n k : Nat} (hn : hexValue4? cs = some n)
    (hhigh : IsHighSurrogate n) (hk : hexValue4? low = some k) (hlow : IsLowSurrogate k) :
    Takes readUnicode (cs ++ '\\' :: 'u' :: low) rest
      (some (Char.ofNat ((n - 0xD800) * 1024 + (k - 0xDC00) + 0x10000))) := by
  unfold IsHighSurrogate IsLowSurrogate at *
  refine (takes_readHex4 hn).next ?_
  rw [if_neg (by simp; omega), if_neg (by simp; omega)]
  refine (takes_expectInPair (c := '\\') rfl).next ((takes_expectInPair (c := 'u') rfl).next ?_)
  refine (takes_readHex4 hk).last ?_
  rw [if_neg (by simp; omega)]
  exact takes_pure _

/-- What is behind the first half of a surrogate pair where the second half does not follow: no escape, one of
another kind, or one with another value. -/
theorem StringText.exists_behind_high {s? : Option (List Char)} (h : StringText cs s?) (hlone : ¬GoesOnLow cs)
    (rest : List Char) :
    (∃ c more, cs ++ '"' :: rest = c :: more ∧ c ≠ '\\') ∨
      (∃ c more, cs ++ '"' :: rest = '\\' :: c :: more ∧ c ≠ 'u') ∨
      ∃ digits k more, cs ++ '"' :: rest = '\\' :: 'u' :: (digits ++ more) ∧
        hexValue4? digits = some k ∧ ¬IsLowSurrogate k := by
  have hdisjoint : ∀ {k : Nat}, IsHighSurrogate k → ¬IsLowSurrogate k := by
    unfold IsHighSurrogate IsLowSurrogate
    omega
  have hbehind : ∀ digits cs : List Char, '\\' :: 'u' :: (digits ++ cs) ++ '"' :: rest =
      '\\' :: 'u' :: (digits ++ (cs ++ '"' :: rest)) := by simp
  cases h with
  | nil => exact .inl ⟨'"', rest, rfl, by decide⟩
  | plain _ hslash _ _ => exact .inl ⟨_, _, rfl, hslash⟩
  | escape hc _ =>
    have hletter : ∀ p ∈ escapes, p.1 ≠ 'u' := by decide
    exact .inr (.inl ⟨_, _, rfl, hletter _ hc⟩)
  | unicode hn _ hlow _ => exact .inr (.inr ⟨_, _, _, hbehind _ _, hn, hlow⟩)
  | pair hn hhigh _ _ _ => exact .inr (.inr ⟨_, _, _, hbehind _ _, hn, hdisjoint hhigh⟩)
  | lone hn hhalf _ =>
    refine .inr (.inr ⟨_, _, _, hbehind _ _, hn, ?_⟩)
    obtain hlow | ⟨hhigh, -⟩ := hhalf
    · exact fun _ => hlone ⟨_, _, _, hn, hlow, rfl⟩
    · exact hdisjoint hhigh

/-- Half of a surrogate pair is refused where the other half is not found. -/
theorem refuses_readUnicode {n : Nat} {s? : Option (List Char)} (hn : hexValue4? cs = some n)
    (hhalf : IsLowSurrogate n ∨ IsHighSurrogate n ∧ ¬GoesOnLow ds) (hds : StringText ds s?) :
    Takes readUnicode cs (ds ++ '"' :: rest) none := by
  refine (takes_readHex4 hn).last ?_
  obtain hlow | ⟨hhigh, hlone⟩ := hhalf
  · unfold IsLowSurrogate at hlow
    rw [if_pos (by simpa using hlow)]
    exact takes_failHere _
  unfold IsHighSurrogate at hhigh
  rw [if_neg (by simp; omega), if_neg (by simp; omega)]
  obtain ⟨c, more, hmore, hc⟩ | ⟨c, more, hmore, hc⟩ | ⟨digits, k, more, hmore, hk, hlow⟩ :=
    hds.exists_behind_high hlone rest
  · rw [hmore]
    exact (refuses_expectInPair hc).fails
  · refine Takes.refuse (show ['\\'] ++ c :: more = _ from hmore.symm) ?_
    refine (takes_expectInPair (c := '\\') rfl).last ?_
    exact (refuses_expectInPair hc).fails
  · unfold IsLowSurrogate at hlow
    refine Takes.refuse (show '\\' :: 'u' :: digits ++ more = _ from hmore.symm) ?_
    refine (takes_expectInPair (c := '\\') rfl).next ((takes_expectInPair (c := 'u') rfl).next ?_)
    refine (takes_readHex4 hk).last ?_
    rw [if_pos (by simp; omega)]
    exact takes_failHere _

theorem takes_readEscape (hc : (c, d) ∈ escapes) : Takes readEscape [c] rest (some d) := by
  have hone : ∀ p ∈ escapes, p.1.utf8Size = 1 := by decide
  refine (takes_nextByte (hone _ hc)).last ?_
  simp only [escapes, List.mem_cons, Prod.mk.injEq, List.not_mem_nil, or_false] at hc
  rcases hc with ⟨rfl, rfl⟩ | ⟨rfl, rfl⟩ | ⟨rfl, rfl⟩ | ⟨rfl, rfl⟩ | ⟨rfl, rfl⟩ | ⟨rfl, rfl⟩ | ⟨rfl, rfl⟩ |
    ⟨rfl, rfl⟩ <;> exact takes_pure _

theorem takes_readEscape_unicode {a? : Option Char} (h : Takes readUnicode cs rest a?) :
    Takes readEscape ('u' :: cs) rest a? := (takes_nextByte (c := 'u') rfl).next h

/-- A string up to its closing quote, with what was read of it before. -/
theorem takes_readStringWithin {s? : Option (List Char)} (h : StringText cs s?) {fuel : Nat}
    (hfuel : cs.length < fuel) (read : List Char) :
    Takes (readStringWithin fuel read) (cs ++ ['"']) rest (s?.map (read.reverse ++ ·)) := by
  -- an escape that stands for a character is put in front of what is read behind it
  have hescape : ∀ {escape : List Char} {d : Char} {cs : List Char} {s? : Option (List Char)} {fuel : Nat}
      {read : List Char}, (∀ {rest}, Takes readEscape escape rest (some d)) →
      Takes (readStringWithin fuel (d :: read)) (cs ++ ['"']) rest (s?.map ((d :: read).reverse ++ ·)) →
      Takes (readStringWithin (fuel + 1) read) ('\\' :: (escape ++ cs) ++ ['"']) rest
        ((s?.map (d :: ·)).map (read.reverse ++ ·)) := by
    intro escape d cs s? fuel read hread hmore
    rw [List.cons_append, List.append_assoc]
    refine (takes_next '\\').next (hread.next ?_)
    simpa [Function.comp_def] using hmore
  induction h generalizing fuel read with
  | nil =>
    obtain ⟨fuel, rfl⟩ := Nat.exists_eq_add_of_lt hfuel
    refine (takes_next '"').last ?_
    simpa using takes_pure read.reverse
  | @plain c cs s? hquote hslash hcontrol _ ih =>
    obtain ⟨fuel, rfl⟩ := Nat.exists_eq_add_of_lt hfuel
    refine (takes_next c).next ?_
    simp only [hquote, hslash, Nat.not_lt.mpr hcontrol, if_false]
    have hlength : cs.length < (c :: cs).length + fuel := by
      simp
      omega
    have hmore := ih hlength (c :: read)
    simpa [Function.comp_def] using hmore
  | escape hc _ ih =>
    obtain ⟨fuel, rfl⟩ := Nat.exists_eq_add_of_lt hfuel
    exact hescape (takes_readEscape hc) (ih (by simp; omega) _)
  | unicode hn hhigh hlow _ ih =>
    obtain ⟨fuel, rfl⟩ := Nat.exists_eq_add_of_lt hfuel
    exact hescape (takes_readEscape_unicode (takes_readUnicode hn hhigh hlow)) (ih (by simp; omega) _)
  | @pair high low cs n k s? hn hhigh hk hlow _ ih =>
    obtain ⟨fuel, rfl⟩ := Nat.exists_eq_add_of_lt hfuel
    have htext : '\\' :: 'u' :: (high ++ '\\' :: 'u' :: (low ++ cs)) =
        '\\' :: ('u' :: (high ++ '\\' :: 'u' :: low) ++ cs) := by simp
    rw [htext] at hfuel ⊢
    exact hescape (takes_readEscape_unicode (takes_readUnicode_pair hn hhigh hk hlow)) (ih (by simp; omega) _)
  | @lone digits cs n s? hn hhalf h _ =>
    obtain ⟨fuel, rfl⟩ := Nat.exists_eq_add_of_lt hfuel
    refine Takes.refuse (show '\\' :: 'u' :: digits ++ (cs ++ '"' :: rest) = _ by simp) ?_
    refine (takes_next '\\').next ?_
    exact (takes_readEscape_unicode (refuses_readUnicode hn hhalf h)).fails

theorem takes_readString {s? : Option (List Char)} (h : StringText cs s?) :
    Takes readString (cs ++ ['"']) rest (s?.map String.ofList) := by
  refine takes_get_bind fun r hr => ?_
  have hlength : cs.length < r.rest.length + 1 := by
    simp only [hr, List.length_append]
    omega
  have hread := (takes_readStringWithin h hlength []).map String.ofList r hr
  simpa using hread

/-! ### Numbers -/

theorem takes_readDigits (hcs : ∀ c ∈ cs, c.isDigit = true) (hrest : Stops Char.isDigit rest) :
    Takes readDigits cs rest (some cs) := by
  refine takes_get_bind fun r hr => ?_
  have hskip : (skipWhile Char.isDigit r r.rest).rest = rest := by
    rw [skipWhile_rest, hr, hrest.dropWhile_append hcs]
  refine ⟨_, ?_, hskip⟩
  show Except.ok (r.rest.takeWhile Char.isDigit, _) = _
  rw [hr, hrest.takeWhile_append hcs]

theorem takes_ofParts (negative : Bool) (n : Nat) (e : Int) :
    Takes (ofParts negative n e) [] rest (double? negative n e) := by
  unfold ofParts
  cases double? negative n e with
  | none => exact takes_failHere _
  | some value => exact takes_pure value

/-- The digits of an exponent are read up to the one that passes the limit. -/
theorem takes_readExponentDigits (hcs : ∀ c ∈ cs, c.isDigit = true) (hrest : Stops Char.isDigit rest) {fuel : Nat}
    (hfuel : cs.length ≤ fuel) (n : Nat) : ∃ front back, cs = front ++ back ∧
      ((gatherExponent n cs).2 = false → back = []) ∧
      Takes (readExponentDigits n fuel) front (back ++ rest) (some (gatherExponent n cs)) := by
  induction cs generalizing n fuel with
  | nil =>
    refine ⟨[], [], rfl, fun _ => rfl, ?_⟩
    cases fuel with
    | zero => exact takes_pure _
    | succ fuel =>
      refine Takes.peek ?_
      cases rest with
      | nil => exact takes_pure _
      | cons c rest =>
        have hc := hrest c rfl
        simp only [List.nil_append, List.head?_cons, hc]
        exact takes_pure _
  | cons c cs ih =>
    obtain ⟨hc, hcs⟩ := List.forall_mem_cons.mp hcs
    obtain ⟨fuel, rfl⟩ := Nat.exists_eq_add_of_lt (Nat.lt_of_lt_of_le (Nat.succ_pos _) hfuel)
    rw [Nat.zero_add] at hfuel ⊢
    -- the digit is read, and then the limit decides whether to go on
    have hdigit : ∀ {front back : List Char} {result : Nat × Bool},
        Takes (if 10 * n + (c.toNat - '0'.toNat) ≤ exponentLimit then
            readExponentDigits (10 * n + (c.toNat - '0'.toNat)) fuel else pure (n, true))
          front (back ++ rest) (some result) →
        Takes (readExponentDigits n (fuel + 1)) (c :: front) (back ++ rest) (some result) := by
      intro front back result h
      refine Takes.peek ?_
      simp only [List.cons_append, List.head?_cons, hc, if_true]
      exact (takes_next c).next h
    rw [gatherExponent]
    by_cases hlimit : 10 * n + (c.toNat - '0'.toNat) ≤ exponentLimit
    · obtain ⟨front, back, rfl, hback, htakes⟩ := ih hcs (Nat.le_of_succ_le_succ hfuel)
        (10 * n + (c.toNat - '0'.toNat))
      refine ⟨c :: front, back, rfl, ?_, hdigit ?_⟩
      · rwa [if_pos hlimit]
      · rwa [if_pos hlimit, if_pos hlimit]
    · refine ⟨[c], cs, rfl, ?_, hdigit ?_⟩
      · rw [if_neg hlimit]
        exact nofun
      · rw [if_neg hlimit, if_neg hlimit]
        exact takes_pure _

theorem takes_readSign (sign : Option Bool) (hrest : ∃ c ∈ rest.head?, c.isDigit = true) :
    Takes readSign (signText sign) rest (some (sign = some true)) := by
  rcases sign with _ | _ | _
  · obtain ⟨c, hc, hdigit⟩ := hrest
    refine Takes.peek ?_
    rw [show (signText none ++ rest).head? = some c from hc]
    split
    · next heq => exact absurd (Option.some.inj heq ▸ hdigit) (by decide)
    · next heq => exact absurd (Option.some.inj heq ▸ hdigit) (by decide)
    · exact takes_pure false
  · exact Takes.peek ((takes_next '+').next (takes_pure false))
  · exact Takes.peek ((takes_next '-').next (takes_pure true))

theorem takes_readScale (e : Exponent) (hrest : Stops Char.isDigit rest) (negative : Bool) (n : Nat) (start : Int) :
    Takes (readScale (e.sign = some true) negative n start) e.digits.text rest (e.scale? negative n start) := by
  obtain ⟨upper, sign, first, more, hdigits⟩ := e
  obtain ⟨hfirst, hmore⟩ := List.forall_mem_cons.mp hdigits
  have hone : first.utf8Size = 1 := utf8Size_of_hexValue? (if_pos hfirst)
  refine (takes_nextByte hone).next ?_
  simp only [hfirst, if_true, Exponent.scale?]
  refine takes_get_bind fun r hr => ?_
  obtain ⟨front, back, rfl, hback, hread⟩ := takes_readExponentDigits hmore hrest
    (show more.length ≤ r.rest.length by simp [hr]) (first.toNat - '0'.toNat)
  refine Takes.next hread ?_ r hr
  generalize gatherExponent (first.toNat - '0'.toNat) (front ++ back) = result at hback ⊢
  obtain ⟨value, passed⟩ := result
  cases passed with
  | false =>
    obtain rfl := hback rfl
    simpa only [Bool.false_eq_true, if_false, decide_eq_true_eq] using takes_ofParts _ _ _
  | true =>
    simp only [if_true]
    split
    · exact takes_failHere _
    · have hdigits : ∀ c ∈ back, c.isDigit = true := (List.forall_mem_append.mp hmore).2
      exact (takes_readDigits hdigits hrest).last (takes_pure _)

theorem takes_readExponent (e : Exponent) (hrest : Stops Char.isDigit rest) (negative : Bool) (n : Nat) (start : Int) :
    Takes (readExponent negative n start) e.text rest (e.scale? negative n start) := by
  have hdigit : ∃ c ∈ (e.digits.text ++ rest).head?, c.isDigit = true :=
    ⟨_, rfl, e.digits.isDigit _ List.mem_cons_self⟩
  refine (takes_next _).next ((takes_readSign e.sign hdigit).next ?_)
  exact takes_readScale e hrest negative n start

theorem Ends.stops (h : Ends rest) (test : Char → Bool)
    (htest : ∀ c ∈ [' ', '\n', '\t', '\r', ',', ']', '\x7d'], test c = false) : Stops test rest := by
  intro c hc
  refine htest c ?_
  rcases h c hc with hspace | hmark
  · simp only [isSpace, Bool.or_eq_true, decide_eq_true_eq] at hspace
    rcases hspace with ((rfl | rfl) | rfl) | rfl <;> decide
  · simp only [List.mem_cons, List.not_mem_nil, or_false] at hmark
    rcases hmark with rfl | rfl | rfl <;> decide

/-- An exponent, if there is one, is all that is left of a number. -/
theorem takes_readTail (e? : Option Exponent) (hrest : Ends rest) (negative : Bool) (n : Nat) (start : Int) :
    Takes (readTail negative n start) (exponentText e?) rest (scaled? negative n start e?) := by
  cases e? with
  | none =>
    refine Takes.peek ?_
    have hletter := hrest.stops (fun c => c = 'e' || c = 'E') (forall_of_all (by decide))
    split
    · next heq => exact absurd (hletter _ heq) (by decide)
    · next heq => exact absurd (hletter _ heq) (by decide)
    · exact takes_ofParts _ _ _
  | some e =>
    have hdigits := hrest.stops Char.isDigit (forall_of_all (by decide))
    have hread := takes_readExponent e hdigits negative n start
    refine Takes.peek ?_
    obtain ⟨upper, sign, digits⟩ := e
    cases upper <;> exact hread

theorem takes_readFraction (ds : Digits) (e? : Option Exponent) (hrest : Ends rest) (negative : Bool) (n : Nat)
    (start : Int) : Takes (readFraction negative n start) ('.' :: (ds.text ++ exponentText e?)) rest
      (scaled? negative (gather n 0 ds.text).1 (start - (gather n 0 ds.text).2.1) e?) := by
  have hstops : Stops Char.isDigit (exponentText e? ++ rest) := by
    rcases e? with _ | ⟨upper, sign, digits⟩
    · exact hrest.stops _ (forall_of_all (by decide))
    · cases upper <;> exact fun c hc => Option.some.inj hc ▸ rfl
  refine (takes_next '.').next ((takes_readDigits ds.isDigit hstops).next ?_)
  exact takes_readTail e? hrest negative _ _

theorem takes_readWhole (ds : Digits) (hzero : ds.first = '0' → ds.more = []) (hrest : Stops Char.isDigit rest) :
    Takes (readWhole ds.first) ds.more rest (some ds.text) := by
  unfold readWhole
  split
  · next hfirst =>
    have hmore := hzero hfirst
    refine Takes.peek ?_
    have hdigit : (((ds.more ++ rest).head?).map Char.isDigit).getD false = false := by
      rw [hmore, List.nil_append]
      cases hhead : rest.head? with
      | none => rfl
      | some c => exact hrest c hhead
    rw [hdigit, if_neg Bool.false_ne_true, hmore]
    have htext : ds.text = [ds.first] := by rw [Digits.text, hmore]
    exact htext ▸ takes_pure _
  · have hmore := (List.forall_mem_cons.mp ds.isDigit).2
    exact (takes_readDigits hmore hrest).last (takes_pure _)

/-- What is behind the digits before the point is read after them. -/
theorem takes_readBehindWhole (l : Numeral) (hrest : Ends rest) :
    Takes (readBehindWhole l.negative l.whole.text) (fractionText l.fraction ++ exponentText l.exponent) rest
      l.value? := by
  obtain ⟨negative, whole, fraction, e?, hzero⟩ := l
  have hdigits := hrest.stops Char.isDigit (forall_of_all (by decide))
  refine Takes.peek ?_
  rcases fraction with _ | ds
  · rcases e? with _ | e
    · have hmark := hrest.stops (fun c => c = '.' || c = 'e' || c = 'E') (forall_of_all (by decide))
      simp only [fractionText, exponentText, Numeral.value?]
      split
      · next heq => exact absurd (hmark _ heq) (by decide)
      · next heq => exact absurd (hmark _ heq) (by decide)
      · next heq => exact absurd (hmark _ heq) (by decide)
      exact Takes.ite (fun _ => takes_pure _) fun _ => takes_ofParts _ _ _
    · have hread := takes_readExponent e hdigits negative (gather 0 0 whole.text).1 (gather 0 0 whole.text).2.2.length
      obtain ⟨upper, sign, digits⟩ := e
      cases upper <;> exact hread
  · exact takes_readFraction ds e? hrest negative _ _

theorem takes_readNumber (l : Numeral) (hrest : Ends rest) :
    Takes (readNumber l.negative) l.magnitude rest l.value? := by
  have hfirst : l.whole.first.isDigit = true := l.whole.isDigit _ List.mem_cons_self
  have hone : l.whole.first.utf8Size = 1 := utf8Size_of_hexValue? (if_pos hfirst)
  have hstops : Stops Char.isDigit (fractionText l.fraction ++ exponentText l.exponent ++ rest) := by
    rcases l.fraction with _ | ds
    · rcases l.exponent with _ | ⟨upper, sign, digits⟩
      · exact hrest.stops _ (forall_of_all (by decide))
      · cases upper <;> exact fun c hc => Option.some.inj hc ▸ rfl
    · exact fun c hc => Option.some.inj hc ▸ rfl
  refine (takes_nextByte hone).next ?_
  simp only [hfirst, if_true]
  exact (takes_readWhole l.whole l.noLeadingZero hstops).next (takes_readBehindWhole l hrest)

/-! ### Values -/

/-- A character that a value may begin with. -/
def isStart (c : Char) : Bool :=
  c.isDigit || ['n', 't', 'f', '-', '"', '[', '\x7b'].contains c

/-- The step takes the texts of a relation, with blanks before them and anything behind them that ends a
number, and each of them begins as a value does. -/
structure TakesAll (m : Read α) (texts : List Char → Option α → Prop) : Prop where
  exists_start : ∀ cs a?, texts cs a? → ∃ c more, cs = c :: more ∧ isStart c = true
  takes : ∀ gap cs rest a?, Spaces gap → texts cs a? → Ends rest → Takes m (gap ++ cs) rest a?

theorem isStart_false (hc : c ∈ [' ', '\n', '\t', '\r', ',', ']', '\x7d']) : isStart c = false := by
  have hall : ∀ d ∈ [' ', '\n', '\t', '\r', ',', ']', '\x7d'], isStart d = false := forall_of_all (by decide)
  exact hall c hc

theorem ne_of_isStart (hc : isStart c = true) (hd : isStart d = false) : c ≠ d := by
  rintro rfl
  exact absurd hc (by simp [hd])

theorem not_isSpace_of_isStart (hc : isStart c = true) : isSpace c = false := by
  have hne : ∀ d ∈ [' ', '\n', '\t', '\r'], c ≠ d := by
    intro d hd
    exact ne_of_isStart hc (isStart_false (List.mem_append_left _ hd))
  simp only [List.forall_mem_cons] at hne
  simp [isSpace, hne]

theorem stops_cons {test : Char → Bool} (hc : test c = false) : Stops test (c :: rest) :=
  fun _ hd => Option.some.inj hd ▸ hc

theorem spaces_nil : Spaces [] := nofun

theorem stops_nil {test : Char → Bool} : Stops test [] := fun _ hc => nomatch hc

theorem ends_nil : Ends [] := fun _ hc => nomatch hc

theorem Spaces.ends_append (hcs : Spaces cs) (hrest : Ends rest) : Ends (cs ++ rest) := by
  cases cs with
  | nil => exact hrest
  | cons c cs => exact fun _ hd => .inl (Option.some.inj hd ▸ hcs c List.mem_cons_self)

theorem ends_cons (hc : c ∈ [',', ']', '\x7d']) : Ends (c :: rest) := fun _ hd => .inr (Option.some.inj hd ▸ hc)

/-- What stands before an entry of a list: blanks before the first one, and a comma before any other. -/
inductive Lead : Bool → List Char → Prop
  | first {gap : List Char} (hgap : Spaces gap) : Lead true gap
  | comma {before gap : List Char} (hbefore : Spaces before) (hgap : Spaces gap) :
    Lead false (before ++ ',' :: gap)

theorem Lead.append {first : Bool} {gap : List Char} (h : Lead first cs) (hgap : Spaces gap) :
    Lead first (cs ++ gap) := by
  cases h with
  | first h => exact .first (List.forall_mem_append.mpr ⟨h, hgap⟩)
  | @comma before gap' hbefore h =>
    rw [List.append_assoc, List.cons_append]
    exact .comma hbefore (List.forall_mem_append.mpr ⟨h, hgap⟩)

theorem takes_hasNextItem {first : Bool} (hlead : Lead first cs) (hc : isStart c = true) :
    Takes (hasNextItem first) cs (c :: rest) (some true) := by
  have hend : c ≠ ']' := ne_of_isStart hc (by decide)
  have hstops : Stops isSpace (c :: rest) := stops_cons (not_isSpace_of_isStart hc)
  cases hlead with
  | first hgap =>
    refine (takes_peekPastSpace hgap hstops).last ?_
    simp only [List.head?_cons, hend, if_false, if_true]
    exact takes_pure true
  | @comma before gap hbefore hgap =>
    refine (takes_peekPastSpace hbefore (stops_cons (by decide))).next ?_
    refine (takes_next ',').next ((takes_peekPastSpace hgap hstops).last ?_)
    simp only [List.head?_cons]
    exact takes_pure true

theorem takes_hasNextItem_end (first : Bool) (hcs : Spaces cs) :
    Takes (hasNextItem first) cs (']' :: rest) (some false) :=
  (takes_peekPastSpace hcs (stops_cons (by decide))).last (takes_pure false)

theorem takes_hasNextKey {first : Bool} (hlead : Lead first cs) :
    Takes (hasNextKey first) (cs ++ ['"']) rest (some true) := by
  have hstops : Stops isSpace ('"' :: rest) := stops_cons (by decide)
  cases hlead with
  | first hgap =>
    exact (takes_peekPastSpace hgap hstops).next ((takes_next '"').last (takes_pure true))
  | @comma before gap hbefore hgap =>
    rw [List.append_assoc, List.cons_append]
    refine (takes_peekPastSpace hbefore (stops_cons (by decide))).next ?_
    refine (takes_next ',').next ((takes_peekPastSpace hgap hstops).next ?_)
    exact (takes_next '"').last (takes_pure true)

theorem takes_hasNextKey_end (first : Bool) (hcs : Spaces cs) :
    Takes (hasNextKey first) cs ('\x7d' :: rest) (some false) :=
  (takes_peekPastSpace hcs (stops_cons (by decide))).last (takes_pure false)

/-- A loop over the entries of a list, from what it does at an entry and at the end of the list. Every entry
takes a character at least, so the length of the text bounds the number of entries. -/
theorem takes_listed {entry : List Char → Option α → Prop} {loop : Nat → Bool → Read (List α)} {closing : Char}
    (hend : ∀ fuel first gap rest, Spaces gap → Takes (loop (fuel + 1) first) (gap ++ [closing]) rest (some []))
    (hentry : ∀ fuel first lead cs a? tail rest as?, Lead first lead → entry cs a? → Ends (tail ++ rest) →
      Takes (loop fuel false) tail rest as? →
      Takes (loop (fuel + 1) first) (lead ++ (cs ++ tail)) rest (Option.map₂ List.cons a? as?))
    (hne : ∀ cs a?, entry cs a? → cs ≠ []) (hclosing : closing ∈ [',', ']', '\x7d']) {as? : Option (List α)}
    (h : Listed entry cs as?) {fuel : Nat} (hfuel : cs.length < fuel) {first : Bool} {lead : List Char}
    (hlead : Lead first lead) : Takes (loop fuel first) (lead ++ (cs ++ [closing])) rest as? := by
  induction h generalizing fuel first lead with
  | @last before cs after a? hbefore h hafter =>
    have hpos := List.length_pos_iff.mpr (hne _ _ h)
    obtain ⟨fuel, rfl⟩ : ∃ k, fuel = k + 1 + 1 := ⟨fuel - 2, by simp at hfuel; omega⟩
    have htail := hentry (fuel + 1) first (lead ++ before) cs a? (after ++ [closing]) rest _ (hlead.append hbefore) h
      (by simpa using hafter.ends_append (ends_cons hclosing)) (hend fuel false after rest hafter)
    simpa using htail
  | @more before cs after later a? as? hbefore h hafter _ ih =>
    have hpos := List.length_pos_iff.mpr (hne _ _ h)
    obtain ⟨fuel, rfl⟩ : ∃ k, fuel = k + 1 := ⟨fuel - 1, by omega⟩
    have hlater := ih (show later.length < fuel by simp at hfuel; omega) (.comma hafter spaces_nil)
    have htail := hentry fuel first (lead ++ before) cs a? _ rest _ (hlead.append hbefore) h
      (by simpa using hafter.ends_append (ends_cons (by simp))) hlater
    simpa using htail

variable {item : Read Json} {texts : List Char → Option Json → Prop} {v? : Option Json}

theorem takes_readItems_end (fuel : Nat) (first : Bool) (hcs : Spaces cs) :
    Takes (readItems item (fuel + 1) first) (cs ++ [']']) rest (some []) :=
  (takes_hasNextItem_end first hcs).next ((takes_next ']').last (takes_pure []))

theorem TakesAll.ne_nil (h : TakesAll item texts) (hcs : texts cs v?) : cs ≠ [] := by
  obtain ⟨c, more, rfl, -⟩ := h.exists_start _ _ hcs
  exact List.cons_ne_nil _ _

theorem takes_readItems (hitem : TakesAll item texts) {vs? : Option (List Json)} (h : Listed texts cs vs?)
    {fuel : Nat} (hfuel : cs.length < fuel) : Takes (readItems item fuel true) (cs ++ [']']) rest vs? := by
  refine takes_listed (fun fuel first gap rest => takes_readItems_end fuel first) ?_
    (fun _ _ => hitem.ne_nil) (by simp) h hfuel (.first spaces_nil)
  intro fuel first lead cs v? tail rest vs? hlead hcs hends htail
  obtain ⟨c, more, rfl, hc⟩ := hitem.exists_start _ _ hcs
  refine (takes_hasNextItem hlead hc).next ?_
  rw [if_pos rfl]
  exact (hitem.takes [] _ _ v? spaces_nil hcs hends).bind fun v _ => htail.map _

theorem takes_readColon (hcs : Spaces cs) : Takes readColon (cs ++ [':']) rest (some ()) := by
  refine (takes_peekPastSpace hcs (stops_cons (by decide))).next ?_
  exact (takes_next ':').last (takes_pure ())

theorem takes_readMembers_end (fuel : Nat) (first : Bool) (hcs : Spaces cs) :
    Takes (readMembers item (fuel + 1) first) (cs ++ ['\x7d']) rest (some []) :=
  (takes_hasNextKey_end first hcs).next ((takes_next '\x7d').last (takes_pure []))

theorem takes_readMembers (hitem : TakesAll item texts) {members? : Option (List (String × Json))}
    (h : Listed (MemberText texts) cs members?) {fuel : Nat} (hfuel : cs.length < fuel) :
    Takes (readMembers item fuel true) (cs ++ ['\x7d']) rest members? := by
  refine takes_listed (fun fuel first gap rest hgap => ?_) ?_ ?_ (by simp) h hfuel
    (.first spaces_nil)
  · exact takes_readMembers_end fuel first hgap
  · intro fuel first lead cs member? tail rest members? hlead hcs hends htail
    obtain @⟨key, before, after, cs, s?, v?, hkey, hbefore, hafter, hvalue⟩ := hcs
    have htext : lead ++ ('"' :: (key ++ '"' :: (before ++ ':' :: (after ++ cs))) ++ tail) =
        lead ++ ['"'] ++ (key ++ ['"'] ++ (before ++ [':'] ++ (after ++ cs ++ tail))) := by simp
    have hresult : Option.map₂ List.cons (Option.map₂ (fun s v => (String.ofList s, v)) s? v?) members? =
        (s?.map String.ofList).bind fun key => v?.bind fun v => members?.map ((key, v) :: ·) := by
      cases s? <;> cases v? <;> rfl
    rw [htext, hresult]
    refine (takes_hasNextKey hlead).next ?_
    rw [if_pos rfl]
    refine (takes_readString hkey).bind fun key _ => (takes_readColon hbefore).next ?_
    exact (hitem.takes after cs _ v? hafter hvalue hends).bind fun v _ => htail.map _
  · rintro _ _ ⟨⟩
    exact List.cons_ne_nil _ _

/-- A value begins as one. -/
theorem ValueText.exists_start {texts? : Option (List Char → Option Json → Prop)}
    (h : ValueText NumeralText texts? cs v?) : ∃ c more, cs = c :: more ∧ isStart c = true := by
  cases h with
  | number h =>
    obtain ⟨l, rfl, -⟩ := h
    cases hnegative : l.negative with
    | true => exact ⟨'-', l.magnitude, by rw [Numeral.text, hnegative]; rfl, rfl⟩
    | false =>
      refine ⟨l.whole.first, _, by rw [Numeral.text, hnegative]; rfl, ?_⟩
      simp [isStart, l.whole.isDigit _ List.mem_cons_self]
  | null | yes | no | string | noItems | array | noMembers | object => exact ⟨_, _, rfl, rfl⟩

theorem takes_readScalar_number (l : Numeral) (hrest : Ends rest) (hc : c ∈ l.text.head?) :
    Takes (readScalar c) l.text rest (l.value?.map .number) := by
  have hread := takes_readNumber l hrest
  rw [Numeral.text] at hc ⊢
  cases hnegative : l.negative with
  | true =>
    rw [hnegative] at hc hread
    obtain rfl := Option.some.inj hc
    exact (takes_next '-').next (hread.map _)
  | false =>
    rw [hnegative] at hc hread
    have hdigit : c.isDigit = true := Option.some.inj hc ▸ l.whole.isDigit _ List.mem_cons_self
    have hne : ∀ d : Char, d.isDigit = false → c ≠ d := by
      rintro d hd rfl
      exact absurd hdigit (by simp [hd])
    unfold readScalar
    rw [if_neg (hne _ rfl), if_neg (hne _ rfl), if_neg (hne _ rfl), if_neg (hne _ rfl), if_pos hdigit]
    exact hread.map _

/-- A value that is neither a list nor an object. -/
theorem takes_readScalar {texts? : Option (List Char → Option Json → Prop)} (h : ValueText NumeralText texts? cs v?)
    (hc : c ∈ cs.head?) (hsquare : c ≠ '[') (hcurly : c ≠ '\x7b') (hrest : Ends rest) :
    Takes (readScalar c) cs rest v? := by
  cases h with
  | null | yes | no =>
    obtain rfl := Option.some.inj hc
    exact (takes_readWord (forall_of_all (by decide))).last (takes_pure _)
  | number h =>
    obtain ⟨l, rfl, rfl⟩ := h
    exact takes_readScalar_number l hrest hc
  | string h =>
    obtain rfl := Option.some.inj hc
    have hread : Takes _ _ rest _ := (takes_readString h).map Json.string
    rw [Option.map_map] at hread
    exact (takes_next '"').next hread
  | noItems | array => exact absurd (Option.some.inj hc).symm hsquare
  | noMembers | object => exact absurd (Option.some.inj hc).symm hcurly

theorem Numeral.not_bracket_of_head (l : Numeral) (hc : c ∈ l.text.head?) : ¬(c = '[' ∨ c = '\x7b') := by
  have hchar := l.forall_isNumberChar c (List.mem_of_head? hc)
  rintro (rfl | rfl) <;> exact absurd hchar (by decide)

/-- Lists and objects only stand where there may be some. -/
theorem ValueText.exists_texts {texts? : Option (List Char → Option Json → Prop)} (h : ValueText NumeralText texts? cs v?)
    (hc : c ∈ cs.head?) (hbracket : c = '[' ∨ c = '\x7b') : ∃ texts, texts? = some texts := by
  cases h with
  | noItems hsome | array hsome | noMembers hsome | object hsome => exact ⟨_, hsome⟩
  | null | yes | no | string =>
    obtain rfl := Option.some.inj hc
    exact absurd hbracket (by decide)
  | number h =>
    obtain ⟨l, rfl, -⟩ := h
    exact absurd hbracket (l.not_bracket_of_head hc)

/-- A list or an object, given how to read what is in it. -/
theorem takes_readNested (hitem : TakesAll item texts) (h : ValueText NumeralText (some texts) cs v?)
    (hc : c ∈ cs.head?) (hbracket : c = '[' ∨ c = '\x7b') : Takes (readNested item c) cs rest v? := by
  cases h with
  | null | yes | no | string =>
    obtain rfl := Option.some.inj hc
    exact absurd hbracket (by decide)
  | number h =>
    obtain ⟨l, rfl, -⟩ := h
    exact absurd hbracket (l.not_bracket_of_head hc)
  | noItems _ hgap =>
    obtain rfl := Option.some.inj hc
    exact (takes_next '[').next (takes_get_bind fun r hr => (takes_readItems_end _ true hgap).map Json.array r hr)
  | array hsome h =>
    obtain rfl := Option.some.inj hc
    obtain rfl := Option.some.inj hsome
    refine (takes_next '[').next (takes_get_bind fun r hr => ?_)
    exact (takes_readItems hitem h (by simp only [hr, List.append_eq, List.length_append]; omega)).map Json.array r hr
  | noMembers _ hgap =>
    obtain rfl := Option.some.inj hc
    exact (takes_next '\x7b').next (takes_get_bind fun r hr => (takes_readMembers_end _ true hgap).map ofMembers r hr)
  | object hsome h =>
    obtain rfl := Option.some.inj hc
    obtain rfl := Option.some.inj hsome
    refine (takes_next '\x7b').next (takes_get_bind fun r hr => ?_)
    exact (takes_readMembers hitem h (by simp only [hr, List.append_eq, List.length_append]; omega)).map ofMembers r hr

theorem takes_readValueWith {item? : Option (Read Json)} {texts? : Option (List Char → Option Json → Prop)}
    (hitem : ∀ texts, texts? = some texts → ∃ item, item? = some item ∧ TakesAll item texts) :
    TakesAll (readValueWith item?) (ValueText NumeralText texts?) := by
  refine ⟨fun _ _ => ValueText.exists_start, fun gap cs rest v? hgap h hrest => ?_⟩
  obtain ⟨c, more, rfl, hc⟩ := h.exists_start
  refine (takes_peekPastSpace hgap (stops_cons (not_isSpace_of_isStart hc))).next ?_
  simp only [List.head?_cons]
  by_cases hbracket : c = '[' ∨ c = '\x7b'
  · obtain ⟨texts, rfl⟩ := h.exists_texts rfl hbracket
    obtain ⟨item, rfl, hread⟩ := hitem texts rfl
    rw [if_pos (by simpa using hbracket)]
    exact takes_readNested hread h rfl hbracket
  · rw [if_neg (by simpa using hbracket)]
    obtain ⟨hsquare, hcurly⟩ := not_or.mp hbracket
    exact takes_readScalar h rfl hsquare hcurly hrest

/-- Values are read with as many levels of lists and objects as they have at most. -/
theorem takes_readValue (depth : Nat) : TakesAll (readValue depth) (Spells NumeralText depth) := by
  induction depth with
  | zero => exact takes_readValueWith nofun
  | succ depth ih =>
    refine takes_readValueWith fun texts hsome => ⟨readValue depth, rfl, ?_⟩
    rwa [← Option.some.inj hsome]

/-- A whole text, with blanks at its end. -/
theorem run_of_takes {after : List Char} (hafter : Spaces after) (hread : Takes m cs after a?) :
    (run m (String.ofList (cs ++ after))).toOption = a? := by
  have hend : Takes readEnd after [] (some ()) := (takes_peekPastSpace hafter stops_nil).last (takes_pure ())
  have hall : Takes (do let v ← m; readEnd; return v) (cs ++ after) [] (a?.bind some) :=
    Takes.bind (by rwa [List.append_nil]) fun v _ => hend.last (takes_pure v)
  rw [Option.bind_fun_some] at hall
  have hrun := hall ⟨cs ++ after, 1, 0⟩ (List.append_nil _).symm
  unfold run
  rw [String.toList_ofList]
  cases a? with
  | none =>
    obtain ⟨e, he⟩ := hrun
    rw [he]
    rfl
  | some v =>
    obtain ⟨r, hok, -⟩ := hrun
    rw [hok]
    rfl

/-- A text of the grammar with blanks around it is accepted exactly if it stands for a value, and read as this
value. -/
theorem parse_of_spells {before after : List Char} (hbefore : Spaces before) (hafter : Spaces after)
    (h : Spells NumeralText maxDepth cs v?) :
    (parse (String.ofList (before ++ (cs ++ after)))).toOption = v? := by
  rw [← List.append_assoc]
  refine run_of_takes hafter ((takes_readValue maxDepth).takes before cs after v? hbefore h ?_)
  rw [← List.append_nil after]
  exact hafter.ends_append ends_nil

end Packwright.Json
