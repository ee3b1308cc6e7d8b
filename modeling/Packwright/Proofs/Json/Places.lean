import Packwright.Json.Parser

/-!
# Places of mistakes in JSON text

A reader of JSON text counts the lines, and the bytes of a line, as it reads. It reads whole characters,
but where it looks for a fixed one, or for hexadecimal digits, it reads bytes, and behind some bytes of a
longer character it only fails. So what is known of a reader while it reads whole characters, no step
loses; and it decides where mistakes are reported.

## Main definitions

- `Json.Watch` — what is known of a reader and of the mistakes it reports
- `Json.Stays` — steps that keep to it
- `Json.places` — a reader has read some of the text and counted its lines and bytes

## Main results

- `Json.stays_readValue` — reading a value
- `Json.blames_of_parse` — what is known of the mistake in a text
- `Json.Report.LiesIn.line_le` — the lines of reports
- `Json.lies_of_parse` — a mistake is reported at a place of the text
-/

namespace Packwright.Json

/-- A property of all characters of a text is checked one by one. -/
theorem forall_of_all {p : Char → Prop} [DecidablePred p] {cs : List Char} (h : cs.all (p ·) = true) :
    ∀ c ∈ cs, p c := by
  simpa using h

/-- What is known of a reader: `whole` while it has read whole characters, and `cut` behind some of the bytes of
a character; and what is known of the mistakes that it reports. -/
structure Watch where
  whole : Reader → Prop
  cut : Reader → Prop
  blames : Mistake → Prop
  advance : ∀ (r : Reader) (c : Char) (rest : List Char),
    whole { r with rest := c :: rest } → whole (r.advance c rest)
  cuts : ∀ (r : Reader) (c : Char) (rest : List Char) (n : Nat), n < c.utf8Size → 0 < n →
    whole { r with rest := c :: rest } → cut { r with rest := c :: rest, column := r.column + n }
  mistake : ∀ (r : Reader) (p : Problem), whole r ∨ cut r → blames (r.mistake p)
  mistakeNext : ∀ (r : Reader) (p : Problem), whole r → blames (r.mistakeNext p)

variable {α β : Type} {m : Read α} {w : Watch}

/-- From the reader on, the step keeps to what is known, and so does its mistake. -/
def StaysFrom (w : Watch) (r : Reader) (m : Read α) : Prop :=
  match m r with
  | .ok (_, r') => w.whole r'
  | .error e => w.blames e

/-- The step keeps to what is known, and so do its mistakes. -/
def Stays (w : Watch) (m : Read α) : Prop := ∀ r, w.whole r → StaysFrom w r m

/-! ### Readers -/

theorem Reader.advance_with_rest (r : Reader) (c : Char) (rest : List Char) :
    { r.advance c rest with rest := rest } = r.advance c rest := by
  unfold Reader.advance
  split <;> rfl

namespace Watch

variable {r : Reader}

theorem skipFrom (w : Watch) {cs : List Char} {n : Nat} (h : w.whole { r with rest := cs }) :
    w.whole (r.skipFrom n cs) ∨ w.cut (r.skipFrom n cs) := by
  induction cs generalizing r n with
  | nil => cases n <;> exact .inl h
  | cons c rest ih =>
    cases n with
    | zero => exact .inl h
    | succ n =>
      rw [Reader.skipFrom]
      split
      · refine ih ?_
        rw [Reader.advance_with_rest]
        exact w.advance r c rest h
      · exact .inr (w.cuts r c rest (n + 1) (by omega) (Nat.succ_pos n) h)

/-- Bytes that are characters are read whole. -/
theorem skipFrom_append (w : Watch) {front back : List Char} (hone : ∀ c ∈ front, c.utf8Size = 1)
    (h : w.whole { r with rest := front ++ back }) :
    w.whole (r.skipFrom front.length (front ++ back)) := by
  induction front generalizing r with
  | nil => simpa [Reader.skipFrom] using h
  | cons c front ih =>
    obtain ⟨hc, hfront⟩ := List.forall_mem_cons.mp hone
    rw [List.length_cons, List.cons_append, Reader.skipFrom, hc, if_pos (by omega), Nat.add_sub_cancel]
    refine ih hfront ?_
    rw [Reader.advance_with_rest]
    exact w.advance r c (front ++ back) h

theorem skipWhile (w : Watch) {test : Char → Bool} {cs : List Char} (h : w.whole { r with rest := cs }) :
    w.whole (Json.skipWhile test r cs) := by
  induction cs generalizing r with
  | nil => exact h
  | cons c rest ih =>
    rw [Json.skipWhile]
    split
    · refine ih ?_
      rw [Reader.advance_with_rest]
      exact w.advance r c rest h
    · exact h

end Watch

/-! ### Steps -/

theorem stays_pure (a : α) : Stays w (pure a) := fun _ h => h

theorem Stays.bind {f : α → Read β} (hm : Stays w m) (hf : ∀ a, Stays w (f a)) :
    Stays w (m >>= f) := by
  intro r hr
  have hfirst := hm r hr
  unfold StaysFrom at hfirst ⊢
  show match (m r).bind fun p => f p.1 p.2 with
    | .ok (_, r') => w.whole r'
    | .error e => w.blames e
  rcases hrun : m r with e | ⟨a, r'⟩
  · rw [hrun] at hfirst
    exact hfirst
  · rw [hrun] at hfirst
    exact hf a r' hfirst

/-- A step that depends on the reader. -/
theorem stays_get_bind {f : Reader → Read α} (hf : ∀ r, w.whole r → StaysFrom w r (f r)) :
    Stays w (get >>= f) := hf

theorem stays_failHere (p : Problem) : Stays w (failHere p : Read α) :=
  fun r h => w.mistake r p (.inl h)

theorem stays_failNext (p : Problem) : Stays w (failNext p : Read α) :=
  fun r h => w.mistakeNext r p h

theorem stays_peek : Stays w peek := fun _ h => h

theorem stays_next : Stays w next := by
  refine stays_get_bind fun r h => ?_
  obtain ⟨rest, line, column⟩ := r
  cases rest with
  | nil => exact h
  | cons c rest => exact w.advance ⟨c :: rest, line, column⟩ c rest h

/-- Behind the first byte of a longer character there is only failure. -/
theorem stays_nextByte_bind {f : Option Char → Read α}
    (hone : ∀ c, (∀ d ∈ c, d.utf8Size = 1) → Stays w (f c))
    (hcut : ∀ d : Char, 1 < d.utf8Size → ∃ p, f (some d) = failHere p) : Stays w (nextByte >>= f) := by
  rintro ⟨rest, line, column⟩ h
  cases rest with
  | nil => exact hone none (fun d hd => nomatch hd) _ h
  | cons d rest =>
    show StaysFrom w (Reader.skipBytes 1 ⟨d :: rest, line, column⟩) (f (some d))
    by_cases hd : d.utf8Size = 1
    · refine hone (some d) (fun d' hd' => Option.some.inj hd' ▸ hd) _ ?_
      have hone : ∀ c ∈ [d], c.utf8Size = 1 := List.forall_mem_singleton.mpr hd
      exact w.skipFrom_append hone h
    · obtain ⟨p, hp⟩ := hcut d (Nat.lt_of_le_of_ne d.utf8Size_pos (Ne.symm hd))
      rw [hp]
      exact w.mistake _ p (w.skipFrom h)

theorem stays_peekPastSpace : Stays w peekPastSpace := fun _ h => w.skipWhile h

theorem ne_of_utf8Size {c d : Char} (hc : c.utf8Size = 1) (hd : 1 < d.utf8Size) : d ≠ c := by
  rintro rfl
  exact Nat.ne_of_gt hd hc

theorem stays_readWord {word : List Char} (hword : ∀ c ∈ word, c.utf8Size = 1) :
    Stays w (readWord word) := by
  induction word with
  | nil => exact stays_pure ()
  | cons c rest ih =>
    obtain ⟨hc, hrest⟩ := List.forall_mem_cons.mp hword
    refine stays_nextByte_bind (fun d _ => ?_) fun d hd => ⟨.expectedIdent, ?_⟩
    · split
      · exact stays_failHere _
      · split
        · exact ih hrest
        · exact stays_failHere _
    · exact if_neg (ne_of_utf8Size hc hd)

/-! ### Strings -/

theorem utf8Size_of_hexValue? {c : Char} {n : Nat} (h : hexValue? c = some n) : c.utf8Size = 1 := by
  refine Char.utf8Size_eq_one_iff.mpr ?_
  unfold hexValue? at h
  split at h
  · next hdigit =>
    simp only [Char.isDigit, Bool.and_eq_true, decide_eq_true_eq, ge_iff_le, UInt32.le_iff_toNat_le] at hdigit
    exact Nat.le_trans hdigit.2 (by decide)
  split at h
  · next hlower =>
    simp only [Bool.and_eq_true, decide_eq_true_eq, Char.le_def, UInt32.le_iff_toNat_le] at hlower
    exact Nat.le_trans hlower.2 (by decide)
  split at h
  · next hupper =>
    simp only [Bool.and_eq_true, decide_eq_true_eq, Char.le_def, UInt32.le_iff_toNat_le] at hupper
    exact Nat.le_trans hupper.2 (by decide)
  · cases h

theorem exists_of_hexValue4? {cs : List Char} {n : Nat} (h : hexValue4? cs = some n) :
    cs.length = 4 ∧ ∀ c ∈ cs, c.utf8Size = 1 := by
  unfold hexValue4? at h
  split at h
  · next a b c d =>
    obtain ⟨_, ha, h⟩ := Option.bind_eq_some_iff.mp h
    obtain ⟨_, hb, h⟩ := Option.bind_eq_some_iff.mp h
    obtain ⟨_, hc, h⟩ := Option.bind_eq_some_iff.mp h
    obtain ⟨_, hd, -⟩ := Option.bind_eq_some_iff.mp h
    refine ⟨rfl, List.forall_mem_cons.mpr ⟨utf8Size_of_hexValue? ha, ?_⟩⟩
    refine List.forall_mem_cons.mpr ⟨utf8Size_of_hexValue? hb, ?_⟩
    exact List.forall_mem_cons.mpr ⟨utf8Size_of_hexValue? hc,
      List.forall_mem_singleton.mpr (utf8Size_of_hexValue? hd)⟩
  · cases h

theorem stays_readHex4 : Stays w readHex4 := by
  refine stays_get_bind fun r h => ?_
  split
  · exact w.mistake _ _ (w.skipFrom h)
  · split
    · next n hn =>
      obtain ⟨hlength, hone⟩ := exists_of_hexValue4? hn
      have hfront : w.whole { r with rest := r.rest.take 4 ++ r.rest.drop 4 } := by simpa using h
      have hskip := w.skipFrom_append hone hfront
      rw [hlength, List.take_append_drop] at hskip
      exact hskip
    · exact w.mistake _ _ (w.skipFrom h)

theorem stays_expectInPair {c : Char} (hc : c.utf8Size = 1) : Stays w (expectInPair c) := by
  rintro ⟨rest, line, column⟩ h
  cases rest with
  | nil => exact w.mistake _ _ (.inl h)
  | cons d rest =>
    show StaysFrom w (Reader.skipBytes 1 ⟨d :: rest, line, column⟩) (if d ≠ c then failHere .endInEscape else pure ())
    split
    · exact w.mistake _ _ (w.skipFrom h)
    · next hd =>
      obtain rfl := Decidable.of_not_not hd
      have hone : ∀ c ∈ [d], c.utf8Size = 1 := List.forall_mem_singleton.mpr hc
      exact w.skipFrom_append hone h

theorem stays_readUnicode : Stays w readUnicode := by
  refine stays_readHex4.bind fun n => ?_
  split
  · exact stays_failHere _
  split
  · exact stays_pure _
  refine (stays_expectInPair rfl).bind fun _ => (stays_expectInPair rfl).bind fun _ => ?_
  refine stays_readHex4.bind fun m => ?_
  split
  · exact stays_failHere _
  · exact stays_pure _

theorem stays_readEscape : Stays w readEscape := by
  refine stays_nextByte_bind (fun c _ => ?_) fun d hd => ⟨.invalidEscape, ?_⟩
  · split
    all_goals first | exact stays_readUnicode | exact stays_failHere _ | exact stays_pure _
  · split
    -- the characters of escapes are single bytes
    all_goals first | rfl | (next heq => cases heq <;> exact absurd hd (by decide))

theorem stays_readStringWithin (fuel : Nat) (read : List Char) :
    Stays w (readStringWithin fuel read) := by
  induction fuel generalizing read with
  | zero => exact stays_failHere _
  | succ fuel ih =>
    refine stays_next.bind fun c => ?_
    split
    · exact stays_failHere _
    split
    · exact stays_pure _
    split
    · exact stays_readEscape.bind fun _ => ih _
    split
    · exact stays_failHere _
    · exact ih _

theorem stays_readString : Stays w readString :=
  stays_get_bind fun r => ((stays_readStringWithin _ _).bind fun _ => stays_pure _) r

/-! ### Numbers -/

theorem isDigit_of_utf8Size {c : Char} (hc : 1 < c.utf8Size) : c.isDigit = false := by
  refine Bool.eq_false_iff.mpr fun hdigit => Nat.ne_of_gt hc ?_
  exact utf8Size_of_hexValue? (if_pos hdigit)

theorem stays_readDigits : Stays w readDigits :=
  stays_get_bind fun _ h => w.skipWhile h

theorem stays_ofParts (negative : Bool) (n : Nat) (e : Int) : Stays w (ofParts negative n e) := by
  unfold ofParts
  split
  · exact stays_pure _
  · exact stays_failHere _

theorem stays_readExponentDigits (n fuel : Nat) : Stays w (readExponentDigits n fuel) := by
  induction fuel generalizing n with
  | zero => exact stays_pure _
  | succ fuel ih =>
    refine stays_peek.bind fun c => ?_
    split
    · split
      · refine stays_next.bind fun _ => ?_
        simp only
        split
        · exact ih _
        · exact stays_pure _
      · exact stays_pure _
    · exact stays_pure _

theorem stays_readSign : Stays w readSign := by
  refine stays_peek.bind fun sign => ?_
  split
  · exact stays_next.bind fun _ => stays_pure _
  · exact stays_next.bind fun _ => stays_pure _
  · exact stays_pure _

theorem stays_readScale (below negative : Bool) (n : Nat) (start : Int) :
    Stays w (readScale below negative n start) := by
  refine stays_nextByte_bind (fun c _ => ?_) fun d hd =>
    ⟨.invalidNumber, if_neg (by simp [isDigit_of_utf8Size hd])⟩
  split
  · exact stays_failHere _
  split
  · refine stays_get_bind fun r => Stays.bind (stays_readExponentDigits _ _) (fun digits => ?_) r
    obtain ⟨e, passed⟩ := digits
    dsimp only
    split
    · split
      · exact stays_failHere _
      · exact stays_readDigits.bind fun _ => stays_pure _
    · exact stays_ofParts _ _ _
  · exact stays_failHere _

theorem stays_readExponent (negative : Bool) (n : Nat) (start : Int) :
    Stays w (readExponent negative n start) :=
  stays_next.bind fun _ => stays_readSign.bind fun _ => stays_readScale _ _ _ _

theorem stays_readTail (negative : Bool) (n : Nat) (e : Int) : Stays w (readTail negative n e) := by
  refine stays_peek.bind fun c => ?_
  split
  · exact stays_readExponent _ _ _
  · exact stays_readExponent _ _ _
  · exact stays_ofParts _ _ _

theorem stays_readFraction (negative : Bool) (n : Nat) (e : Int) :
    Stays w (readFraction negative n e) := by
  refine stays_next.bind fun _ => stays_readDigits.bind fun digits => ?_
  split
  · refine stays_peek.bind fun c => ?_
    split
    · exact stays_failNext _
    · exact stays_failNext _
  · exact stays_readTail _ _ _

theorem stays_readWhole (c : Char) : Stays w (readWhole c) := by
  unfold readWhole
  split
  · refine stays_peek.bind fun d => ?_
    split
    · exact stays_failNext _
    · exact stays_pure _
  · exact stays_readDigits.bind fun _ => stays_pure _

theorem stays_readBehindWhole (negative : Bool) (whole : List Char) :
    Stays w (readBehindWhole negative whole) := by
  refine stays_peek.bind fun d => ?_
  split
  · exact stays_readFraction _ _ _
  · exact stays_readExponent _ _ _
  · exact stays_readExponent _ _ _
  split
  · exact stays_pure _
  · exact stays_ofParts _ _ _

theorem stays_readNumber (negative : Bool) : Stays w (readNumber negative) := by
  refine stays_nextByte_bind (fun c _ => ?_) fun d hd =>
    ⟨.invalidNumber, if_neg (by simp [isDigit_of_utf8Size hd])⟩
  split
  · exact stays_failHere _
  split
  · exact (stays_readWhole _).bind fun _ => stays_readBehindWhole _ _
  · exact stays_failHere _

/-! ### Values -/

theorem stays_readColon : Stays w readColon := by
  refine stays_peekPastSpace.bind fun c => ?_
  split
  · exact stays_next.bind fun _ => stays_pure _
  · exact stays_failNext _
  · exact stays_failNext _

theorem stays_hasNextItem (first : Bool) : Stays w (hasNextItem first) := by
  refine stays_peekPastSpace.bind fun c => ?_
  split
  · exact stays_failNext _
  split
  · exact stays_pure _
  split
  · exact stays_pure _
  split
  · refine stays_next.bind fun _ => stays_peekPastSpace.bind fun d => ?_
    split
    · exact stays_failNext _
    · exact stays_pure _
    · exact stays_failNext _
  · exact stays_failNext _

theorem stays_hasNextKey (first : Bool) : Stays w (hasNextKey first) := by
  refine stays_peekPastSpace.bind fun c => ?_
  split
  · exact stays_failNext _
  split
  · exact stays_pure _
  split
  · split
    · exact stays_next.bind fun _ => stays_pure _
    · exact stays_failNext _
  split
  · refine stays_next.bind fun _ => stays_peekPastSpace.bind fun d => ?_
    split
    · exact stays_next.bind fun _ => stays_pure _
    · exact stays_failNext _
    · exact stays_failNext _
    · exact stays_failNext _
  · exact stays_failNext _

variable {item : Read Json}

theorem stays_readItems (hitem : Stays w item) (fuel : Nat) (first : Bool) :
    Stays w (readItems item fuel first) := by
  induction fuel generalizing first with
  | zero => exact stays_failNext _
  | succ fuel ih =>
    refine (stays_hasNextItem first).bind fun more => ?_
    split
    · exact hitem.bind fun _ => (ih false).bind fun _ => stays_pure _
    · exact stays_next.bind fun _ => stays_pure _

theorem stays_readMembers (hitem : Stays w item) (fuel : Nat) (first : Bool) :
    Stays w (readMembers item fuel first) := by
  induction fuel generalizing first with
  | zero => exact stays_failNext _
  | succ fuel ih =>
    refine (stays_hasNextKey first).bind fun more => ?_
    split
    · refine stays_readString.bind fun _ => stays_readColon.bind fun _ => ?_
      exact hitem.bind fun _ => (ih false).bind fun _ => stays_pure _
    · exact stays_next.bind fun _ => stays_pure _

theorem stays_readScalar (c : Char) : Stays w (readScalar c) := by
  unfold readScalar
  split
  · exact (stays_readWord (forall_of_all (by decide))).bind fun _ => stays_pure _
  split
  · exact (stays_readWord (forall_of_all (by decide))).bind fun _ => stays_pure _
  split
  · exact (stays_readWord (forall_of_all (by decide))).bind fun _ => stays_pure _
  split
  · exact stays_next.bind fun _ => (stays_readNumber true).bind fun _ => stays_pure _
  split
  · exact (stays_readNumber false).bind fun _ => stays_pure _
  split
  · exact stays_next.bind fun _ => stays_readString.bind fun _ => stays_pure _
  · exact stays_failNext _

theorem stays_readNested (hitem : Stays w item) (c : Char) : Stays w (readNested item c) := by
  refine stays_next.bind fun _ => stays_get_bind fun r => ?_
  have hnested : Stays w (if c = '[' then do return .array (← readItems item (r.rest.length + 1) true)
      else do return ofMembers (← readMembers item (r.rest.length + 1) true)) := by
    split
    · exact (stays_readItems hitem _ _).bind fun _ => stays_pure _
    · exact (stays_readMembers hitem _ _).bind fun _ => stays_pure _
  exact hnested r

theorem stays_readValueWith {item? : Option (Read Json)} (hitem : ∀ item ∈ item?, Stays w item) :
    Stays w (readValueWith item?) := by
  refine stays_peekPastSpace.bind fun c => ?_
  split
  · exact stays_failNext _
  split
  · split
    · exact stays_failNext _
    · exact stays_readNested (hitem _ rfl) _
  · exact stays_readScalar _

/-- Reading a value of any depth stays within the text. -/
theorem stays_readValue (depth : Nat) : Stays w (readValue depth) := by
  induction depth with
  | zero => exact stays_readValueWith fun _ h => nomatch h
  | succ depth ih =>
    refine stays_readValueWith fun item h => ?_
    obtain rfl := Option.some.inj h
    exact ih

theorem stays_readEnd : Stays w readEnd := by
  refine stays_peekPastSpace.bind fun c => ?_
  split
  · exact stays_pure _
  · exact stays_failNext _

/-- What is known of a reader of the text is known of the mistake in it. -/
theorem blames_of_parse (w : Watch) {text : String} {e : Mistake} (hstart : w.whole { rest := text.toList })
    (h : parse text = .error e) : w.blames e := by
  have hwhole : Stays w (do let v ← readValue maxDepth; readEnd; return v : Read Json) :=
    (stays_readValue maxDepth).bind fun v => stays_readEnd.bind fun _ => stays_pure v
  have hstays := hwhole _ hstart
  unfold StaysFrom at hstays
  unfold parse run at h
  split at h
  · cases h
  · next hrun =>
    obtain rfl := Except.error.inj h
    rw [hrun] at hstays
    exact hstays

/-! ### Places -/

namespace Place

variable {front : List Char} {r : Reader}

/-- The reader stands so many bytes behind a text. -/
def Reached (front : List Char) (more : Nat) (r : Reader) : Prop :=
  r.line = (behind front).line ∧ r.column = (behind front).column + more

theorem behind_concat (front : List Char) (c : Char) : behind (front ++ [c]) = (behind front).advance c := by
  rw [behind, List.foldl_append]
  rfl

theorem Reached.advance (h : Reached front 0 r) (c : Char) (rest : List Char) :
    Reached (front ++ [c]) 0 (r.advance c rest) := by
  obtain ⟨hline, hcolumn⟩ := h
  rw [Reached, behind_concat, Place.advance, Reader.advance]
  split
  · exact ⟨congrArg (· + 1) hline, rfl⟩
  · exact ⟨hline, congrArg (· + c.utf8Size) hcolumn⟩

end Place

open Place (Reached)

/-- What is known of a reader: it has read a front of the text, and counted its lines and bytes. -/
def places (text : String) : Watch where
  whole r := ∃ front, text.toList = front ++ r.rest ∧ Reached front 0 r
  cut r := ∃ front c rest n, text.toList = front ++ c :: rest ∧ n < c.utf8Size ∧ Reached front n r
  blames e := e.report.LiesIn text
  advance := by
    rintro r c rest ⟨front, htext, hreached⟩
    refine ⟨front ++ [c], ?_, hreached.advance (r := { r with rest := c :: rest }) c rest⟩
    rw [htext, List.append_assoc, Reader.advance]
    split <;> rfl
  cuts := by
    rintro r c rest n hn - ⟨front, htext, hline, hcolumn⟩
    exact ⟨front, c, rest, n, htext, hn, hline, congrArg (· + n) hcolumn⟩
  mistake := by
    rintro r p (⟨front, htext, hline, hcolumn⟩ | ⟨front, c, rest, n, htext, hn, hline, hcolumn⟩)
    · exact ⟨front, r.rest, 0, htext, .inl rfl, hline, hcolumn⟩
    · exact ⟨front, c :: rest, n, htext, .inr ⟨c, rfl, hn⟩, hline, hcolumn⟩
  mistakeNext := by
    rintro ⟨rest, line, column⟩ p ⟨front, htext, hline, hcolumn⟩
    cases rest with
    | nil => exact ⟨front, [], 0, htext, .inl rfl, hline, hcolumn⟩
    | cons c rest =>
      -- a single byte further on is the place behind a character of one byte, or inside a longer one
      have hbehind := Place.behind_concat front c
      have hnext : text.toList = (front ++ [c]) ++ rest := by rw [htext, List.append_assoc]; rfl
      by_cases hfeed : c = '\n'
      · subst hfeed
        rw [Place.advance, if_pos rfl] at hbehind
        refine ⟨front ++ ['\n'], rest, 0, hnext, .inl rfl, ?_, ?_⟩ <;> rw [hbehind]
        · exact congrArg (· + 1) hline
        · rfl
      rw [Place.advance, if_neg hfeed] at hbehind
      have hplace : Reader.mistakeNext ⟨c :: rest, line, column⟩ p = ⟨p, line, column + 1⟩ := by
        unfold Reader.mistakeNext
        split
        · next h => cases h
        · next h => exact absurd (List.cons.inj h).1 hfeed
        · rfl
      rw [hplace]
      by_cases hone : c.utf8Size = 1
      · refine ⟨front ++ [c], rest, 0, hnext, .inl rfl, ?_, ?_⟩ <;> rw [hbehind]
        · exact hline
        · show column + 1 = _ + c.utf8Size + 0
          rw [hone]
          exact congrArg (· + 1) hcolumn
      · exact ⟨front, c :: rest, 1, htext, .inr ⟨c, rfl, Nat.lt_of_le_of_ne c.utf8Size_pos (Ne.symm hone)⟩, hline,
          congrArg (· + 1) hcolumn⟩

/-- The lines behind a text are its line feeds. -/
theorem Place.line_foldl_advance (cs : List Char) (p : Place) :
    (cs.foldl Place.advance p).line = p.line + cs.count '\n' := by
  induction cs generalizing p with
  | nil => rfl
  | cons c cs ih =>
    rw [List.foldl_cons, ih, Place.advance]
    split
    · next hc =>
      rw [hc, List.count_cons_self]
      dsimp only
      omega
    · next hc => rw [List.count_cons_of_ne hc]

/-- A report is about a line of the text. -/
theorem Report.LiesIn.line_le {text : String} {r : Report} (h : r.LiesIn text) :
    r.line ≤ 1 + text.toList.count '\n' := by
  obtain ⟨front, back, more, htext, -, hline, -⟩ := h
  rw [hline, Place.behind, Place.line_foldl_advance, htext, List.count_append]
  exact Nat.add_le_add_left (Nat.le_add_right ..) _

/-- A mistake is reported at a place of the text. -/
theorem lies_of_parse {text : String} {e : Mistake} (h : parse text = .error e) : e.report.LiesIn text :=
  blames_of_parse (places text) ⟨[], rfl, rfl, rfl⟩ h

end Packwright.Json
