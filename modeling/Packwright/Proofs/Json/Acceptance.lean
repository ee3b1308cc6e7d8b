import Packwright.Proofs.Json.Reading

/-!
# Accepted JSON text

The reader accepts no other texts than those of the grammar. A step that succeeds has passed over a piece of
the text, and the pieces of a value are put together to a text of the grammar; what it stands for is then
known from reading it. So the accepted texts are those of the grammar that stand for a value, with blanks
around them.

## Main results

- `Json.exists_of_readString`, `Json.exists_of_readNumber`, `Json.exists_of_readValue` — strings, numbers and
  values
- `Json.parse_eq_ok_iff` — the texts that are accepted, and their values
-/

namespace Packwright.Json

variable {α β : Type} {m : Read α} {r r' : Reader} {c : Char} {c? : Option Char}

/-! ### Steps -/

/-- Where two steps succeed one after the other, each of them does. -/
theorem exists_of_bind {f : α → Read β} {b : β} (h : (m >>= f) r = .ok (b, r')) :
    ∃ a r₁, m r = .ok (a, r₁) ∧ f a r₁ = .ok (b, r') := by
  obtain ⟨⟨a, r₁⟩, hfirst, hsecond⟩ := exists_of_bind_ok (x := m r) (f := fun p => f p.1 p.2) h
  exact ⟨a, r₁, hfirst, hsecond⟩

theorem eq_of_pure {a b : α} (h : (pure a : Read α) r = .ok (b, r')) : a = b ∧ r = r' := by
  cases h
  exact ⟨rfl, rfl⟩

theorem eq_of_peek (h : peek r = .ok (c?, r')) : c? = r.rest.head? ∧ r = r' := by
  cases h
  exact ⟨rfl, rfl⟩

theorem rest_of_next (h : next r = .ok (c?, r')) (hc : c ∈ r.rest.head?) : r.rest = c :: r'.rest := by
  obtain ⟨rest, line, column⟩ := r
  cases rest with
  | nil => cases hc
  | cons d rest =>
    obtain rfl := Option.some.inj hc
    have htakes : Takes next [d] rest (some (some d)) := takes_next d
    obtain ⟨r'', hread, hrest⟩ := htakes ⟨d :: rest, line, column⟩ rfl
    cases h.symm.trans hread
    exact congrArg (d :: ·) hrest.symm

theorem head_of_next (h : next r = .ok (c?, r')) : c? = r.rest.head? := by
  obtain ⟨rest, line, column⟩ := r
  cases rest <;> cases h <;> rfl

theorem head_of_nextByte (h : nextByte r = .ok (c?, r')) : c? = r.rest.head? := by
  cases h
  rfl

theorem rest_of_nextByte (h : nextByte r = .ok (some c, r')) (hone : c.utf8Size = 1) : r.rest = c :: r'.rest := by
  obtain ⟨rest, line, column⟩ := r
  have hhead : rest.head? = some c := (head_of_nextByte h).symm
  obtain ⟨tail, rfl⟩ := List.head?_eq_some_iff.mp hhead
  have htakes : Takes nextByte [c] tail (some (some c)) := takes_nextByte hone
  obtain ⟨r'', hread, hrest⟩ := htakes ⟨c :: tail, line, column⟩ rfl
  cases h.symm.trans hread
  exact congrArg (c :: ·) hrest.symm

/-- A mark that is looked at and then passed over. -/
theorem exists_of_peekPastSpace (h : peekPastSpace r = .ok (c?, r')) :
    ∃ gap, Spaces gap ∧ r.rest = gap ++ r'.rest ∧ c? = r'.rest.head? := by
  cases h
  refine ⟨r.rest.takeWhile isSpace, List.all_eq_true.mp List.all_takeWhile, ?_, rfl⟩
  rw [skipWhile_rest]
  exact List.takeWhile_append_dropWhile.symm

theorem rest_of_readWord {cs : List Char} (hcs : ∀ c ∈ cs, c.utf8Size = 1) (h : readWord cs r = .ok ((), r')) :
    r.rest = cs ++ r'.rest := by
  induction cs generalizing r with
  | nil =>
    obtain ⟨-, rfl⟩ := eq_of_pure h
    rfl
  | cons c cs ih =>
    obtain ⟨hc, hcs⟩ := List.forall_mem_cons.mp hcs
    obtain ⟨d?, r₁, hread, h⟩ := exists_of_bind h
    cases d? with
    | none => cases h
    | some d =>
      dsimp only at h
      split at h
      · next heq =>
        rw [rest_of_nextByte (heq ▸ hread) hc, ih hcs h, List.cons_append]
      · cases h

/-! ### Strings -/

theorem exists_of_readHex4 {n : Nat} (h : readHex4 r = .ok (n, r')) :
    ∃ digits, hexValue4? digits = some n ∧ r.rest = digits ++ r'.rest := by
  obtain ⟨r₁, r₂, hget, h⟩ := exists_of_bind h
  cases hget
  split at h
  · cases h
  obtain ⟨_, r₃, hset, h⟩ := exists_of_bind h
  cases hset
  cases hvalue : hexValue4? (r.rest.take 4) with
  | none =>
    rw [hvalue] at h
    cases h
  | some k =>
    rw [hvalue] at h
    obtain ⟨rfl, rfl⟩ := eq_of_pure h
    obtain ⟨hlength, hone⟩ := exists_of_hexValue4? hvalue
    have hskip : (r.skipFrom _ (_ ++ r.rest.drop 4)).rest = r.rest.drop 4 := skipFrom_rest hone r
    rw [hlength, List.take_append_drop] at hskip
    refine ⟨_, hvalue, ?_⟩
    rw [Reader.skipBytes, hskip, List.take_append_drop]

theorem rest_of_expectInPair (hc : c.utf8Size = 1) (h : expectInPair c r = .ok ((), r')) : r.rest = c :: r'.rest := by
  obtain ⟨d?, r₁, hpeek, h⟩ := exists_of_bind h
  obtain ⟨hhead, rfl⟩ := eq_of_peek hpeek
  cases d? with
  | none => cases h
  | some d =>
    obtain ⟨d'?, r₂, hread, h⟩ := exists_of_bind h
    split at h
    · cases h
    · next heq =>
      obtain ⟨-, rfl⟩ := eq_of_pure h
      have hbyte := head_of_nextByte hread
      rw [← hhead, not_not.mp heq] at hbyte
      exact rest_of_nextByte (hbyte ▸ hread) hc

/-- A piece of a string: in front of what may stand between quotes it makes such a text. -/
def ExtendsString (piece : List Char) : Prop :=
  ∀ cs s?, StringText cs s? → ∃ s'?, StringText (piece ++ cs) s'?

theorem exists_of_readUnicode (h : readUnicode r = .ok (c, r')) :
    ∃ piece, ExtendsString ('\\' :: 'u' :: piece) ∧ r.rest = piece ++ r'.rest := by
  obtain ⟨n, r₁, hdigits, h⟩ := exists_of_bind h
  obtain ⟨digits, hn, hrest⟩ := exists_of_readHex4 hdigits
  split at h
  · cases h
  next hlow =>
  have hlow' : ¬IsLowSurrogate n := by
    unfold IsLowSurrogate
    simpa using hlow
  split at h
  · next hbasic =>
    obtain ⟨-, rfl⟩ := eq_of_pure h
    have hhigh : ¬IsHighSurrogate n := by
      unfold IsHighSurrogate
      simp at hbasic
      omega
    exact ⟨digits, fun cs s? hcs => ⟨_, .unicode hn hhigh hlow' hcs⟩, hrest⟩
  · next hbasic =>
    have hhigh : IsHighSurrogate n := by
      unfold IsHighSurrogate
      simp at hbasic
      omega
    obtain ⟨_, r₂, hslash, h⟩ := exists_of_bind h
    obtain ⟨_, r₃, hletter, h⟩ := exists_of_bind h
    obtain ⟨k, r₄, hdigits', h⟩ := exists_of_bind h
    obtain ⟨low, hk, hrest'⟩ := exists_of_readHex4 hdigits'
    split at h
    · cases h
    next hpair =>
    obtain ⟨-, rfl⟩ := eq_of_pure h
    have hlow : IsLowSurrogate k := by
      unfold IsLowSurrogate
      simp at hpair
      omega
    refine ⟨digits ++ '\\' :: 'u' :: low, fun cs s? hcs => ?_, ?_⟩
    · have htext := StringText.pair hn hhigh hk hlow hcs
      exact ⟨_, by simpa using htext⟩
    · rw [hrest, rest_of_expectInPair rfl hslash, rest_of_expectInPair rfl hletter, hrest']
      simp

theorem exists_of_readEscape (h : readEscape r = .ok (c, r')) :
    ∃ piece, ExtendsString ('\\' :: piece) ∧ r.rest = piece ++ r'.rest := by
  obtain ⟨letter?, r₁, hletter, h⟩ := exists_of_bind h
  have hsimple : ∀ {e d : Char}, letter? = some e → (e, d) ∈ escapes → e.utf8Size = 1 →
      (pure d : Read Char) r₁ = .ok (c, r') →
      ∃ piece, ExtendsString ('\\' :: piece) ∧ r.rest = piece ++ r'.rest := by
    rintro e d rfl hd hone h
    obtain ⟨-, rfl⟩ := eq_of_pure h
    exact ⟨[e], fun cs s? hcs => ⟨_, .escape hd hcs⟩, rest_of_nextByte hletter hone⟩
  split at h
  · cases h
  · exact hsimple rfl (by decide) rfl h
  · exact hsimple rfl (by decide) rfl h
  · exact hsimple rfl (by decide) rfl h
  · exact hsimple rfl (by decide) rfl h
  · exact hsimple rfl (by decide) rfl h
  · exact hsimple rfl (by decide) rfl h
  · exact hsimple rfl (by decide) rfl h
  · exact hsimple rfl (by decide) rfl h
  · obtain ⟨piece, hpiece, hrest⟩ := exists_of_readUnicode h
    exact ⟨'u' :: piece, hpiece, by rw [rest_of_nextByte hletter rfl, hrest, List.cons_append]⟩
  · cases h

theorem exists_of_readStringWithin {fuel : Nat} {read s : List Char}
    (h : readStringWithin fuel read r = .ok (s, r')) :
    ∃ cs s?, StringText cs s? ∧ r.rest = cs ++ '"' :: r'.rest := by
  induction fuel generalizing r read with
  | zero => cases h
  | succ fuel ih =>
    obtain ⟨c?, r₁, hnext, h⟩ := exists_of_bind h
    have hhead := head_of_next hnext
    cases c? with
    | none => cases h
    | some c =>
      have hrest := rest_of_next hnext hhead.symm
      dsimp only at h
      split at h
      · next heq =>
        obtain ⟨-, rfl⟩ := eq_of_pure h
        exact ⟨[], _, .nil, by rw [hrest, heq, List.nil_append]⟩
      next hquote =>
      split at h
      · next heq =>
        obtain ⟨d, r₂, hescape, h⟩ := exists_of_bind h
        obtain ⟨piece, hpiece, hrest'⟩ := exists_of_readEscape hescape
        obtain ⟨cs, s?, hcs, hmore⟩ := ih h
        obtain ⟨s'?, htext⟩ := hpiece cs s? hcs
        exact ⟨_, s'?, htext, by rw [hrest, hrest', hmore, heq]; simp⟩
      next hslash =>
      split at h
      · cases h
      next hcontrol =>
      obtain ⟨cs, s?, hcs, hmore⟩ := ih h
      exact ⟨c :: cs, _, .plain hquote hslash (Nat.not_lt.mp hcontrol) hcs, by rw [hrest, hmore, List.cons_append]⟩

/-- A string that is read has the text of one. -/
theorem exists_of_readString {s : String} (h : readString r = .ok (s, r')) :
    ∃ cs s?, StringText cs s? ∧ r.rest = cs ++ '"' :: r'.rest := by
  obtain ⟨r₁, r₂, hget, h⟩ := exists_of_bind h
  cases hget
  obtain ⟨cs, r₃, hread, h⟩ := exists_of_bind h
  obtain ⟨-, rfl⟩ := eq_of_pure h
  exact exists_of_readStringWithin hread

/-! ### Numbers -/

theorem eq_of_readDigits {ds : List Char} (h : readDigits r = .ok (ds, r')) :
    r.rest = ds ++ r'.rest ∧ ∀ c ∈ ds, c.isDigit = true := by
  cases h
  refine ⟨?_, List.all_eq_true.mp List.all_takeWhile⟩
  rw [skipWhile_rest]
  exact List.takeWhile_append_dropWhile.symm

theorem eq_of_ofParts {negative : Bool} {n : Nat} {e : Int} {value : Number}
    (h : ofParts negative n e r = .ok (value, r')) : r = r' := by
  unfold ofParts at h
  cases hvalue : double? negative n e with
  | none =>
    rw [hvalue] at h
    cases h
  | some value =>
    rw [hvalue] at h
    exact (eq_of_pure h).2

theorem exists_of_readExponentDigits {n fuel : Nat} {result : Nat × Bool}
    (h : readExponentDigits n fuel r = .ok (result, r')) :
    ∃ ds, (∀ c ∈ ds, c.isDigit = true) ∧ r.rest = ds ++ r'.rest := by
  induction fuel generalizing r n with
  | zero =>
    obtain ⟨-, rfl⟩ := eq_of_pure h
    exact ⟨[], nofun, rfl⟩
  | succ fuel ih =>
    obtain ⟨c?, r₁, hpeek, h⟩ := exists_of_bind h
    obtain ⟨hhead, rfl⟩ := eq_of_peek hpeek
    cases c? with
    | none =>
      obtain ⟨-, rfl⟩ := eq_of_pure h
      exact ⟨[], nofun, rfl⟩
    | some c =>
      dsimp only at h
      split at h
      · next hc =>
        obtain ⟨c?, r₂, hnext, h⟩ := exists_of_bind h
        have hrest := rest_of_next hnext hhead.symm
        split at h
        · obtain ⟨ds, hds, hmore⟩ := ih h
          exact ⟨c :: ds, List.forall_mem_cons.mpr ⟨hc, hds⟩, by rw [hrest, hmore, List.cons_append]⟩
        · obtain ⟨-, rfl⟩ := eq_of_pure h
          exact ⟨[c], List.forall_mem_singleton.mpr hc, hrest⟩
      · obtain ⟨-, rfl⟩ := eq_of_pure h
        exact ⟨[], nofun, rfl⟩

theorem exists_of_readSign {below : Bool} (h : readSign r = .ok (below, r')) :
    ∃ sign, r.rest = signText sign ++ r'.rest := by
  obtain ⟨c?, r₁, hpeek, h⟩ := exists_of_bind h
  obtain ⟨hhead, rfl⟩ := eq_of_peek hpeek
  split at h
  · obtain ⟨_, r₂, hnext, h⟩ := exists_of_bind h
    obtain ⟨-, rfl⟩ := eq_of_pure h
    exact ⟨some false, rest_of_next hnext hhead.symm⟩
  · obtain ⟨_, r₂, hnext, h⟩ := exists_of_bind h
    obtain ⟨-, rfl⟩ := eq_of_pure h
    exact ⟨some true, rest_of_next hnext hhead.symm⟩
  · obtain ⟨-, rfl⟩ := eq_of_pure h
    exact ⟨none, rfl⟩

variable {below negative : Bool} {n : Nat} {start : Int} {value : Number}

theorem exists_of_readScale (h : readScale below negative n start r = .ok (value, r')) :
    ∃ ds : Digits, r.rest = ds.text ++ r'.rest := by
  obtain ⟨c?, r₁, hbyte, h⟩ := exists_of_bind h
  cases c? with
  | none => cases h
  | some c =>
    dsimp only at h
    split at h
    · next hc =>
      have hrest := rest_of_nextByte hbyte (utf8Size_of_hexValue? (if_pos hc))
      obtain ⟨r₂, r₃, hget, h⟩ := exists_of_bind h
      cases hget
      obtain ⟨⟨e, passed⟩, r₄, hmore, h⟩ := exists_of_bind h
      obtain ⟨front, hfront, hrest'⟩ := exists_of_readExponentDigits hmore
      -- behind the digit that passes the limit the other ones are passed over
      have hback : ∃ back, (∀ c ∈ back, c.isDigit = true) ∧ r₄.rest = back ++ r'.rest := by
        split at h
        · split at h
          · cases h
          · obtain ⟨back, r₅, hdigits, h⟩ := exists_of_bind h
            obtain ⟨-, rfl⟩ := eq_of_pure h
            obtain ⟨hrest, hback⟩ := eq_of_readDigits hdigits
            exact ⟨back, hback, hrest⟩
        · exact ⟨[], nofun, by rw [eq_of_ofParts h, List.nil_append]⟩
      obtain ⟨back, hback, hrest''⟩ := hback
      refine ⟨⟨c, front ++ back, ?_⟩, by rw [hrest, hrest', hrest'']; simp [Digits.text]⟩
      exact List.forall_mem_cons.mpr ⟨hc, List.forall_mem_append.mpr ⟨hfront, hback⟩⟩
    · cases h

theorem exists_of_readExponent (upper : Bool) (hhead : r.rest.head? = some (if upper then 'E' else 'e'))
    (h : readExponent negative n start r = .ok (value, r')) : ∃ e : Exponent, r.rest = e.text ++ r'.rest := by
  obtain ⟨_, r₁, hnext, h⟩ := exists_of_bind h
  obtain ⟨below, r₂, hsign, h⟩ := exists_of_bind h
  obtain ⟨sign, hrest⟩ := exists_of_readSign hsign
  obtain ⟨ds, hrest'⟩ := exists_of_readScale h
  exact ⟨⟨upper, sign, ds⟩, by rw [rest_of_next hnext hhead, hrest, hrest']; simp [Exponent.text]⟩

theorem exists_of_readTail (h : readTail negative n start r = .ok (value, r')) :
    ∃ e?, r.rest = exponentText e? ++ r'.rest := by
  obtain ⟨c?, r₁, hpeek, h⟩ := exists_of_bind h
  obtain ⟨hhead, rfl⟩ := eq_of_peek hpeek
  split at h
  · obtain ⟨e, he⟩ := exists_of_readExponent false hhead.symm h
    exact ⟨some e, he⟩
  · obtain ⟨e, he⟩ := exists_of_readExponent true hhead.symm h
    exact ⟨some e, he⟩
  · exact ⟨none, by rw [eq_of_ofParts h]; rfl⟩

theorem exists_of_readFraction (hhead : r.rest.head? = some '.')
    (h : readFraction negative n start r = .ok (value, r')) :
    ∃ ds e?, r.rest = fractionText (some ds) ++ exponentText e? ++ r'.rest := by
  obtain ⟨_, r₁, hnext, h⟩ := exists_of_bind h
  obtain ⟨digits, r₂, hdigits, h⟩ := exists_of_bind h
  obtain ⟨hrest, hds⟩ := eq_of_readDigits hdigits
  cases digits with
  | nil =>
    obtain ⟨c?, r₃, hpeek, h⟩ := exists_of_bind h
    cases c? <;> cases h
  | cons d digits =>
    obtain ⟨e?, hrest'⟩ := exists_of_readTail h
    exact ⟨⟨d, digits, hds⟩, e?, by rw [rest_of_next hnext hhead, hrest, hrest']; simp [fractionText, Digits.text]⟩

/-- The digits before the point, of which the first one is known. -/
theorem exists_of_readWhole {whole : List Char} (hc : c.isDigit = true) (h : readWhole c r = .ok (whole, r')) :
    ∃ ds : Digits, ds.first = c ∧ (ds.first = '0' → ds.more = []) ∧ r.rest = ds.more ++ r'.rest := by
  unfold readWhole at h
  split at h
  · obtain ⟨c?, r₁, hpeek, h⟩ := exists_of_bind h
    obtain ⟨-, rfl⟩ := eq_of_peek hpeek
    split at h
    · cases h
    · obtain ⟨-, rfl⟩ := eq_of_pure h
      exact ⟨⟨c, [], List.forall_mem_singleton.mpr hc⟩, rfl, fun _ => rfl, rfl⟩
  · next hzero =>
    obtain ⟨more, r₁, hmore, h⟩ := exists_of_bind h
    obtain ⟨-, rfl⟩ := eq_of_pure h
    obtain ⟨hrest, hdigits⟩ := eq_of_readDigits hmore
    exact ⟨⟨c, more, List.forall_mem_cons.mpr ⟨hc, hdigits⟩⟩, rfl, fun h => absurd h hzero, hrest⟩

theorem exists_of_readBehindWhole {whole : List Char} (h : readBehindWhole negative whole r = .ok (value, r')) :
    ∃ fraction e?, r.rest = fractionText fraction ++ exponentText e? ++ r'.rest := by
  obtain ⟨c?, r₁, hpeek, h⟩ := exists_of_bind h
  obtain ⟨hhead, rfl⟩ := eq_of_peek hpeek
  split at h
  · obtain ⟨ds, e?, hrest⟩ := exists_of_readFraction hhead.symm h
    exact ⟨some ds, e?, hrest⟩
  · obtain ⟨e, he⟩ := exists_of_readExponent false hhead.symm h
    exact ⟨none, some e, he⟩
  · obtain ⟨e, he⟩ := exists_of_readExponent true hhead.symm h
    exact ⟨none, some e, he⟩
  · refine ⟨none, none, ?_⟩
    show r.rest = r'.rest
    split at h
    · rw [(eq_of_pure h).2]
    · rw [eq_of_ofParts h]

/-- A number that is read has the text of one, behind its sign. -/
theorem exists_of_readNumber (h : readNumber negative r = .ok (value, r')) :
    ∃ l : Numeral, l.negative = negative ∧ r.rest = l.magnitude ++ r'.rest := by
  obtain ⟨c?, r₁, hbyte, h⟩ := exists_of_bind h
  cases c? with
  | none => cases h
  | some c =>
    dsimp only at h
    split at h
    · next hc =>
      obtain ⟨whole, r₂, hwhole, hbehind⟩ := exists_of_bind h
      obtain ⟨ds, rfl, hzero, hrest⟩ := exists_of_readWhole hc hwhole
      obtain ⟨fraction, e?, hrest'⟩ := exists_of_readBehindWhole hbehind
      refine ⟨⟨negative, ds, fraction, e?, hzero⟩, rfl, ?_⟩
      rw [rest_of_nextByte hbyte (utf8Size_of_hexValue? (if_pos hc)), hrest, hrest']
      simp [Numeral.magnitude, Digits.text]
    · cases h

/-! ### Lists and objects -/

theorem exists_of_hasNextItem {first more : Bool} (h : hasNextItem first r = .ok (more, r')) :
    if more then ∃ lead, Lead first lead ∧ r.rest = lead ++ r'.rest
    else ∃ gap, Spaces gap ∧ r.rest = gap ++ r'.rest ∧ r'.rest.head? = some ']' := by
  obtain ⟨c?, r₁, hpeek, h⟩ := exists_of_bind h
  obtain ⟨gap, hgap, hrest, rfl⟩ := exists_of_peekPastSpace hpeek
  cases hhead : r₁.rest.head? with
  | none =>
    rw [hhead] at h
    cases h
  | some c =>
    rw [hhead] at h
    dsimp only at h
    split at h
    · next heq =>
      obtain ⟨rfl, rfl⟩ := eq_of_pure h
      exact ⟨gap, hgap, hrest, heq ▸ hhead⟩
    split at h
    · next hfirst =>
      obtain ⟨rfl, rfl⟩ := eq_of_pure h
      exact ⟨gap, hfirst ▸ .first hgap, hrest⟩
    next hfirst =>
    split at h
    · next heq =>
      obtain ⟨_, r₂, hnext, h⟩ := exists_of_bind h
      obtain ⟨d?, r₃, hpeek', h⟩ := exists_of_bind h
      obtain ⟨gap', hgap', hrest', hd⟩ := exists_of_peekPastSpace hpeek'
      split at h
      · cases h
      · obtain ⟨rfl, rfl⟩ := eq_of_pure h
        rw [Bool.not_eq_true] at hfirst
        refine ⟨gap ++ ',' :: gap', hfirst ▸ .comma hgap hgap', ?_⟩
        rw [hrest, rest_of_next hnext (heq ▸ hhead), hrest']
        simp
      · cases h
    · cases h

theorem exists_of_hasNextKey {first more : Bool} (h : hasNextKey first r = .ok (more, r')) :
    if more then ∃ lead, Lead first lead ∧ r.rest = lead ++ '"' :: r'.rest
    else ∃ gap, Spaces gap ∧ r.rest = gap ++ r'.rest ∧ r'.rest.head? = some '\x7d' := by
  obtain ⟨c?, r₁, hpeek, h⟩ := exists_of_bind h
  obtain ⟨gap, hgap, hrest, rfl⟩ := exists_of_peekPastSpace hpeek
  cases hhead : r₁.rest.head? with
  | none =>
    rw [hhead] at h
    cases h
  | some c =>
    rw [hhead] at h
    dsimp only at h
    split at h
    · next heq =>
      obtain ⟨rfl, rfl⟩ := eq_of_pure h
      exact ⟨gap, hgap, hrest, heq ▸ hhead⟩
    split at h
    · next hfirst =>
      split at h
      · next heq =>
        obtain ⟨_, r₂, hnext, h⟩ := exists_of_bind h
        obtain ⟨rfl, rfl⟩ := eq_of_pure h
        exact ⟨gap, hfirst ▸ .first hgap, by rw [hrest, rest_of_next hnext (heq ▸ hhead)]⟩
      · cases h
    next hfirst =>
    split at h
    · next heq =>
      obtain ⟨_, r₂, hnext, h⟩ := exists_of_bind h
      obtain ⟨d?, r₃, hpeek', h⟩ := exists_of_bind h
      obtain ⟨gap', hgap', hrest', hd⟩ := exists_of_peekPastSpace hpeek'
      split at h
      · obtain ⟨_, r₄, hquote, h⟩ := exists_of_bind h
        obtain ⟨rfl, rfl⟩ := eq_of_pure h
        rw [Bool.not_eq_true] at hfirst
        refine ⟨gap ++ ',' :: gap', hfirst ▸ .comma hgap hgap', ?_⟩
        rw [hrest, rest_of_next hnext (heq ▸ hhead), hrest', rest_of_next hquote hd.symm]
        simp
      · cases h
      · cases h
      · cases h
    · cases h

/-- Blanks may stand before a list of entries. -/
theorem Listed.append_spaces {entry : List Char → Option α → Prop} {cs gap : List Char} {as? : Option (List α)}
    (h : Listed entry cs as?) (hgap : Spaces gap) : Listed entry (gap ++ cs) as? := by
  cases h with
  | last hbefore h hafter =>
    rw [← List.append_assoc]
    exact .last (List.forall_mem_append.mpr ⟨hgap, hbefore⟩) h hafter
  | more hbefore h hafter hlater =>
    rw [← List.append_assoc]
    exact .more (List.forall_mem_append.mpr ⟨hgap, hbefore⟩) h hafter hlater

/-- A loop over the entries of a list, from what it has passed over after one more entry or at the end: it has
passed over blanks only or over a list of entries. -/
theorem exists_of_loop {entry : List Char → Option α → Prop} {loop : Nat → Bool → Read (List α)} (closing : Char)
    (hzero : ∀ first r as r', loop 0 first r ≠ .ok (as, r'))
    (hstep : ∀ fuel first r as r', loop (fuel + 1) first r = .ok (as, r') →
      (∃ gap, Spaces gap ∧ r.rest = gap ++ closing :: r'.rest) ∨
      ∃ lead gap cs a? as' r₁, Lead first lead ∧ Spaces gap ∧ entry cs a? ∧
        r.rest = lead ++ (gap ++ (cs ++ r₁.rest)) ∧ loop fuel false r₁ = .ok (as', r'))
    {fuel : Nat} {first : Bool} {as : List α} (h : loop fuel first r = .ok (as, r')) :
    (∃ gap, Spaces gap ∧ r.rest = gap ++ closing :: r'.rest) ∨
      ∃ lead cs as?, Lead first lead ∧ Listed entry cs as? ∧ r.rest = lead ++ (cs ++ closing :: r'.rest) := by
  induction fuel generalizing r first as with
  | zero => exact absurd h (hzero _ _ _ _)
  | succ fuel ih =>
    obtain hend | ⟨lead, gap, cs, a?, as', r₁, hlead, hgap, hentry, hrest, hloop⟩ := hstep _ _ _ _ _ h
    · exact .inl hend
    obtain ⟨after, hafter, hrest'⟩ | ⟨comma, later, as?, hcomma, hlater, hrest'⟩ := ih hloop
    · refine .inr ⟨lead, gap ++ (cs ++ after), _, hlead, .last hgap hentry hafter, ?_⟩
      rw [hrest, hrest']
      simp
    · cases hcomma with
      | comma hbefore hbehind =>
        refine .inr ⟨lead, _, _, hlead, .more hgap hentry hbefore (hlater.append_spaces hbehind), ?_⟩
        rw [hrest, hrest']
        simp

/-- Where the step succeeds, it has passed over blanks and over a text of the relation. -/
def Meets (item : Read Json) (texts : List Char → Option Json → Prop) : Prop :=
  ∀ r v r', item r = .ok (v, r') → ∃ gap cs v?, Spaces gap ∧ texts cs v? ∧ r.rest = gap ++ (cs ++ r'.rest)

variable {item : Read Json} {texts : List Char → Option Json → Prop} {fuel : Nat} {v : Json}

/-- Where nothing stands before the entries but blanks, a loop has passed over those blanks or the list. -/
theorem exists_of_first {entry : List Char → Option α → Prop} {rest back : List Char}
    (h : (∃ gap, Spaces gap ∧ rest = gap ++ back) ∨
      ∃ lead cs as?, Lead true lead ∧ Listed entry cs as? ∧ rest = lead ++ (cs ++ back)) :
    ∃ cs, rest = cs ++ back ∧ (Spaces cs ∨ ∃ as?, Listed entry cs as?) := by
  obtain ⟨gap, hgap, hrest⟩ | ⟨lead, cs, as?, hlead, hlisted, hrest⟩ := h
  · exact ⟨gap, hrest, .inl hgap⟩
  · cases hlead with
    | first hgap => exact ⟨_, by rw [hrest, List.append_assoc], .inr ⟨as?, hlisted.append_spaces hgap⟩⟩

theorem exists_of_readItems (hitem : Meets item texts) {vs : List Json} (h : readItems item fuel true r = .ok (vs, r')) :
    ∃ cs, r.rest = cs ++ ']' :: r'.rest ∧ (Spaces cs ∨ ∃ vs?, Listed texts cs vs?) := by
  refine exists_of_first (exists_of_loop ']' (fun _ _ _ _ h => by cases h) ?_ h)
  intro fuel first r vs r' h
  obtain ⟨more, r₁, hmore, h⟩ := exists_of_bind h
  have hbefore := exists_of_hasNextItem hmore
  cases more with
  | false =>
    obtain ⟨gap, hgap, hrest, hhead⟩ := hbefore
    obtain ⟨_, r₂, hnext, h⟩ := exists_of_bind h
    obtain ⟨-, rfl⟩ := eq_of_pure h
    exact .inl ⟨gap, hgap, by rw [hrest, rest_of_next hnext hhead]⟩
  | true =>
    obtain ⟨lead, hlead, hrest⟩ := hbefore
    obtain ⟨v, r₂, hv, h⟩ := exists_of_bind h
    obtain ⟨vs', r₃, hvs, h⟩ := exists_of_bind h
    obtain ⟨-, rfl⟩ := eq_of_pure h
    obtain ⟨gap, cs, v?, hgap, hcs, hrest'⟩ := hitem _ _ _ hv
    exact .inr ⟨lead, gap, cs, v?, vs', r₂, hlead, hgap, hcs, by rw [hrest, hrest'], hvs⟩

theorem exists_of_readColon (h : readColon r = .ok ((), r')) :
    ∃ gap, Spaces gap ∧ r.rest = gap ++ ':' :: r'.rest := by
  obtain ⟨c?, r₁, hpeek, h⟩ := exists_of_bind h
  obtain ⟨gap, hgap, hrest, hhead⟩ := exists_of_peekPastSpace hpeek
  split at h
  · obtain ⟨_, r₂, hnext, h⟩ := exists_of_bind h
    obtain ⟨-, rfl⟩ := eq_of_pure h
    exact ⟨gap, hgap, by rw [hrest, rest_of_next hnext hhead.symm]⟩
  · cases h
  · cases h

theorem exists_of_readMembers (hitem : Meets item texts) {members : List (String × Json)}
    (h : readMembers item fuel true r = .ok (members, r')) :
    ∃ cs, r.rest = cs ++ '\x7d' :: r'.rest ∧ (Spaces cs ∨ ∃ members?, Listed (MemberText texts) cs members?) := by
  refine exists_of_first (exists_of_loop '\x7d' (fun _ _ _ _ h => by cases h) ?_ h)
  intro fuel first r members r' h
  obtain ⟨more, r₁, hmore, h⟩ := exists_of_bind h
  have hbefore := exists_of_hasNextKey hmore
  cases more with
  | false =>
    obtain ⟨gap, hgap, hrest, hhead⟩ := hbefore
    obtain ⟨_, r₂, hnext, h⟩ := exists_of_bind h
    obtain ⟨-, rfl⟩ := eq_of_pure h
    exact .inl ⟨gap, hgap, by rw [hrest, rest_of_next hnext hhead]⟩
  | true =>
    obtain ⟨lead, hlead, hrest⟩ := hbefore
    obtain ⟨key, r₂, hkey, h⟩ := exists_of_bind h
    obtain ⟨_, r₃, hcolon, h⟩ := exists_of_bind h
    obtain ⟨v, r₄, hv, h⟩ := exists_of_bind h
    obtain ⟨members', r₅, hmembers, h⟩ := exists_of_bind h
    obtain ⟨-, rfl⟩ := eq_of_pure h
    obtain ⟨ks, s?, hks, hrest₁⟩ := exists_of_readString hkey
    obtain ⟨before, hbefore, hrest₂⟩ := exists_of_readColon hcolon
    obtain ⟨after, cs, v?, hafter, hcs, hrest₃⟩ := hitem _ _ _ hv
    refine .inr ⟨lead, [], _, _, members', r₄, hlead, spaces_nil, .mk hks hbefore hafter hcs, ?_, hmembers⟩
    rw [hrest, hrest₁, hrest₂, hrest₃]
    simp

/-! ### Values -/

theorem exists_of_readScalar {texts? : Option (List Char → Option Json → Prop)} (hc : c ∈ r.rest.head?)
    (h : readScalar c r = .ok (v, r')) : ∃ cs v?, ValueText NumeralText texts? cs v? ∧ r.rest = cs ++ r'.rest := by
  unfold readScalar at h
  split at h
  · obtain ⟨_, r₁, hword, h⟩ := exists_of_bind h
    obtain ⟨-, rfl⟩ := eq_of_pure h
    exact ⟨_, _, .null, rest_of_readWord (forall_of_all (by decide)) hword⟩
  split at h
  · obtain ⟨_, r₁, hword, h⟩ := exists_of_bind h
    obtain ⟨-, rfl⟩ := eq_of_pure h
    exact ⟨_, _, .yes, rest_of_readWord (forall_of_all (by decide)) hword⟩
  split at h
  · obtain ⟨_, r₁, hword, h⟩ := exists_of_bind h
    obtain ⟨-, rfl⟩ := eq_of_pure h
    exact ⟨_, _, .no, rest_of_readWord (forall_of_all (by decide)) hword⟩
  split at h
  · next heq =>
    obtain ⟨_, r₁, hnext, h⟩ := exists_of_bind h
    obtain ⟨n, r₂, hnumber, h⟩ := exists_of_bind h
    obtain ⟨-, rfl⟩ := eq_of_pure h
    obtain ⟨l, hl, hrest⟩ := exists_of_readNumber hnumber
    refine ⟨l.text, _, .number ⟨l, rfl, rfl⟩, ?_⟩
    rw [rest_of_next hnext (heq ▸ hc), hrest, Numeral.text, hl]
    rfl
  split at h
  · obtain ⟨n, r₂, hnumber, h⟩ := exists_of_bind h
    obtain ⟨-, rfl⟩ := eq_of_pure h
    obtain ⟨l, hl, hrest⟩ := exists_of_readNumber hnumber
    refine ⟨l.text, _, .number ⟨l, rfl, rfl⟩, ?_⟩
    rw [hrest, Numeral.text, hl]
    rfl
  split at h
  · next heq =>
    obtain ⟨_, r₁, hnext, h⟩ := exists_of_bind h
    obtain ⟨s, r₂, hstring, h⟩ := exists_of_bind h
    obtain ⟨-, rfl⟩ := eq_of_pure h
    obtain ⟨cs, s?, hcs, hrest⟩ := exists_of_readString hstring
    refine ⟨_, _, .string hcs, ?_⟩
    rw [rest_of_next hnext (heq ▸ hc), hrest]
    simp
  · cases h

theorem exists_of_readNested (hitem : Meets item texts) (hc : c ∈ r.rest.head?) (hbracket : c = '[' ∨ c = '\x7b')
    (h : readNested item c r = .ok (v, r')) :
    ∃ cs v?, ValueText NumeralText (some texts) cs v? ∧ r.rest = cs ++ r'.rest := by
  obtain ⟨_, r₁, hnext, h⟩ := exists_of_bind h
  obtain ⟨_, r₂, hget, h⟩ := exists_of_bind h
  cases hget
  have hrest := rest_of_next hnext hc
  split at h
  · next heq =>
    obtain ⟨vs, r₃, hread, h⟩ := exists_of_bind h
    obtain ⟨-, rfl⟩ := eq_of_pure h
    obtain ⟨cs, hrest', hcs⟩ := exists_of_readItems hitem hread
    refine ⟨'[' :: (cs ++ [']']), ?_⟩
    obtain hgap | ⟨vs?, hlisted⟩ := hcs
    · exact ⟨_, .noItems rfl hgap, by rw [hrest, hrest', heq]; simp⟩
    · exact ⟨_, .array rfl hlisted, by rw [hrest, hrest', heq]; simp⟩
  · next hne =>
    have heq := hbracket.resolve_left hne
    obtain ⟨members, r₃, hread, h⟩ := exists_of_bind h
    obtain ⟨-, rfl⟩ := eq_of_pure h
    obtain ⟨cs, hrest', hcs⟩ := exists_of_readMembers hitem hread
    refine ⟨'\x7b' :: (cs ++ ['\x7d']), ?_⟩
    obtain hgap | ⟨members?, hlisted⟩ := hcs
    · exact ⟨_, .noMembers rfl hgap, by rw [hrest, hrest', heq]; simp⟩
    · exact ⟨_, .object rfl hlisted, by rw [hrest, hrest', heq]; simp⟩

theorem meets_readValueWith {item? : Option (Read Json)} {texts? : Option (List Char → Option Json → Prop)}
    (hitem : ∀ item, item? = some item → ∃ texts, texts? = some texts ∧ Meets item texts) :
    Meets (readValueWith item?) (ValueText NumeralText texts?) := by
  intro r v r' h
  obtain ⟨c?, r₁, hpeek, h⟩ := exists_of_bind h
  obtain ⟨gap, hgap, hrest, hhead⟩ := exists_of_peekPastSpace hpeek
  suffices hvalue : ∃ cs v?, ValueText NumeralText texts? cs v? ∧ r₁.rest = cs ++ r'.rest by
    obtain ⟨cs, v?, hcs, hrest'⟩ := hvalue
    exact ⟨gap, cs, v?, hgap, hcs, by rw [hrest, hrest']⟩
  cases c? with
  | none => cases h
  | some c =>
    dsimp only at h
    split at h
    · next hbracket =>
      cases item? with
      | none => cases h
      | some item =>
        obtain ⟨texts, rfl, hmeets⟩ := hitem item rfl
        exact exists_of_readNested hmeets hhead.symm (by simpa using hbracket) h
    · exact exists_of_readScalar hhead.symm h

/-- A value that is read has the text of one, with at most so many levels of lists and objects. -/
theorem exists_of_readValue (depth : Nat) : Meets (readValue depth) (Spells NumeralText depth) := by
  induction depth with
  | zero => exact meets_readValueWith nofun
  | succ depth ih =>
    refine meets_readValueWith fun item hsome => ⟨_, rfl, ?_⟩
    rwa [← Option.some.inj hsome]

/-- The texts that are accepted are those of the grammar that stand for a value, with blanks around them. -/
theorem parse_eq_ok_iff {text : String} : parse text = .ok v ↔
    ∃ before cs after, text.toList = before ++ (cs ++ after) ∧ Spaces before ∧ Spaces after ∧
      Spells NumeralText maxDepth cs (some v) := by
  constructor
  · intro h
    have hrun : ∃ r', (do let v ← readValue maxDepth; readEnd; return v : Read Json) ⟨text.toList, 1, 0⟩ =
        .ok (v, r') := by
      unfold parse run at h
      split at h
      · next v' r' heq =>
        obtain rfl := Except.ok.inj h
        exact ⟨r', heq⟩
      · cases h
    obtain ⟨r', hrun⟩ := hrun
    obtain ⟨w, r₁, hvalue, hrest⟩ := exists_of_bind hrun
    obtain ⟨_, r₂, hend, hrest⟩ := exists_of_bind hrest
    obtain ⟨rfl, rfl⟩ := eq_of_pure hrest
    obtain ⟨before, cs, v?, hbefore, hcs, htext⟩ := exists_of_readValue maxDepth _ _ _ hvalue
    obtain ⟨c?, r₃, hpeek, hend⟩ := exists_of_bind hend
    obtain ⟨after, hafter, hback, hhead⟩ := exists_of_peekPastSpace hpeek
    have hnil : r₃.rest = [] := by
      cases c? with
      | none => exact List.head?_eq_none_iff.mp hhead.symm
      | some c => cases hend
    rw [hnil, List.append_nil] at hback
    have hall : text.toList = before ++ (cs ++ after) := by rw [← hback]; exact htext
    have hread := parse_of_spells hbefore hafter hcs
    rw [← hall, String.ofList_toList, h] at hread
    exact ⟨before, cs, after, hall, hbefore, hafter, by rw [show some w = v? from hread]; exact hcs⟩
  · rintro ⟨before, cs, after, htext, hbefore, hafter, hcs⟩
    have hread := parse_of_spells hbefore hafter hcs
    rw [← htext, String.ofList_toList] at hread
    cases hparse : parse text with
    | error e =>
      rw [hparse] at hread
      cases hread
    | ok w =>
      rw [hparse] at hread
      obtain rfl := Option.some.inj hread
      rfl

end Packwright.Json
