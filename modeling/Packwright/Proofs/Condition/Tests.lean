import Packwright.Proofs.Condition.Comparisons
import Packwright.Proofs.Condition.Grammar

/-!
# Tests of variables

A plain word is no connective, and neither is it a sign nor does it begin with one, so a condition in
plain words is a single comparison. The words of a test of variables are plain: a variable, alone or
compared with a variable or with an integer in range.

## Main definitions

- `Condition.IsPlainWord` — words that do not take a condition apart
- `Condition.TestWords` — the words of a test of variables

## Main results

- `Condition.parseTokens_plain` — plain words are read as one comparison
- `Condition.TestWords.isLeaf` — a test is a single comparison
-/

namespace Packwright

namespace Condition

/-! ### Plain words -/

/-- A word that is no connective, and neither is a sign nor begins with one. -/
structure IsPlainWord (w : List Char) : Prop where
  nonempty : w ≠ []
  connective : ∀ c cs, w = c :: cs → c ≠ '|' ∧ c ≠ '&'
  unsigned : ∀ cs, w = '!' :: cs → ∃ ds, cs = '=' :: ds

section

variable {left right cs : List Char} {first t : Token} {rest : List Token}

/-- What begins with a plain word is plain. -/
theorem IsPlainWord.append (h : IsPlainWord left) (right : List Char) :
    IsPlainWord (left ++ right) := by
  obtain ⟨c, left, rfl⟩ := List.exists_cons_of_ne_nil h.nonempty
  refine ⟨by simp, fun d ds hds => ?_, fun ds hds => ?_⟩
  · obtain ⟨rfl, -⟩ := List.cons.inj hds
    exact h.connective c left rfl
  · obtain ⟨rfl, rfl⟩ := List.cons.inj hds
    obtain ⟨ds, rfl⟩ := h.unsigned left rfl
    exact ⟨ds ++ right, rfl⟩

theorem isPlainWord_of_side {c : Char} (hc : isSideChar c = true) : IsPlainWord (c :: cs) := by
  have hne : ∀ {d}, isSideChar d = false → c ≠ d := fun hd => ne_of_side hc hd
  refine ⟨List.cons_ne_nil _ _, fun d ds hds => ?_, fun ds hds => ?_⟩
  · obtain ⟨rfl, -⟩ := List.cons.inj hds
    exact ⟨hne (by decide), hne (by decide)⟩
  · exact absurd (List.cons.inj hds).1 (hne (by decide))

theorem isPlainWord_symbol (sign : Comparison) : IsPlainWord sign.symbol.toList := by
  refine ⟨?_, fun c cs hcs => ?_, fun cs hcs => ?_⟩
  · cases sign <;> decide
  · cases sign <;> obtain ⟨rfl, -⟩ := List.cons.inj hcs <;> decide
  · cases sign <;> obtain ⟨h, rfl⟩ := List.cons.inj hcs <;> first | exact ⟨_, rfl⟩ | cases h

/-- Neither connectives nor signs are plain. -/
theorem IsPlainWord.isWord_eq_false (h : IsPlainWord t.text.toList) {w : String}
    (hw : w.toList = ['|', '|'] ∨ w.toList = ['&', '&'] ∨ w.toList = ['!']) :
    t.isWord w = false := by
  rw [Bool.eq_false_iff, ne_eq, isWord_iff]
  rintro ⟨-, rfl⟩
  rcases hw with hw | hw | hw
  · exact (h.connective _ _ hw).1 rfl
  · exact (h.connective _ _ hw).2 rfl
  · obtain ⟨ds, hds⟩ := h.unsigned [] hw
    cases hds

theorem IsPlainWord.behindNot? (h : IsPlainWord t.text.toList) : behindNot? t = none := by
  refine Option.eq_none_iff_forall_ne_some.mpr fun operand hglued => ?_
  obtain ⟨c, cs, -, htext, hc, -⟩ := behindNot?_eq_some_iff.mp hglued
  obtain ⟨ds, hds⟩ := h.unsigned _ htext
  exact hc (List.cons.inj hds).1

/-- Plain words are read as one comparison. -/
theorem parseTokens_plain (at_ : Position)
    (h : ∀ t ∈ first :: rest, t.kind = .word ∧ IsPlainWord t.text.toList) :
    parseTokens at_ (first :: rest) = parseLeaf first rest := by
  have hor : splitAt "||" (first :: rest) = .ok [first :: rest] :=
    splitFrom_single (List.cons_ne_nil _ _) fun t ht => (h t ht).2.isWord_eq_false (.inl rfl)
  have hand : splitAt "&&" (first :: rest) = .ok [first :: rest] :=
    splitFrom_single (List.cons_ne_nil _ _) fun t ht => (h t ht).2.isWord_eq_false (.inr (.inl rfl))
  obtain ⟨hkind, hfirst⟩ := h first List.mem_cons_self
  have hnegated : negated? first rest = none := by
    refine Option.eq_none_iff_forall_ne_some.mpr fun operand hoperand => ?_
    rcases negated?_eq_some_iff.mp hoperand with ⟨hsign, -⟩ | ⟨t, hglued, -⟩
    · rw [hfirst.isWord_eq_false (.inr (.inr rfl))] at hsign
      cases hsign
    · rw [hfirst.behindNot?] at hglued
      cases hglued
  rw [parseTokens, parseWithin]
  simp only [hor, hand, hnegated, Noting.ofExcept_ok, pure_bind]
  exact if_neg (by simp [isGroup_of_word hkind])

end

/-! ### Tests -/

/-- A dollar sign with a name behind it. -/
def IsVariable (cs : List Char) : Prop :=
  ∃ name, cs = '$' :: name ∧ name ≠ [] ∧ ∀ c ∈ name, isVariableChar c = true

/-- What a variable is compared with: a variable, or an integer for which the comparison stays in the
range of scores. -/
def IsOperand (sign : Comparison) (cs : List Char) : Prop :=
  IsVariable cs ∨
    isIntegerText (String.ofList cs) = true ∧ ¬Rejects sign (integerValue (String.ofList cs))

/-- The words of a test: a variable, alone or compared. -/
inductive TestWords : List (List Char) → Prop
  | alone {left : List Char} (h : IsVariable left) : TestWords [left]
  | compare {left right : List Char} {words : List (List Char)} (sign : Comparison)
    (hleft : IsVariable left) (hright : IsOperand sign right)
    (hwords : ComparisonWords left sign.symbol.toList right words) : TestWords words

section

variable {left right cs : List Char} {words : List (List Char)} {tokens : List Token}
  {sign : Comparison}

theorem isSideChar_of_variableChar {c : Char} (h : isVariableChar c = true) :
    isSideChar c = true := by
  simp only [isVariableChar, Bool.or_eq_true, decide_eq_true_eq] at h
  rcases h with (h | rfl) | rfl
  · simp [isSideChar, h]
  all_goals decide

theorem IsVariable.side (h : IsVariable cs) : ∀ c ∈ cs, isSideChar c = true := by
  obtain ⟨name, rfl, -, hname⟩ := h
  exact List.forall_mem_cons.mpr
    ⟨by decide, fun c hc => isSideChar_of_variableChar (hname c hc)⟩

theorem IsVariable.not_integer (h : IsVariable cs) : isIntegerText (String.ofList cs) = false := by
  obtain ⟨name, rfl, -⟩ := h
  rw [isIntegerText, String.toList_ofList]
  rfl

/-- An integer literal is made of digits, behind a minus or not. -/
theorem chars_of_isIntegerText (h : isIntegerText (String.ofList cs) = true) :
    cs ≠ [] ∧ ∀ c ∈ cs, c.isDigit = true ∨ c = '-' := by
  have hdigits : ∀ {ds : List Char}, isDigits ds = true → ds ≠ [] ∧ ∀ c ∈ ds, c.isDigit = true := by
    intro ds hds
    simpa [isDigits] using hds
  unfold isIntegerText at h
  rw [String.toList_ofList] at h
  split at h
  · exact ⟨List.cons_ne_nil _ _,
      List.forall_mem_cons.mpr ⟨.inr rfl, fun c hc => .inl ((hdigits h).2 c hc)⟩⟩
  · exact ⟨(hdigits h).1, fun c hc => .inl ((hdigits h).2 c hc)⟩

theorem side_of_isIntegerText (h : isIntegerText (String.ofList cs) = true) :
    ∀ c ∈ cs, isSideChar c = true := by
  intro c hc
  rcases (chars_of_isIntegerText h).2 c hc with hdigit | rfl
  · simp [isSideChar, Char.isAlphanum, hdigit]
  · decide

theorem IsOperand.side (h : IsOperand sign cs) : cs ≠ [] ∧ ∀ c ∈ cs, isSideChar c = true := by
  rcases h with h | ⟨h, -⟩
  · obtain ⟨name, rfl, -⟩ := id h
    exact ⟨by simp, h.side⟩
  · exact ⟨(chars_of_isIntegerText h).1, side_of_isIntegerText h⟩

/-- A plain word that has the characters of a side or of a sign. -/
structure IsTestWord (w : List Char) : Prop extends IsPlainWord w where
  chars : ∀ c ∈ w, isSideChar c = true ∨ isSignChar c = true

theorem isTestWord_of_side (hne : cs ≠ []) (hcs : ∀ c ∈ cs, isSideChar c = true) :
    IsTestWord cs := by
  obtain ⟨c, cs, rfl⟩ := List.exists_cons_of_ne_nil hne
  exact ⟨isPlainWord_of_side (hcs c List.mem_cons_self), fun c hc => .inl (hcs c hc)⟩

theorem isTestWord_symbol (sign : Comparison) : IsTestWord sign.symbol.toList := by
  have hchars : ∀ c ∈ sign.symbol.toList, isSignChar c = true := by
    cases sign <;> simp [Comparison.symbol, isSignChar]
  exact ⟨isPlainWord_symbol sign, fun c hc => .inr (hchars c hc)⟩

theorem IsTestWord.append (h : IsTestWord left) (h' : IsTestWord right) :
    IsTestWord (left ++ right) :=
  ⟨h.toIsPlainWord.append right, List.forall_mem_append.mpr ⟨h.chars, h'.chars⟩⟩

/-- All words of a test are such words, and the first one begins with a dollar sign. -/
theorem TestWords.forall (h : TestWords words) :
    (∀ w ∈ words, IsTestWord w) ∧ ∃ cs more, words = ('$' :: cs) :: more := by
  have hvariable : ∀ {cs}, IsVariable cs → IsTestWord cs := by
    intro cs hcs
    refine isTestWord_of_side ?_ hcs.side
    obtain ⟨name, rfl, -⟩ := hcs
    exact List.cons_ne_nil _ _
  cases h with
  | alone h =>
    refine ⟨List.forall_mem_singleton.mpr (hvariable h), ?_⟩
    obtain ⟨name, rfl, -⟩ := h
    exact ⟨name, [], rfl⟩
  | compare sign hleft hright hwords =>
    refine ⟨hwords.forall (hvariable hleft) (isTestWord_symbol sign)
      (isTestWord_of_side hright.side.1 hright.side.2) IsTestWord.append, ?_⟩
    obtain ⟨name, rfl, -⟩ := hleft
    cases hwords <;> exact ⟨_, _, rfl⟩

theorem IsTestWord.ascii (h : IsTestWord cs) : Text.IsAscii cs := by
  intro c hc
  rcases h.chars c hc with hside | hsign
  · exact Nat.lt_of_le_of_lt (toNat_of_side hside).2 (by decide)
  · revert hsign
    simp only [isSignChar, List.contains_eq_mem, List.mem_cons, List.not_mem_nil, or_false,
      decide_eq_true_eq]
    rintro (rfl | rfl | rfl | rfl) <;> decide

theorem IsTestWord.isWordChar (h : IsTestWord cs) : ∀ c ∈ cs, Lexer.isWordChar c = true := by
  intro c hc
  rcases h.chars c hc with hside | hsign
  · exact isWordChar_of_side hside
  · exact isWordChar_of_sign hsign

theorem IsTestWord.whole (h : IsTestWord cs) : Lexer.IsWholeWord cs :=
  Lexer.isWholeWord_of_forall h.nonempty h.isWordChar

theorem exists_of_shapes (htokens : tokens.map Token.shape = words.map (TokenKind.word, ·)) :
    ∀ t ∈ tokens, t.kind = .word ∧ t.text.toList ∈ words := by
  intro t ht
  have hmem : t.shape ∈ words.map (TokenKind.word, ·) := htokens ▸ List.mem_map_of_mem ht
  obtain ⟨w, hw, hshape⟩ := List.mem_map.mp hmem
  obtain ⟨hkind, htext⟩ := Prod.mk.inj hshape
  exact ⟨hkind.symm, htext ▸ hw⟩

/-- A test has no integer that is out of range. -/
theorem TestWords.inRange (h : TestWords words)
    (htokens : tokens.map Token.shape = words.map (TokenKind.word, ·)) : ¬OutOfRange tokens := by
  rintro ⟨left', sign', right', hfind, -, hinteger, hrejects⟩
  have hlines : ∀ {cs : List Char}, (∀ c ∈ cs, isSideChar c = true) → '\n' ∉ cs :=
    fun hcs hmem => absurd (hcs _ hmem) (by decide)
  cases h with
  | alone h =>
    obtain ⟨t, more, rfl, ht, hmore⟩ := List.map_eq_cons_iff.mp htokens
    obtain rfl := List.map_eq_nil_iff.mp hmore
    rw [joinTokens_singleton ht (hlines h.side), Comparison.find_unsigned
      (Lexer.withSelectors_of_forall fun c hc => isQuiet_of_side (h.side c hc))] at hfind
    cases hfind
  | @compare left right words sign hleft hright hwords =>
    obtain ⟨hne, hside⟩ := hright.side
    obtain ⟨gap, gap', -, -, htrim, -, hsign⟩ := hwords.find htokens
      (Lexer.withSelectors_of_forall fun c hc => isQuiet_of_side (hleft.side c hc))
      (hlines hleft.side) hside
    rw [hsign] at hfind
    cases hfind
    rw [htrim] at hinteger hrejects
    rcases hright with hvariable | ⟨-, hin⟩
    · rw [hvariable.not_integer] at hinteger
      cases hinteger
    · exact hin hrejects

/-- A test is a single comparison. -/
theorem TestWords.isLeaf (h : TestWords words)
    (htokens : tokens.map Token.shape = words.map (TokenKind.word, ·)) : IsLeaf tokens := by
  obtain ⟨hall, hfirst⟩ := h.forall
  have hwords : ∀ t ∈ tokens, t.kind = .word ∧ IsPlainWord t.text.toList := fun t ht =>
    (exists_of_shapes htokens t ht).imp_right fun hw => (hall _ hw).toIsPlainWord
  refine ⟨?_, fun t ht => ⟨(hwords t ht).2.isWord_eq_false (.inl rfl),
      (hwords t ht).2.isWord_eq_false (.inr (.inl rfl))⟩,
    fun t ht => ⟨(hwords t ht).2.isWord_eq_false (.inr (.inr rfl)), isGroup_of_word (hwords t ht).1⟩,
    fun t ht => (hwords t (List.mem_of_mem_head? ht)).2.behindNot?, h.inRange htokens⟩
  rintro rfl
  obtain ⟨cs, more, rfl⟩ := hfirst
  cases htokens

end

end Condition

end Packwright
