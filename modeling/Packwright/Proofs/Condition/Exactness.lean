import Packwright.Proofs.Condition.Tests
import Packwright.Proofs.Cuts
import Packwright.Proofs.Semantics.Machine
import Packwright.Text.Alphabetic

/-!
# Comparisons with integers

A score that is compared with an integer literal becomes one clause with a range of values. The range
holds for exactly the values that the comparison asks for, also at both ends of the scores; literals
that are no score, and bounds that no score can pass, are rejected with a syntax error. The search for
the sign goes over the letters of a selector, and stops the program at one outside ASCII.

## Main definitions

- `Comparison.satisfiedBy` — what a comparison with an integer asks for
- `IsSelectorPart`, `ScoreText` — the texts of scores

## Main results

- `Comparison.range?_exact` — the range of a comparison
- `Condition.checkLiteral_comparison` — literals are checked
- `Clause.ofText_comparison` — the clause of a comparison
- `Condition.parse_comparison` — what a comparison in parentheses becomes
-/

namespace Packwright

/-! ### Ranges -/

namespace Comparison

/-- What a comparison of a value with an integer asks for. -/
def satisfiedBy (sign : Comparison) (v n : Int) : Prop :=
  match sign with
  | .eq => v = n
  | .ne => v ≠ n
  | .ge => n ≤ v
  | .le => v ≤ n
  | .gt => n < v
  | .lt => v < n

/-- The range of a comparison, with its sense, holds for exactly the values that satisfy it. -/
theorem range?_exact {W : Type} {sign : Comparison} {n : Int} {negated : Bool} {range : ScoreRange}
    (h : sign.range? n = some (negated, range)) (m : Machine W) (v : Int) :
    (range.contains m v != negated) = true ↔ sign.satisfiedBy v n := by
  unfold range? at h
  cases sign with
  | eq | ne | ge | le =>
    cases h
    simp [ScoreRange.contains, satisfiedBy]
  | gt | lt =>
    obtain ⟨-, h⟩ := Option.ite_none_right_eq_some.mp h
    cases h
    simp only [ScoreRange.contains, satisfiedBy, Bool.bne_false, decide_eq_true_eq]
    omega

theorem exists_range? {sign : Comparison} {n : Int} (h : ¬Condition.Rejects sign n) :
    inScoreRange n = true ∧ ∃ negated range, sign.range? n = some (negated, range) := by
  have hin : inScoreRange n = true := by
    by_contra hout
    exact h (.inl (Bool.eq_false_iff.mpr hout))
  rcases hrange : sign.range? n with _ | ⟨negated, range⟩
  · exact absurd (.inr ((Condition.range?_eq_none_iff sign hin).mp hrange)) h
  · exact ⟨hin, negated, range, rfl⟩

end Comparison

/-! ### Texts of scores -/

/-- Nothing, or balanced text without blanks in square brackets. -/
def IsSelectorPart (part : List Char) : Prop :=
  part = [] ∨ ∃ inner, part = '[' :: (inner ++ [']']) ∧ Balanced inner ∧
    ∀ c ∈ inner, Text.isBlank c = false

/-- `ScoreText head part score`: the text `head ++ part` is `$name`, or an objective with a selector,
which is letters and maybe a part in square brackets behind them. -/
inductive ScoreText : List Char → List Char → Score → Prop
  | named {name : List Char} (hne : name ≠ []) (hname : ∀ c ∈ name, isVariableChar c = true) :
    ScoreText ('$' :: name) [] (.ofVariable (String.ofList ('$' :: name)))
  | selector {objective letters part : List Char} (hne : objective ≠ [])
    (hobjective : ∀ c ∈ objective, isObjectiveChar c = true)
    (hletters : ∀ c ∈ letters, Text.isAlphabetic c = true) (hpart : IsSelectorPart part) :
    ScoreText (objective ++ ':' :: '@' :: letters) part
      ⟨String.ofList ('@' :: (letters ++ part)), String.ofList objective⟩

section

variable {c : Char} {head part left literal gap gap' tail cs : List Char} {score : Score}

/-- Outside ASCII, the letters leave four gaps for the blanks. -/
theorem alphabeticRanges_gaps : ∀ r ∈ Text.alphabeticRanges, 0xA0 < r.1 ∧
    (r.2 < 0x1680 ∨ 0x1680 < r.1) ∧ (r.2 < 0x2000 ∨ 0x205F < r.1) ∧
      (r.2 < 0x3000 ∨ 0x3000 < r.1) := by
  decide +kernel

/-- A blank lies in one of the gaps, or in front of them. -/
theorem gap_of_isBlank (h : Text.isBlank c = true) :
    c.toNat ≤ 0xA0 ∨ c.toNat = 0x1680 ∨ (0x2000 ≤ c.toNat ∧ c.toNat ≤ 0x205F) ∨
      c.toNat = 0x3000 := by
  simp only [Text.isBlank, Bool.or_eq_true, Bool.and_eq_true, decide_eq_true_eq, beq_iff_eq] at h
  omega

/-- A letter is no blank. -/
theorem isBlank_of_letter (h : Text.isAlphabetic c = true) : Text.isBlank c = false := by
  unfold Text.isAlphabetic at h
  split at h
  · exact isBlank_of_side (by simp [isSideChar, Char.isAlphanum, h])
  · refine Bool.eq_false_iff.mpr fun hblank => ?_
    obtain ⟨r, hr, hin⟩ := List.any_eq_true.mp h
    have hgaps := alphabeticRanges_gaps r hr
    have hgap := gap_of_isBlank hblank
    simp only [Bool.and_eq_true, decide_eq_true_eq] at hin
    omega

/-- A character outside ASCII that is no blank may stand in a word. -/
theorem isWordChar_of_foreign (hc : 128 ≤ c.toNat) (hblank : Text.isBlank c = false) :
    Lexer.isWordChar c = true := by
  have hne : ∀ {d : Char}, d.toNat < 128 → c ≠ d := by
    rintro d hd rfl
    omega
  refine Lexer.isWordChar_iff.mpr ⟨hblank, fun d hd => hne ?_, fun b => ?_⟩
  · fin_cases hd <;> decide
  · cases b <;> exact ⟨hne (by decide), hne (by decide)⟩

theorem side_of_letter (h : Text.isAlphabetic c = true) (hc : c.toNat < 128) :
    isSideChar c = true := by
  rw [Text.isAlphabetic, if_pos hc] at h
  simp [isSideChar, Char.isAlphanum, h]

theorem side_of_objectiveChar (h : isObjectiveChar c = true) : isSideChar c = true := by
  simp only [isObjectiveChar, Bool.or_eq_true, decide_eq_true_eq] at h
  rcases h with (((h | rfl) | rfl) | rfl) | rfl
  · simp [isSideChar, h]
  all_goals decide

namespace ScoreText

/-- The characters in front of the brackets are those of a side, and letters. -/
theorem chars (h : ScoreText head part score) :
    ∀ c ∈ head, isSideChar c = true ∨ Text.isAlphabetic c = true := by
  cases h with
  | named _ hname =>
    exact List.forall_mem_cons.mpr
      ⟨.inl (by decide), fun c hc => .inl (Condition.isSideChar_of_variableChar (hname c hc))⟩
  | selector _ hobjective hletters =>
    simp only [List.forall_mem_append, List.forall_mem_cons]
    exact ⟨fun c hc => .inl (side_of_objectiveChar (hobjective c hc)), .inl (by decide),
      .inl (by decide), fun c hc => .inr (hletters c hc)⟩

/-- The text begins with a character of a side. -/
theorem begins (h : ScoreText head part score) :
    ∃ c cs, head = c :: cs ∧ isSideChar c = true := by
  cases h with
  | named => exact ⟨_, _, rfl, by decide⟩
  | @selector objective _ _ hne hobjective =>
    obtain ⟨c, cs, rfl⟩ := List.exists_cons_of_ne_nil hne
    exact ⟨c, _, rfl, side_of_objectiveChar (hobjective c List.mem_cons_self)⟩

theorem selectorPart (h : ScoreText head part score) : IsSelectorPart part := by
  cases h with
  | named => exact .inl rfl
  | selector _ _ _ hpart => exact hpart

theorem isBlank_eq_false (h : ScoreText head part score) :
    ∀ c ∈ head ++ part, Text.isBlank c = false := by
  refine List.forall_mem_append.mpr ⟨fun c hc => ?_, ?_⟩
  · rcases h.chars c hc with hside | hletter
    · exact isBlank_of_side hside
    · exact isBlank_of_letter hletter
  · rcases h.selectorPart with rfl | ⟨inner, rfl, -, hinner⟩
    · exact List.forall_mem_nil _
    · simp only [List.forall_mem_cons, List.forall_mem_append]
      exact ⟨by decide, hinner, by decide, List.forall_mem_nil _⟩

/-- In front of the brackets, ASCII characters are those of a side. -/
theorem side (h : ScoreText head part score) {c : Char} (hc : c ∈ head) (hascii : c.toNat < 128) :
    isSideChar c = true :=
  (h.chars c hc).elim id fun hletter => side_of_letter hletter hascii

theorem isWordChar (h : ScoreText head part score) : ∀ c ∈ head, Lexer.isWordChar c = true := by
  intro c hc
  by_cases hascii : c.toNat < 128
  · exact isWordChar_of_side (h.side hc hascii)
  · exact isWordChar_of_foreign (Nat.not_lt.mp hascii)
      (h.isBlank_eq_false c (List.mem_append_left _ hc))

end ScoreText

/-- A part in brackets is a selector, whatever may stand beside it. -/
theorem IsSelectorPart.withSelectors {P : Char → Prop} (h : IsSelectorPart part) :
    Lexer.WithSelectors P part := by
  rcases h with rfl | ⟨inner, rfl, hinner, -⟩
  · exact .nil
  · exact .selector hinner .nil

/-- The score of a text with blanks behind it. -/
theorem ScoreText.parse? (h : ScoreText head part score) (hgap : ∀ c ∈ gap, Text.isBlank c = true) :
    Score.parse? (String.ofList (head ++ part ++ gap)) = some score := by
  have htrim : Text.trimList (head ++ part ++ gap) = head ++ part :=
    Text.trimList_padded (List.forall_mem_nil _) h.isBlank_eq_false hgap
  have hblank := h.isBlank_eq_false
  rw [Score.parse?, String.toList_ofList, htrim]
  cases h with
  | named hne hname => simpa [hne] using hname
  | @selector objective letters part hne hobjective hletters hpart =>
    have hsplit : Text.splitOnce [':'] (objective ++ ':' :: '@' :: (letters ++ part)) =
        some (objective, '@' :: (letters ++ part)) :=
      Checked.splitOnce_char fun hmem => absurd (hobjective _ hmem) (by decide)
    have htarget : Score.isTarget ('@' :: (letters ++ part)) = true := by
      simp only [List.forall_mem_append, List.forall_mem_cons] at hblank
      simpa [Score.isTarget] using ⟨hblank.1.2.2.1, hblank.1.2.2.2, hblank.2⟩
    rw [show objective ++ ':' :: '@' :: letters ++ part =
      objective ++ ':' :: '@' :: (letters ++ part) by simp]
    split
    · next name heq =>
      obtain ⟨c, objective, rfl⟩ := List.exists_cons_of_ne_nil hne
      obtain ⟨rfl, -⟩ := List.cons.inj heq
      exact absurd (hobjective '$' List.mem_cons_self) (by decide)
    · rw [hsplit]
      simpa [hne, htarget] using hobjective

/-- A dollar sign or a colon tells the text from words. -/
theorem ScoreText.marked (h : ScoreText head part score) : ∃ c ∈ head, c = '$' ∨ c = ':' := by
  cases h with
  | named => exact ⟨'$', List.mem_cons_self, .inl rfl⟩
  | selector => exact ⟨':', by simp, .inr rfl⟩

/-- The search for a sign passes over a text whose letters are ASCII. -/
theorem ScoreText.quiet (h : ScoreText head part score) (hascii : Text.IsAscii head) :
    Lexer.WithSelectors (Comparison.isQuiet · = true) (head ++ part) :=
  (Lexer.withSelectors_of_forall fun c hc => isQuiet_of_side (h.side hc (hascii c hc))).append
    h.selectorPart.withSelectors

/-- A text that is not ASCII has a first character that is not. -/
theorem exists_foreign (h : ¬Text.IsAscii cs) :
    ∃ (front : List Char) (c : Char) (back : List Char), cs = front ++ c :: back ∧
      Text.IsAscii front ∧ 128 ≤ c.toNat := by
  induction cs with
  | nil => exact absurd (List.forall_mem_nil _) h
  | cons c cs ih =>
    by_cases hc : c.toNat < 128
    · obtain ⟨front, d, back, rfl, hfront, hd⟩ := ih fun hcs => h (Text.isAscii_cons.mpr ⟨hc, hcs⟩)
      exact ⟨c :: front, d, back, rfl, Text.isAscii_cons.mpr ⟨hc, hfront⟩, hd⟩
    · exact ⟨[], c, cs, rfl, List.forall_mem_nil _, Nat.not_lt.mp hc⟩

/-- A text with another first word does not begin with this one. -/
theorem after?_eq_none {mark text : String} (word : List Char) (htext : text.toList = cs ++ tail)
    (hmark : mark.toList = word ++ [' ']) (hblank : ' ' ∉ cs) (hother : ∃ c ∈ cs, c ∉ word) :
    Text.after? mark text = none := by
  obtain ⟨c, hc, hword⟩ := hother
  refine Option.map_eq_none_iff.mpr (Option.eq_none_iff_forall_ne_some.mpr fun rest hrest => ?_)
  have heq := List.isPrefixOf?_eq_some_iff_append_eq.mp hrest
  rw [hmark, htext, List.append_assoc] at heq
  rcases List.append_eq_append_iff.mp heq with ⟨more, rfl, hmore⟩ | ⟨more, rfl, -⟩
  · cases more with
    | nil => exact hword (by simpa using hc)
    | cons d more =>
      obtain ⟨rfl, -⟩ := List.cons.inj hmore
      exact hblank (by simp)
  · exact hword (List.mem_append_left _ hc)

/-- A mark that begins with a blank is not found where no blank has the next character behind it. -/
theorem splitOnce_eq_none (mark : List Char) (hblank : ' ' ∉ cs) (hc : c ∉ tail) :
    Text.splitOnce (' ' :: c :: mark) (cs ++ tail) = none := by
  refine Option.eq_none_iff_forall_ne_some.mpr fun ⟨before, after⟩ hfound => ?_
  have heq := Checked.splitOnce_eq hfound
  rcases List.append_eq_append_iff.mp heq with ⟨more, rfl, rfl⟩ | ⟨more, rfl, hmore⟩
  · exact hc (by simp)
  · cases more with
    | nil => exact hc (by rw [← List.nil_append tail, ← hmore]; simp)
    | cons d more =>
      obtain ⟨rfl, -⟩ := List.cons.inj hmore
      exact hblank (by simp)

end

/-! ### Clauses -/

namespace Condition

section

variable {head part literal : List Char} {score : Score} {sign : Comparison}
  {words : List (List Char)} {tokens : List Token}

/-- Where the search for the sign of a comparison ends. -/
theorem find_comparison (hscore : ScoreText head part score)
    (hliteral : isIntegerText (String.ofList literal) = true)
    (hwords : ComparisonWords (head ++ part) sign.symbol.toList literal words)
    (htokens : tokens.map Token.shape = words.map (TokenKind.word, ·)) :
    (Text.IsAscii head → ∃ gap gap', OptionalBlank gap ∧ OptionalBlank gap' ∧
      Text.trimList (gap' ++ literal) = literal ∧
      (joinTokens tokens).toList =
        (head ++ part) ++ (gap ++ (sign.symbol.toList ++ (gap' ++ literal))) ∧
      Comparison.find (joinTokens tokens).toList =
        .ok (some (head ++ part ++ gap, sign, gap' ++ literal))) ∧
    (¬Text.IsAscii head → Comparison.find (joinTokens tokens).toList = .error .crash) := by
  have hline : '\n' ∉ head ++ part := fun hmem =>
    absurd (hscore.isBlank_eq_false _ hmem) (by decide)
  refine ⟨fun hascii => hwords.find htokens (hscore.quiet hascii) hline
    (side_of_isIntegerText hliteral), fun hforeign => ?_⟩
  obtain ⟨front, c, back, rfl, hfront, hc⟩ := exists_foreign hforeign
  have hlines : '\n' ∉ sign.symbol.toList ++ literal := by
    rintro hmem
    rcases List.mem_append.mp hmem with hmem | hmem
    · revert hmem
      cases sign <;> decide
    · exact absurd (side_of_isIntegerText hliteral _ hmem) (by decide)
  obtain ⟨gap, gap', -, -, htext⟩ := hwords.joinTokens htokens
    (by rw [List.mem_append, not_or]; exact ⟨hline, hlines⟩)
  have hquiet : Lexer.WithSelectors (Comparison.isQuiet · = true) front :=
    Lexer.withSelectors_of_forall fun d hd =>
      isQuiet_of_side (hscore.side (List.mem_append_left _ hd) (hfront d hd))
  rw [htext, List.append_assoc, List.append_assoc, List.cons_append]
  exact Comparison.find_foreign hquiet hc

/-- Literals are checked: no letter of the score may be outside ASCII, and some score must satisfy the
comparison. -/
theorem checkLiteral_comparison (last : Token) (hscore : ScoreText head part score)
    (hliteral : isIntegerText (String.ofList literal) = true)
    (hwords : ComparisonWords (head ++ part) sign.symbol.toList literal words)
    (htokens : tokens.map Token.shape = words.map (TokenKind.word, ·)) :
    (¬Text.IsAscii head → checkLiteral tokens last = .error .crash) ∧
      (Text.IsAscii head → match checkLiteral tokens last with
        | .ok _ => ¬Rejects sign (integerValue (String.ofList literal))
        | .error failure => Rejects sign (integerValue (String.ofList literal)) ∧
          ∃ f, failure = .fault f ∧ f.isSyntaxError = true) := by
  obtain ⟨hfound, hcrash⟩ := find_comparison hscore hliteral hwords htokens
  refine ⟨fun hforeign => ?_, fun hascii => ?_⟩
  · unfold checkLiteral
    dsimp only
    rw [hcrash hforeign]
    rfl
  · obtain ⟨gap, gap', hgap, -, htrim, -, hfind⟩ := hfound hascii
    have hparse := hscore.parse? hgap.isBlank
    have hrange : OutOfRange tokens ↔ Rejects sign (integerValue (String.ofList literal)) := by
      constructor
      · rintro ⟨left, sign', right, hfound, -, -, hrejects⟩
        rw [hfind] at hfound
        cases hfound
        rwa [htrim] at hrejects
      · exact fun hrejects => ⟨_, sign, _, hfind, by rw [hparse]; rfl, by rwa [htrim], by rwa [htrim]⟩
    rw [← hrange]
    exact checkLiteral_eq last hfind

/-- The words of a comparison are plain, and each is read as a whole. -/
theorem words_of_comparison (hscore : ScoreText head part score)
    (hliteral : isIntegerText (String.ofList literal) = true)
    (hwords : ComparisonWords (head ++ part) sign.symbol.toList literal words) :
    ∀ w ∈ words, IsPlainWord w ∧ Lexer.IsWholeWord w := by
  have hleft : IsPlainWord (head ++ part) ∧ Lexer.IsWholeWord (head ++ part) := by
    obtain ⟨c, cs, rfl, hc⟩ := hscore.begins
    refine ⟨isPlainWord_of_side hc, .mk (isWordChar_of_side hc) ?_⟩
    exact (Lexer.withSelectors_of_forall (List.forall_mem_cons.mp hscore.isWordChar).2).append
      hscore.selectorPart.withSelectors
  have hsign := isTestWord_symbol sign
  have hright := isTestWord_of_side (chars_of_isIntegerText hliteral).1
    (side_of_isIntegerText hliteral)
  exact hwords.forall hleft ⟨hsign.toIsPlainWord, hsign.whole⟩ ⟨hright.toIsPlainWord, hright.whole⟩
    fun h h' => ⟨h.1.append _, h.2.append h'.2⟩

/-- The clause of a comparison: the score is tested against the range of the comparison. -/
theorem ofText_comparison (scope : Scope) {negated : Bool} {range : ScoreRange}
    (hascii : Text.IsAscii head) (hscore : ScoreText head part score)
    (hliteral : isIntegerText (String.ofList literal) = true)
    (hwords : ComparisonWords (head ++ part) sign.symbol.toList literal words)
    (htokens : tokens.map Token.shape = words.map (TokenKind.word, ·))
    (hin : inScoreRange (integerValue (String.ofList literal)) = true)
    (hrange : sign.range? (integerValue (String.ofList literal)) = some (negated, range)) :
    Clause.ofText scope (joinTokens tokens) = ⟨negated, .inRange (score.resolveIn scope) range⟩ := by
  obtain ⟨gap, gap', hgap, hgap', htrim, htext, hfind⟩ :=
    (find_comparison hscore hliteral hwords htokens).1 hascii
  have hblank : ' ' ∉ head ++ part := fun hmem =>
    absurd (hscore.isBlank_eq_false _ hmem) (by decide)
  obtain ⟨c, hc, hmark⟩ := hscore.marked
  have hif : Text.after? "if " (joinTokens tokens) = none := by
    refine after?_eq_none ['i', 'f'] htext rfl hblank ⟨c, List.mem_append_left _ hc, ?_⟩
    rcases hmark with rfl | rfl <;> decide
  have hunless : Text.after? "unless " (joinTokens tokens) = none := by
    refine after?_eq_none ['u', 'n', 'l', 'e', 's', 's'] htext rfl hblank
      ⟨c, List.mem_append_left _ hc, ?_⟩
    rcases hmark with rfl | rfl <;> decide
  have hmatches : Clause.ofMatches? scope (joinTokens tokens) = none := by
    have hlater : 'm' ∉ gap ++ (sign.symbol.toList ++ (gap' ++ literal)) := by
      simp only [List.mem_append, not_or]
      refine ⟨fun hmem => absurd (hgap.eq_blank _ hmem) (by decide), ?_,
        fun hmem => absurd (hgap'.eq_blank _ hmem) (by decide), fun hmem => ?_⟩
      · cases sign <;> decide
      · rcases (chars_of_isIntegerText hliteral).2 _ hmem with h | h <;> revert h <;> decide
    have hsplit := splitOnce_eq_none "atches ".toList hblank hlater
    rw [Clause.ofMatches?, htext]
    exact congrArg (· >>= _) hsplit
  have hvalue : scoreValue (String.ofList literal) =
      .ok (some (integerValue (String.ofList literal))) := by
    rw [scoreValue, if_pos hliteral, if_pos hin]
  have hscores : Score.parseIn? scope (String.ofList (head ++ part ++ gap)) =
      some (score.resolveIn scope) := by
    rw [Score.parseIn?, hscore.parse? hgap.isBlank]
    rfl
  have hsides : Clause.ofSides? scope (head ++ part ++ gap) sign (gap' ++ literal) =
      some ⟨negated, .inRange (score.resolveIn scope) range⟩ := by
    simp only [Clause.ofSides?, hscores, htrim, Clause.ofComparison?, hvalue, Option.bind_some, hrange,
      bind]
  rw [Clause.ofText, Clause.read, hif, hunless, hmatches]
  simp only [Clause.readPlain, hfind, bind, Except.bind, hsides, Option.getD_some, pure, Except.pure]

end

/-! ### Comparisons in parentheses -/

/-- Plain words in a round group are read as one comparison. -/
theorem parse_plain {group first : Token} {rest : List Token} (hgroup : group.isGroup .round = true)
    (hinside : group.tokenizeInner .optional = .ok { statements := [⟨first :: rest⟩] })
    (hplain : ∀ t ∈ first :: rest, t.kind = .word ∧ IsPlainWord t.text.toList)
    (noted : List Warning) :
    ((parse group).run.run noted).1 =
      (checkLiteral (first :: rest) ((first :: rest).getLast (by simp))).map
        fun _ => .leaf (first :: rest) := by
  have hleaf : (first :: rest).forM checkLeafToken = .ok () :=
    forM_eq_ok_iff.mpr fun t ht => checkLeafToken_eq_ok_iff.mpr
      ⟨(hplain t ht).2.isWord_eq_false (.inr (.inr rfl)), isGroup_of_word (hplain t ht).1⟩
  have hread : (parse group).run.run noted =
      (parseTokens group.position (first :: rest)).run.run (noted ++ []) := by
    unfold parse parseGroup
    rw [if_pos hgroup, hinside]
    rfl
  rw [hread, parseTokens_plain _ hplain]
  unfold parseLeaf
  simp only [hleaf, Noting.ofExcept_ok, pure_bind]
  cases checkLiteral (first :: rest) ((first :: rest).getLast (by simp)) <;> rfl

/-- A comparison of a score with an integer literal, in parentheses and with any blanks around the
sign, is a round group with the words of the comparison inside. -/
theorem comparison_reads (sign : Comparison) {head part literal front gap gap' back : List Char}
    {score : Score} (hscore : ScoreText head part score)
    (hliteral : isIntegerText (String.ofList literal) = true)
    (hblank : ∀ c ∈ front ++ (gap ++ (gap' ++ back)), Text.isBlank c = true) (start : Position) :
    ∃ group first rest words,
      tokenize .optional start (String.ofList ('(' :: ((front ++
        ((head ++ part ++ (gap ++ (sign.symbol.toList ++ (gap' ++ literal)))) ++ back)) ++ [')']))) =
          .ok { statements := [⟨[group]⟩] } ∧
      group.isGroup .round = true ∧
      group.tokenizeInner .optional = .ok { statements := [⟨first :: rest⟩] } ∧
      ComparisonWords (head ++ part) sign.symbol.toList literal words ∧
      (first :: rest).map Token.shape = words.map (TokenKind.word, ·) ∧
      ∀ t ∈ first :: rest, t.kind = .word ∧ IsPlainWord t.text.toList := by
  simp only [List.forall_mem_append] at hblank
  obtain ⟨hfront, hgap, hgap', hback⟩ := hblank
  have hne : head ++ part ≠ [] := by
    obtain ⟨c, cs, rfl, -⟩ := hscore.begins
    exact List.cons_ne_nil _ _
  obtain ⟨words, hwords, hspaced⟩ := exists_comparisonWords hne (isPlainWord_symbol sign).nonempty
    (chars_of_isIntegerText hliteral).1 hgap hgap'
  have hall := words_of_comparison hscore hliteral hwords
  have hinner := (balanced_of_forall fun c hc => Lexer.isBlank_plain (hfront c hc)).append
    ((hspaced.balanced fun w hw => (hall w hw).2).append
      (balanced_of_forall fun c hc => Lexer.isBlank_plain (hback c hc)))
  obtain ⟨group, hgroup, hstatement⟩ := tokenize_group .round hinner start
  have hreads := Lexer.reads_padded hfront
    (fun rest hrest => Lexer.reads_spaced hspaced (fun w hw => (hall w hw).2) hrest) hback
  have hsome : words.map (TokenKind.word, ·) ≠ [] := by
    cases hwords <;> exact List.cons_ne_nil _ _
  obtain ⟨tokens, htokens, hinside⟩ :=
    Token.tokenizeInner_of_reads (b := .round) hgroup hreads hsome
  obtain ⟨first, rest, rfl⟩ : ∃ first rest, tokens = first :: rest := by
    refine List.exists_cons_of_ne_nil ?_
    rintro rfl
    exact hsome htokens.symm
  exact ⟨group, first, rest, words, hstatement, by simp [Token.isGroup, (Prod.mk.inj hgroup).1],
    hinside, hwords, htokens, fun t ht =>
      (exists_of_shapes htokens t ht).imp_right fun hw => (hall _ hw).1⟩

/-- A comparison of a score with an integer literal, in parentheses and with any blanks around the
sign. A letter of the score outside ASCII stops the program. Otherwise there is a syntax error if the
literal is no score, or no score satisfies the comparison; and if not, there are no commands to run
before and a single clause, which tests the score and holds for exactly the values that satisfy the
comparison. -/
theorem parse_comparison (sign : Comparison) {head part literal front gap gap' back : List Char}
    {score : Score} (hscore : ScoreText head part score)
    (hliteral : isIntegerText (String.ofList literal) = true)
    (hblank : ∀ c ∈ front ++ (gap ++ (gap' ++ back)), Text.isBlank c = true) (start : Position) :
    ∃ group : Token,
      tokenize .optional start (String.ofList ('(' :: ((front ++
        ((head ++ part ++ (gap ++ (sign.symbol.toList ++ (gap' ++ literal)))) ++ back)) ++ [')']))) =
          .ok { statements := [⟨[group]⟩] } ∧
      ∀ noted, let n := integerValue (String.ofList literal)
        (¬Text.IsAscii head → ((parse group).run.run noted).1 = .error .crash) ∧
        (Text.IsAscii head → Rejects sign n → ∃ f, ((parse group).run.run noted).1 =
          .error (.fault f) ∧ f.kind = .syntactic ∧ f.location.isSome = true) ∧
        (Text.IsAscii head → ¬Rejects sign n → ∃ c negated range,
          ((parse group).run.run noted).1 = .ok c ∧ ∀ scope next,
            let clause : Clause := ⟨negated, .inRange (score.resolveIn scope) range⟩
            c.render scope next = (⟨[], [clause]⟩, next) ∧
              ∀ (W : Type) (m : Machine W) (s : State W) (v : Int),
                s.scores (score.resolveIn scope) = some v →
                  (clause.holds m s = true ↔ sign.satisfiedBy v n)) := by
  obtain ⟨group, first, rest, words, hstatement, hgroup, hinside, hwords, htokens, hplain⟩ :=
    comparison_reads sign hscore hliteral hblank start
  refine ⟨group, hstatement, fun noted => ?_⟩
  rw [parse_plain hgroup hinside hplain]
  obtain ⟨hcrash, hcheck⟩ := checkLiteral_comparison ((first :: rest).getLast (by simp)) hscore
    hliteral hwords htokens
  refine ⟨fun hforeign => by rw [hcrash hforeign]; rfl, fun hascii hrejects => ?_,
    fun hascii haccepts => ?_⟩
  all_goals
    replace hcheck := hcheck hascii
    rcases hresult : checkLiteral (first :: rest) ((first :: rest).getLast (by simp)) with
      failure | u <;> rw [hresult] at hcheck
  · obtain ⟨-, f, rfl, hf⟩ := hcheck
    exact ⟨f, rfl, by simpa [Fault.isSyntaxError] using hf⟩
  · exact absurd hrejects hcheck
  · exact absurd hcheck.1 haccepts
  · obtain ⟨hin, negated, range, hrange⟩ := Comparison.exists_range? haccepts
    refine ⟨.leaf (first :: rest), negated, range, rfl, fun scope next => ⟨?_, ?_⟩⟩
    · rw [render, leafText, ofText_comparison scope hascii hscore hliteral hwords htokens hin hrange]
    · intro W m s v hv
      rw [Clause.holds, Test.holds, hv]
      exact Comparison.range?_exact hrange m v

/-- The comparison `hp:@é == 3` stops the program, and `hp:@e == 3` is a clause on the score of `@e`. -/
theorem parse_accented :
    ScoreText "hp:@é".toList [] ⟨"@é", "hp"⟩ ∧ ScoreText "hp:@e".toList [] ⟨"@e", "hp"⟩ ∧
      (∃ group : Token, tokenize .optional .start "(hp:@é == 3)" = .ok { statements := [⟨[group]⟩] } ∧
        ∀ noted, ((parse group).run.run noted).1 = .error .crash) ∧
      ∃ group : Token, tokenize .optional .start "(hp:@e == 3)" = .ok { statements := [⟨[group]⟩] } ∧
        ∃ c negated range, ((parse group).run.run []).1 = .ok c ∧
          (c.render {} 0).1 = ⟨[], [⟨negated, .inRange ⟨"@e", "hp"⟩ range⟩]⟩ := by
  have hobjective : ∀ c ∈ ['h', 'p'], isObjectiveChar c = true :=
    List.all_eq_true.mp (by decide)
  have hforeign : ScoreText "hp:@é".toList [] ⟨"@é", "hp"⟩ :=
    @ScoreText.selector ['h', 'p'] ['é'] [] (by decide) hobjective
      (List.forall_mem_singleton.mpr (by decide +kernel)) (.inl rfl)
  have hplain : ScoreText "hp:@e".toList [] ⟨"@e", "hp"⟩ :=
    @ScoreText.selector ['h', 'p'] ['e'] [] (by decide) hobjective
      (List.forall_mem_singleton.mpr (by decide)) (.inl rfl)
  have hblank : ∀ c ∈ [] ++ ([' '] ++ ([' '] ++ [])), Text.isBlank c = true :=
    List.all_eq_true.mp (by decide)
  obtain ⟨group, hgroup, hcrash⟩ := @parse_comparison .eq _ _ ['3'] [] [' '] [' '] [] _ hforeign
    (by decide) hblank .start
  obtain ⟨group', hgroup', hclause⟩ := @parse_comparison .eq _ _ ['3'] [] [' '] [' '] [] _ hplain
    (by decide) hblank .start
  refine ⟨hforeign, hplain, ⟨group, hgroup, fun noted => (hcrash noted).1 (by simp [Text.IsAscii])⟩,
    group', hgroup', ?_⟩
  obtain ⟨c, negated, range, hread, hrender⟩ :=
    (hclause []).2.2 (by simp [Text.IsAscii]) (by unfold Rejects; decide)
  exact ⟨c, negated, range, hread, congrArg Prod.fst (hrender {} 0).1⟩

end Condition

end Packwright
