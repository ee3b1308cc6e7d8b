import Packwright.Token.Lexer

/-!
# The rules of the lexer

The lexer decides by a chain of tests what a character means. Here each way through them is a rule of
its own, with all that is known when it is taken. What the lexer keeps is then a matter of one case
for each rule.

## Main definitions

- `Lexer.SeekRule` — what a character means between tokens
- `Lexer.StepRule` — what a character means in any mode

## Main results

- `Lexer.seek_rule`, `Lexer.step_rule` — the lexer takes one of the rules
-/

namespace Packwright

/-! ### Brackets -/

namespace Bracket

theorem ofOpening?_eq_some {c : Char} {b : Bracket} (h : ofOpening? c = some b) : c = b.opening := by
  unfold ofOpening? at h
  split at h
  · next hc => obtain rfl := Option.some.inj h; exact hc
  split at h
  · next hc => obtain rfl := Option.some.inj h; exact hc
  split at h
  · next hc => obtain rfl := Option.some.inj h; exact hc
  · cases h

theorem isClosing_iff {c : Char} : isClosing c = true ↔ ∃ b : Bracket, c = b.closing := by
  constructor
  · intro h
    simp only [isClosing, Bool.or_eq_true, decide_eq_true_eq] at h
    rcases h with (h | h) | h
    · exact ⟨.round, h⟩
    · exact ⟨.curly, h⟩
    · exact ⟨.square, h⟩
  · rintro ⟨b, rfl⟩
    exact isClosing_closing b

/-- A character is no bracket if it neither opens nor closes one. -/
theorem not_bracket_iff {c : Char} :
    (∀ b : Bracket, c ≠ b.opening ∧ c ≠ b.closing) ↔ ofOpening? c = none ∧ isClosing c = false := by
  constructor
  · intro h
    constructor
    · rw [Option.eq_none_iff_forall_ne_some]
      exact fun b hb => (h b).1 (ofOpening?_eq_some hb)
    · rw [Bool.eq_false_iff, Ne, isClosing_iff]
      exact fun ⟨b, hb⟩ => (h b).2 hb
  · rintro ⟨hopening, hclosing⟩ b
    constructor
    · rintro rfl
      simp at hopening
    · rintro rfl
      simp at hclosing

end Bracket

namespace Lexer

/-! ### Between tokens -/

/-- What a character means between tokens, behind the lexemes that are finished. -/
inductive SeekRule (before : List Lexeme) (k : Cursor) (c : Char) (next : Option Char) :
    Except Fault (List Lexeme × Mode) → Prop
  | blank (hc : Text.isBlank c = true) : SeekRule before k c next (.ok (before, .seeking))
  | semicolon (hc : c = ';') :
    SeekRule before k c next (.ok (before ++ [Lexeme.semicolon k.position], .seeking))
  | quote (hc : c = '"') : SeekRule before k c next (.ok (before, .string k [c] false))
  | comma (hc : c = ',') : SeekRule before k c next
      (.ok (before ++ [Lexeme.token (finished .comma k (k.offset + 1) [c])], .seeking))
  | slashes (hc : c = '/') (hnext : next = some '/') :
    SeekRule before k c next (.ok (before, .comment))
  | doubled (hc : c = '&' ∨ c = '|') (hnext : next = some c) :
    SeekRule before k c next (.ok (before ++ [wordToken k (k.offset + 2) [c, c]], .doubled))
  | stray (b : Bracket) (hc : c = b.closing) :
    SeekRule before k c next (.error (.located (.strayBracket c) k.position))
  | opening (b : Bracket) (hc : c = b.opening) :
    SeekRule before k c next (.ok (before, .group k b [c] { opened := [b] }))
  | letter (hquote : c ≠ '"') (hbracket : ∀ b : Bracket, c ≠ b.opening ∧ c ≠ b.closing) :
    SeekRule before k c next (.ok (before, .word k [c] { opened := [] }))

theorem seek_rule (before : List Lexeme) (k : Cursor) (c : Char) (next : Option Char) :
    SeekRule before k c next (seek before k c next) := by
  unfold seek
  split
  · next hc => exact .blank hc
  split
  · next hc => exact .semicolon hc
  split
  · next hc => exact .quote hc
  next hquote =>
  split
  · next hc => exact .comma hc
  split
  · next hc =>
    simp only [Bool.and_eq_true, decide_eq_true_eq] at hc
    exact .slashes hc.1 hc.2
  split
  · next hc =>
    simp only [Bool.and_eq_true, Bool.or_eq_true, decide_eq_true_eq] at hc
    exact .doubled hc.1 hc.2
  split
  · next hclosing =>
    obtain ⟨b, hb⟩ := Bracket.isClosing_iff.mp hclosing
    exact .stray b hb
  next hclosing =>
  split
  · next b hb => exact .opening b (Bracket.ofOpening?_eq_some hb)
  · next hopening =>
    exact .letter hquote (Bracket.not_bracket_iff.mpr ⟨hopening, by simpa using hclosing⟩)

/-! ### In any mode -/

/-- What a character means in a mode. -/
inductive StepRule (k : Cursor) (c : Char) (next : Option Char) :
    Mode → Except Fault (List Lexeme × Mode) → Prop
  | numberSign (hc : c = '#') (hcolumn : k.position.column = 1) :
    StepRule k c next .seeking (.ok ([], .comment))
  | sought {result : Except Fault (List Lexeme × Mode)} (h : SeekRule [] k c next result) :
    StepRule k c next .seeking result
  | lineEnd (hc : c = '\n') : StepRule k c next .comment (.ok ([], .seeking))
  | comment (hc : c ≠ '\n') : StepRule k c next .comment (.ok ([], .comment))
  | doubled : StepRule k c next .doubled (.ok ([], .seeking))
  | selector {start : Cursor} {text : List Char} {nest nest' : Nest} (hopen : nest.opened ≠ [])
    (h : nest.step k.position c = .ok nest') :
    StepRule k c next (.word start text nest) (.ok ([], .word start (c :: text) nest'))
  | selectorFault {start : Cursor} {text : List Char} {nest : Nest} {f : Fault}
    (h : nest.step k.position c = .error f) :
    StepRule k c next (.word start text nest) (.error f)
  | selectorOpens {start : Cursor} {text : List Char} {nest : Nest} (hclosed : nest.opened = [])
    (hc : c = '[') :
    StepRule k c next (.word start text nest)
      (.ok ([], .word start (c :: text) { opened := [.square] }))
  | letter {start : Cursor} {text : List Char} {nest : Nest} (hclosed : nest.opened = [])
    (hquote : c ≠ '"') (hbracket : ∀ b : Bracket, c ≠ b.opening ∧ c ≠ b.closing) :
    StepRule k c next (.word start text nest) (.ok ([], .word start (c :: text) nest))
  | wordEnd {start : Cursor} {text : List Char} {nest : Nest}
    {result : Except Fault (List Lexeme × Mode)} (hclosed : nest.opened = [])
    (h : SeekRule [wordToken start k.offset text] k c next result) :
    StepRule k c next (.word start text nest) result
  | escaped {start : Cursor} {text : List Char} :
    StepRule k c next (.string start text true) (.ok ([], .string start (c :: text) false))
  | backslash {start : Cursor} {text : List Char} (hc : c = '\\') :
    StepRule k c next (.string start text false) (.ok ([], .string start (c :: text) true))
  | lineBreak {start : Cursor} {text : List Char} (hc : c = '\n') :
    StepRule k c next (.string start text false)
      (.error (.located .lineBreakInString start.position))
  | quote {start : Cursor} {text : List Char} (hc : c = '"') :
    StepRule k c next (.string start text false)
      (.ok ([stringToken start (k.offset + c.utf8Size) (c :: text)], .seeking))
  | quoted {start : Cursor} {text : List Char} (hquote : c ≠ '"') (hslash : c ≠ '\\')
    (hline : c ≠ '\n') :
    StepRule k c next (.string start text false) (.ok ([], .string start (c :: text) false))
  | groupEnd {start : Cursor} {b : Bracket} {text : List Char} {nest nest' : Nest}
    (h : nest.step k.position c = .ok nest') (hclosed : nest'.opened = []) :
    StepRule k c next (.group start b text nest)
      (.ok ([.token (finished (.group b) start (k.offset + c.utf8Size) (c :: text))], .seeking))
  | group {start : Cursor} {b : Bracket} {text : List Char} {nest nest' : Nest}
    (h : nest.step k.position c = .ok nest') (hopen : nest'.opened ≠ []) :
    StepRule k c next (.group start b text nest) (.ok ([], .group start b (c :: text) nest'))
  | groupFault {start : Cursor} {b : Bracket} {text : List Char} {nest : Nest} {f : Fault}
    (h : nest.step k.position c = .error f) :
    StepRule k c next (.group start b text nest) (.error f)

/-- A character that continues a word is no bracket and no quote. -/
theorem continuesWord_plain {c : Char} {next : Option Char} (h : continuesWord c next = true)
    (hsquare : c ≠ '[') : c ≠ '"' ∧ ∀ b : Bracket, c ≠ b.opening ∧ c ≠ b.closing := by
  rw [Bracket.not_bracket_iff]
  simp only [continuesWord, Bool.not_eq_true', Bool.or_eq_false_iff, decide_eq_false_iff_not] at h
  obtain ⟨⟨⟨⟨⟨⟨⟨⟨-, -⟩, hquote⟩, -⟩, hround⟩, hcurly⟩, -⟩, -⟩, hclosing⟩ := h
  refine ⟨hquote, ?_, hclosing⟩
  simp [Bracket.ofOpening?, hround, hcurly, hsquare]

theorem step_rule (k : Cursor) (c : Char) (next : Option Char) (mode : Mode) :
    StepRule k c next mode (step k c next mode) := by
  cases mode with
  | seeking =>
    simp only [step]
    split
    · next hc =>
      simp only [Bool.and_eq_true, decide_eq_true_eq] at hc
      exact .numberSign hc.1 hc.2
    · exact .sought (seek_rule ..)
  | comment =>
    simp only [step]
    split
    · next hc => exact .lineEnd hc
    · next hc => exact .comment hc
  | doubled => exact .doubled
  | word start text nest =>
    simp only [step]
    split
    · next hopen =>
      rcases h : nest.step k.position c with f | nest'
      · exact .selectorFault h
      · exact .selector (by simpa [Nest.closed] using hopen) h
    next hopen =>
    have hclosed : nest.opened = [] := by simpa [Nest.closed] using hopen
    split
    · next hc => exact .selectorOpens hclosed hc
    next hsquare =>
    split
    · next hcontinues =>
      obtain ⟨hquote, hbracket⟩ := continuesWord_plain hcontinues hsquare
      exact .letter hclosed hquote hbracket
    · exact .wordEnd hclosed (seek_rule ..)
  | string start text escaped =>
    cases escaped with
    | true => exact .escaped
    | false =>
    simp only [step, Bool.false_eq_true, if_false]
    split
    · next hc => exact .backslash hc
    next hslash =>
    split
    · next hc => exact .lineBreak hc
    next hline =>
    split
    · next hc => exact .quote hc
    · next hquote => exact .quoted hquote hslash hline
  | group start b text nest =>
    simp only [step]
    rcases h : nest.step k.position c with f | nest'
    · exact .groupFault h
    · show StepRule k c next _ (if nest'.closed = true then _ else _)
      split
      · next hclosed => exact .groupEnd h (by simpa [Nest.closed] using hclosed)
      · next hopen => exact .group h (by simpa [Nest.closed] using hopen)

end Lexer

end Packwright
