import Packwright.Proofs.Token.Covering
import Packwright.Proofs.Token.Pieces

/-!
# Tokens in other surroundings

A token is read from its text alone, wherever that stands, with two exceptions. A number sign in the
first column begins a comment. And a word ends only in front of a character that cannot go on with it,
which may depend on the character behind that one. So a token is read again in front of another text, if
only a word goes on and ends there as it did.

## Main definitions

- `Lexer.EndsAlike` — texts in front of which words go on and end alike
- `Lexer.Mode.Takes`, `Lexer.Mode.Closes` — what a character does to a token that is being read
- `Token.ReadsAgain` — a token is read where it stands, and as well elsewhere
- `Lexer.IsNext` — the first lexeme of a text, behind blanks and comments

## Main results

- `Lexer.step_inToken`, `Lexer.run_endsIn` — one character of a token, and the rest of it
- `Lexer.run_isNext`, `Lexer.exists_behind` — the lexemes of a text are read one behind the other
-/

namespace Packwright

/-- The token where its text stands behind a cursor. -/
def Token.placedAt (t : Token) (k : Cursor) : Token :=
  { t with span := ⟨k.offset, (k.walk t.text.toList).offset, k.position⟩ }

namespace Lexer

variable {mode mode' : Mode} {k : Cursor} {c : Char} {cs front rest rest' : List Char}
  {now all later : List Lexeme} {t : Token}

/-! ### What is behind a word -/

/-- A word goes on in front of the second text if it does in front of the first, and ends there if it
ends here. -/
structure EndsAlike (rest rest' : List Char) : Prop where
  continues : ∀ c, continuesWord c rest.head? = true → continuesWord c rest'.head? = true
  ends : WordEnds rest → WordEnds rest'

theorem EndsAlike.refl (rest : List Char) : EndsAlike rest rest := ⟨fun _ => id, id⟩

/-- What is behind a character keeps it from going on with a word only by being the same slash or sign. -/
theorem continuesWord_of_next {next : Option Char} (hnext : ∀ d ∈ next, ¬(d = '/' ∨ d = '&' ∨ d = '|'))
    {other : Option Char} (h : continuesWord c other = true) : continuesWord c next = true := by
  have hslash : next ≠ some '/' := fun e => hnext _ e (.inl rfl)
  have hsign : (c = '&' ∨ c = '|') → next ≠ some c := by
    rintro (rfl | rfl) e
    · exact hnext _ e (.inr (.inl rfl))
    · exact hnext _ e (.inr (.inr rfl))
  simp only [continuesWord, Bool.not_eq_true', Bool.or_eq_false_iff, Bool.and_eq_false_iff,
    decide_eq_false_iff_not] at h ⊢
  obtain ⟨⟨⟨h, -⟩, -⟩, hclosing⟩ := h
  refine ⟨⟨⟨h, .inr hslash⟩, ?_⟩, hclosing⟩
  rw [or_iff_not_imp_left, not_and_or, not_not, not_not]
  exact hsign

theorem EndsAlike.continues_behind (h : EndsAlike rest rest') (front : List Char) (c : Char) :
    continuesWord c (front ++ rest).head? = true → continuesWord c (front ++ rest').head? = true := by
  cases front with
  | nil => exact h.continues c
  | cons d front => exact id

theorem endsAlike_nil : EndsAlike rest [] :=
  ⟨fun _ h => continuesWord_of_next (by simp) h, fun _ => trivial⟩

theorem endsAlike_blank (hc : Text.isBlank c = true) : EndsAlike rest (c :: rest') := by
  refine ⟨fun _ h => continuesWord_of_next ?_ h, fun _ => wordEnds_blank hc⟩
  rintro d hd (rfl | rfl | rfl) <;> exact absurd (Option.some.inj hd ▸ hc) (by decide)

/-! ### The end of a token -/

/-- Whether the lexer is in the middle of a token. -/
def Mode.inToken : Mode → Bool
  | .word .. | .string .. | .group .. => true
  | .seeking | .comment | .doubled => false

/-- What is read of the token. -/
def Mode.text : Mode → List Char
  | .word _ text _ | .string _ text _ | .group _ _ text _ => text.reverse
  | .seeking | .comment | .doubled => []

/-- The same token, begun at another cursor. -/
def Mode.begunAt (start : Cursor) : Mode → Mode
  | .word _ text nest => .word start text nest
  | .string _ text escaped => .string start text escaped
  | .group _ b text nest => .group start b text nest
  | .seeking => .seeking
  | .comment => .comment
  | .doubled => .doubled

theorem exists_of_run_cons (h : run mode k (c :: cs) = .ok all) : ∃ now mode' later,
    step k c cs.head? mode = .ok (now, mode') ∧ run mode' (k.advance c) cs = .ok later ∧
      all = now ++ later := by
  obtain ⟨⟨now, mode'⟩, hstep, hrun⟩ := exists_of_bind_ok h
  obtain ⟨later, hlater, hall⟩ := exists_of_bind_ok hrun
  exact ⟨now, mode', later, hstep, hlater, (Except.ok.inj hall).symm⟩

/-- The mode goes on with its token through a character, wherever that began, and before every next
character that a word goes on with as here. -/
structure Mode.Takes (mode : Mode) (c : Char) (next : Option Char) (mode' : Mode) : Prop where
  inToken : mode'.inToken = true
  text : mode'.text = mode.text ++ [c]
  step : ∀ start k next', (continuesWord c next = true → continuesWord c next' = true) →
    step k c next' (mode.begunAt start) = .ok ([], mode'.begunAt start)

/-- The character is the last one of the token. -/
structure Mode.Closes (mode : Mode) (c : Char) (t : Token) : Prop where
  text : t.text.toList = mode.text ++ [c]
  step : ∀ start k next, step k c next (mode.begunAt start) = .ok ([.token
    { t with span := ⟨start.offset, (k.advance c).offset, start.position⟩ }], .seeking)

/-- In the middle of a token a character goes on with it, or is its last one, or stands behind a word. -/
theorem step_inToken (hmode : mode.inToken = true)
    (h : step k c rest.head? mode = .ok (now, mode')) :
    (now = [] ∧ mode.Takes c rest.head? mode') ∨
      (∃ t, now = [.token t] ∧ mode' = .seeking ∧ mode.Closes c t) ∨
      ∃ start text nest, mode = .word start text nest ∧ nest.opened = [] ∧ WordEnds (c :: rest) := by
  cases mode with
  | seeking | comment | doubled => cases hmode
  | word start text nest =>
    by_cases hclosed : nest.opened = []
    · by_cases hends : WordEnds (c :: rest)
      · exact .inr (.inr ⟨start, text, nest, rfl, hclosed, hends⟩)
      · have hnest : nest.closed = true := by simp [Nest.closed, hclosed]
        by_cases hsquare : c = '['
        · subst hsquare
          have hstep : ∀ start k next, step k '[' next (.word start text nest) =
              .ok ([], .word start ('[' :: text) { opened := [.square] }) := by simp [step, hnest]
          obtain ⟨rfl, rfl⟩ := Prod.mk.inj (Except.ok.inj ((hstep ..).symm.trans h))
          exact .inl ⟨rfl, rfl, by simp [Mode.text], fun start k next _ => hstep start k next⟩
        · have hcontinues : continuesWord c rest.head? = true := by
            simpa [WordEnds, hsquare] using hends
          have hstep : ∀ start k next, continuesWord c next = true →
              step k c next (.word start text nest) = .ok ([], .word start (c :: text) nest) := by
            intro start k next hnext
            rw [step, hnest, if_neg (by simp), if_neg hsquare, if_pos hnext]
          obtain ⟨rfl, rfl⟩ := Prod.mk.inj (Except.ok.inj ((hstep _ _ _ hcontinues).symm.trans h))
          exact .inl ⟨rfl, rfl, by simp [Mode.text],
            fun start k next hnext => hstep start k next (hnext hcontinues)⟩
    · have hnest : nest.closed = false := by simpa [Nest.closed] using hclosed
      simp only [step, hnest] at h
      obtain ⟨nest', hnest', hok⟩ := exists_of_bind_ok h
      obtain ⟨rfl, rfl⟩ := Prod.mk.inj (Except.ok.inj hok)
      refine .inl ⟨rfl, rfl, by simp [Mode.text], fun start k next _ => ?_⟩
      simp only [Mode.begunAt, step, hnest, Nest.step_ok hnest' k.position]
      rfl
  | string start text escaped =>
    have hrule := step_rule k c rest.head? (.string start text escaped)
    rw [h] at hrule
    cases hrule with
    | escaped => exact .inl ⟨rfl, rfl, by simp [Mode.text], fun _ _ _ _ => rfl⟩
    | backslash hc =>
      subst hc
      exact .inl ⟨rfl, rfl, by simp [Mode.text], fun _ _ _ _ => rfl⟩
    | quote hc =>
      subst hc
      exact .inr (.inl ⟨_, rfl, rfl, by simp [Mode.text, finished], fun _ _ _ => rfl⟩)
    | quoted hquote hslash hline =>
      refine .inl ⟨rfl, rfl, by simp [Mode.text], fun _ _ _ _ => ?_⟩
      simp [step, Mode.begunAt, hquote, hslash, hline]
  | group start b text nest =>
    have hrule := step_rule k c rest.head? (.group start b text nest)
    rw [h] at hrule
    cases hrule with
    | @groupEnd _ _ _ _ nest' hnest hclosed =>
      refine .inr (.inl ⟨_, rfl, rfl, by simp [Mode.text, finished], fun start k next => ?_⟩)
      simp only [step, Mode.begunAt, Nest.step_ok hnest k.position, Nest.closed, hclosed, bind,
        Except.bind]
      rfl
    | @group _ _ _ _ nest' hnest hopen =>
      have hnest' : nest'.closed = false := by simpa [Nest.closed] using hopen
      refine .inl ⟨rfl, rfl, by simp [Mode.text], fun start k next _ => ?_⟩
      simp only [step, Mode.begunAt, Nest.step_ok hnest k.position, hnest', bind, Except.bind]
      rfl

/-- The token ends with `front`, wherever it began and whatever is behind it, if only a word ends there as
it does in front of `rest`. -/
structure Mode.Finishes (mode : Mode) (front rest : List Char) (t : Token) : Prop where
  text : t.text.toList = mode.text ++ front
  again : ∀ start k rest' later, EndsAlike rest rest' → run .seeking (k.walk front) rest' = .ok later →
    run (mode.begunAt start) k (front ++ rest') = .ok (.token
      { t with span := ⟨start.offset, (k.walk front).offset, start.position⟩ } :: later)

namespace Mode

theorem Takes.finishes (h : mode.Takes c (front ++ rest).head? mode') (hrest : mode'.Finishes front rest t) :
    mode.Finishes (c :: front) rest t := by
  refine ⟨by rw [hrest.text, h.text, List.append_assoc, List.singleton_append], ?_⟩
  intro start k rest' later halike hlater
  rw [List.cons_append, run_silent (h.step start k _ (halike.continues_behind front c))]
  exact hrest.again start (k.advance c) rest' later halike hlater

theorem Closes.finishes (h : mode.Closes c t) : mode.Finishes [c] rest t := by
  refine ⟨h.text, fun start k rest' later _ hlater => ?_⟩
  rw [List.singleton_append, run_cons (h.step start k _),
    show run .seeking (k.advance c) rest' = .ok later from hlater]
  rfl

end Mode

/-- The rest of the text begins with the end of the token that is being read, and the lexer is between
tokens behind it. -/
def Mode.EndsIn (mode : Mode) (k : Cursor) (cs : List Char) (all : List Lexeme) : Prop :=
  ∃ t front rest later, cs = front ++ rest ∧ all = .token t :: later ∧
    run .seeking (k.walk front) rest = .ok later ∧ mode.Finishes front rest t

/-- A word ends in front of what cannot go on with it. -/
theorem endsIn_word {start : Cursor} {text : List Char} {nest : Nest} (hclosed : nest.opened = [])
    (hends : WordEnds cs) (h : run (.word start text nest) k cs = .ok all) :
    (Mode.word start text nest).EndsIn k cs all := by
  rw [run_wordEnd hclosed hends] at h
  obtain ⟨later, hlater, rfl⟩ := exists_of_map_ok h
  refine ⟨_, [], cs, later, rfl, rfl, hlater, by simp [finished, Mode.text], ?_⟩
  intro start k rest' later' halike hlater'
  rw [List.nil_append, Mode.begunAt, run_wordEnd hclosed (halike.ends hends),
    show run .seeking k rest' = .ok later' from hlater']
  rfl

/-- A token that is being read has an end. -/
theorem run_endsIn (hmode : mode.inToken = true) (h : run mode k cs = .ok all) :
    mode.EndsIn k cs all := by
  induction cs generalizing mode k all with
  | nil =>
    cases mode with
    | seeking | comment | doubled => cases hmode
    | string | group => cases h
    | word start text nest =>
      by_cases hclosed : nest.opened = []
      · exact endsIn_word hclosed trivial h
      · simp [run, finish, Nest.closed, hclosed] at h
  | cons c cs ih =>
    obtain ⟨now, mode', later, hstep, hlater, rfl⟩ := exists_of_run_cons h
    rcases step_inToken hmode hstep with ⟨rfl, htakes⟩ | ⟨t, rfl, rfl, hcloses⟩ |
      ⟨start, text, nest, rfl, hclosed, hends⟩
    · obtain ⟨t, front, rest, later, rfl, rfl, hlater, hfinishes⟩ := ih htakes.inToken hlater
      exact ⟨t, c :: front, rest, later, rfl, rfl, hlater, htakes.finishes hfinishes⟩
    · exact ⟨t, [c], cs, later, rfl, rfl, hlater, hcloses.finishes⟩
    · exact endsIn_word hclosed hends h

end Lexer

/-! ### Tokens in other surroundings -/

/-- The lexer reads the token where it stands and in front of what is there, and as well elsewhere, if only
a number sign does not come to stand in the first column and what is behind it goes on with a word, and ends
one, as here. -/
structure Token.ReadsAgain (t : Token) (k : Cursor) (rest : List Char) : Prop where
  stands : t.StandsAt k
  sign : t.text.toList.head? = some '#' → k.position.column ≠ 1
  ends : Lexer.WordEnds (t.text.toList ++ rest) → ∀ rest', Lexer.WordEnds (t.text.toList ++ rest')
  again : ∀ k rest' later, (t.text.toList.head? = some '#' → k.position.column ≠ 1) →
    Lexer.EndsAlike rest rest' → Lexer.run .seeking (k.walk t.text.toList) rest' = .ok later →
      Lexer.run .seeking k (t.text.toList ++ rest') = .ok (.token (t.placedAt k) :: later)

namespace Lexer

variable {mode mode' : Mode} {k : Cursor} {c : Char} {cs front rest rest' : List Char}
  {now all later : List Lexeme} {lexeme : Lexeme} {t : Token}

/-- A comment goes on to the end of its line, and the lexer is between tokens there. -/
theorem exists_of_comment (h : run .comment k cs = .ok all) :
    ∃ comment rest, cs = comment ++ rest ∧ '\n' ∉ comment ∧ AtLineEnd rest ∧
      run .seeking (k.walk comment) rest = .ok all := by
  induction cs generalizing k with
  | nil => exact ⟨[], [], rfl, List.not_mem_nil, fun _ hc => (by cases hc), h⟩
  | cons c cs ih =>
    by_cases hc : c = '\n'
    · subst hc
      refine ⟨[], '\n' :: cs, rfl, List.not_mem_nil, fun _ hd => (Option.some.inj hd).symm, ?_⟩
      have hends : step k '\n' cs.head? .comment = .ok ([], .seeking) := rfl
      have hblank : step k '\n' cs.head? .seeking = .ok ([], .seeking) := rfl
      rw [run_silent hends] at h
      rw [Cursor.walk_nil, run_silent hblank, h]
    · have hstep : step k c cs.head? .comment = .ok ([], .comment) := by simp [step, hc]
      rw [run_silent hstep] at h
      obtain ⟨comment, rest, rfl, hline, hend, hrest⟩ := ih h
      refine ⟨c :: comment, rest, rfl, ?_, hend, hrest⟩
      rw [List.mem_cons, not_or]
      exact ⟨Ne.symm hc, hline⟩

/-- Between tokens a word begins at the characters that go on with one. -/
theorem seek_letter_iff {next : Option Char} :
    seek [] k c next = .ok ([], .word k [c] { opened := [] }) ↔
      c ≠ '[' ∧ continuesWord c next = true := by
  unfold seek continuesWord
  repeat' split
  all_goals simp_all [Bracket.ofOpening?]
  all_goals grind [Bracket.isClosing]

/-- A token that is read where it stands, and wherever else it may, stands where it is read. -/
theorem readsAgain_of_run {text : List Char} (htext : t.text.toList = text) (hne : text ≠ [])
    (hsign : text.head? = some '#' → k.position.column ≠ 1)
    (hends : WordEnds (text ++ rest) → ∀ rest', WordEnds (text ++ rest'))
    (hlater : run .seeking (k.walk text) rest = .ok later)
    (h : run .seeking k (text ++ rest) = .ok (.token t :: later))
    (hagain : ∀ k rest' later, (text.head? = some '#' → k.position.column ≠ 1) →
      EndsAlike rest rest' → run .seeking (k.walk text) rest' = .ok later →
        run .seeking k (text ++ rest') = .ok (.token (t.placedAt k) :: later)) :
    t.ReadsAgain k rest := by
  subst htext
  have hplaced := (hagain k rest later hsign (.refl rest) hlater).symm.trans h
  have ht : t.placedAt k = t := Lexeme.token.inj (List.cons.inj (Except.ok.inj hplaced)).1
  exact ⟨⟨hne, (congrArg Token.span ht).symm⟩, hsign, hends, hagain⟩

/-- How a character between tokens begins one, wherever it stands and before every next character that a
word goes on with as here. -/
structure Mode.Begins (mode : Cursor → Mode) (c : Char) (next : Option Char) : Prop where
  inToken : ∀ k, (mode k).inToken = true
  text : ∀ k, (mode k).text = [c]
  begunAt : ∀ k start, (mode k).begunAt start = mode start
  ends : continuesWord c next = false → c = '[' ∨ ∀ next', continuesWord c next' = false
  step : ∀ k next', (c = '#' → k.position.column ≠ 1) →
    (continuesWord c next = true → continuesWord c next' = true) →
      step k c next' .seeking = .ok ([], mode k)

/-- A token that begins here is read wherever it stands. -/
theorem Mode.Begins.exists_token {mode : Cursor → Mode} (h : Mode.Begins mode c cs.head?)
    (hsign : c = '#' → k.position.column ≠ 1) (hrun : run .seeking k (c :: cs) = .ok all) :
    ∃ t rest later, c :: cs = t.text.toList ++ rest ∧ all = .token t :: later ∧
      run .seeking (k.walk t.text.toList) rest = .ok later ∧ t.ReadsAgain k rest := by
  have hmode := hrun
  rw [run_silent (h.step k _ hsign id)] at hmode
  obtain ⟨t, front, rest, later, rfl, rfl, hlater, hfinishes⟩ := run_endsIn (h.inToken k) hmode
  have htext : t.text.toList = c :: front := by rw [hfinishes.text, h.text]; rfl
  refine ⟨t, rest, later, by rw [htext]; rfl, rfl, by rw [htext]; exact hlater, ?_⟩
  refine readsAgain_of_run htext (List.cons_ne_nil c front) ?_ ?_ hlater hrun ?_
  · simpa using hsign
  · rintro ⟨hsquare, hends⟩ rest'
    refine ⟨hsquare, ?_⟩
    cases front with
    | nil => exact (h.ends hends).resolve_left hsquare _
    | cons d front => exact hends
  · intro k' rest' later' hsign' halike hlater'
    unfold Token.placedAt
    rw [htext]
    have hbegins := h.step k' (front ++ rest').head? (by simpa using hsign')
      (halike.continues_behind front c)
    rw [List.cons_append, run_silent hbegins, ← h.begunAt k]
    exact hfinishes.again k' (k'.advance c) rest' later' halike hlater'

/-- A token with a text of its own is read wherever it stands. -/
theorem readsAgain_fixed (kind : TokenKind) {text : List Char} (hne : text ≠ [])
    (hsign : text.head? ≠ some '#')
    (hends : WordEnds (text ++ rest) → ∀ rest', WordEnds (text ++ rest'))
    (hrun : ∀ k rest' later, run .seeking (k.walk text) rest' = .ok later →
      run .seeking k (text ++ rest') =
        .ok (.token (finished kind k (k.walk text).offset text.reverse) :: later))
    (h : run .seeking (k.walk text) rest = .ok later) :
    (finished kind k (k.walk text).offset text.reverse).ReadsAgain k rest := by
  have htext : (finished kind k (k.walk text).offset text.reverse).text.toList = text := by
    simp [finished]
  refine readsAgain_of_run htext hne (fun hhead => absurd hhead hsign) hends h (hrun k rest later h) ?_
  intro k' rest' later' _ _ hlater'
  rw [hrun k' rest' later' hlater', Token.placedAt, htext]
  rfl

theorem readsAgain_comma (h : run .seeking (k.advance ',') rest = .ok later) :
    (finished .comma k (k.offset + 1) [',']).ReadsAgain k rest := by
  have hcomma : [','].head? ≠ some '#' := by decide
  refine readsAgain_fixed .comma (List.cons_ne_nil _ _) hcomma (fun hends _ => hends) ?_ h
  intro k rest' later hlater
  have hstep : step k ',' rest'.head? .seeking =
      .ok ([.token (finished .comma k (k.offset + 1) [','])], .seeking) := rfl
  rw [List.singleton_append, run_cons hstep,
    show run .seeking (k.advance ',') rest' = .ok later from hlater]
  rfl

theorem readsAgain_doubled (hc : c = '&' ∨ c = '|')
    (h : run .seeking ((k.advance c).advance c) rest = .ok later) :
    (finished .word k (k.offset + 2) [c, c]).ReadsAgain k rest := by
  have hstop : ∀ k : Cursor, k.offset + 2 = (k.walk [c, c]).offset := by
    rcases hc with rfl | rfl <;> exact fun k => rfl
  have hfirst : ∀ k, step k c (some c) .seeking =
      .ok ([wordToken k (k.walk [c, c]).offset [c, c]], .doubled) := by
    intro k
    rw [← hstop]
    rcases hc with rfl | rfl <;> rfl
  have hsign : [c, c].head? ≠ some '#' := by rcases hc with rfl | rfl <;> decide
  rw [hstop]
  refine readsAgain_fixed .word (List.cons_ne_nil _ _) hsign (fun hends _ => hends) ?_ h
  intro k rest' later hlater
  have hsecond : step (k.advance c) c rest'.head? .doubled = .ok ([], .seeking) := rfl
  show run .seeking k (c :: c :: rest') = _
  rw [run_cons (hfirst k), run_silent hsecond,
    show run .seeking ((k.advance c).advance c) rest' = .ok later from hlater]
  rfl

/-- The lexeme is the first one of a text, behind blanks and comments; the others are read behind it. -/
def IsNext (k : Cursor) (cs : List Char) (lexeme : Lexeme) (all : List Lexeme) : Prop :=
  ∃ gap blanks text rest, cs = gap ++ (text ++ rest) ∧ Filler (text ++ rest) k.position gap blanks ∧
    run .seeking ((k.walk gap).walk text) rest = .ok all ∧
    ∀ t, lexeme = .token t → text = t.text.toList ∧ t.ReadsAgain (k.walk gap) rest

namespace IsNext

theorem blank (hc : Text.isBlank c = true) (h : IsNext (k.advance c) cs lexeme all) :
    IsNext k (c :: cs) lexeme all := by
  obtain ⟨gap, blanks, text, rest, rfl, hgap, hrest⟩ := h
  exact ⟨c :: gap, c :: blanks, text, rest, rfl, .blank hc hgap, hrest⟩

theorem comment {comment : List Char} (hcomment : Comment k.position comment) (hend : AtLineEnd cs)
    (h : IsNext (k.walk comment) cs lexeme all) : IsNext k (comment ++ cs) lexeme all := by
  obtain ⟨gap, blanks, text, rest, rfl, hgap, hrest⟩ := h
  rw [Cursor.walk_position] at hgap
  refine ⟨comment ++ gap, blanks, text, rest, (List.append_assoc ..).symm,
    .comment hcomment hend hgap, ?_⟩
  rw [Cursor.walk_append]
  exact hrest

theorem semicolon (h : run .seeking (k.advance ';') rest = .ok all) (p : Position) :
    IsNext k (';' :: rest) (.semicolon p) all :=
  ⟨[], [], [';'], rest, rfl, .nil _, h, fun _ ht => (by cases ht)⟩

theorem token {text : List Char} (htext : t.text.toList = text)
    (h : run .seeking (k.walk text) rest = .ok all) (hreads : t.ReadsAgain k rest) :
    IsNext k (text ++ rest) (.token t) all := by
  refine ⟨[], [], text, rest, rfl, .nil _, h, ?_⟩
  rintro _ ⟨⟩
  exact ⟨htext.symm, hreads⟩

end IsNext

theorem isNext_of_begins (mode : Cursor → Mode) (h : Mode.Begins mode c cs.head?)
    (hsign : c = '#' → k.position.column ≠ 1)
    (hrun : run .seeking k (c :: cs) = .ok (lexeme :: all)) : IsNext k (c :: cs) lexeme all := by
  obtain ⟨t, rest, later, hcs, hall, hlater, hreads⟩ := h.exists_token hsign hrun
  obtain ⟨rfl, rfl⟩ := List.cons.inj hall
  rw [hcs]
  exact .token rfl hlater hreads

/-- The lexemes of a text are read one behind the other. -/
theorem run_isNext (h : run .seeking k cs = .ok (lexeme :: all)) : IsNext k cs lexeme all := by
  induction hlength : cs.length using Nat.strongRecOn generalizing k cs with
  | _ n ih =>
  cases cs with
  | nil => cases h
  | cons c cs =>
    rw [List.length_cons] at hlength
    obtain ⟨now, mode, later, hstep, hlater, hall⟩ := exists_of_run_cons h
    -- the first lexeme behind a comment is still to come
    have hcomment : mode = .comment → ∃ comment rest, cs = comment ++ rest ∧ '\n' ∉ comment ∧
        AtLineEnd rest ∧ (now = [] → IsNext (k.walk (c :: comment)) rest lexeme all) := by
      rintro rfl
      obtain ⟨comment, rest, rfl, hline, hend, hrest⟩ := exists_of_comment hlater
      refine ⟨comment, rest, rfl, hline, hend, ?_⟩
      rintro rfl
      obtain rfl : lexeme :: all = later := hall
      exact ih rest.length (by simp at hlength; omega) hrest rfl
    have hrule := step_rule k c cs.head? .seeking
    rw [hstep] at hrule
    cases hrule with
    | numberSign hc hcolumn =>
      subst hc
      obtain ⟨comment, rest, rfl, hline, hend, hrest⟩ := hcomment rfl
      exact .comment (.numberSign hcolumn hline) hend (hrest rfl)
    | sought hseek =>
      cases hseek with
      | blank hc =>
        obtain rfl : lexeme :: all = later := hall
        exact .blank hc (ih cs.length (by omega) hlater rfl)
      | semicolon hc =>
        subst hc
        obtain ⟨rfl, rfl⟩ := List.cons.inj hall
        exact .semicolon hlater _
      | quote hc =>
        subst hc
        refine isNext_of_begins (fun k => .string k ['"'] false) ?_ (by simp) h
        exact ⟨fun _ => rfl, fun _ => rfl, fun _ _ => rfl, fun _ => .inr fun _ => rfl, fun _ _ _ _ => rfl⟩
      | comma hc =>
        subst hc
        obtain ⟨rfl, rfl⟩ := List.cons.inj hall
        have hnext : IsNext k ([','] ++ cs) (.token (finished .comma k (k.offset + 1) [','])) all :=
          .token (by simp [finished]) hlater (readsAgain_comma hlater)
        exact hnext
      | slashes hc hnext =>
        subst hc
        obtain ⟨comment, rest, rfl, hline, hend, hrest⟩ := hcomment rfl
        -- the second slash is not at the end of a line, so it belongs to the comment
        cases comment with
        | nil => exact absurd (hend '/' hnext) (by decide)
        | cons d comment =>
          obtain rfl : d = '/' := Option.some.inj hnext
          rw [List.mem_cons, not_or] at hline
          exact .comment (.slashes hline.2) hend (hrest rfl)
      | doubled hc hnext =>
        obtain ⟨rest, rfl⟩ := List.head?_eq_some_iff.mp hnext
        obtain ⟨rfl, rfl⟩ := List.cons.inj hall
        have hsecond : step (k.advance c) c rest.head? .doubled = .ok ([], .seeking) := rfl
        rw [run_silent hsecond] at hlater
        have hnext : IsNext k ([c, c] ++ rest) (wordToken k (k.offset + 2) [c, c]) all :=
          .token (by simp [finished]) hlater (readsAgain_doubled hc hlater)
        exact hnext
      | opening b hc =>
        subst hc
        refine isNext_of_begins (fun k => .group k b [b.opening] { opened := [b] }) ?_ ?_ h
        · refine ⟨fun _ => rfl, fun _ => rfl, fun _ _ => rfl, fun _ => ?_, fun k next _ _ => ?_⟩
          · cases b
            · exact .inr fun _ => rfl
            · exact .inr fun _ => rfl
            · exact .inl rfl
          · cases b <;> rfl
        · cases b <;> simp [Bracket.opening]
      | letter =>
        by_cases hsign : c = '#' ∧ k.position.column = 1
        · simp [step, hsign] at hstep
        · have hseek : ∀ k next, (c = '#' → k.position.column ≠ 1) →
              step k c next .seeking = seek [] k c next := by
            intro k next hcolumn
            rw [step, if_neg]
            simpa using hcolumn
          rw [not_and] at hsign
          rw [hseek k _ hsign, seek_letter_iff] at hstep
          obtain ⟨hsquare, hcontinues⟩ := hstep
          refine isNext_of_begins (fun k => .word k [c] { opened := [] }) ?_ hsign h
          refine ⟨fun _ => rfl, fun _ => rfl, fun _ _ => rfl, fun hends => ?_, fun k next hcolumn hnext => ?_⟩
          · rw [hcontinues] at hends
            cases hends
          · rw [hseek k next hcolumn, seek_letter_iff]
            exact ⟨hsquare, hnext hcontinues⟩

/-- What is behind the first lexemes is read from where they end. -/
theorem exists_behind {before : List Lexeme} (h : run .seeking k cs = .ok (before ++ all)) :
    ∃ front rest, cs = front ++ rest ∧ run .seeking (k.walk front) rest = .ok all := by
  induction before generalizing k cs with
  | nil => exact ⟨[], cs, rfl, h⟩
  | cons lexeme before ih =>
    obtain ⟨gap, blanks, text, rest, rfl, -, hrest, -⟩ := run_isNext h
    obtain ⟨front, rest, rfl, hall⟩ := ih hrest
    refine ⟨gap ++ (text ++ front), rest, by simp, ?_⟩
    rw [Cursor.walk_append, Cursor.walk_append]
    exact hall

/-- In front of what is behind it, a token ends words and goes on with them as it does here. -/
theorem EndsAlike.token (h : t.ReadsAgain k rest) (rest' : List Char) :
    EndsAlike (t.text.toList ++ rest) (t.text.toList ++ rest') := by
  refine ⟨?_, fun hends => h.ends hends rest'⟩
  obtain ⟨c, front, htext⟩ := List.exists_cons_of_ne_nil h.stands.nonempty
  rw [htext]
  exact fun _ => id

end Lexer

end Packwright
