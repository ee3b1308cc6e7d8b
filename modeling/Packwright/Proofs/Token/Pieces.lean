import Packwright.Proofs.Token.Completeness

/-!
# Texts in pieces

A text that is put together from blanks, words, connectives and bracket groups has the tokens of its
pieces, wherever it stands. A word is read to its end when something follows that cannot go on with
it. The places of the tokens are left open; what counts are their kinds and texts.

## Main definitions

- `Token.shape` — kind and text of a token
- `Lexer.Emits`, `Lexer.Reads` — what is read from a piece of a text, whatever stands behind it, and if that
  can be read
- `Lexer.isWordChar`, `Lexer.WordText`, `Lexer.WordEnds` — the text of a word, and what ends it
- `Lexer.IsWholeWord` — texts that are one word
- `Lexer.GoesOn`, `Lexer.BeginsWord` — what a word goes on over, and what begins one
- `Lexer.Spaced` — words with blanks between them
- `statementsAt` — the statements of a text that stands at a place
- `Reading.prepend` — a reading with one statement more in front

## Main results

- `Lexer.Emits.append`, `Lexer.Reads.append` — two pieces, one behind the other
- `Lexer.emits_word`, `Lexer.emits_spaced`, `Lexer.emits_group` — words and a bracket group
- `tokenize_of_reads`, `Token.tokenizeInner_of_reads` — the only statement of a text
- `statementsAt_of_emits` — the tokens in front of a semicolon are a statement wherever they stand
-/

namespace Packwright

/-- Kind and text of a token, without its place. -/
def Token.shape (t : Token) : TokenKind × List Char := (t.kind, t.text.toList)

theorem Balanced.append {cs ds : List Char} (hcs : Balanced cs) (hds : Balanced ds) :
    Balanced (cs ++ ds) := by
  induction hcs with
  | nil => exact hds
  | char hquote hbracket _ ih => exact .char hquote hbracket ih
  | string hbody _ ih => simpa using Balanced.string hbody ih
  | group b hinner _ _ ih => simpa using Balanced.group b hinner ih

theorem balanced_of_forall {cs : List Char}
    (h : ∀ c ∈ cs, c ≠ '"' ∧ ∀ b : Bracket, c ≠ b.opening ∧ c ≠ b.closing) : Balanced cs := by
  induction cs with
  | nil => exact .nil
  | cons c cs ih =>
    obtain ⟨⟨hquote, hbracket⟩, hcs⟩ := List.forall_mem_cons.mp h
    exact .char hquote hbracket (ih hcs)

namespace Lexer

variable {cs ds rest text : List Char} {c : Char} {k : Cursor} {mode mode' : Mode}
  {shapes more : List (TokenKind × List Char)}

/-! ### Pieces -/

/-- In front of `rest`, tokens of these shapes are read from the piece `cs`, and the lexer is between
tokens behind it. -/
def Reads (cs rest : List Char) (shapes : List (TokenKind × List Char)) : Prop :=
  ∀ k later, run .seeking (k.walk cs) rest = .ok later → ∃ tokens : List Token,
    tokens.map Token.shape = shapes ∧ run .seeking k (cs ++ rest) = .ok (tokens.map .token ++ later)

/-- In front of `rest`, tokens of these shapes are read from the piece `cs`, and then what is read from `rest`
where it stands; a fault in it is the fault of both. -/
def Emits (cs rest : List Char) (shapes : List (TokenKind × List Char)) : Prop :=
  ∀ k, ∃ tokens : List Token, tokens.map Token.shape = shapes ∧
    run .seeking k (cs ++ rest) = (run .seeking (k.walk cs) rest).map (tokens.map .token ++ ·)

theorem Emits.reads (h : Emits cs rest shapes) : Reads cs rest shapes := by
  intro k later hlater
  obtain ⟨tokens, hshapes, hrun⟩ := h k
  rw [hlater] at hrun
  exact ⟨tokens, hshapes, hrun⟩

theorem emits_nil : Emits [] rest [] := by
  intro k
  refine ⟨[], rfl, ?_⟩
  show run .seeking k rest = (run .seeking k rest).map _
  cases run .seeking k rest <;> rfl

/-- Two pieces, one behind the other. -/
theorem Emits.append (hcs : Emits cs (ds ++ rest) shapes) (hds : Emits ds rest more) :
    Emits (cs ++ ds) rest (shapes ++ more) := by
  intro k
  obtain ⟨front, rfl, hfront⟩ := hcs k
  obtain ⟨tokens, rfl, hrun⟩ := hds (k.walk cs)
  refine ⟨front ++ tokens, by simp, ?_⟩
  rw [List.append_assoc, hfront, hrun, Cursor.walk_append]
  cases run .seeking ((k.walk cs).walk ds) rest with
  | error f => rfl
  | ok later => simp [Except.map]

/-- Two pieces, one behind the other. -/
theorem Reads.append (hcs : Reads cs (ds ++ rest) shapes) (hds : Reads ds rest more) :
    Reads (cs ++ ds) rest (shapes ++ more) := by
  intro k later h
  rw [Cursor.walk_append] at h
  obtain ⟨tokens, rfl, hrun⟩ := hds _ _ h
  obtain ⟨front, rfl, hfront⟩ := hcs _ _ hrun
  refine ⟨front ++ tokens, by simp, ?_⟩
  rw [List.append_assoc, hfront, List.map_append, List.append_assoc]

theorem run_silent (h : step k c rest.head? mode = .ok ([], mode')) :
    run mode k (c :: rest) = run mode' (k.advance c) rest := by
  rw [run_cons h]
  cases run mode' (k.advance c) rest <;> rfl

theorem emits_blank (hc : Text.isBlank c = true) : Emits [c] rest [] := by
  intro k
  have hsign : c ≠ '#' := by
    rintro rfl
    exact absurd hc (by decide)
  have hstep : step k c rest.head? .seeking = .ok ([], .seeking) := by
    simp [step, seek, hsign, hc]
  exact ⟨[], rfl, run_cons hstep⟩

theorem reads_blank (hc : Text.isBlank c = true) : Reads [c] rest [] := (emits_blank hc).reads

/-- Any run of blanks. -/
theorem emits_blanks (hcs : ∀ c ∈ cs, Text.isBlank c = true) : Emits cs rest [] := by
  induction cs with
  | nil => exact emits_nil
  | cons c cs ih =>
    obtain ⟨hc, hcs⟩ := List.forall_mem_cons.mp hcs
    exact (emits_blank hc).append (ih hcs)

theorem reads_blanks (hcs : ∀ c ∈ cs, Text.isBlank c = true) : Reads cs rest [] := (emits_blanks hcs).reads

/-- A connective is a word of its own. -/
theorem reads_doubled (hc : c = '&' ∨ c = '|') : Reads [c, c] rest [(.word, [c, c])] := by
  intro k later h
  have hstep : step k c (some c) .seeking = .ok ([wordToken k (k.offset + 2) [c, c]], .doubled) := by
    rcases hc with rfl | rfl <;> rfl
  refine ⟨[finished .word k (k.offset + 2) [c, c]], by simp [Token.shape, finished], ?_⟩
  show run .seeking k (c :: c :: rest) = _
  have hsecond : step (k.advance c) c rest.head? .doubled = .ok ([], .seeking) := rfl
  rw [run_cons hstep, run_silent hsecond]
  rw [show run .seeking ((k.advance c).advance c) rest = .ok later from h]
  rfl

/-! ### Inside brackets -/

section

variable {wrap : List Char → Nest → Mode} {opened : List Bracket} {b : Bracket}

/-- The mode goes on by the machine for brackets as long as some are open. -/
def Nested (wrap : List Char → Nest → Mode) : Prop :=
  ∀ (k : Cursor) (c : Char) (next : Option Char) (text : List Char) (n m : Nest), n.opened ≠ [] →
    m.opened ≠ [] → n.step k.position c = .ok m →
      step k c next (wrap text n) = .ok ([], wrap (c :: text) m)

theorem nested_word (start : Cursor) : Nested (.word start) := by
  intro k c next text n m hn _ h
  simp [step, Nest.closed, hn, h, bind, Except.bind, pure, Except.pure]

theorem nested_group (start : Cursor) (b : Bracket) : Nested (.group start b) := by
  intro k c next text n m _ hm h
  simp [step, Nest.closed, hm, h, bind, Except.bind, pure, Except.pure]

theorem run_quoted (hwrap : Nested wrap) (h : Quoted cs) :
    run (wrap text (.quoting (b :: opened) false)) k (cs ++ rest) =
      run (wrap (cs.reverse ++ text) (.quoting (b :: opened) false)) (k.walk cs) rest := by
  have hone : ∀ {k c rest text} {e e' : Bool},
      (Nest.quoting (b :: opened) e).step k.position c = .ok (.quoting (b :: opened) e') →
        run (wrap text (.quoting (b :: opened) e)) k (c :: rest) =
          run (wrap (c :: text) (.quoting (b :: opened) e')) (k.advance c) rest :=
    fun hstep => run_silent (hwrap _ _ _ _ _ _ (List.cons_ne_nil _ _) (List.cons_ne_nil _ _) hstep)
  induction h generalizing k text with
  | nil => rfl
  | @plain c cs hquote hslash hline _ ih =>
    have hstep : (Nest.quoting (b :: opened) false).step k.position c =
        .ok (.quoting (b :: opened) false) := by simp [Nest.step, Nest.quoting, *]
    rw [List.cons_append, hone hstep, ih]
    simp
  | escape c _ ih =>
    have hslash : (Nest.quoting (b :: opened) false).step k.position '\\' =
        .ok (.quoting (b :: opened) true) := rfl
    have hstep : (Nest.quoting (b :: opened) true).step (k.advance '\\').position c =
        .ok (.quoting (b :: opened) false) := rfl
    rw [List.cons_append, List.cons_append, hone hslash, hone hstep, ih]
    simp

/-- Balanced text inside brackets is read without a token. -/
theorem run_balanced (hwrap : Nested wrap) (h : Balanced cs) :
    run (wrap text (.within (b :: opened))) k (cs ++ rest) =
      run (wrap (cs.reverse ++ text) (.within (b :: opened))) (k.walk cs) rest := by
  have hone : ∀ {k c rest text} {n m : Nest}, n.opened ≠ [] → m.opened ≠ [] →
      n.step k.position c = .ok m →
        run (wrap text n) k (c :: rest) = run (wrap (c :: text) m) (k.advance c) rest :=
    fun hn hm hstep => run_silent (hwrap _ _ _ _ _ _ hn hm hstep)
  induction h generalizing k text b opened rest with
  | nil => rfl
  | @char c cs hquote hbracket _ ih =>
    rw [List.cons_append, hone (List.cons_ne_nil _ _) (List.cons_ne_nil _ _)
      (Nest.step_char hquote hbracket), ih]
    simp
  | @string body cs hbody _ ih =>
    rw [List.cons_append, List.append_assoc, List.cons_append,
      hone (List.cons_ne_nil _ _) (List.cons_ne_nil _ _) Nest.step_quote, run_quoted hwrap hbody,
      hone (m := .within (b :: opened)) (List.cons_ne_nil _ _) (List.cons_ne_nil _ _) rfl, ih]
    simp [Cursor.walk_append]
  | @group d inner cs _ _ ihinner ih =>
    rw [List.cons_append, List.append_assoc, List.cons_append,
      hone (List.cons_ne_nil _ _) (List.cons_ne_nil _ _) (Nest.step_opening d), ihinner,
      hone (List.cons_ne_nil _ _) (List.cons_ne_nil _ _) (Nest.step_closing d), ih]
    simp [Cursor.walk_append]

end

/-! ### Words -/

/-- A character that may begin a word and go on with one, whatever is behind it. -/
def isWordChar (c : Char) : Bool :=
  !(Text.isBlank c || [';', '"', ',', '/', '&', '|', '#'].contains c) &&
    Bracket.ofOpening? c = none && !Bracket.isClosing c

/-- Characters with a property, and selectors between them. -/
inductive WithSelectors (P : Char → Prop) : List Char → Prop
  | nil : WithSelectors P []
  | char {c : Char} {cs : List Char} (hc : P c) (h : WithSelectors P cs) : WithSelectors P (c :: cs)
  | selector {inner cs : List Char} (hinner : Balanced inner) (h : WithSelectors P cs) :
    WithSelectors P ('[' :: (inner ++ ']' :: cs))

/-- What may be behind the first character of a word. -/
def WordText : List Char → Prop := WithSelectors (isWordChar · = true)

/-- A text that is one word. -/
inductive IsWholeWord : List Char → Prop
  | mk {c : Char} {cs : List Char} (hc : isWordChar c = true) (hcs : WordText cs) :
    IsWholeWord (c :: cs)

/-- A word is at its end in front of this text. -/
def WordEnds : List Char → Prop
  | [] => True
  | c :: rest => c ≠ '[' ∧ continuesWord c rest.head? = false

theorem isWordChar_iff : isWordChar c = true ↔ Text.isBlank c = false ∧
    (∀ d ∈ [';', '"', ',', '/', '&', '|', '#'], c ≠ d) ∧
      ∀ b : Bracket, c ≠ b.opening ∧ c ≠ b.closing := by
  rw [Bracket.not_bracket_iff]
  simp [isWordChar, and_assoc]

theorem continuesWord_of_wordChar (hc : isWordChar c = true) (next : Option Char) :
    c ≠ '[' ∧ continuesWord c next = true := by
  obtain ⟨hblank, hmarks, hbracket⟩ := isWordChar_iff.mp hc
  have hclosing := (Bracket.not_bracket_iff.mp hbracket).2
  have hround : c ≠ '(' := (hbracket .round).1
  have hcurly : c ≠ '\x7b' := (hbracket .curly).1
  simp only [List.forall_mem_cons] at hmarks
  refine ⟨(hbracket .square).1, ?_⟩
  simp [continuesWord, hblank, hmarks, hclosing, hround, hcurly]

section

variable {P Q : Char → Prop}

theorem WithSelectors.append (hcs : WithSelectors P cs) (hds : WithSelectors P ds) :
    WithSelectors P (cs ++ ds) := by
  induction hcs with
  | nil => exact hds
  | char hc _ ih => exact .char hc ih
  | selector hinner _ ih => simpa using WithSelectors.selector hinner ih

theorem WithSelectors.mono (h : WithSelectors P cs) (hPQ : ∀ c, P c → Q c) : WithSelectors Q cs := by
  induction h with
  | nil => exact .nil
  | char hc _ ih => exact .char (hPQ _ hc) ih
  | selector hinner _ ih => exact .selector hinner ih

theorem withSelectors_of_forall (h : ∀ c ∈ cs, P c) : WithSelectors P cs := by
  induction cs with
  | nil => exact .nil
  | cons c cs ih =>
    obtain ⟨hc, hcs⟩ := List.forall_mem_cons.mp h
    exact .char hc (ih hcs)

end

/-- The text of a word is balanced. -/
theorem WordText.balanced (h : WordText cs) : Balanced cs := by
  induction h with
  | nil => exact .nil
  | char hc _ ih =>
    obtain ⟨-, hmarks, hbracket⟩ := isWordChar_iff.mp hc
    exact .char (hmarks '"' (by simp)) hbracket ih
  | selector hinner _ ih => exact .group .square hinner ih

theorem isWholeWord_of_forall (hne : cs ≠ []) (h : ∀ c ∈ cs, isWordChar c = true) :
    IsWholeWord cs := by
  obtain ⟨c, cs, rfl⟩ := List.exists_cons_of_ne_nil hne
  obtain ⟨hc, hcs⟩ := List.forall_mem_cons.mp h
  exact .mk hc (withSelectors_of_forall hcs)

theorem IsWholeWord.append (hcs : IsWholeWord cs) (hds : IsWholeWord ds) :
    IsWholeWord (cs ++ ds) := by
  obtain ⟨hc, hcs⟩ := hcs
  obtain ⟨hd, hds⟩ := hds
  exact .mk hc (hcs.append (.char hd hds))

theorem IsWholeWord.balanced (h : IsWholeWord cs) : Balanced cs := by
  obtain ⟨hc, hcs⟩ := h
  exact WordText.balanced (.char hc hcs)

/-- A word goes on over this text, whatever stands behind it. -/
def GoesOn (cs : List Char) : Prop :=
  ∀ (start k : Cursor) (text rest : List Char), run (.word start text (.within [])) k (cs ++ rest) =
    run (.word start (cs.reverse ++ text) (.within [])) (k.walk cs) rest

/-- Between tokens this text begins a word, whatever stands behind it. -/
def BeginsWord (cs : List Char) : Prop :=
  ∀ (k : Cursor) (rest : List Char), run .seeking k (cs ++ rest) =
    run (.word k cs.reverse (.within [])) (k.walk cs) rest

theorem GoesOn.append (hcs : GoesOn cs) (hds : GoesOn ds) : GoesOn (cs ++ ds) := by
  intro start k text rest
  rw [List.append_assoc, hcs, hds, Cursor.walk_append]
  simp

theorem BeginsWord.append (hcs : BeginsWord cs) (hds : GoesOn ds) : BeginsWord (cs ++ ds) := by
  intro k rest
  rw [List.append_assoc, hcs, hds, Cursor.walk_append]
  simp

theorem WordText.goesOn (h : WordText cs) : GoesOn cs := by
  intro start k text rest
  induction h generalizing k text with
  | nil => rfl
  | @char c cs hc _ ih =>
    obtain ⟨hsquare, hcontinues⟩ := continuesWord_of_wordChar hc (cs ++ rest).head?
    have hstep : step k c (cs ++ rest).head? (.word start text (.within [])) =
        .ok ([], .word start (c :: text) (.within [])) := by
      rw [step, if_neg (by simp [Nest.closed, Nest.within]), if_neg hsquare, if_pos hcontinues]
    rw [List.cons_append, run_silent hstep, ih]
    simp
  | @selector inner cs hinner _ ih =>
    have hopen : ∀ {k next text}, step k '[' next (.word start text (.within [])) =
        .ok ([], .word start ('[' :: text) (.within [.square])) := rfl
    have hclose : ∀ {k next text}, step k ']' next (.word start text (.within [.square])) =
        .ok ([], .word start (']' :: text) (.within [])) := rfl
    rw [List.cons_append, List.append_assoc, List.cons_append, run_silent hopen,
      run_balanced (nested_word start) hinner, run_silent hclose, ih]
    simp [Cursor.walk_append]

theorem IsWholeWord.beginsWord (h : IsWholeWord cs) : BeginsWord cs := by
  intro k rest
  obtain @⟨c, cs, hc, hcs⟩ := h
  have hbegins : step k c (cs ++ rest).head? .seeking = .ok ([], .word k [c] (.within [])) := by
    obtain ⟨hblank, hmarks, hbracket⟩ := isWordChar_iff.mp hc
    obtain ⟨hopening, hclosing⟩ := Bracket.not_bracket_iff.mp hbracket
    simp only [List.forall_mem_cons] at hmarks
    simp [step, seek, hblank, hmarks, hopening, hclosing, Nest.within]
  rw [List.cons_append, run_silent hbegins, hcs.goesOn]
  simp

theorem IsWholeWord.goesOn (h : IsWholeWord cs) : GoesOn cs := by
  obtain ⟨hc, hcs⟩ := h
  exact WordText.goesOn (.char hc hcs)

/-- What is finished before a character stays in front of what the character leads to. -/
theorem seek_behind (before : List Lexeme) (next : Option Char) :
    seek before k c next = (seek [] k c next).map fun (now, mode) => (before ++ now, mode) := by
  unfold seek
  repeat' split
  all_goals simp [Except.map]

/-- A word ends where it cannot go on, and the lexer is between tokens there. -/
theorem run_wordEnd {start : Cursor} {nest : Nest} (hclosed : nest.opened = [])
    (hrest : WordEnds rest) : run (.word start text nest) k rest =
      (run .seeking k rest).map (wordToken start k.offset text :: ·) := by
  cases rest with
  | nil =>
    rw [run, finish, if_pos (by simp [Nest.closed, hclosed])]
    rfl
  | cons c rest =>
    obtain ⟨hsquare, hends⟩ := hrest
    have hsign : c ≠ '#' := by
      rintro rfl
      simp [continuesWord, Text.isBlank, Bracket.isClosing] at hends
    have hseek : step k c rest.head? .seeking = seek [] k c rest.head? := by simp [step, hsign]
    have hword : step k c rest.head? (.word start text nest) =
        seek [wordToken start k.offset text] k c rest.head? := by
      simp [step, Nest.closed, hclosed, hsquare, hends]
    rw [seek_behind, ← hseek] at hword
    rw [run, run, hword]
    rcases step k c rest.head? .seeking with f | ⟨now, mode⟩
    · rfl
    · simp only [Except.map, bind, Except.bind]
      rcases run mode (k.advance c) rest with f | later <;> rfl

/-- A word is read where it begins and ends. -/
theorem BeginsWord.emits (hcs : BeginsWord cs) (hrest : WordEnds rest) :
    Emits cs rest [(.word, cs)] := by
  intro k
  rw [hcs, run_wordEnd rfl hrest]
  exact ⟨[finished .word k (k.walk cs).offset cs.reverse], by simp [Token.shape, finished], rfl⟩

theorem emits_word (hcs : IsWholeWord cs) (hrest : WordEnds rest) : Emits cs rest [(.word, cs)] :=
  hcs.beginsWord.emits hrest

theorem reads_word (hcs : IsWholeWord cs) (hrest : WordEnds rest) : Reads cs rest [(.word, cs)] :=
  (emits_word hcs hrest).reads

/-- Words with blanks between them. -/
inductive Spaced : List (List Char) → List Char → Prop
  | last (c : Char) {cs : List Char} : Spaced [c :: cs] (c :: cs)
  | more (c : Char) {cs gap text : List Char} {words : List (List Char)} (hne : gap ≠ [])
    (hgap : ∀ b ∈ gap, Text.isBlank b = true) (h : Spaced words text) :
    Spaced ((c :: cs) :: words) (c :: cs ++ (gap ++ text))

theorem wordEnds_blank (hc : Text.isBlank c = true) : WordEnds (c :: rest) := by
  refine ⟨?_, by simp [continuesWord, hc]⟩
  rintro rfl
  exact absurd hc (by decide)

/-- Blanks in front of a text end a word. -/
theorem wordEnds_blanks (hcs : ∀ c ∈ cs, Text.isBlank c = true) (hrest : WordEnds rest) :
    WordEnds (cs ++ rest) := by
  cases cs with
  | nil => exact hrest
  | cons c cs => exact wordEnds_blank (hcs c List.mem_cons_self)

/-- Words with blanks between them are read one by one. -/
theorem emits_spaced {words : List (List Char)} (h : Spaced words text)
    (hwords : ∀ w ∈ words, BeginsWord w) (hrest : WordEnds rest) :
    Emits text rest (words.map (TokenKind.word, ·)) := by
  induction h with
  | last c => exact (hwords _ List.mem_cons_self).emits hrest
  | @more c cs gap text words hne hgap _ ih =>
    obtain ⟨hfirst, hmore⟩ := List.forall_mem_cons.mp hwords
    obtain ⟨b, gap, rfl⟩ := List.exists_cons_of_ne_nil hne
    have hends : WordEnds (b :: gap ++ text ++ rest) := wordEnds_blank (hgap b List.mem_cons_self)
    exact (hfirst.emits hends).append ((emits_blanks hgap).append (ih hmore))

theorem reads_spaced {words : List (List Char)} (h : Spaced words text)
    (hwords : ∀ w ∈ words, IsWholeWord w) (hrest : WordEnds rest) :
    Reads text rest (words.map (TokenKind.word, ·)) :=
  (emits_spaced h (fun w hw => (hwords w hw).beginsWord) hrest).reads

/-- A text at whose end a word may stand, with blanks around it. -/
theorem reads_padded {back : List Char} (hfront : ∀ c ∈ cs, Text.isBlank c = true)
    (h : ∀ rest, WordEnds rest → Reads text rest shapes)
    (hback : ∀ c ∈ back, Text.isBlank c = true) : Reads (cs ++ (text ++ back)) [] shapes := by
  have hends : WordEnds (back ++ []) := wordEnds_blanks hback trivial
  have hreads := (reads_blanks hfront).append ((h _ hends).append (reads_blanks hback))
  rwa [List.nil_append, List.append_nil] at hreads

/-- What is put in front of the first word is a part of it. -/
theorem Spaced.prepend {w : List Char} {words : List (List Char)} (h : Spaced (w :: words) text)
    (front : List Char) : Spaced ((front ++ w) :: words) (front ++ text) := by
  cases h with
  | @last c cs =>
    cases front with
    | nil => exact .last c
    | cons d front => exact .last d
  | @more c cs gap text _ hne hgap h =>
    rw [← List.append_assoc]
    cases front with
    | nil => exact .more c hne hgap h
    | cons d front => exact .more d hne hgap h

/-- Words with blanks between them are balanced. -/
theorem Spaced.balanced {words : List (List Char)} (h : Spaced words text)
    (hwords : ∀ w ∈ words, IsWholeWord w) : Balanced text := by
  induction h with
  | last c => exact (hwords _ List.mem_cons_self).balanced
  | @more c cs gap text words _ hgap _ ih =>
    obtain ⟨hfirst, hmore⟩ := List.forall_mem_cons.mp hwords
    refine hfirst.balanced.append (Balanced.append ?_ (ih hmore))
    exact balanced_of_forall fun b hb => isBlank_plain (hgap b hb)

/-- A bracket group is one token. -/
theorem emits_group (b : Bracket) (h : Balanced cs) :
    Emits (b.opening :: (cs ++ [b.closing])) rest
      [(.group b, b.opening :: (cs ++ [b.closing]))] := by
  intro k
  have hbegins : ∀ next, step k b.opening next .seeking =
      .ok ([], .group k b [b.opening] (.within [b])) := by
    intro next
    cases b <;> simp [step, seek, Bracket.opening, Bracket.ofOpening?, Bracket.isClosing,
      Text.isBlank, Nest.within]
  have hends : ∀ {k' next text}, step k' b.closing next (.group k b text (.within [b])) =
      .ok ([.token (finished (.group b) k (k'.offset + b.closing.utf8Size) (b.closing :: text))],
        .seeking) := by
    intro k' next text
    simp only [step, Nest.step_closing, bind, Except.bind]
    rfl
  have hwalk : ((k.advance b.opening).walk cs).advance b.closing =
      k.walk (b.opening :: (cs ++ [b.closing])) := by simp [Cursor.walk_append]
  rw [List.cons_append, List.append_assoc, run_silent (hbegins _),
    run_balanced (nested_group k b) h, List.singleton_append, run_cons hends, hwalk]
  exact ⟨[finished (.group b) k _ (b.closing :: (cs.reverse ++ [b.opening]))],
    by simp [Token.shape, finished], rfl⟩

theorem reads_group (b : Bracket) (h : Balanced cs) :
    Reads (b.opening :: (cs ++ [b.closing])) rest [(.group b, b.opening :: (cs ++ [b.closing]))] :=
  (emits_group b h).reads

end Lexer

/-! ### Statements -/

/-- Without semicolons there is one statement. -/
theorem groupLexemes_single {current tokens : List Token} (h : current ++ tokens ≠ []) :
    groupLexemes .optional current (tokens.map .token) = .ok { statements := [⟨current ++ tokens⟩] } := by
  induction tokens generalizing current with
  | nil =>
    rw [List.append_nil] at h ⊢
    rw [List.map_nil, groupLexemes, List.getLast?_eq_some_getLast h]
  | cons t tokens ih =>
    have hmore := @ih (current ++ [t]) (by simp)
    rw [List.append_assoc, List.singleton_append] at hmore
    rw [List.map_cons, groupLexemes, if_neg (by simp [endsAtBrace]), hmore]

/-- The tokens of the pieces are the only statement of a text. -/
theorem tokenize_of_reads {cs : List Char} {shapes : List (TokenKind × List Char)}
    (h : Lexer.Reads cs [] shapes) (hne : shapes ≠ []) (start : Position) :
    ∃ tokens : List Token, tokens.map Token.shape = shapes ∧
      tokenize .optional start (String.ofList cs) = .ok { statements := [⟨tokens⟩] } := by
  obtain ⟨tokens, rfl, hrun⟩ := h ⟨0, start⟩ [] rfl
  refine ⟨tokens, rfl, ?_⟩
  rw [List.append_nil, List.append_nil] at hrun
  have htokens : tokens ≠ [] := by
    rintro rfl
    exact hne rfl
  rw [tokenize, lexemes, String.toList_ofList, hrun]
  exact groupLexemes_single htokens

/-- The tokens of the pieces between two brackets are the only statement there. -/
theorem Token.tokenizeInner_of_reads {t : Token} {b : Bracket} {cs : List Char}
    {shapes : List (TokenKind × List Char)}
    (ht : t.shape = (.group b, b.opening :: (cs ++ [b.closing]))) (h : Lexer.Reads cs [] shapes)
    (hne : shapes ≠ []) : ∃ tokens : List Token, tokens.map Token.shape = shapes ∧
      t.tokenizeInner .optional = .ok { statements := [⟨tokens⟩] } := by
  obtain ⟨hkind, htext⟩ := Prod.mk.inj ht
  unfold Token.tokenizeInner
  rw [Token.inner?_eq hkind htext]
  exact tokenize_of_reads h hne t.innerStart

/-- A bracket group is the only token of its text. -/
theorem tokenize_group (b : Bracket) {cs : List Char} (h : Balanced cs) (start : Position) :
    ∃ group : Token, group.shape = (.group b, b.opening :: (cs ++ [b.closing])) ∧
      tokenize .optional start (String.ofList (b.opening :: (cs ++ [b.closing]))) =
        .ok { statements := [⟨[group]⟩] } := by
  obtain ⟨tokens, htokens, hstatement⟩ :=
    tokenize_of_reads (Lexer.reads_group b h) (List.cons_ne_nil _ _) start
  obtain ⟨group, more, rfl, hgroup, hmore⟩ := List.map_eq_cons_iff.mp htokens
  obtain rfl := List.map_eq_nil_iff.mp hmore
  exact ⟨group, hgroup, hstatement⟩

/-! ### Statements where they stand -/

/-- The statements of a text that stands at a place. -/
def statementsAt (k : Cursor) (cs : List Char) : Except Fault Reading := do
  groupLexemes .required [] (← Lexer.run .seeking k cs)

/-- A reading with one statement more in front. -/
def Reading.prepend (st : Statement) (r : Reading) : Reading := { r with statements := st :: r.statements }

/-- Tokens without braces are a statement in front of a semicolon. -/
theorem groupLexemes_semicolon {current tokens : List Token} (hne : current ++ tokens ≠ [])
    (hbraces : ∀ t ∈ tokens, t.isGroup .curly = false) (p : Position) (later : List Lexeme) :
    groupLexemes .required current (tokens.map .token ++ .semicolon p :: later) =
      (groupLexemes .required [] later).map (Reading.prepend ⟨current ++ tokens⟩) := by
  induction tokens generalizing current with
  | nil =>
    rw [List.append_nil] at hne ⊢
    rw [List.map_nil, List.nil_append, groupLexemes, if_neg (by simpa using hne)]
    rfl
  | cons t tokens ih =>
    obtain ⟨ht, htokens⟩ := List.forall_mem_cons.mp hbraces
    have hopen : endsAtBrace .required (current ++ [t]) = false := by simp [endsAtBrace, ht]
    have hmore := @ih (current ++ [t]) (by simp) htokens
    rw [List.append_assoc, List.singleton_append] at hmore
    rw [List.map_cons, List.cons_append, groupLexemes, hopen, if_neg Bool.false_ne_true, hmore]

/-- What is read in front of a semicolon is a statement, and then what stands behind it is read. -/
theorem statementsAt_of_emits {cs rest : List Char} {shapes : List (TokenKind × List Char)}
    (h : Lexer.Emits cs (';' :: rest) shapes) (hne : shapes ≠ [])
    (hbraces : ∀ shape ∈ shapes, shape.1 ≠ .group .curly) (k : Cursor) :
    ∃ tokens : List Token, tokens.map Token.shape = shapes ∧
      statementsAt k (cs ++ ';' :: rest) =
        (statementsAt (k.walk (cs ++ [';'])) rest).map (Reading.prepend ⟨tokens⟩) := by
  obtain ⟨tokens, rfl, hrun⟩ := h k
  refine ⟨tokens, rfl, ?_⟩
  have hsemicolon : ∀ k' : Cursor, Lexer.step k' ';' rest.head? .seeking = .ok ([.semicolon k'.position], .seeking) :=
    fun _ => rfl
  have htokens : [] ++ tokens ≠ [] := by
    rintro rfl
    exact hne rfl
  have hcurly : ∀ t ∈ tokens, t.isGroup .curly = false := fun t ht =>
    decide_eq_false (hbraces _ (List.mem_map_of_mem ht))
  have hwalk : k.walk (cs ++ [';']) = (k.walk cs).advance ';' := by rw [Cursor.walk_append]; rfl
  rw [statementsAt, statementsAt, hrun, Lexer.run_cons (hsemicolon _), hwalk]
  cases Lexer.run .seeking ((k.walk cs).advance ';') rest with
  | error f => rfl
  | ok later => exact groupLexemes_semicolon htokens hcurly _ later

end Packwright
