import Mathlib.Control.Monad.Basic
import Packwright.Proofs.Token.Rules
import Packwright.Token.Statements

/-!
# Where tokens stand

The tokens of a text stand in it one after the other, each at its span and its position. What is left
between them is blanks, semicolons and comments. The lexer keeps its cursor in step with the text: a
token that is being read began where the cursor was, and its characters lead to where it is.

## Main definitions

- `Comment`, `Gap` — what may stand between tokens
- `Token.StandsAt` — a token covers the text that begins at a cursor
- `Tiles` — tokens and gaps make up a text
- `Layout` — tokens, semicolons, blanks and comments make up a text
- `Lexer.Mode.Lays` — what the rest of a text leads to from the middle of a token or comment
- `Reading.tokens` — the tokens of all statements in order

## Main results

- `Lexer.step_lays`, `Lexer.run_lays` — what one character and a whole text lead to
- `lexemes_layout` — the lexemes of a text are laid out in it
- `tokenize_tiles` — the tokens of a text tile it
- `Tiles.exists_of_mem`, `Tiles.pairwise` — each token stands at its span, and spans increase
-/

namespace Packwright

section

variable {ε α β : Type} {x : Except ε α} {b : β}

theorem exists_of_bind_ok {f : α → Except ε β} (h : (x >>= f) = .ok b) :
    ∃ a, x = .ok a ∧ f a = .ok b := by
  cases x with
  | ok a => exact ⟨a, rfl, h⟩
  | error e => cases h

theorem exists_of_map_ok {f : α → β} (h : x.map f = .ok b) : ∃ a, x = .ok a ∧ f a = b := by
  cases x with
  | ok a => exact ⟨a, rfl, Except.ok.inj h⟩
  | error e => cases h

end

/-! ### Bytes -/

namespace Text

@[simp] theorem byteLength_nil : byteLength [] = 0 := rfl

@[simp] theorem byteLength_cons (c : Char) (cs : List Char) :
    byteLength (c :: cs) = c.utf8Size + byteLength cs := rfl

@[simp] theorem byteLength_append (xs ys : List Char) :
    byteLength (xs ++ ys) = byteLength xs + byteLength ys := by
  induction xs with
  | nil => simp
  | cons c xs ih => simp [ih, Nat.add_assoc]

theorem length_le_byteLength (cs : List Char) : cs.length ≤ byteLength cs := by
  induction cs with
  | nil => exact Nat.le_refl 0
  | cons c cs ih =>
    have hpos := c.utf8Size_pos
    rw [List.length_cons, byteLength_cons]
    omega

/-- A text has as many bytes as characters if each of them is a single byte. -/
theorem byteLength_eq_length_iff (cs : List Char) :
    byteLength cs = cs.length ↔ ∀ c ∈ cs, c.utf8Size = 1 := by
  induction cs with
  | nil => simp
  | cons c cs ih =>
    have hpos := c.utf8Size_pos
    have hle := length_le_byteLength cs
    rw [List.forall_mem_cons, ← ih, List.length_cons, byteLength_cons]
    omega

theorem byteLength_pos {cs : List Char} (h : cs ≠ []) : 0 < byteLength cs := by
  obtain ⟨c, rest, rfl⟩ := List.exists_cons_of_ne_nil h
  have hc := c.utf8Size_pos
  rw [byteLength_cons]
  omega

/-- A text is cut behind its first part after as many bytes as that part has. -/
theorem splitBytes_append (xs ys : List Char) :
    splitBytes (byteLength xs) (xs ++ ys) = some (xs, ys) := by
  induction xs with
  | nil => cases ys <;> rfl
  | cons c xs ih =>
    have hc := c.utf8Size_pos
    obtain ⟨n, hn⟩ : ∃ n, byteLength (c :: xs) = n + 1 :=
      Nat.exists_eq_add_one.mpr (byteLength_pos (List.cons_ne_nil c xs))
    rw [hn, List.cons_append, splitBytes]
    rw [byteLength_cons] at hn
    rw [if_pos (by omega), ← hn, Nat.add_sub_cancel_left, ih]
    rfl

end Text

namespace Cursor

theorem walk_offset (k : Cursor) (cs : List Char) :
    (k.walk cs).offset = k.offset + Text.byteLength cs := by
  induction cs generalizing k with
  | nil => rfl
  | cons c cs ih => rw [walk_cons, ih, advance, Text.byteLength_cons, Nat.add_assoc]

theorem walk_position (k : Cursor) (cs : List Char) :
    (k.walk cs).position = k.position.walk cs := by
  induction cs generalizing k with
  | nil => rfl
  | cons c cs ih => rw [walk_cons, ih, advance, Position.walk_cons]

end Cursor

/-- The text that a span covers is found between what is before it and what is behind it. -/
theorem Span.slice_eq {span : Span} {source : String} {before text after : List Char}
    (hsource : source.toList = before ++ (text ++ after))
    (hstart : span.start = Text.byteLength before)
    (hstop : span.stop = Text.byteLength before + Text.byteLength text) :
    span.slice source = String.ofList text := by
  unfold Span.slice
  rw [hsource, hstart, hstop, Text.splitBytes_append, Nat.add_sub_cancel_left]
  simp [Text.splitBytes_append]

/-! ### Gaps -/

/-- A comment that begins at a position: two slashes, or a number sign in the first column, and the
rest of the line. -/
inductive Comment (p : Position) : List Char → Prop
  | slashes {rest : List Char} (hline : '\n' ∉ rest) : Comment p ('/' :: '/' :: rest)
  | numberSign {rest : List Char} (hcolumn : p.column = 1) (hline : '\n' ∉ rest) :
    Comment p ('#' :: rest)

/-- The text is at the end of a line, or empty. -/
def AtLineEnd (cs : List Char) : Prop := ∀ c ∈ cs.head?, c = '\n'

/-- What stands between tokens, from a position on and before the text `after`: blanks, semicolons,
and comments that go on to the end of their line. -/
inductive Gap (after : List Char) : Position → List Char → Prop
  | nil (p : Position) : Gap after p []
  | blank {p : Position} {c : Char} {rest : List Char} (hc : Text.isBlank c = true)
    (h : Gap after (p.advance c) rest) : Gap after p (c :: rest)
  | semicolon {p : Position} {rest : List Char} (h : Gap after (p.advance ';') rest) :
    Gap after p (';' :: rest)
  | comment {p : Position} {text rest : List Char} (hcomment : Comment p text)
    (hend : AtLineEnd (rest ++ after)) (h : Gap after (p.walk text) rest) : Gap after p (text ++ rest)

/-! ### Tokens in a text -/

/-- The token covers the text that begins at a cursor. -/
structure Token.StandsAt (t : Token) (k : Cursor) : Prop where
  nonempty : t.text.toList ≠ []
  span : t.span = ⟨k.offset, (k.walk t.text.toList).offset, k.position⟩

/-- The text from a cursor on is made up of the tokens, one after the other, and of gaps before,
between and behind them. -/
inductive Tiles : Cursor → List Token → List Char → Prop
  | nil {k : Cursor} {gap : List Char} (hgap : Gap [] k.position gap) : Tiles k [] gap
  | cons {k : Cursor} {gap rest : List Char} {t : Token} {tokens : List Token}
    (hgap : Gap (t.text.toList ++ rest) k.position gap) (hstands : t.StandsAt (k.walk gap))
    (h : Tiles (k.walk (gap ++ t.text.toList)) tokens rest) :
    Tiles k (t :: tokens) (gap ++ (t.text.toList ++ rest))

namespace Tiles

variable {k : Cursor} {tokens : List Token} {rest : List Char}

/-- A text in front belongs to the first gap. -/
theorem prepend (front : List Char) (h : Tiles (k.walk front) tokens rest)
    (hgap : ∀ gap after, rest = gap ++ after → Gap after (k.position.walk front) gap →
      Gap after k.position (front ++ gap)) : Tiles k tokens (front ++ rest) := by
  generalize hk : k.walk front = k' at h
  have hposition : k'.position = k.position.walk front := by rw [← hk, Cursor.walk_position]
  cases h with
  | nil h => exact .nil (hgap rest [] (List.append_nil rest).symm (hposition ▸ h))
  | @cons _ gap later t tokens h hstands htokens =>
    rw [← List.append_assoc]
    refine .cons (hgap gap _ rfl (hposition ▸ h)) ?_ ?_
    · rw [Cursor.walk_append, hk]
      exact hstands
    · rw [List.append_assoc, Cursor.walk_append, hk]
      exact htokens

theorem blank {c : Char} (hc : Text.isBlank c = true) (h : Tiles (k.advance c) tokens rest) :
    Tiles k tokens (c :: rest) :=
  prepend [c] h fun _ _ _ hgap => .blank hc hgap

theorem semicolon (h : Tiles (k.advance ';') tokens rest) : Tiles k tokens (';' :: rest) :=
  prepend [';'] h fun _ _ _ hgap => .semicolon hgap

theorem comment {text : List Char} (hcomment : Comment k.position text) (hend : AtLineEnd rest)
    (h : Tiles (k.walk text) tokens rest) : Tiles k tokens (text ++ rest) :=
  h.prepend text fun _ _ hrest hgap => .comment hcomment (hrest ▸ hend) hgap

theorem token {t : Token} (hstands : t.StandsAt k)
    (h : Tiles (k.walk t.text.toList) tokens rest) :
    Tiles k (t :: tokens) (t.text.toList ++ rest) :=
  Tiles.cons (.nil k.position) hstands h

/-- Each token stands behind some part of the text, at the end of that part. -/
theorem exists_of_mem {t : Token} (h : Tiles k tokens rest) (ht : t ∈ tokens) :
    ∃ before after, rest = before ++ (t.text.toList ++ after) ∧ t.StandsAt (k.walk before) := by
  induction h with
  | nil => cases ht
  | @cons k gap rest t' tokens hgap hstands _ ih =>
    rcases List.mem_cons.mp ht with rfl | ht
    · exact ⟨gap, rest, rfl, hstands⟩
    · obtain ⟨before, after, rfl, hstands'⟩ := ih ht
      refine ⟨gap ++ t'.text.toList ++ before, after, by simp, ?_⟩
      rw [Cursor.walk_append]
      exact hstands'

theorem offset_le_of_mem {t : Token} (h : Tiles k tokens rest) (ht : t ∈ tokens) :
    k.offset ≤ t.span.start := by
  obtain ⟨before, after, -, hstands⟩ := h.exists_of_mem ht
  rw [hstands.span, Cursor.walk_offset]
  exact Nat.le_add_right ..

/-- Each span ends before the next one begins. -/
theorem pairwise (h : Tiles k tokens rest) :
    tokens.Pairwise fun t u => t.span.stop ≤ u.span.start := by
  induction h with
  | nil => exact .nil
  | cons hgap hstands htokens ih =>
    refine .cons (fun u hu => ?_) ih
    rw [hstands.span, ← Cursor.walk_append]
    exact htokens.offset_le_of_mem hu

end Tiles

/-- A token has the text of its span, at the position that the text before it leads to. -/
theorem Token.StandsAt.slice {t : Token} {start : Position} {source : String}
    {before after : List Char} (hsource : source.toList = before ++ (t.text.toList ++ after))
    (h : t.StandsAt (Cursor.walk ⟨0, start⟩ before)) :
    t.span.start = Text.byteLength before ∧
      t.span.stop = Text.byteLength before + Text.byteLength t.text.toList ∧
      t.span.slice source = t.text ∧ t.position = start.walk before := by
  have hstart : t.span.start = Text.byteLength before := by
    rw [h.span, Cursor.walk_offset]
    exact Nat.zero_add _
  have hstop : t.span.stop = Text.byteLength before + Text.byteLength t.text.toList := by
    rw [← hstart, h.span]
    exact Cursor.walk_offset ..
  refine ⟨hstart, hstop, ?_, ?_⟩
  · rw [Span.slice_eq hsource hstart hstop, String.ofList_toList]
  · rw [Token.position, h.span, Cursor.walk_position]

/-! ### Lexemes in a text -/

/-- From the cursor on, the text is made up of the lexemes in their order, with blanks and comments
between them; a comment goes on to the end of its line. -/
inductive Layout : Cursor → List Lexeme → List Char → Prop
  | nil (k : Cursor) : Layout k [] []
  | blank {k : Cursor} {all : List Lexeme} {c : Char} {rest : List Char}
    (hc : Text.isBlank c = true) (h : Layout (k.advance c) all rest) : Layout k all (c :: rest)
  | comment {k : Cursor} {all : List Lexeme} {text rest : List Char}
    (hcomment : Comment k.position text) (hend : AtLineEnd rest)
    (h : Layout (k.walk text) all rest) : Layout k all (text ++ rest)
  | semicolon {k : Cursor} {all : List Lexeme} {rest : List Char}
    (h : Layout (k.advance ';') all rest) : Layout k (.semicolon k.position :: all) (';' :: rest)
  | token {k : Cursor} {all : List Lexeme} {t : Token} {rest : List Char} (hstands : t.StandsAt k)
    (h : Layout (k.walk t.text.toList) all rest) :
    Layout k (.token t :: all) (t.text.toList ++ rest)

/-- The token of a lexeme. -/
def Lexeme.token? : Lexeme → Option Token
  | .token t => some t
  | .semicolon _ => none

/-- Where lexemes are laid out, their tokens tile the text. -/
theorem Layout.tiles {k : Cursor} {all : List Lexeme} {cs : List Char} (h : Layout k all cs) :
    Tiles k (all.filterMap Lexeme.token?) cs := by
  induction h with
  | nil k => exact .nil (.nil k.position)
  | blank hc _ ih => exact .blank hc ih
  | comment hcomment hend _ ih => exact .comment hcomment hend ih
  | semicolon _ ih => exact .semicolon ih
  | token hstands _ ih => exact .token hstands ih

/-! ### The lexer -/

/-- A token that is finished where the cursor stands. -/
theorem Layout.finished {start k : Cursor} {text rest : List Char} {all : List Lexeme}
    (kind : TokenKind) (hne : text ≠ []) (hk : k = start.walk text.reverse)
    (h : Layout k all rest) :
    Layout start (.token (Lexer.finished kind start k.offset text) :: all)
      (text.reverse ++ rest) := by
  have htext : (Lexer.finished kind start k.offset text).text.toList = text.reverse := by
    simp [Lexer.finished]
  have hstands : (Lexer.finished kind start k.offset text).StandsAt start :=
    ⟨by simpa [htext] using hne, by rw [htext, ← hk]; rfl⟩
  rw [← htext]
  apply Layout.token hstands
  rw [htext, ← hk]
  exact h

namespace Lexer

variable {mode mode' : Mode} {k : Cursor} {c : Char} {rest : List Char} {now all : List Lexeme}

/-- From the mode and the cursor on, the rest of the text leads to the lexemes. Of a comment, and of
the second character of a connective, only the rest is still to be read; a token that is being read
is the first of the lexemes. -/
def Mode.Lays (mode : Mode) (k : Cursor) (rest : List Char) (all : List Lexeme) : Prop :=
  match mode with
  | .seeking => Layout k all rest
  | .comment => ∃ comment later, rest = comment ++ later ∧ '\n' ∉ comment ∧ AtLineEnd later ∧
      Layout (k.walk comment) all later
  | .doubled => ∀ c later, rest = c :: later → Layout (k.advance c) all later
  | .word start text _ | .string start text _ | .group start _ text _ =>
    text ≠ [] → k = start.walk text.reverse → Layout start all (text.reverse ++ rest)

/-- The cursor behind one more character of a token. -/
theorem advance_walk_reverse {start : Cursor} {text : List Char}
    (hk : k = start.walk text.reverse) : k.advance c = start.walk (c :: text).reverse := by
  rw [List.reverse_cons, Cursor.walk_append, ← hk]
  rfl

/-- One more character of a token. -/
theorem lays_push {start : Cursor} {text : List Char} (hk : k = start.walk text.reverse)
    (h : c :: text ≠ [] → k.advance c = start.walk (c :: text).reverse →
      Layout start all ((c :: text).reverse ++ rest)) :
    Layout start all (text.reverse ++ c :: rest) := by
  have hpush := h (List.cons_ne_nil c text) (advance_walk_reverse hk)
  rwa [List.reverse_cons, List.append_assoc] at hpush

/-- The last character of a token. -/
theorem lays_close {start : Cursor} {text : List Char} (kind : TokenKind)
    (hk : k = start.walk text.reverse) (h : Layout (k.advance c) all rest) :
    Layout start (.token (finished kind start (k.offset + c.utf8Size) (c :: text)) :: all)
      (text.reverse ++ c :: rest) := by
  have hclose := h.finished kind (List.cons_ne_nil c text) (advance_walk_reverse hk)
  rwa [List.reverse_cons, List.append_assoc] at hclose

/-- What one character between tokens leads to, behind the lexemes that are finished. -/
theorem SeekRule.lays {before : List Lexeme}
    (h : SeekRule before k c rest.head? (.ok (now, mode')))
    (hrest : mode'.Lays (k.advance c) rest all) :
    ∃ new, now = before ++ new ∧ Layout k (new ++ all) (c :: rest) := by
  have hstart : k.advance c = k.walk [c] := rfl
  cases h with
  | blank hc => exact ⟨[], (List.append_nil _).symm, .blank hc hrest⟩
  | semicolon hc =>
    subst hc
    exact ⟨_, rfl, .semicolon hrest⟩
  | quote hc => exact ⟨[], (List.append_nil _).symm, hrest (by simp) hstart⟩
  | comma hc =>
    subst hc
    exact ⟨_, rfl, hrest.finished .comma (by simp) hstart⟩
  | slashes hc hnext =>
    subst hc
    obtain ⟨comment, later, rfl, hline, hend, hlays⟩ := hrest
    -- the second slash is not at the end of a line, so it belongs to the comment
    cases comment with
    | nil => exact absurd (hend '/' hnext) (by decide)
    | cons d comment =>
      obtain rfl : d = '/' := Option.some.inj hnext
      rw [List.mem_cons, not_or] at hline
      refine ⟨[], (List.append_nil _).symm, ?_⟩
      have hcomment : Comment k.position ('/' :: '/' :: comment) := .slashes hline.2
      exact .comment hcomment hend hlays
  | doubled hc hnext =>
    obtain ⟨later, rfl⟩ := List.head?_eq_some_iff.mp hnext
    have hsize : c.utf8Size = 1 := by rcases hc with rfl | rfl <;> rfl
    have hstop : ((k.advance c).advance c).offset = k.offset + 2 := by
      simp [Cursor.advance, hsize]
    have hk : (k.advance c).advance c = k.walk [c, c].reverse := rfl
    refine ⟨_, rfl, ?_⟩
    rw [← hstop]
    exact (hrest c later rfl).finished .word (List.cons_ne_nil c [c]) hk
  | opening b hc => exact ⟨[], (List.append_nil _).symm, hrest (by simp) hstart⟩
  | letter => exact ⟨[], (List.append_nil _).symm, hrest (by simp) hstart⟩

/-- What one character leads to. -/
theorem step_lays (h : step k c rest.head? mode = .ok (now, mode'))
    (hrest : mode'.Lays (k.advance c) rest all) : mode.Lays k (c :: rest) (now ++ all) := by
  have hrule := step_rule k c rest.head? mode
  rw [h] at hrule
  cases hrule with
  | numberSign hc hcolumn =>
    subst hc
    obtain ⟨comment, later, rfl, hline, hend, hlays⟩ := hrest
    have hcomment : Comment k.position ('#' :: comment) := .numberSign hcolumn hline
    exact .comment hcomment hend hlays
  | sought hseek =>
    obtain ⟨new, rfl, hlays⟩ := hseek.lays hrest
    exact hlays
  | lineEnd hc =>
    subst hc
    -- the comment ends here, and the line feed is a blank behind it
    refine ⟨[], '\n' :: rest, rfl, List.not_mem_nil, ?_, .blank (by decide) hrest⟩
    intro d hd
    exact (Option.some.inj hd).symm
  | comment hc =>
    obtain ⟨comment, later, rfl, hline, hend, hlays⟩ := hrest
    refine ⟨c :: comment, later, rfl, ?_, hend, hlays⟩
    rw [List.mem_cons, not_or]
    exact ⟨Ne.symm hc, hline⟩
  | doubled =>
    intro d later heq
    obtain ⟨rfl, rfl⟩ := List.cons.inj heq
    exact hrest
  | wordEnd _ hseek =>
    intro hne hk
    obtain ⟨new, rfl, hlays⟩ := hseek.lays hrest
    exact hlays.finished .word hne hk
  | quote | groupEnd =>
    intro _ hk
    exact lays_close _ hk hrest
  | selector | selectorOpens | letter | escaped | backslash | quoted | group =>
    intro _ hk
    exact lays_push hk hrest

/-- What the end of the text leads to. -/
theorem finish_lays {last : List Lexeme} (h : finish k mode = .ok last) : mode.Lays k [] last := by
  cases mode with
  | seeking =>
    obtain rfl := Except.ok.inj h
    exact .nil k
  | comment =>
    obtain rfl := Except.ok.inj h
    exact ⟨[], [], rfl, List.not_mem_nil, fun _ hd => (by cases hd), .nil k⟩
  | doubled =>
    intro c later hempty
    cases hempty
  | word start text nest =>
    intro hne hk
    simp only [finish] at h
    split at h
    · obtain rfl := Except.ok.inj h
      exact (Layout.nil k).finished .word hne hk
    · cases h
  | string => cases h
  | group => cases h

/-- What a text leads to. -/
theorem run_lays {cs : List Char} (h : run mode k cs = .ok all) : mode.Lays k cs all := by
  induction cs generalizing mode k all with
  | nil => exact finish_lays h
  | cons c rest ih =>
    obtain ⟨⟨now, mode'⟩, hstep, hrun⟩ := exists_of_bind_ok h
    obtain ⟨later, hlater, hall⟩ := exists_of_bind_ok hrun
    obtain rfl := Except.ok.inj hall
    exact step_lays hstep (ih hlater)

end Lexer

/-- The lexemes of a text are laid out in it. -/
theorem lexemes_layout {start : Position} {source : List Char} {all : List Lexeme}
    (h : lexemes start source = .ok all) : Layout ⟨0, start⟩ all source :=
  Lexer.run_lays h

/-! ### Statements -/

/-- The tokens of all statements in order. -/
def Reading.tokens (r : Reading) : List Token := r.statements.flatMap Statement.tokens

/-- Grouping into statements keeps the tokens and their order. -/
theorem groupLexemes_tokens {terminator : Terminator} {current : List Token} {all : List Lexeme}
    {r : Reading} (h : groupLexemes terminator current all = .ok r) :
    r.tokens = current ++ all.filterMap Lexeme.token? := by
  fun_induction groupLexemes terminator current all generalizing r with
  | case1 current hlast =>
    obtain rfl := Except.ok.inj h
    rw [List.getLast?_eq_none_iff.mp hlast]
    rfl
  | case2 => cases h
  | case3 =>
    obtain rfl := Except.ok.inj h
    simp [Reading.tokens]
  | case4 current t rest hends ih =>
    obtain ⟨later, hlater, rfl⟩ := exists_of_map_ok h
    have hrest := ih hlater
    rw [Reading.tokens] at hrest ⊢
    rw [List.flatMap_cons, hrest]
    simp [Lexeme.token?]
  | case5 current t rest hends ih =>
    rw [ih h]
    simp [Lexeme.token?]
  | case6 current p rest hempty ih =>
    obtain ⟨later, hlater, rfl⟩ := exists_of_map_ok h
    have hrest := ih hlater
    rw [Reading.tokens] at hrest ⊢
    rw [List.isEmpty_iff.mp hempty, hrest]
    rfl
  | case7 current p rest hempty ih =>
    obtain ⟨later, hlater, rfl⟩ := exists_of_map_ok h
    have hrest := ih hlater
    rw [Reading.tokens] at hrest ⊢
    rw [List.flatMap_cons, hrest]
    rfl

/-- The tokens of a text tile it. -/
theorem tokenize_tiles {terminator : Terminator} {start : Position} {source : String} {r : Reading}
    (h : tokenize terminator start source = .ok r) : Tiles ⟨0, start⟩ r.tokens source.toList := by
  obtain ⟨all, hall, hgroup⟩ := exists_of_bind_ok h
  rw [groupLexemes_tokens hgroup]
  exact (lexemes_layout hall).tiles

/-- Tokens cover a text without loss. Each token has a span of at least one byte that begins and ends
between characters, its text is the slice of that span, and its position is the one that the characters
before it lead to. Each span ends before the next one begins. What is left between them is blanks,
semicolons and comments. -/
theorem tokenize_lossless {terminator : Terminator} {start : Position} {source : String} {r : Reading}
    (h : tokenize terminator start source = .ok r) :
    (∀ t ∈ r.tokens, t.span.start < t.span.stop ∧ t.span.slice source = t.text ∧
      ∃ before after, source.toList = before ++ (t.text.toList ++ after) ∧
        t.span.start = Text.byteLength before ∧
        t.span.stop = Text.byteLength before + Text.byteLength t.text.toList ∧
        t.position = start.walk before) ∧
    r.tokens.Pairwise (fun t u => t.span.stop ≤ u.span.start) ∧
    Tiles ⟨0, start⟩ r.tokens source.toList := by
  have htiles := tokenize_tiles h
  refine ⟨fun t ht => ?_, htiles.pairwise, htiles⟩
  obtain ⟨before, after, hsource, hstands⟩ := htiles.exists_of_mem ht
  obtain ⟨hstart, hstop, hslice, hposition⟩ := hstands.slice hsource
  have hpos := Text.byteLength_pos hstands.nonempty
  exact ⟨by omega, hslice, before, after, hsource, hstart, hstop, hposition⟩

/-- A text with comments, a string and a selector, and characters of two bytes. -/
def noteText : String := "# \u00e9\nsay \"\u00e9\",@e[a=1] // \u00e9;\n;"

/-- The tokens of the text. -/
def noteReading : Reading :=
  ⟨[⟨[⟨.word, ⟨5, 8, ⟨2, 1⟩⟩, "say"⟩, ⟨.string "\u00e9", ⟨9, 13, ⟨2, 5⟩⟩, "\"\u00e9\""⟩,
    ⟨.comma, ⟨13, 14, ⟨2, 8⟩⟩, ","⟩, ⟨.word, ⟨14, 21, ⟨2, 9⟩⟩, "@e[a=1]"⟩]⟩], []⟩

theorem note_lossless :
    tokenize .required Position.start noteText = .ok noteReading ∧
      (∀ t ∈ noteReading.tokens, t.span.start < t.span.stop ∧ t.span.slice noteText = t.text ∧
        ∃ before after, noteText.toList = before ++ (t.text.toList ++ after) ∧
          t.span.start = Text.byteLength before ∧
          t.span.stop = Text.byteLength before + Text.byteLength t.text.toList ∧
          t.position = Position.start.walk before) ∧
      noteReading.tokens.Pairwise (fun t u => t.span.stop ≤ u.span.start) ∧
      Tiles ⟨0, .start⟩ noteReading.tokens noteText.toList := by
  have hread : tokenize .required Position.start noteText = .ok noteReading := by decide +kernel
  exact ⟨hread, tokenize_lossless hread⟩

end Packwright
