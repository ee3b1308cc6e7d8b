import Packwright.Proofs.Token.Surroundings

/-!
# Every string has a literal

A string is written between quotes, with escapes for the characters that may not stand there as they are. The
lexer ends the literal at its last quote, since every quote before it is escaped, and the escapes are undone by
the value. So a literal is one token, wherever it stands; and texts that are one token each are read one by one
where blanks stand between them.

## Main definitions

- `literal` — a string as it is written
- `TokenText`, `TokensText` — texts of one token, and several of them with blanks between them

## Main results

- `Lexer.unescape_escaped`, `Lexer.emits_literal` — the value and the end of a literal
- `strings_have_literals` — literals alone and among other tokens
-/

namespace Packwright

/-- A character of a string as it is written between the quotes. -/
def escapeInLiteral (c : Char) : List Char :=
  if c = '\\' then ['\\', '\\']
  else if c = '"' then ['\\', '"']
  else if c = '\n' then ['\\', 'n']
  else if c = '\t' then ['\\', 't']
  else [c]

/-- A string as it is written. -/
def literal (v : String) : List Char := '"' :: (v.toList.flatMap escapeInLiteral ++ ['"'])

/-- A text that is one token of this kind where it stands: a literal, or any text that the lexer reads as this
token when it stands there alone. -/
inductive TokenText (p : Position) : TokenKind → List Char → Prop
  | literal (v : String) : TokenText p (.string v) (literal v)
  | other {t : Token} (h : lexemes p t.text.toList = .ok [.token t]) : TokenText p t.kind t.text.toList

/-- Texts of one token each, with blanks between them. -/
inductive TokensText : Position → List (TokenKind × List Char) → List Char → Prop
  | last {p : Position} {kind : TokenKind} {cs : List Char} (h : TokenText p kind cs) :
    TokensText p [(kind, cs)] cs
  | more {p : Position} {kind : TokenKind} {cs gap text : List Char} {shapes : List (TokenKind × List Char)}
    (h : TokenText p kind cs) (hne : gap ≠ []) (hgap : ∀ c ∈ gap, Text.isBlank c = true)
    (hmore : TokensText (p.walk (cs ++ gap)) shapes text) :
    TokensText p ((kind, cs) :: shapes) (cs ++ (gap ++ text))

namespace Lexer

variable {cs rest text : List Char} {k : Cursor} {p : Position} {kind : TokenKind} {later : List Lexeme}

/-! ### Literals -/

theorem unescape_plain {c : Char} (hc : c ≠ '\\') (cs : List Char) : unescape (c :: cs) = c :: unescape cs := by
  rw [unescape.eq_def]
  split <;> simp_all

/-- What is escaped between the quotes is the string again. -/
theorem unescape_escaped (v : List Char) : unescape (v.flatMap escapeInLiteral) = v := by
  induction v with
  | nil => rfl
  | cons c v ih =>
    rw [List.flatMap_cons, escapeInLiteral]
    split
    · next hc => rw [hc]; exact congrArg _ ih
    split
    · next hc => rw [hc]; exact congrArg _ ih
    split
    · next hc => rw [hc]; exact congrArg _ ih
    split
    · next hc => rw [hc]; exact congrArg _ ih
    · next hslash _ _ _ => rw [List.singleton_append, unescape_plain hslash, ih]

/-- What is escaped may stand between quotes. -/
theorem quoted_escaped (v : List Char) : Quoted (v.flatMap escapeInLiteral) := by
  induction v with
  | nil => exact .nil
  | cons c v ih =>
    rw [List.flatMap_cons, escapeInLiteral]
    split
    · exact .escape _ ih
    split
    · exact .escape _ ih
    split
    · exact .escape _ ih
    split
    · exact .escape _ ih
    · next hslash hquote hline _ => exact .plain hquote hslash hline ih

/-- What stands between the quotes is read without a token. -/
theorem run_string {start : Cursor} (h : Quoted cs) :
    run (.string start text false) k (cs ++ rest) =
      run (.string start (cs.reverse ++ text) false) (k.walk cs) rest := by
  induction h generalizing k text with
  | nil => rfl
  | @plain c cs hquote hslash hline _ ih =>
    have hstep : step k c (cs ++ rest).head? (.string start text false) =
        .ok ([], .string start (c :: text) false) := by simp [step, hquote, hslash, hline]
    rw [List.cons_append, run_silent hstep, ih]
    simp
  | @escape c cs _ ih =>
    have hslash : step k '\\' (c :: cs ++ rest).head? (.string start text false) =
        .ok ([], .string start ('\\' :: text) true) := rfl
    have hescaped : step (k.advance '\\') c (cs ++ rest).head? (.string start ('\\' :: text) true) =
        .ok ([], .string start (c :: '\\' :: text) false) := rfl
    rw [List.cons_append, run_silent hslash, List.cons_append, run_silent hescaped, ih]
    simp

/-- A literal is one token with the value of the string, whatever stands behind it. -/
theorem emits_literal (v : String) : Emits (literal v) rest [(.string v, literal v)] := by
  intro k
  have hbegins : ∀ next, step k '"' next .seeking = .ok ([], .string k ['"'] false) := fun _ => rfl
  have hends : ∀ {k' next text}, step k' '"' next (.string k text false) =
      .ok ([stringToken k (k'.offset + 1) ('"' :: text)], .seeking) := fun {_ _ _} => rfl
  have htoken : ∀ stop, stringToken k stop ('"' :: ((v.toList.flatMap escapeInLiteral).reverse ++ ['"'])) =
      .token (finished (.string v) k stop ('"' :: ((v.toList.flatMap escapeInLiteral).reverse ++ ['"']))) := by
    intro stop
    simp [stringToken, unescape_escaped]
  have hwalk : k.walk (literal v) = ((k.advance '"').walk (v.toList.flatMap escapeInLiteral)).advance '"' := by
    simp [literal, Cursor.walk_append]
  have htext : literal v ++ rest = '"' :: (v.toList.flatMap escapeInLiteral ++ '"' :: rest) := by simp [literal]
  rw [htext, run_silent (hbegins _), run_string (quoted_escaped _), run_cons hends, htoken, hwalk]
  exact ⟨[finished (.string v) k _ _], by simp [Token.shape, finished, literal], rfl⟩

/-! ### Literals among other tokens -/

/-- A text that is one token is read wherever it stands in the same place, in front of a blank or at the end. -/
theorem run_tokenText (h : TokenText p kind cs) (hk : k.position = p) (hends : EndsAlike [] rest)
    (hlater : run .seeking (k.walk cs) rest = .ok later) :
    ∃ t : Token, t.shape = (kind, cs) ∧ run .seeking k (cs ++ rest) = .ok (.token t :: later) := by
  cases h with
  | literal v =>
    have hemits : Emits (Packwright.literal v) rest [(.string v, Packwright.literal v)] := emits_literal v
    obtain ⟨tokens, hshapes, hrun⟩ := hemits k
    obtain ⟨t, tokens, rfl, ht, hnil⟩ := List.map_eq_cons_iff.mp hshapes
    obtain rfl := List.map_eq_nil_iff.mp hnil
    exact ⟨t, ht, by rw [hrun, hlater]; rfl⟩
  | @other t h =>
    obtain ⟨gap, blanks, text, rest', htext, -, -, htoken⟩ := run_isNext h
    obtain ⟨rfl, hreads⟩ := htoken t rfl
    -- the token is the whole text, so nothing stands around it
    have hlength := congrArg List.length htext
    simp only [List.length_append] at hlength
    obtain rfl : gap = [] := List.length_eq_zero_iff.mp (by omega)
    obtain rfl : rest' = [] := List.length_eq_zero_iff.mp (by omega)
    subst hk
    exact ⟨t.placedAt k, rfl, hreads.again k rest later hreads.sign hends hlater⟩

/-- Texts of one token each are read one by one. -/
theorem run_tokensText {shapes : List (TokenKind × List Char)} (h : TokensText p shapes text)
    (hk : k.position = p) : ∃ tokens : List Token, tokens.map Token.shape = shapes ∧
      run .seeking k text = .ok (tokens.map .token) := by
  induction h generalizing k with
  | @last p kind cs h =>
    obtain ⟨t, ht, hrun⟩ := run_tokenText h hk endsAlike_nil (rfl : run .seeking (k.walk cs) [] = .ok [])
    rw [List.append_nil] at hrun
    exact ⟨[t], by rw [List.map_singleton, ht], hrun⟩
  | @more p kind cs gap text shapes h hne hgap _ ih =>
    have hk' : (k.walk (cs ++ gap)).position = p.walk (cs ++ gap) := by rw [Cursor.walk_position, hk]
    obtain ⟨tokens, rfl, hrun⟩ := ih hk'
    have hblanks : run .seeking (k.walk cs) (gap ++ text) = .ok (tokens.map .token) := by
      rw [Cursor.walk_append] at hrun
      obtain ⟨none, hnone, hblank⟩ := reads_blanks hgap (k.walk cs) _ hrun
      obtain rfl := List.map_eq_nil_iff.mp hnone
      exact hblank
    have hends : EndsAlike [] (gap ++ text) := by
      obtain ⟨b, gap, rfl⟩ := List.exists_cons_of_ne_nil hne
      exact endsAlike_blank (hgap b List.mem_cons_self)
    obtain ⟨t, ht, hread⟩ := run_tokenText h hk hends hblanks
    exact ⟨t :: tokens, by rw [List.map_cons, ht], hread⟩

end Lexer

/-- Every string has a literal: from any position and without terminators its literal is read as one token with
this value and this text. The same holds of any number of literals among other tokens, with blanks between
them. -/
theorem strings_have_literals :
    (∀ (start : Position) (v : String), ∃ t : Token,
      tokenize .optional start (String.ofList (literal v)) = .ok { statements := [⟨[t]⟩] } ∧
        t.kind = .string v ∧ t.text = String.ofList (literal v)) ∧
    ∀ {start : Position} {shapes : List (TokenKind × List Char)} {text : List Char},
      TokensText start shapes text → ∃ tokens : List Token,
        tokenize .optional start (String.ofList text) = .ok { statements := [⟨tokens⟩] } ∧
          tokens.map Token.shape = shapes := by
  have hall : ∀ {start : Position} {shapes : List (TokenKind × List Char)} {text : List Char},
      TokensText start shapes text → ∃ tokens : List Token,
        tokenize .optional start (String.ofList text) = .ok { statements := [⟨tokens⟩] } ∧
          tokens.map Token.shape = shapes := by
    intro start shapes text h
    obtain ⟨tokens, rfl, hrun⟩ := Lexer.run_tokensText h (k := ⟨0, start⟩) rfl
    have hne : [] ++ tokens ≠ [] := by
      rintro rfl
      cases h
    refine ⟨tokens, ?_, rfl⟩
    rw [tokenize, lexemes, String.toList_ofList, hrun]
    exact groupLexemes_single hne
  refine ⟨fun start v => ?_, hall⟩
  obtain ⟨tokens, hread, hshapes⟩ := hall (.last (.literal v))
  obtain ⟨t, tokens, rfl, ht, hnil⟩ := List.map_eq_cons_iff.mp hshapes
  obtain rfl := List.map_eq_nil_iff.mp hnil
  obtain ⟨hkind, htext⟩ := Prod.mk.inj ht
  exact ⟨t, hread, hkind, by rw [← htext, String.ofList_toList]⟩

/-- A literal with quotes, backslashes, a line feed and the marks of comments and statements. -/
theorem literal_among_words : ∃ tokens : List Token,
    tokenize .optional Position.start
        (String.ofList ("say ".toList ++ (literal "\\\" // ;\n\\" ++ " @s".toList))) =
      .ok { statements := [⟨tokens⟩] } ∧
    tokens.map Token.shape = [(.word, "say".toList),
      (.string "\\\" // ;\n\\", literal "\\\" // ;\n\\"), (.word, "@s".toList)] := by
  have hgap : ∀ c ∈ [' '], Text.isBlank c = true := List.forall_mem_singleton.mpr (by decide)
  have htext : TokensText Position.start _ _ :=
    .more (.other (t := ⟨.word, ⟨0, 3, Position.start⟩, "say"⟩) rfl) (List.cons_ne_nil _ _) hgap
      (.more (.literal "\\\" // ;\n\\") (List.cons_ne_nil _ _) hgap
        (.last (.other (t := ⟨.word, ⟨0, 2, ⟨1, 21⟩⟩, "@s"⟩) (by decide +kernel))))
  exact strings_have_literals.2 htext

end Packwright
