import Packwright.Proofs.Token.Surroundings

/-!
# Tokens joined as they were written

The tokens of a statement are joined with one space for each gap between them, and none where they touch.
What is joined is the text of the statement without its comments and superfluous blanks, and it has the
same tokens again. No word runs into the next one, since a space stands where anything stood; and no
comment begins that was none, since a token behind a space is not in the first column.

## Main definitions

- `Position.InStep` — columns that are the same, or behind the first one
- `squeeze`, `Squeezes` — gaps written as one space
- `adjacencies` — which tokens touch
- `Rereads` — tokens that are read again

## Main results

- `Position.InStep.walk` — columns stay in step
- `Squeezes.joinRaw` — joined tokens are the text with its gaps squeezed
- `Lexer.exists_squeezed` — tokens are read again where their gaps are squeezed
- `joined_tokens_read_again` — all of it for a statement of a text
-/

namespace Packwright

/-! ### Columns -/

namespace Position

/-- The columns are the same, or the second one is at least two. -/
def InStep (p q : Position) : Prop := q.column = p.column ∨ 2 ≤ q.column.toNat

variable {p q : Position} {cs : List Char}

theorem toNat_column_advance_le (q : Position) (c : Char) :
    (q.advance c).column.toNat ≤ q.column.toNat + 1 := by
  unfold advance
  split
  · exact Nat.le_add_left ..
  · rw [UInt32.toNat_add]
    exact Nat.mod_le ..

theorem toNat_column_walk_le (q : Position) (cs : List Char) :
    (q.walk cs).column.toNat ≤ q.column.toNat + cs.length := by
  induction cs generalizing q with
  | nil => exact Nat.le_refl _
  | cons c cs ih =>
    have hfirst := toNat_column_advance_le q c
    have hrest := ih (q.advance c)
    rw [walk_cons, List.length_cons]
    omega

theorem toNat_column_add_one (h : q.column.toNat + 1 < UInt32.size) :
    (q.column + 1).toNat = q.column.toNat + 1 := by
  rw [UInt32.toNat_add]
  exact Nat.mod_eq_of_lt h

theorem InStep.advance (h : p.InStep q) (hbound : q.column.toNat + 1 < UInt32.size) (c : Char) :
    (p.advance c).InStep (q.advance c) := by
  by_cases hc : c = '\n'
  · subst hc
    exact .inl rfl
  · rw [InStep, Position.advance, Position.advance, if_neg hc, if_neg hc]
    rcases h with h | h
    · exact .inl (congrArg (· + 1) h)
    · refine .inr ?_
      rw [toNat_column_add_one hbound]
      omega

/-- Through the same characters columns stay in step. -/
theorem InStep.walk (h : p.InStep q) (hbound : q.column.toNat + cs.length < UInt32.size) :
    (p.walk cs).InStep (q.walk cs) := by
  induction cs generalizing p q with
  | nil => exact h
  | cons c cs ih =>
    have hfirst := toNat_column_advance_le q c
    rw [List.length_cons] at hbound
    exact ih (h.advance (by omega) c) (by omega)

/-- Behind some character a column is at least one. -/
theorem one_le_column_walk (hne : cs ≠ []) (hbound : q.column.toNat + cs.length < UInt32.size) :
    1 ≤ (q.walk cs).column.toNat := by
  obtain ⟨front, c, rfl⟩ := (List.eq_nil_or_concat cs).resolve_left hne
  rw [List.concat_eq_append] at hbound ⊢
  have hle := toNat_column_walk_le q front
  rw [List.length_append, List.length_singleton] at hbound
  rw [walk_append]
  by_cases hc : c = '\n'
  · subst hc
    exact Nat.le_refl 1
  · show 1 ≤ ((q.walk front).advance c).column.toNat
    rw [advance, if_neg hc, toNat_column_add_one (by omega)]
    exact Nat.le_add_left ..

/-- Behind a space that follows some character columns are in step with all others. -/
theorem inStep_space (hne : cs ≠ []) (hbound : q.column.toNat + cs.length + 1 < UInt32.size) :
    p.InStep ((q.walk cs).advance ' ') := by
  have hone := one_le_column_walk hne (Nat.lt_of_succ_lt hbound)
  have hle := toNat_column_walk_le q cs
  refine .inr ?_
  show 2 ≤ ((q.walk cs).column + 1).toNat
  rw [toNat_column_add_one (by omega)]
  omega

end Position

/-! ### Squeezed gaps -/

/-- A gap written as one space, and no gap as none. -/
def squeeze (gap : List Char) : List Char := if gap = [] then [] else [' ']

/-- For each token but the last, whether the next one was written directly behind it. -/
def adjacencies (tokens : List Token) : List Bool := List.zipWith Token.adjacent tokens tokens.tail

/-- From the cursor on, the tokens and the blanks and comments between them make up the text `covered`, and
`squeezed` is the same text with one space for each of the gaps. -/
inductive Squeezes : Cursor → List Token → List Char → List Char → Prop
  | last {k : Cursor} {t : Token} (hstands : t.StandsAt k) :
    Squeezes k [t] t.text.toList t.text.toList
  | cons {k : Cursor} {t : Token} {tokens : List Token} {gap blanks covered squeezed : List Char}
    (hstands : t.StandsAt k) (hgap : Filler covered (k.walk t.text.toList).position gap blanks)
    (h : Squeezes (k.walk (t.text.toList ++ gap)) tokens covered squeezed) :
    Squeezes k (t :: tokens) (t.text.toList ++ (gap ++ covered))
      (t.text.toList ++ (squeeze gap ++ squeezed))

theorem squeeze_squeeze (gap : List Char) : squeeze (squeeze gap) = squeeze gap := by
  by_cases hgap : gap = []
  · simp [squeeze, hgap]
  · simp [squeeze, hgap]

/-- Tokens touch if there is no gap between them. -/
theorem Token.StandsAt.adjacent {t u : Token} {k : Cursor} {gap : List Char} (ht : t.StandsAt k)
    (hu : u.StandsAt (k.walk (t.text.toList ++ gap))) : t.adjacent u = gap.isEmpty := by
  rw [Token.adjacent, Span.touches, ht.span, hu.span]
  simp only [Cursor.walk_append, Cursor.walk_offset]
  cases gap with
  | nil => simp
  | cons c gap =>
    have hpos := Text.byteLength_pos (List.cons_ne_nil c gap)
    rw [List.isEmpty_cons, beq_eq_false_iff_ne]
    omega

namespace Squeezes

variable {k : Cursor} {tokens : List Token} {covered squeezed : List Char}

theorem exists_head (h : Squeezes k tokens covered squeezed) :
    ∃ t more, tokens = t :: more ∧ t.StandsAt k := by
  cases h with
  | last hstands => exact ⟨_, _, rfl, hstands⟩
  | cons hstands => exact ⟨_, _, rfl, hstands⟩

/-- Tokens joined as they were written make up the squeezed text. -/
theorem joinRaw (h : Squeezes k tokens covered squeezed) :
    (Packwright.joinRaw tokens).toList = squeezed := by
  rw [Packwright.joinRaw, String.toList_ofList]
  induction h with
  | last => rfl
  | @cons k t tokens gap blanks covered squeezed hstands hgap h ih =>
    obtain ⟨u, more, rfl, hu⟩ := h.exists_head
    rw [joinBy, hstands.adjacent hu, ih, List.append_assoc]
    cases gap <;> rfl

/-- The tokens cover the text as well when comments are left out of it. -/
theorem covers (h : Squeezes k tokens covered squeezed) : ∃ plain, Covers k tokens covered plain := by
  induction h with
  | @last k t hstands =>
    exact ⟨_, .last hstands.nonempty (by rw [hstands.span]) (by rw [hstands.span])⟩
  | @cons k t tokens gap blanks covered squeezed hstands hgap h ih =>
    obtain ⟨plain, hcovers⟩ := ih
    exact ⟨_, .cons hstands.nonempty (by rw [hstands.span]) (by rw [hstands.span]) hgap hcovers⟩

/-- A statement begins where its first token stands. -/
theorem position (h : Squeezes k tokens covered squeezed) :
    (Statement.mk tokens).span.position = k.position := by
  obtain ⟨t, more, rfl, hstands⟩ := h.exists_head
  obtain ⟨last, hlast⟩ : ∃ last, (t :: more).getLast? = some last :=
    ⟨_, List.getLast?_eq_some_getLast (List.cons_ne_nil t more)⟩
  have hspan : (Statement.mk (t :: more)).span = t.span.cover last.span := by
    simp only [Statement.span, List.head?_cons, hlast]
  rw [hspan, Span.cover, hstands.span]

end Squeezes

/-- The text is read as tokens of the same kinds and texts that touch as these do, and that make up the text
with a space for each gap. -/
def Rereads (k : Cursor) (text : List Char) (tokens : List Token) : Prop :=
  ∃ tokens' : List Token, Lexer.run .seeking k text = .ok (tokens'.map .token) ∧
    tokens'.map Token.shape = tokens.map Token.shape ∧ adjacencies tokens' = adjacencies tokens ∧
    Squeezes k tokens' text text

/-- One token more in front, with the gap behind it squeezed. -/
theorem Rereads.cons {k k' : Cursor} {t u : Token} {more : List Token} {gap rest squeezed : List Char}
    (ht : t.ReadsAgain k rest) (hu : u.StandsAt (k.walk (t.text.toList ++ gap)))
    (hsign : t.text.toList.head? = some '#' → k'.position.column ≠ 1)
    (halike : Lexer.EndsAlike rest (squeeze gap ++ squeezed))
    (h : Rereads (k'.walk (t.text.toList ++ squeeze gap)) squeezed (u :: more)) :
    Rereads k' (t.text.toList ++ (squeeze gap ++ squeezed)) (t :: u :: more) := by
  obtain ⟨tokens', hrun, hshapes, hadjacencies, hsqueezes⟩ := h
  obtain ⟨u', more', rfl, hu'⟩ := hsqueezes.exists_head
  have hplaced : (t.placedAt k').StandsAt k' := ⟨ht.stands.nonempty, rfl⟩
  have hgap : Filler squeezed (k'.walk t.text.toList).position (squeeze gap) (squeeze gap) := by
    by_cases hgap : gap = []
    · simpa [squeeze, hgap] using Filler.nil _
    · simpa [squeeze, hgap] using Filler.blank (by decide) (.nil _)
  refine ⟨t.placedAt k' :: u' :: more', ?_, ?_, ?_, ?_⟩
  · refine ht.again k' _ _ hsign halike ?_
    rw [Cursor.walk_append] at hrun
    by_cases hgap : gap = []
    · simpa [squeeze, hgap] using hrun
    · simp only [squeeze, hgap, if_false] at hrun ⊢
      have hstep : Lexer.step (k'.walk t.text.toList) ' ' squeezed.head? .seeking =
        .ok ([], .seeking) := rfl
      exact (Lexer.run_silent hstep).trans hrun
  · rw [List.map_cons, hshapes]
    rfl
  · have hfirst : (t.placedAt k').adjacent u' = t.adjacent u := by
      rw [hplaced.adjacent hu', ht.stands.adjacent hu]
      cases gap <;> rfl
    rw [adjacencies, adjacencies, List.tail_cons, List.tail_cons, List.zipWith_cons_cons, hfirst]
    exact congrArg _ hadjacencies
  · have hall := Squeezes.cons hplaced hgap hsqueezes
    rwa [squeeze_squeeze] at hall

/-- Tokens that are read one behind the other are read again where their gaps are squeezed, if only the
columns of the squeezed text can be counted. -/
theorem Lexer.exists_squeezed {tokens : List Token} {after : List Lexeme} {k : Cursor} {cs : List Char}
    (hne : tokens ≠ []) (h : run .seeking k cs = .ok (tokens.map .token ++ after)) :
    ∃ gap blanks covered squeezed rest, cs = gap ++ (covered ++ rest) ∧
      Filler (covered ++ rest) k.position gap blanks ∧
      Squeezes (k.walk gap) tokens covered squeezed ∧ EndsAlike (covered ++ rest) squeezed ∧
      ∀ k' : Cursor, (k.walk gap).position.InStep k'.position →
        k'.position.column.toNat + squeezed.length < UInt32.size → Rereads k' squeezed tokens := by
  induction tokens generalizing k cs with
  | nil => exact absurd rfl hne
  | cons t more ih =>
    obtain ⟨gap, blanks, text, rest, rfl, hgap, hrest, htoken⟩ := run_isNext h
    obtain ⟨rfl, hreads⟩ := htoken t rfl
    -- a number sign stands in the first column of neither text
    have hsign : ∀ k' : Cursor, (k.walk gap).position.InStep k'.position →
        t.text.toList.head? = some '#' → k'.position.column ≠ 1 := by
      intro k' hstep hhead hcolumn
      rcases hstep with hstep | hstep
      · exact hreads.sign hhead (hstep ▸ hcolumn)
      · rw [hcolumn] at hstep
        exact absurd hstep (by decide)
    cases more with
    | nil =>
      refine ⟨gap, blanks, _, _, rest, rfl, hgap, .last hreads.stands, ?_, fun k' hstep _ => ?_⟩
      · have halike := EndsAlike.token hreads []
        rwa [List.append_nil] at halike
      · have hrun := hreads.again k' [] [] (hsign k' hstep) endsAlike_nil rfl
        rw [List.append_nil] at hrun
        exact ⟨[t.placedAt k'], hrun, rfl, rfl, .last ⟨hreads.stands.nonempty, rfl⟩⟩
    | cons u more =>
      obtain ⟨gap', blanks', covered, squeezed, rest, rfl, hgap', hsqueezes, halike, hagain⟩ :=
        ih (List.cons_ne_nil u more) hrest
      rw [← Cursor.walk_append] at hsqueezes hagain
      obtain ⟨u, more, heq, hu⟩ := hsqueezes.exists_head
      obtain ⟨rfl, rfl⟩ := List.cons.inj heq
      have hbehind : EndsAlike (gap' ++ (covered ++ rest)) (squeeze gap' ++ squeezed) := by
        by_cases hempty : gap' = []
        · subst hempty
          exact halike
        · rw [squeeze, if_neg hempty]
          exact endsAlike_blank (by decide)
      refine ⟨gap, blanks, t.text.toList ++ (gap' ++ covered), _, rest, by simp, by simpa using hgap,
        .cons hreads.stands hgap'.of_append hsqueezes, ?_, fun k' hstep hbound => ?_⟩
      · simpa using EndsAlike.token hreads (squeeze gap' ++ squeezed)
      · have hcolumn := Position.toNat_column_walk_le k'.position (t.text.toList ++ squeeze gap')
        simp only [List.length_append] at hbound hcolumn
        refine .cons hreads hu (hsign k' hstep) hbehind (hagain _ ?_ ?_)
        · simp only [Cursor.walk_append, Cursor.walk_position] at hstep ⊢
          by_cases hempty : gap' = []
          · simp only [squeeze, hempty, if_true]
            exact hstep.walk (by omega)
          · simp only [squeeze, hempty, if_false, List.length_singleton] at hbound ⊢
            exact Position.inStep_space hreads.stands.nonempty (by omega)
        · rw [Cursor.walk_position]
          omega

/-- Joining tokens as they were written is a right inverse of reading them. What is joined of a statement is
its text with one space for each gap between two tokens. Read without terminators from where the first token
stands, it is one statement with tokens of the same kinds and texts that touch as they did.

This has one condition: the column of the first token and the length of the joined text together fit in a word
of 32 bits, in which columns are counted. A joined text is one line even where the statement had several, so
its last columns may not fit where those of the statement do. -/
theorem joined_tokens_read_again {terminator : Terminator} {start : Position} {source : String}
    {r : Reading} (hread : tokenize terminator start source = .ok r) {st : Statement}
    (hst : st ∈ r.statements) :
    ∃ before covered after, source.toList = before ++ (covered ++ after) ∧
      st.span.slice source = String.ofList covered ∧
      Squeezes (Cursor.walk ⟨0, start⟩ before) st.tokens covered (joinRaw st.tokens).toList ∧
      (st.span.position.column.toNat + (joinRaw st.tokens).toList.length < UInt32.size →
        ∃ tokens, tokenize .optional st.span.position (joinRaw st.tokens) =
            .ok { statements := [⟨tokens⟩] } ∧
          tokens.map Token.shape = st.tokens.map Token.shape ∧
          adjacencies tokens = adjacencies st.tokens) := by
  obtain ⟨all, hall, hgroup⟩ := exists_of_bind_ok hread
  obtain ⟨hne, before, after, hlexemes⟩ := groupLexemes_contiguous hgroup _ hst
  rw [List.map_nil, List.nil_append] at hlexemes
  rw [lexemes, ← hlexemes, List.append_assoc] at hall
  obtain ⟨front, rest, hsource, hrest⟩ := Lexer.exists_behind hall
  obtain ⟨gap, blanks, covered, squeezed, later, rfl, -, hsqueezes, -, hagain⟩ :=
    Lexer.exists_squeezed hne hrest
  rw [← Cursor.walk_append] at hsqueezes hagain
  obtain ⟨plain, hcovers⟩ := hsqueezes.covers
  obtain ⟨hstart, hstop⟩ := hcovers.span
  have hposition : st.span.position = _ := hsqueezes.position
  have hjoin := hsqueezes.joinRaw
  rw [← hjoin] at hsqueezes
  have hwhole : source.toList = front ++ gap ++ (covered ++ later) := by
    rw [hsource, List.append_assoc]
  refine ⟨front ++ gap, covered, later, hwhole, Span.slice_eq hwhole ?_ ?_, hsqueezes, ?_⟩
  · rw [hstart, Cursor.walk_offset]
    exact Nat.zero_add _
  · rw [hstop, Cursor.walk_offset, Cursor.walk_offset, Nat.zero_add]
  · intro hbound
    rw [hjoin] at hbound
    obtain ⟨tokens, hrun, hshapes, hadjacencies, hagain⟩ :=
      hagain ⟨0, st.span.position⟩ (.inl (congrArg Position.column hposition)) hbound
    refine ⟨tokens, ?_, hshapes, hadjacencies⟩
    obtain ⟨t, more, rfl, -⟩ := hagain.exists_head
    rw [tokenize, lexemes, hjoin, hrun]
    exact groupLexemes_single (List.cons_ne_nil t more)

/-- A command with a comment in one gap and a number sign behind a comma. -/
def glossText : String := "say \"a\"//b\n  @e[c=1],#d;"

/-- The statement of the text. -/
def glossStatement : Statement :=
  ⟨[⟨.word, ⟨0, 3, ⟨1, 1⟩⟩, "say"⟩, ⟨.string "a", ⟨4, 7, ⟨1, 5⟩⟩, "\"a\""⟩,
    ⟨.word, ⟨13, 20, ⟨2, 3⟩⟩, "@e[c=1]"⟩, ⟨.comma, ⟨20, 21, ⟨2, 10⟩⟩, ","⟩,
    ⟨.word, ⟨21, 23, ⟨2, 11⟩⟩, "#d"⟩]⟩

theorem gloss_read_again :
    tokenize .required Position.start glossText = .ok { statements := [glossStatement] } ∧
      joinRaw glossStatement.tokens = "say \"a\" @e[c=1],#d" ∧
      ∃ tokens, tokenize .optional Position.start (joinRaw glossStatement.tokens) =
          .ok { statements := [⟨tokens⟩] } ∧
        tokens.map Token.shape = glossStatement.tokens.map Token.shape ∧
        adjacencies tokens = [false, false, true, true] := by
  have hread : tokenize .required Position.start glossText =
      .ok { statements := [glossStatement] } := by decide +kernel
  obtain ⟨-, -, -, -, -, -, hagain⟩ := joined_tokens_read_again hread List.mem_cons_self
  exact ⟨hread, by decide +kernel, hagain (by decide +kernel)⟩

end Packwright
