import Packwright.Proofs.Token.Moves
import Packwright.Proofs.Token.Tiling

/-!
# Two texts, one behind the other

A line break ends what may end there: a word, a comment, a blank. Where a text can end, a text with a
line break and another text behind it goes on as if the other one stood alone, so many lines further
down.

## Main results

- `Lexer.run_append` — the lexemes of two texts with a line break between them
- `groupLexemes_append` — statements that are all ended go with those behind them
- `tokenize_append` — the statements of two texts with a line break between them
-/

namespace Packwright

/-! ### Lexemes -/

namespace Lexer

/-- A line break is not the second character of an operator. -/
theorem doubled_line_break (c : Char) : ((c = '&' || c = '|') && some '\n' = some c) = false := by
  by_cases hc : c = '\n'
  · subst hc
    rfl
  · simp [Ne.symm hc]

theorem seek_line_break (before : List Lexeme) (k : Cursor) (c : Char) :
    seek before k c (some '\n') = seek before k c none := by
  unfold seek
  rw [doubled_line_break]
  simp

theorem continuesWord_line_break (c : Char) :
    continuesWord c (some '\n') = continuesWord c none := by
  unfold continuesWord
  rw [doubled_line_break]
  simp

/-- A character before a line break is read as it is at the end of a text. -/
theorem step_line_break (k : Cursor) (c : Char) (mode : Mode) :
    step k c (some '\n') mode = step k c none mode := by
  cases mode with
  | seeking | word => simp only [step, seek_line_break, continuesWord_line_break]
  | comment | doubled | string | group => rfl

/-- A line break ends a text wherever it may end. -/
theorem step_ends {k : Cursor} {mode : Mode} {ls : List Lexeme} (next : Option Char)
    (h : finish k mode = .ok ls) : step k '\n' next mode = .ok (ls, .seeking) := by
  -- between tokens a line break is blank
  have hblank : ∀ before, seek before k '\n' next = .ok (before, .seeking) := fun before =>
    if_pos (by decide)
  cases mode with
  | seeking =>
    obtain rfl := Except.ok.inj h
    exact hblank []
  | comment | doubled =>
    obtain rfl := Except.ok.inj h
    rfl
  | word start text nest =>
    cases hclosed : nest.closed with
    | false => simp [finish, hclosed] at h
    | true =>
      obtain rfl : [wordToken start k.offset text] = ls := by simpa [finish, hclosed] using h
      have hends : continuesWord '\n' next = false := by simp [continuesWord, Text.isBlank]
      simp [step, hclosed, hends, hblank]
  | string | group => cases h

/-- The lexemes of two texts with a line break between them. -/
theorem run_append {mode : Mode} {k : Cursor} {xs ys : List Char} {ls ls' : List Lexeme}
    (h : run mode k xs = .ok ls)
    (h' : run .seeking (k.walk (xs ++ ['\n'])) ys = .ok ls') :
    run mode k (xs ++ '\n' :: ys) = .ok (ls ++ ls') := by
  induction xs generalizing mode k ls with
  | nil =>
    simp only [List.nil_append, run]
    rw [step_ends ys.head? h]
    show (run .seeking (k.advance '\n') ys >>= fun later => .ok (ls ++ later)) = _
    rw [show run .seeking (k.advance '\n') ys = .ok ls' from h']
    rfl
  | cons c rest ih =>
    have hstep : step k c (rest ++ '\n' :: ys).head? mode = step k c rest.head? mode := by
      cases rest with
      | nil => exact step_line_break k c mode
      | cons d rest => rfl
    obtain ⟨⟨now, mode'⟩, hnow, hrun⟩ := exists_of_bind_ok h
    obtain ⟨later, hlater, hall⟩ := exists_of_bind_ok hrun
    obtain rfl := Except.ok.inj hall
    simp only [List.cons_append, run, bind, Except.bind, hstep, hnow, ih hlater h']
    exact congrArg Except.ok (List.append_assoc ..).symm

end Lexer

/-! ### Statements -/

/-- Statements that are all ended go with those behind them. -/
theorem groupLexemes_append {current : List Token} {ls ls' : List Lexeme} {r r' : Reading}
    (h : groupLexemes .required current ls = .ok r) (h' : groupLexemes .required [] ls' = .ok r') :
    groupLexemes .required current (ls ++ ls') =
      .ok ⟨r.statements ++ r'.statements, r.warnings ++ r'.warnings⟩ := by
  induction ls generalizing current r with
  | nil =>
    cases hlast : current.getLast? with
    | none =>
      rw [List.getLast?_eq_none_iff] at hlast
      subst hlast
      obtain rfl := Except.ok.inj h
      exact h'
    | some last => simp [groupLexemes, hlast] at h
  | cons l rest ih =>
    -- each lexeme either goes on or ends a statement, and then the rest is grouped alone
    have hends : ∀ {f : Reading → Reading},
        (∀ a b : Reading, f ⟨a.statements ++ b.statements, a.warnings ++ b.warnings⟩ =
          ⟨(f a).statements ++ b.statements, (f a).warnings ++ b.warnings⟩) →
        (groupLexemes .required [] rest).map f = .ok r →
        (groupLexemes .required [] (rest ++ ls')).map f =
          .ok ⟨r.statements ++ r'.statements, r.warnings ++ r'.warnings⟩ := by
      intro f hf hrest
      obtain ⟨r₁, hgroup, rfl⟩ := exists_of_map_ok hrest
      rw [ih hgroup]
      exact congrArg Except.ok (hf r₁ r')
    cases l with
    | token t =>
      simp only [List.cons_append, groupLexemes] at h ⊢
      by_cases hbrace : endsAtBrace .required (current ++ [t]) = true
      · rw [if_pos hbrace] at h ⊢
        exact hends (fun _ _ => rfl) h
      · rw [if_neg hbrace] at h ⊢
        exact ih h
    | semicolon p =>
      simp only [List.cons_append, groupLexemes] at h ⊢
      by_cases hempty : current.isEmpty = true
      · rw [if_pos hempty] at h ⊢
        exact hends (fun _ _ => rfl) h
      · rw [if_neg hempty] at h ⊢
        exact hends (fun _ _ => rfl) h

/-- Behind a line break a text stands at the beginning of a line, some way down. -/
theorem Cursor.walk_line_break (cs : List Char) :
    ∃ v : Move, (⟨0, Position.start⟩ : Cursor).walk (cs ++ ['\n']) =
      (⟨0, Position.start⟩ : Cursor).moved v := by
  rw [Cursor.walk_append]
  generalize (⟨0, Position.start⟩ : Cursor).walk cs = k
  refine ⟨⟨k.offset + '\n'.utf8Size, k.position.line⟩, ?_⟩
  simp [Cursor.advance, Cursor.moved, Position.advance, Position.down, Position.start,
    UInt32.add_comm]

/-- The statements of two texts with a line break between them. -/
theorem tokenize_append {first second : String} {r r' : Reading}
    (h : tokenize .required Position.start first = .ok r)
    (h' : tokenize .required Position.start second = .ok r') :
    ∃ (v : Move) (warnings : List Warning),
      tokenize .required Position.start (first ++ "\n" ++ second) =
        .ok ⟨r.statements ++ r'.statements.map (Statement.moved v), warnings⟩ := by
  obtain ⟨ls, hls, hr⟩ := exists_of_bind_ok h
  obtain ⟨ls', hls', hr'⟩ := exists_of_bind_ok h'
  obtain ⟨v, hv⟩ := Cursor.walk_line_break first.toList
  obtain ⟨lower, hlower, rfl⟩ := Lexer.run_moved v .seeking _ second.toList ls' hls'
  obtain ⟨below, hbelow, rfl⟩ := groupLexemes_moved v .required ls' [] r' hr'
  have htext : (first ++ "\n" ++ second).toList = first.toList ++ '\n' :: second.toList := by
    simp
  refine ⟨v, r.warnings ++ r'.warnings.map (Warning.down v.lines), ?_⟩
  rw [tokenize, htext, lexemes, Lexer.run_append hls (hv ▸ hlower)]
  exact groupLexemes_append hr hbelow

end Packwright
