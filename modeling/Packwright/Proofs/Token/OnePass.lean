import Packwright.Proofs.Token.Grouping

/-!
# Tokens and statements in one pass

Reading characters and grouping what they make up can be done by one machine, which keeps the
statement it is in the middle of beside the statements it has finished. Whether statements have to be
terminated is part of its state. The machine reads a text as the lexer and the grouping behind it do.

How statements end never comes back to the part that reads characters: two machines that differ in it
are in the same mode, with the same tokens behind them, after any part of a text.

## Main definitions

- `Scanner` — a text in the middle of being read
- `Scanner.take`, `Scanner.step`, `Scanner.after` — one lexeme, one character, part of a text
- `Scanner.scan` — a text to its end
- `Scanner.view` — what reading characters depends on, and the tokens so far

## Main results

- `Scanner.scan_new` — one pass reads the statements of a text
- `Scanner.after_view` — characters are read alike with and without terminators
-/

namespace Packwright

/-- What is read in one part of a text and in the part behind it. -/
def Reading.append (r later : Reading) : Reading :=
  ⟨r.statements ++ later.statements, r.warnings ++ later.warnings⟩

theorem Reading.append_assoc (a b c : Reading) : (a.append b).append c = a.append (b.append c) := by
  simp [append]

/-- A text in the middle of being read: what is open of a token, the tokens of the open statement,
and what is finished. -/
structure Scanner where
  terminator : Terminator
  mode : Lexer.Mode := .seeking
  current : List Token := []
  finished : Reading := {}
  deriving DecidableEq, Repr, Inhabited

namespace Scanner

variable (s : Scanner) (k : Cursor)

/-- Ends the open statement. -/
def endStatement : Scanner :=
  { s with current := [], finished := s.finished.append { statements := [⟨s.current⟩] } }

/-- Takes up a lexeme. -/
def take : Lexeme → Scanner
  | .token t =>
    let grown := { s with current := s.current ++ [t] }
    if endsAtBrace s.terminator grown.current then grown.endStatement else grown
  | .semicolon p =>
    if s.current.isEmpty then
      { s with finished := s.finished.append { warnings := [emptyStatementAt p] } }
    else s.endStatement

/-- Takes up lexemes in order. -/
def takeAll (all : List Lexeme) : Scanner := all.foldl take s

/-- Reads one character. -/
def step (c : Char) (next : Option Char) : Except Fault Scanner := do
  let (now, mode) ← Lexer.step k c next s.mode
  return { s.takeAll now with mode }

/-- Reads part of a text. -/
def after (s : Scanner) (k : Cursor) : List Char → (rest : List Char) → Except Fault Scanner
  | [], _ => .ok s
  | c :: text, rest => do (← s.step k c (text ++ rest).head?).after (k.advance c) text rest

/-- What is read where no more lexemes come. -/
def close : Except Fault Reading :=
  match s.current.getLast? with
  | none => .ok s.finished
  | some last =>
    match s.terminator with
    | .required => .error (.located .missingSemicolon (missingSemicolonAt last))
    | .optional => .ok s.endStatement.finished

/-- Reads a text to its end. -/
def scan (text : List Char) : Except Fault Reading := do
  let s ← s.after k text []
  (s.takeAll (← Lexer.finish (k.walk text) s.mode)).close

/-! ### One pass and two -/

@[simp] theorem takeAll_nil : s.takeAll [] = s := rfl

@[simp] theorem takeAll_cons (x : Lexeme) (all : List Lexeme) :
    s.takeAll (x :: all) = (s.take x).takeAll all := rfl

theorem takeAll_append (now later : List Lexeme) :
    s.takeAll (now ++ later) = (s.takeAll now).takeAll later :=
  List.foldl_append

/-- A machine that takes up lexemes groups them behind what it has finished. -/
theorem close_takeAll (all : List Lexeme) :
    (s.takeAll all).close =
      (groupLexemes s.terminator s.current all).map s.finished.append := by
  induction all generalizing s with
  | nil =>
    rw [takeAll_nil, close, groupLexemes]
    cases s.current.getLast? with
    | none => simp [Except.map, Reading.append]
    | some last => cases s.terminator <;> rfl
  | cons x rest ih =>
    -- a statement that ends here stands in front of what the rest makes up
    have hended : ∀ (done : Reading) (mode : Lexer.Mode),
        (takeAll ⟨s.terminator, mode, [], s.finished.append done⟩ rest).close =
          ((groupLexemes s.terminator [] rest).map done.append).map s.finished.append := by
      intro done mode
      rw [ih]
      cases groupLexemes s.terminator [] rest with
      | error f => rfl
      | ok r => exact congrArg Except.ok (Reading.append_assoc _ _ _)
    rw [takeAll_cons]
    cases x with
    | token t =>
      rw [groupLexemes, take]
      by_cases hends : endsAtBrace s.terminator (s.current ++ [t]) = true
      · rw [if_pos hends, if_pos hends]
        exact hended { statements := [⟨s.current ++ [t]⟩] } s.mode
      · rw [if_neg hends, if_neg hends]
        exact ih { s with current := s.current ++ [t] }
    | semicolon p =>
      rw [groupLexemes, take]
      by_cases hempty : s.current.isEmpty = true
      · rw [if_pos hempty, if_pos hempty]
        have hnone : s.current = [] := List.isEmpty_iff.mp hempty
        have hidle := hended { warnings := [emptyStatementAt p] } s.mode
        rw [hnone]
        exact hidle
      · rw [if_neg hempty, if_neg hempty]
        exact hended { statements := [⟨s.current⟩] } s.mode

/-- One pass reads the lexemes that the lexer reads, and groups them. -/
theorem scan_eq (text : List Char) :
    s.scan k text = Lexer.run s.mode k text >>= fun all => (s.takeAll all).close := by
  induction text generalizing s k with
  | nil => rfl
  | cons c text ih =>
    rw [scan, after, Lexer.run, step, List.append_nil]
    cases hstep : Lexer.step k c text.head? s.mode with
    | error f => rfl
    | ok found =>
      obtain ⟨now, mode⟩ := found
      -- what is closed does not depend on the mode
      have hclose (later : List Lexeme) :
          (takeAll { s.takeAll now with mode } later).close = (s.takeAll (now ++ later)).close := by
        rw [takeAll_append, close_takeAll, close_takeAll]
      have hrest := ih { s.takeAll now with mode } (k.advance c)
      rw [scan] at hrest
      refine hrest.trans ?_
      show Lexer.run mode (k.advance c) text >>= _ =
        (Lexer.run mode (k.advance c) text >>= fun later => Except.ok (now ++ later)) >>= _
      rw [bind_assoc]
      exact congrArg _ (funext hclose)

/-- A machine at the beginning of a text reads its statements. -/
theorem scan_new (terminator : Terminator) (start : Position) (source : String) :
    scan { terminator } ⟨0, start⟩ source.toList = tokenize terminator start source := by
  rw [scan_eq, tokenize, lexemes]
  cases Lexer.run .seeking ⟨0, start⟩ source.toList with
  | error f => rfl
  | ok all =>
    have hclose := close_takeAll { terminator } all
    refine hclose.trans ?_
    show (groupLexemes terminator [] all).map (Reading.append {}) = groupLexemes terminator [] all
    cases groupLexemes terminator [] all <;> rfl

/-! ### Characters in both modes -/

/-- All tokens so far. -/
def tokens : List Token := s.finished.tokens ++ s.current

/-- What reading characters depends on, and the tokens so far. -/
def view : Lexer.Mode × List Token := (s.mode, s.tokens)

@[simp] theorem endStatement_tokens : s.endStatement.tokens = s.tokens := by
  simp [tokens, endStatement, Reading.append, Reading.tokens]

theorem take_tokens (x : Lexeme) : (s.take x).tokens = s.tokens ++ x.token?.toList := by
  cases x with
  | token t =>
    rw [take]
    split
    · rw [endStatement_tokens]
      simp [tokens, Lexeme.token?]
    · simp [tokens, Lexeme.token?]
  | semicolon p =>
    rw [take]
    split
    · simp [tokens, Reading.append, Reading.tokens, Lexeme.token?]
    · rw [endStatement_tokens]
      simp [Lexeme.token?]

theorem takeAll_tokens (all : List Lexeme) :
    (s.takeAll all).tokens = s.tokens ++ all.flatMap (·.token?.toList) := by
  induction all generalizing s with
  | nil => simp
  | cons x rest ih => rw [takeAll_cons, ih, take_tokens, List.append_assoc, List.flatMap_cons]

/-- A character is read alike, however statements end. -/
theorem step_view {s s' : Scanner} (h : s.view = s'.view) (k : Cursor) (c : Char)
    (next : Option Char) : (s.step k c next).map view = (s'.step k c next).map view := by
  obtain ⟨hmode, htokens⟩ := Prod.mk.inj h
  rw [step, step, hmode]
  cases Lexer.step k c next s'.mode with
  | error f => rfl
  | ok found =>
    obtain ⟨now, mode⟩ := found
    have hnow : (s.takeAll now).tokens = (s'.takeAll now).tokens := by
      rw [takeAll_tokens, takeAll_tokens, htokens]
    exact congrArg (fun tokens => Except.ok (mode, tokens)) hnow

theorem bind_view {x x' : Except Fault Scanner} {f : Scanner → Except Fault Scanner}
    (h : x.map view = x'.map view)
    (hf : ∀ s s' : Scanner, s.view = s'.view → (f s).map view = (f s').map view) :
    (x >>= f).map view = (x' >>= f).map view := by
  cases x with
  | error e =>
    cases x' with
    | error e' =>
      cases h
      rfl
    | ok s' => cases h
  | ok s =>
    cases x' with
    | error e' => cases h
    | ok s' => exact hf s s' (Except.ok.inj h)

/-- Characters are read alike, however statements end: after any part of a text both machines are in
the same mode with the same tokens behind them, or both have met the same fault. -/
theorem after_view {s s' : Scanner} (h : s.view = s'.view) (k : Cursor) (text rest : List Char) :
    (s.after k text rest).map view = (s'.after k text rest).map view := by
  induction text generalizing s s' k with
  | nil => exact congrArg Except.ok h
  | cons c text ih =>
    exact bind_view (step_view h k c (text ++ rest).head?) fun _ _ hnext => ih hnext (k.advance c)

end Scanner

end Packwright
