import Mathlib.Data.List.Forall2
import Packwright.Session.Construct
import Packwright.Token.Statements

/-!
# Text further down in a file

Text may stand further down in a file, behind other lines. Its tokens are then the same ones, so many
bytes and lines later. What a token means depends on its text and on which token it touches, so it
means the same there; only places in messages tell the difference.

## Main definitions

- `Agrees`, `Carries` — one reader succeeds wherever another one does
- `Move` — how many bytes and lines further down a text stands
- `Token.moved`, `Statement.moved`, `Construct.moved` — tokens, statements, constructs further down

## Main results

- `Lexer.run_moved` — the lexemes of a text further down
- `Token.tokenizeInner_moved` — the statements inside a group further down
- `Statement.kind_moved`, `constructs_moved` — kinds and constructs stay the same
-/

namespace Packwright

/-! ### Readers that succeed together -/

section

variable {α β γ δ ε : Type}

/-- Where the first reader gives a value, the second one gives a related value. -/
def Agrees (R : α → β → Prop) (x : Except ε α) (y : Except ε β) : Prop :=
  ∀ a, x = .ok a → ∃ b, y = .ok b ∧ R a b

/-- Where the first reader gives a value, the second one gives what `f` makes of it. -/
abbrev Carries (f : α → β) (x : Except ε α) (y : Except ε β) : Prop := Agrees (fun a b => b = f a) x y

theorem agrees_ok {R : α → β → Prop} {a : α} {b : β} (h : R a b) :
    Agrees R (.ok a : Except ε α) (.ok b) := by
  rintro a' ⟨⟩
  exact ⟨b, rfl, h⟩

theorem agrees_error {R : α → β → Prop} {e : ε} {y : Except ε β} : Agrees R (.error e) y := by
  rintro a ⟨⟩

theorem agrees_ite {R : α → β → Prop} {p : Prop} [Decidable p] {x x' : Except ε α}
    {y y' : Except ε β} (h : p → Agrees R x y) (h' : ¬p → Agrees R x' y') :
    Agrees R (if p then x else x') (if p then y else y') := by
  by_cases hp : p
  · rw [if_pos hp, if_pos hp]
    exact h hp
  · rw [if_neg hp, if_neg hp]
    exact h' hp

/-- The value of the first reader is one that it gives. -/
theorem Agrees.and_ok {R : α → β → Prop} {x : Except ε α} {y : Except ε β} (h : Agrees R x y) :
    Agrees (fun a b => R a b ∧ x = .ok a) x y := by
  intro a ha
  obtain ⟨b, hb, hab⟩ := h a ha
  exact ⟨b, hb, hab, ha⟩

theorem Agrees.bind {R : α → β → Prop} {Q : γ → δ → Prop} {x : Except ε α} {y : Except ε β}
    {k : α → Except ε γ} {l : β → Except ε δ} (h : Agrees R x y)
    (hk : ∀ a b, R a b → Agrees Q (k a) (l b)) : Agrees Q (x >>= k) (y >>= l) := by
  cases x with
  | error e => exact agrees_error
  | ok a =>
    obtain ⟨b, rfl, hab⟩ := h a rfl
    exact hk a b hab

theorem Agrees.mapM {R : γ → δ → Prop} {k : α → Except ε γ} {l : α → Except ε δ}
    (h : ∀ a, Agrees R (k a) (l a)) (as : List α) :
    Agrees (List.Forall₂ R) (as.mapM k) (as.mapM l) := by
  induction as with
  | nil => exact agrees_ok .nil
  | cons a as ih =>
    rw [List.mapM_cons, List.mapM_cons]
    refine (h a).bind fun c d hcd => ih.bind fun cs ds hrest => ?_
    exact agrees_ok (.cons hcd hrest)

theorem carries_refl (x : Except ε α) : Carries id x x := fun a h => ⟨a, h, rfl⟩

theorem Carries.bind {f : α → β} {Q : γ → δ → Prop} {x : Except ε α} {y : Except ε β}
    {k : α → Except ε γ} {l : β → Except ε δ} (h : Carries f x y)
    (hk : ∀ a, Agrees Q (k a) (l (f a))) : Agrees Q (x >>= k) (y >>= l) := by
  refine Agrees.bind h ?_
  rintro a _ rfl
  exact hk a

theorem Carries.map {f : α → β} {g : γ → δ} {x : Except ε α} {y : Except ε β} {k : α → γ}
    {l : β → δ} (h : Carries f x y) (hk : ∀ a, l (f a) = g (k a)) :
    Carries g (x.map k) (y.map l) := by
  cases x with
  | error e => exact agrees_error
  | ok a =>
    obtain ⟨b, rfl, rfl⟩ := h a rfl
    exact agrees_ok (hk a)

theorem Carries.foldlM {f : α → β} {g : γ → δ} {k : γ → α → Except ε γ} {l : δ → β → Except ε δ}
    (h : ∀ c a, Carries g (k c a) (l (g c) (f a))) (as : List α) (c : γ) :
    Carries g (as.foldlM k c) ((as.map f).foldlM l (g c)) := by
  induction as generalizing c with
  | nil => exact agrees_ok rfl
  | cons a as ih =>
    rw [List.map_cons, List.foldlM_cons, List.foldlM_cons]
    exact (h c a).bind fun c' => ih c'

theorem Carries.forM {f : α → β} {k : α → Except ε PUnit} {l : β → Except ε PUnit}
    (h : ∀ a, Carries id (k a) (l (f a))) (as : List α) :
    Carries id (as.forM k) ((as.map f).forM l) := by
  induction as with
  | nil => exact agrees_ok rfl
  | cons a as ih =>
    rw [List.map_cons, List.forM_eq_forM, List.forM_eq_forM, List.forM_cons, List.forM_cons]
    exact (h a).bind fun _ => ih

end

/-! ### Moves -/

/-- How many bytes and lines further down a text stands. -/
structure Move where
  bytes : Nat
  lines : UInt32
  deriving DecidableEq, Repr

namespace Move

/-- No move at all. -/
def none : Move := ⟨0, 0⟩

/-- The move of what stands inside a group: the bytes are counted from the start of the group. -/
def inside (v : Move) : Move := ⟨0, v.lines⟩

end Move

/-- The position so many lines further down. -/
def Position.down (lines : UInt32) (p : Position) : Position := ⟨p.line + lines, p.column⟩

theorem Position.advance_down (lines : UInt32) (p : Position) (c : Char) :
    (p.down lines).advance c = (p.advance c).down lines := by
  unfold Position.advance
  split
  · simp only [Position.down, UInt32.add_assoc, UInt32.add_comm lines]
  · rfl

def Span.moved (v : Move) (s : Span) : Span :=
  ⟨s.start + v.bytes, s.stop + v.bytes, s.position.down v.lines⟩

theorem Span.touches_moved (v : Move) (a b : Span) :
    (a.moved v).touches (b.moved v) = a.touches b := by
  rw [Bool.eq_iff_iff]
  simp [Span.touches, Span.moved]

/-- The token further down. -/
def Token.moved (v : Move) (t : Token) : Token := { t with span := t.span.moved v }

/-- The statement further down. -/
def Statement.moved (v : Move) (s : Statement) : Statement := ⟨s.tokens.map (Token.moved v)⟩

/-- The construct further down. -/
def Construct.moved (v : Move) : Construct → Construct
  | .chain first elses => .chain (first.moved v) (elses.map (Statement.moved v))
  | .doWhile first tail => .doWhile (first.moved v) (tail.map (Statement.moved v))
  | .single s => .single (s.moved v)

/-! ### Tokens -/

namespace Token

variable (v : Move) (t : Token)

@[simp] theorem kind_moved : (t.moved v).kind = t.kind := rfl

@[simp] theorem text_moved : (t.moved v).text = t.text := rfl

@[simp] theorem word?_moved : (t.moved v).word? = t.word? := rfl

@[simp] theorem isWord_moved (w : String) : (t.moved v).isWord w = t.isWord w := rfl

@[simp] theorem isGroup_moved (b : Bracket) : (t.moved v).isGroup b = t.isGroup b := rfl

@[simp] theorem inner?_moved : (t.moved v).inner? = t.inner? := rfl

@[simp] theorem adjacent_moved (next : Token) :
    (t.moved v).adjacent (next.moved v) = t.adjacent next :=
  Span.touches_moved v _ _

/-- Both halves of a word are moved with it. -/
@[simp] theorem splitAt?_moved (n : Nat) :
    (t.moved v).splitAt? n = (t.splitAt? n).map fun (a, b) => (a.moved v, b.moved v) := by
  unfold Token.splitAt?
  simp only [kind_moved, text_moved]
  split
  · next c head d tail hkind hsplit =>
    simp only [Option.map_some, Token.moved, Span.moved, Token.position, Nat.add_right_comm]
    rfl
  · rfl

@[simp] theorem tailFrom_moved (n : Nat) :
    (t.moved v).tailFrom n = (t.tailFrom n).map (Token.moved v) := by
  unfold Token.tailFrom
  rw [splitAt?_moved]
  cases t.splitAt? n <;> rfl

theorem moved_none : t.moved .none = t := by
  obtain ⟨kind, ⟨start, stop, ⟨line, column⟩⟩, text⟩ := t
  simp [Token.moved, Span.moved, Position.down, Move.none]

end Token

theorem Token.moved_none_eq_id : Token.moved .none = id := funext Token.moved_none

theorem Statement.moved_none : Statement.moved .none = id := by
  funext s
  simp [Statement.moved, Token.moved_none_eq_id]

theorem Construct.moved_none (c : Construct) : c.moved .none = c := by
  cases c <;> simp [Construct.moved, Statement.moved_none]

/-- Joined texts depend only on the tokens and on which of them touch. -/
theorem joinBy_moved (v : Move) {text : Token → List Char}
    (htext : ∀ t : Token, text (t.moved v) = text t) (tokens : List Token) :
    joinBy text (tokens.map (Token.moved v)) = joinBy text tokens := by
  induction tokens with
  | nil => rfl
  | cons t rest ih =>
    cases rest with
    | nil => exact htext t
    | cons next rest =>
      simp only [List.map_cons, joinBy, htext, Token.adjacent_moved]
      rw [← List.map_cons, ih]

@[simp] theorem joinTokens_moved (v : Move) (tokens : List Token) :
    joinTokens (tokens.map (Token.moved v)) = joinTokens tokens := by
  rw [joinTokens, joinBy_moved v fun t => rfl, joinTokens]

/-! ### The lexer -/

/-- The cursor further down. -/
def Cursor.moved (v : Move) (k : Cursor) : Cursor := ⟨k.offset + v.bytes, k.position.down v.lines⟩

theorem Cursor.advance_moved (v : Move) (k : Cursor) (c : Char) :
    (k.moved v).advance c = (k.advance c).moved v := by
  simp only [Cursor.advance, Cursor.moved, Position.advance_down, Nat.add_right_comm]

def Lexeme.moved (v : Move) : Lexeme → Lexeme
  | .token t => .token (t.moved v)
  | .semicolon p => .semicolon (p.down v.lines)

/-- Inside brackets only faults depend on the place. -/
theorem Nest.step_carries (n : Nest) (p q : Position) (c : Char) :
    Carries id (n.step p c) (n.step q c) := by
  unfold Nest.step
  repeat' split
  all_goals first | exact agrees_ok rfl | exact agrees_error

namespace Lexer

def Mode.moved (v : Move) : Mode → Mode
  | .word start text nest => .word (start.moved v) text nest
  | .string start text escaped => .string (start.moved v) text escaped
  | .group start bracket text nest => .group (start.moved v) bracket text nest
  | mode => mode

/-- Lexemes and the mode behind them, further down. -/
def movedStep (v : Move) (r : List Lexeme × Mode) : List Lexeme × Mode :=
  (r.1.map (Lexeme.moved v), r.2.moved v)

theorem finished_moved (v : Move) (kind : TokenKind) (start : Cursor) (stop : Nat)
    (text : List Char) :
    finished kind (start.moved v) (stop + v.bytes) text = (finished kind start stop text).moved v :=
  rfl

theorem seek_moved (v : Move) (before : List Lexeme) (k : Cursor) (c : Char) (next : Option Char) :
    Carries (movedStep v) (seek before k c next)
      (seek (before.map (Lexeme.moved v)) (k.moved v) c next) := by
  unfold seek
  apply agrees_ite
  · exact fun _ => agrees_ok rfl
  refine fun _ => agrees_ite ?semicolon fun _ => ?_
  case semicolon =>
    exact fun _ => agrees_ok (by simp [movedStep, Lexeme.moved, Mode.moved, Cursor.moved])
  apply agrees_ite
  · exact fun _ => agrees_ok rfl
  refine fun _ => agrees_ite ?comma fun _ => ?_
  case comma =>
    refine fun _ => agrees_ok ?_
    simp only [movedStep, List.map_append, List.map_singleton, Lexeme.moved, ← finished_moved,
      Cursor.moved, Nat.add_right_comm]
    rfl
  apply agrees_ite
  · exact fun _ => agrees_ok rfl
  refine fun _ => agrees_ite ?doubled fun _ => ?_
  case doubled =>
    refine fun _ => agrees_ok ?_
    simp only [movedStep, List.map_append, List.map_singleton, Lexeme.moved, wordToken,
      ← finished_moved, Cursor.moved, Nat.add_right_comm]
    rfl
  apply agrees_ite
  · exact fun _ => agrees_error
  intro _
  cases Bracket.ofOpening? c <;> exact agrees_ok rfl

/-- Each character is read further down as it is read here. -/
theorem step_moved (v : Move) (k : Cursor) (c : Char) (next : Option Char) (mode : Mode) :
    Carries (movedStep v) (step k c next mode) (step (k.moved v) c next (mode.moved v)) := by
  cases mode with
  | seeking =>
    show Carries _ (if c = '#' && k.position.column = 1 then _ else _)
      (if c = '#' && k.position.column = 1 then _ else _)
    split
    · exact agrees_ok rfl
    · exact seek_moved v [] k c next
  | comment =>
    show Carries _ (.ok ([], if c = '\n' then _ else _)) (.ok ([], if c = '\n' then _ else _))
    split <;> exact agrees_ok rfl
  | doubled => exact agrees_ok rfl
  | word start text nest =>
    simp only [step, Mode.moved]
    split
    · exact (nest.step_carries _ _ c).bind fun nest' => agrees_ok rfl
    split
    · exact agrees_ok rfl
    split
    · exact agrees_ok rfl
    · exact seek_moved v [wordToken start k.offset text] k c next
  | string start text escaped =>
    simp only [step, Mode.moved]
    split
    · exact agrees_ok rfl
    split
    · exact agrees_ok rfl
    split
    · exact agrees_error
    split
    · refine agrees_ok ?_
      simp only [movedStep, List.map_singleton, Lexeme.moved, stringToken, ← finished_moved,
        Cursor.moved, Nat.add_right_comm]
      rfl
    · exact agrees_ok rfl
  | group start bracket text nest =>
    refine (nest.step_carries _ _ c).bind fun nest' => ?_
    show Carries _ (if nest'.closed then _ else _) (if nest'.closed then _ else _)
    split
    · refine agrees_ok ?_
      simp only [movedStep, List.map_singleton, Lexeme.moved, ← finished_moved, Cursor.moved,
        Nat.add_right_comm]
      rfl
    · exact agrees_ok rfl

theorem finish_moved (v : Move) (k : Cursor) (mode : Mode) :
    Carries (List.map (Lexeme.moved v)) (finish k mode) (finish (k.moved v) (mode.moved v)) := by
  cases mode with
  | word start text nest =>
    show Carries _ (if nest.closed then _ else _) (if nest.closed then _ else _)
    split
    · exact agrees_ok rfl
    · exact agrees_error
  | seeking | comment | doubled => exact agrees_ok rfl
  | string | group => exact agrees_error

/-- The lexemes of a text further down. -/
theorem run_moved (v : Move) (mode : Mode) (k : Cursor) (cs : List Char) :
    Carries (List.map (Lexeme.moved v)) (run mode k cs) (run (mode.moved v) (k.moved v) cs) := by
  induction cs generalizing mode k with
  | nil => exact finish_moved v k mode
  | cons c rest ih =>
    refine (step_moved v k c rest.head? mode).bind fun (now, mode') => ?_
    rw [Cursor.advance_moved]
    exact (ih mode' (k.advance c)).bind fun later => agrees_ok (List.map_append ..).symm

end Lexer

theorem lexemes_moved (lines : UInt32) (start : Position) (source : List Char) :
    Carries (List.map (Lexeme.moved ⟨0, lines⟩)) (lexemes start source)
      (lexemes (start.down lines) source) :=
  Lexer.run_moved ⟨0, lines⟩ .seeking ⟨0, start⟩ source

/-! ### Statements -/

theorem isBlockKeyword_moved (v : Move) (t : Token) : isBlockKeyword (t.moved v) = isBlockKeyword t :=
  rfl

theorem opensBlock_moved (v : Move) (tokens : List Token) :
    opensBlock (tokens.map (Token.moved v)) = opensBlock tokens := by
  cases tokens with
  | nil => rfl
  | cons first rest =>
    simp only [List.map_cons, opensBlock, Token.isWord_moved, isBlockKeyword_moved, List.any_map,
      Function.comp_def]

theorem endsAtBrace_moved (v : Move) (terminator : Terminator) (tokens : List Token) :
    endsAtBrace terminator (tokens.map (Token.moved v)) = endsAtBrace terminator tokens := by
  simp only [endsAtBrace, opensBlock_moved, List.getLast?_map, Option.map_map, Function.comp_def,
    Token.isGroup_moved]

/-- The warning, so many lines further down. -/
def Warning.down (lines : UInt32) (w : Warning) : Warning :=
  { w with location := w.location.map fun l => { l with line := l.line + lines } }

def Reading.moved (v : Move) (r : Reading) : Reading :=
  ⟨r.statements.map (Statement.moved v), r.warnings.map (Warning.down v.lines)⟩

/-- Statements are grouped further down as they are here. -/
theorem groupLexemes_moved (v : Move) (terminator : Terminator) (ls : List Lexeme)
    (current : List Token) :
    Carries (Reading.moved v) (groupLexemes terminator current ls)
      (groupLexemes terminator (current.map (Token.moved v)) (ls.map (Lexeme.moved v))) := by
  induction ls generalizing current with
  | nil =>
    simp only [List.map_nil, groupLexemes, List.getLast?_map]
    cases current.getLast? with
    | none => exact agrees_ok rfl
    | some last =>
      cases terminator with
      | required => exact agrees_error
      | optional => exact agrees_ok rfl
  | cons l rest ih =>
    cases l with
    | token t =>
      have hbehind : current.map (Token.moved v) ++ [t.moved v] =
          (current ++ [t]).map (Token.moved v) := by simp
      simp only [List.map_cons, Lexeme.moved, groupLexemes, hbehind, endsAtBrace_moved]
      split
      · exact (ih []).map fun r => rfl
      · exact ih (current ++ [t])
    | semicolon p =>
      simp only [List.map_cons, Lexeme.moved, groupLexemes, List.isEmpty_map]
      split
      · exact (ih []).map fun r => rfl
      · exact (ih []).map fun r => rfl

theorem tokenize_moved (lines : UInt32) (terminator : Terminator) (start : Position)
    (source : String) :
    Carries (Reading.moved ⟨0, lines⟩) (tokenize terminator start source)
      (tokenize terminator (start.down lines) source) :=
  (lexemes_moved lines start source.toList).bind fun ls => groupLexemes_moved _ terminator ls []

/-- The statements inside a group further down. -/
theorem Token.tokenizeInner_moved (v : Move) (terminator : Terminator) (t : Token) :
    Carries (Reading.moved v.inside) (t.tokenizeInner terminator)
      ((t.moved v).tokenizeInner terminator) := by
  unfold Token.tokenizeInner
  rw [inner?_moved]
  split
  · exact tokenize_moved v.lines terminator _ _
  · exact agrees_error

/-! ### Kinds and constructs -/

theorem isCallShape_moved (v : Move) (tokens : List Token) :
    isCallShape (tokens.map (Token.moved v)) = isCallShape tokens := by
  match tokens with
  | [] | [_] | _ :: _ :: _ :: _ => rfl
  | [name, group] => simp only [List.map_cons, List.map_nil, isCallShape, Token.isGroup_moved,
      Token.adjacent_moved, Token.word?_moved]

@[simp] theorem Statement.kind_moved (v : Move) (s : Statement) : (s.moved v).kind = s.kind := by
  have hkeyword : (s.moved v).keyword? = s.keyword? := by
    simp only [Statement.keyword?, Statement.moved, List.head?_map, Option.bind_map]
    rfl
  unfold Statement.kind
  rw [hkeyword, Statement.moved, isCallShape_moved]

theorem addStatement_moved (v : Move) (s : Statement) (elses : List Statement)
    (rest : List Construct) :
    addStatement (s.moved v) (elses.map (Statement.moved v)) (rest.map (Construct.moved v)) =
      (addStatement s elses rest).map (Construct.moved v) := by
  have hsingles : (elses.map (Statement.moved v)).map Construct.single =
      (elses.map Construct.single).map (Construct.moved v) := by
    rw [List.map_map, List.map_map]
    rfl
  unfold addStatement
  rw [Statement.kind_moved, hsingles]
  split
  · rfl
  · -- a `do` looks at the construct behind it
    match elses, rest with
    | [], .single w :: rest' =>
      simp only [List.map_cons, List.map_nil, Construct.moved, Statement.kind_moved]
      split <;> rfl
    | [], [] | [], .chain .. :: _ | [], .doWhile .. :: _ => rfl
    | _ :: _, _ => simp only [List.map_cons, List.map_append, Construct.moved, Option.map_none]
  · simp only [List.map_cons, List.map_append, Construct.moved]

theorem splitElses_moved (v : Move) (statements : List Statement) :
    splitElses (statements.map (Statement.moved v)) =
      ((splitElses statements).1.map (Statement.moved v),
        (splitElses statements).2.map (Construct.moved v)) := by
  induction statements with
  | nil => rfl
  | cons s rest ih =>
    simp only [List.map_cons, splitElses, ih, Statement.kind_moved]
    split
    · rfl
    · rw [addStatement_moved]
      rfl

/-- Statements belong together further down as they do here. -/
theorem constructs_moved (v : Move) (statements : List Statement) :
    constructs (statements.map (Statement.moved v)) =
      (constructs statements).map (Construct.moved v) := by
  simp only [constructs, splitElses_moved, List.map_append, List.map_map]
  rfl

end Packwright
