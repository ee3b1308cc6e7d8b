import Packwright.Proofs.Token.Tiling

/-!
# Balanced text

A text is balanced when its brackets are closed by their own kind and its string literals end on
their lines. The same rules for brackets and strings hold between tokens, inside a bracket group and
inside the selector of a word: in all three the lexer follows one machine, `Nest.step`, whose
accepted texts are the balanced ones.

## Main definitions

- `Quoted`, `Balanced`, `GroupText` — the inside of a string, balanced text, a bracket group
- `CommentFree` — a text in which no comment can begin
- `Nest.read` — a whole text inside brackets
- `Lexer.Mode.nest` — the open brackets and the open string of the lexer

## Main results

- `Nest.read_eq_some_iff` — the machine accepts exactly balanced text
- `Lexer.step_follows`, `Lexer.run_follows` — the lexer follows the machine
- `Lexer.step_groups`, `Lexer.run_groups` — what is emitted as a group is one
- `tokenize_accepts_balanced` — exactly balanced texts have tokens
-/

namespace Packwright

/-! ### The grammar -/

/-- What stands between the quotes of a string literal: escapes, and characters that are neither
quotes nor line feeds. -/
inductive Quoted : List Char → Prop
  | nil : Quoted []
  | plain {c : Char} {rest : List Char} (hquote : c ≠ '"') (hslash : c ≠ '\\') (hline : c ≠ '\n')
    (h : Quoted rest) : Quoted (c :: rest)
  | escape (c : Char) {rest : List Char} (h : Quoted rest) : Quoted ('\\' :: c :: rest)

/-- Text with string literals and bracket groups that are closed. -/
inductive Balanced : List Char → Prop
  | nil : Balanced []
  | char {c : Char} {rest : List Char} (hquote : c ≠ '"')
    (hbracket : ∀ b : Bracket, c ≠ b.opening ∧ c ≠ b.closing) (h : Balanced rest) :
    Balanced (c :: rest)
  | string {body rest : List Char} (hbody : Quoted body) (h : Balanced rest) :
    Balanced ('"' :: (body ++ '"' :: rest))
  | group (b : Bracket) {inner rest : List Char} (hinner : Balanced inner) (h : Balanced rest) :
    Balanced (b.opening :: (inner ++ b.closing :: rest))

/-- A bracket group: balanced text between two brackets of one kind. -/
def GroupText (b : Bracket) (text : List Char) : Prop :=
  ∃ inner, Balanced inner ∧ text = b.opening :: (inner ++ [b.closing])

/-- No comment can begin in the text. -/
structure CommentFree (cs : List Char) : Prop where
  slashes : ¬['/', '/'] <:+: cs
  numberSign : '#' ∉ cs

theorem CommentFree.tail {c : Char} {rest : List Char} (h : CommentFree (c :: rest)) :
    CommentFree rest :=
  ⟨fun hslashes => h.slashes (hslashes.trans (List.suffix_cons c rest).isInfix),
    fun hsign => h.numberSign (List.mem_cons_of_mem c hsign)⟩

namespace Bracket

theorem opening_injective : Function.Injective opening := by
  intro a b h
  have h' := congrArg ofOpening? h
  rw [ofOpening?_opening, ofOpening?_opening] at h'
  exact Option.some.inj h'

@[simp] theorem opening_ne_quote (b : Bracket) : b.opening ≠ '"' := by cases b <;> decide

@[simp] theorem closing_ne_quote (b : Bracket) : b.closing ≠ '"' := by cases b <;> decide

@[simp] theorem ofOpening?_closing (b : Bracket) : ofOpening? b.closing = none := by cases b <;> rfl

end Bracket

/-! ### The machine -/

namespace Nest

variable {n m : Nest} {p : Position} {c : Char} {opened : List Bracket}

/-- Brackets are open and no string is. -/
def within (opened : List Bracket) : Nest := ⟨opened, false, false⟩

/-- A string is open inside brackets. -/
def quoting (opened : List Bracket) (escaped : Bool) : Nest := ⟨opened, true, escaped⟩

theorem step_char (hquote : c ≠ '"') (hbracket : ∀ b : Bracket, c ≠ b.opening ∧ c ≠ b.closing) :
    (within opened).step p c = .ok (within opened) := by
  obtain ⟨hopening, hclosing⟩ := Bracket.not_bracket_iff.mp hbracket
  simp [step, within, hquote, hopening, hclosing]

theorem step_quote : (within opened).step p '"' = .ok (quoting opened false) := rfl

theorem step_opening (b : Bracket) :
    (within opened).step p b.opening = .ok (within (b :: opened)) := by
  simp [step, within]

theorem step_closing (b : Bracket) :
    (within (b :: opened)).step p b.closing = .ok (within opened) := by
  simp [step, within]

/-- Where a character leads outside of strings. -/
theorem step_within (h : (within opened).step p c = .ok m) :
    (c ≠ '"' ∧ (∀ b : Bracket, c ≠ b.opening ∧ c ≠ b.closing) ∧ m = within opened) ∨
      (c = '"' ∧ m = quoting opened false) ∨
      (∃ b, c = b.opening ∧ m = within (b :: opened)) ∨
      ∃ b rest, opened = b :: rest ∧ c = b.closing ∧ m = within rest := by
  simp only [step, within, Bool.false_eq_true, if_false] at h
  split at h
  · next hc => exact .inr (.inl ⟨hc, (Except.ok.inj h).symm⟩)
  next hquote =>
  split at h
  · next b hb =>
    exact .inr (.inr (.inl ⟨b, Bracket.ofOpening?_eq_some hb, (Except.ok.inj h).symm⟩))
  next hopening =>
  split at h
  · split at h
    · cases h
    · next b rest =>
      split at h
      · next hc => exact .inr (.inr (.inr ⟨b, rest, rfl, hc.symm, (Except.ok.inj h).symm⟩))
      · cases h
  · next hclosing =>
    refine .inl ⟨hquote, Bracket.not_bracket_iff.mpr ⟨hopening, ?_⟩, (Except.ok.inj h).symm⟩
    simpa using hclosing

/-- Where a character leads inside a string. -/
theorem step_quoting {escaped : Bool} (h : (quoting opened escaped).step p c = .ok m) :
    (escaped = true ∧ m = quoting opened false) ∨
      (escaped = false ∧ c = '\\' ∧ m = quoting opened true) ∨
      (escaped = false ∧ c = '"' ∧ m = within opened) ∨
      (escaped = false ∧ c ≠ '"' ∧ c ≠ '\\' ∧ c ≠ '\n' ∧ m = quoting opened false) := by
  cases escaped with
  | true => exact .inl ⟨rfl, (Except.ok.inj h).symm⟩
  | false =>
  simp only [step, quoting, if_true, Bool.false_eq_true, if_false] at h
  split at h
  · next hc => exact .inr (.inl ⟨rfl, hc, (Except.ok.inj h).symm⟩)
  next hslash =>
  split at h
  · next hc => exact .inr (.inr (.inl ⟨rfl, hc, (Except.ok.inj h).symm⟩))
  next hquote =>
  split at h
  · cases h
  · next hline => exact .inr (.inr (.inr ⟨rfl, hquote, hslash, hline, (Except.ok.inj h).symm⟩))

/-- The position matters only for the place of a fault. -/
theorem step_ok (h : n.step p c = .ok m) (q : Position) : n.step q c = .ok m := by
  unfold step at h ⊢
  repeat' split at h
  all_goals simp_all

/-- Reads a whole text inside brackets. -/
def read (n : Nest) : List Char → Option Nest
  | [] => some n
  | c :: rest =>
    match n.step Position.start c with
    | .ok m => m.read rest
    | .error _ => none

theorem read_cons (h : n.step p c = .ok m) (rest : List Char) : n.read (c :: rest) = m.read rest := by
  rw [read, step_ok h Position.start]

theorem read_append (xs ys : List Char) : n.read (xs ++ ys) = (n.read xs).bind (·.read ys) := by
  induction xs generalizing n with
  | nil => rfl
  | cons c xs ih =>
    rw [List.cons_append, read, read]
    split
    · exact ih
    · rfl

theorem read_concat {cs : List Char} (hread : n.read cs = some m) {m' : Nest}
    (h : m.step p c = .ok m') : n.read (cs ++ [c]) = some m' := by
  rw [read_append, hread, Option.bind_some, read_cons h]
  rfl

end Nest

/-! ### The machine accepts balanced text -/

theorem Quoted.read {body : List Char} (h : Quoted body) (opened : List Bracket) :
    (Nest.quoting opened false).read body = some (.quoting opened false) := by
  induction h with
  | nil => rfl
  | @plain c rest hquote hslash hline _ ih =>
    have hstep : (Nest.quoting opened false).step .start c = .ok (.quoting opened false) := by
      simp [Nest.step, Nest.quoting, hquote, hslash, hline]
    rw [Nest.read_cons hstep, ih]
  | escape c _ ih => exact ih

/-- Balanced text leads back to where it began. -/
theorem Balanced.read {cs : List Char} (h : Balanced cs) (opened : List Bracket) :
    (Nest.within opened).read cs = some (.within opened) := by
  induction h generalizing opened with
  | nil => rfl
  | char hquote hbracket _ ih =>
    rw [Nest.read_cons (p := .start) (Nest.step_char hquote hbracket), ih]
  | string hbody _ ih =>
    rw [Nest.read_cons (p := .start) Nest.step_quote, Nest.read_append, hbody.read]
    exact ih opened
  | group b _ _ ihinner ih =>
    rw [Nest.read_cons (p := .start) (Nest.step_opening b), Nest.read_append, ihinner,
      Option.bind_some, Nest.read_cons (p := .start) (Nest.step_closing b), ih]

/-- The text closes the brackets, innermost first, and is balanced between and behind them. -/
def Closes : List Bracket → List Char → Prop
  | [], cs => Balanced cs
  | b :: opened, cs => ∃ inner rest, cs = inner ++ b.closing :: rest ∧ Balanced inner ∧
      Closes opened rest

namespace Closes

variable {opened : List Bracket} {cs : List Char}

/-- What may stand in front of any balanced text may stand in front of a text that closes. -/
theorem prepend (front : List Char) (hfront : ∀ rest, Balanced rest → Balanced (front ++ rest))
    (h : Closes opened cs) : Closes opened (front ++ cs) := by
  cases opened with
  | nil => exact hfront cs h
  | cons b opened =>
    obtain ⟨inner, rest, rfl, hinner, hrest⟩ := h
    exact ⟨front ++ inner, rest, (List.append_assoc ..).symm, hfront inner hinner, hrest⟩

theorem opening {b : Bracket} (h : Closes (b :: opened) cs) : Closes opened (b.opening :: cs) := by
  obtain ⟨inner, rest, rfl, hinner, hrest⟩ := h
  have hgroup := hrest.prepend (b.opening :: (inner ++ [b.closing])) fun later hlater => by
    simpa using Balanced.group b hinner hlater
  simpa using hgroup

theorem closing (b : Bracket) (h : Closes opened cs) : Closes (b :: opened) (b.closing :: cs) :=
  ⟨[], cs, rfl, .nil, h⟩

end Closes

/-- What the machine accepts closes the brackets it began with; in a string it first ends that. -/
theorem closes_of_read (cs : List Char) :
    (∀ opened, (Nest.within opened).read cs = some (.within []) → Closes opened cs) ∧
      ∀ opened, ((Nest.quoting opened false).read cs = some (.within []) →
          ∃ body rest, cs = body ++ '"' :: rest ∧ Quoted body ∧ Closes opened rest) ∧
        ((Nest.quoting opened true).read cs = some (.within []) →
          ∃ c body rest, cs = c :: (body ++ '"' :: rest) ∧ Quoted body ∧ Closes opened rest) := by
  induction cs with
  | nil =>
    refine ⟨fun opened h => ?_, fun opened => ⟨fun h => ?_, fun h => ?_⟩⟩
    · obtain rfl : opened = [] := congrArg Nest.opened (Option.some.inj h)
      exact Balanced.nil
    · exact absurd (congrArg Nest.quoted (Option.some.inj h)).symm Bool.false_ne_true
    · exact absurd (congrArg Nest.quoted (Option.some.inj h)).symm Bool.false_ne_true
  | cons c cs ih =>
    obtain ⟨ihwithin, ihquoting⟩ := ih
    refine ⟨fun opened h => ?_, fun opened => ⟨fun h => ?_, fun h => ?_⟩⟩
    · rw [Nest.read] at h
      split at h
      · next m hstep =>
        rcases Nest.step_within hstep with ⟨hquote, hbracket, rfl⟩ | ⟨rfl, rfl⟩ | ⟨b, rfl, rfl⟩ |
          ⟨b, rest, rfl, rfl, rfl⟩
        · exact (ihwithin opened h).prepend [c] fun _ => .char hquote hbracket
        · obtain ⟨body, rest, rfl, hbody, hrest⟩ := (ihquoting opened).1 h
          have hstring := hrest.prepend ('"' :: (body ++ ['"'])) fun later hlater => by
            simpa using Balanced.string hbody hlater
          simpa using hstring
        · exact (ihwithin (b :: opened) h).opening
        · exact (ihwithin rest h).closing b
      · cases h
    · rw [Nest.read] at h
      split at h
      · next m hstep =>
        rcases Nest.step_quoting hstep with ⟨he, -⟩ | ⟨-, rfl, rfl⟩ | ⟨-, rfl, rfl⟩ |
          ⟨-, hquote, hslash, hline, rfl⟩
        · cases he
        · obtain ⟨d, body, rest, rfl, hbody, hrest⟩ := (ihquoting opened).2 h
          exact ⟨'\\' :: d :: body, rest, rfl, .escape d hbody, hrest⟩
        · exact ⟨[], cs, rfl, .nil, ihwithin opened h⟩
        · obtain ⟨body, rest, rfl, hbody, hrest⟩ := (ihquoting opened).1 h
          exact ⟨c :: body, rest, rfl, .plain hquote hslash hline hbody, hrest⟩
      · cases h
    · obtain ⟨body, rest, rfl, hbody, hrest⟩ := (ihquoting opened).1 h
      exact ⟨c, body, rest, rfl, hbody, hrest⟩

/-- The machine accepts exactly balanced text. -/
theorem Nest.read_eq_some_iff {cs : List Char} :
    (Nest.within []).read cs = some (.within []) ↔ Balanced cs :=
  ⟨(closes_of_read cs).1 [], fun h => h.read []⟩

/-! ### The lexer follows the machine -/

/-- No string is escaped that is not open, and none is open outside of brackets. -/
structure Nest.Proper (n : Nest) : Prop where
  escaped : n.quoted = false → n.escaped = false
  closed : n.opened = [] → n = .within []

theorem Nest.proper_within (opened : List Bracket) : (Nest.within opened).Proper :=
  ⟨fun _ => rfl, fun h => by rw [show opened = [] from h]⟩

/-- A proper machine is inside a string, or it is not. -/
theorem Nest.Proper.cases {n : Nest} (h : n.Proper) :
    n = .within n.opened ∨ n = .quoting n.opened n.escaped := by
  obtain ⟨opened, quoted, escaped⟩ := n
  cases quoted with
  | false => exact .inl (by rw [show escaped = false from h.escaped rfl]; rfl)
  | true => exact .inr rfl

/-- Inside brackets the machine stays proper. -/
theorem Nest.Proper.step {n m : Nest} {p : Position} {c : Char} (hn : n.Proper)
    (hopen : n.opened ≠ []) (h : n.step p c = .ok m) : m.Proper := by
  have hquoting : ∀ escaped, (Nest.quoting n.opened escaped).Proper :=
    fun escaped => ⟨fun hquoted => (by cases hquoted), fun hclosed => absurd hclosed hopen⟩
  rcases hn.cases with heq | heq
  · rw [heq] at h
    rcases Nest.step_within h with ⟨-, -, rfl⟩ | ⟨-, rfl⟩ | ⟨b, -, rfl⟩ | ⟨b, rest, -, -, rfl⟩
    · exact Nest.proper_within _
    · exact hquoting _
    · exact Nest.proper_within _
    · exact Nest.proper_within _
  · rw [heq] at h
    rcases Nest.step_quoting h with ⟨-, rfl⟩ | ⟨-, -, rfl⟩ | ⟨-, -, rfl⟩ | ⟨-, -, -, -, rfl⟩
    · exact hquoting _
    · exact hquoting _
    · exact Nest.proper_within _
    · exact hquoting _

namespace Lexer

variable {mode mode' : Mode} {k : Cursor} {c : Char} {rest : List Char} {now : List Lexeme}

/-- The open brackets and the open string. -/
def Mode.nest : Mode → Nest
  | .seeking | .comment | .doubled => .within []
  | .word _ _ nest | .group _ _ _ nest => nest
  | .string _ _ escaped => .quoting [] escaped

/-- The mode can be reached in front of the text when there are no comments. -/
def Mode.Fits (mode : Mode) (rest : List Char) : Prop :=
  match mode with
  | .seeking | .string .. => True
  | .comment => False
  | .doubled => ∃ c later, rest = c :: later ∧ (c = '&' ∨ c = '|')
  | .word _ _ nest => nest.Proper
  | .group _ _ _ nest => nest.Proper ∧ nest.opened ≠ []

/-- The lexer and the machine agree on a character: both go on, or the fault is one of syntax. -/
def Follows (n : Nest) (c : Char) (rest : List Char) : Except Fault (List Lexeme × Mode) → Prop
  | .ok (_, mode) => mode.Fits rest ∧ n.step Position.start c = .ok mode.nest
  | .error f => f.kind = .syntactic ∧ ∃ f', n.step Position.start c = .error f'

/-- A blank is no bracket and no quote. -/
theorem isBlank_plain (h : Text.isBlank c = true) :
    c ≠ '"' ∧ ∀ b : Bracket, c ≠ b.opening ∧ c ≠ b.closing := by
  refine ⟨?_, fun b => ⟨?_, ?_⟩⟩
  · rintro rfl
    exact absurd h (by decide)
  · rintro rfl
    cases b <;> exact absurd h (by decide)
  · rintro rfl
    cases b <;> exact absurd h (by decide)

theorem SeekRule.follows {before : List Lexeme} {result : Except Fault (List Lexeme × Mode)}
    (h : SeekRule before k c rest.head? result) (hcode : ∀ now, result ≠ .ok (now, .comment)) :
    Follows (.within []) c rest result := by
  cases h with
  | blank hc =>
    obtain ⟨hquote, hbracket⟩ := isBlank_plain hc
    exact ⟨trivial, Nest.step_char hquote hbracket⟩
  | semicolon hc | quote hc | comma hc =>
    subst hc
    exact ⟨trivial, rfl⟩
  | slashes => exact absurd rfl (hcode _)
  | doubled hc hnext =>
    obtain ⟨later, rfl⟩ := List.head?_eq_some_iff.mp hnext
    refine ⟨⟨c, later, rfl, hc⟩, ?_⟩
    rcases hc with rfl | rfl <;> rfl
  | stray b hc =>
    subst hc
    exact ⟨rfl, _, by simp [Nest.step, Nest.within]; rfl⟩
  | opening b hc =>
    subst hc
    exact ⟨⟨Nest.proper_within _, by simp⟩, Nest.step_opening b⟩
  | letter hquote hbracket => exact ⟨Nest.proper_within [], Nest.step_char hquote hbracket⟩

/-- A fault inside brackets is one of syntax, wherever it is. -/
theorem nest_fault {n : Nest} {p : Position} {f : Fault} (h : n.step p c = .error f) :
    f.kind = .syntactic ∧ ∃ f', n.step Position.start c = .error f' := by
  constructor
  · unfold Nest.step at h
    grind [Fault.located, Fault.kind, Cause.kind]
  · rcases h' : n.step Position.start c with f' | m
    · exact ⟨f', rfl⟩
    · rw [Nest.step_ok h' p] at h
      cases h

/-- The lexer follows the machine through one character that does not begin a comment. -/
theorem step_follows (k : Cursor) (hfits : mode.Fits (c :: rest))
    (hcode : ∀ now, step k c rest.head? mode ≠ .ok (now, .comment)) :
    Follows mode.nest c rest (step k c rest.head? mode) := by
  have hrule := step_rule k c rest.head? mode
  generalize step k c rest.head? mode = result at hrule hcode ⊢
  cases hrule with
  | numberSign => exact absurd rfl (hcode _)
  | sought hseek => exact hseek.follows hcode
  | lineEnd | comment => exact hfits.elim
  | doubled =>
    obtain ⟨d, later, heq, hd⟩ := hfits
    obtain ⟨rfl, rfl⟩ := List.cons.inj heq
    refine ⟨trivial, ?_⟩
    rcases hd with rfl | rfl <;> rfl
  | selector hopen h => exact ⟨Nest.Proper.step hfits hopen h, Nest.step_ok h _⟩
  | selectorFault h | groupFault h => exact nest_fault h
  | selectorOpens hclosed hc =>
    obtain rfl := hfits.closed hclosed
    subst hc
    exact ⟨Nest.proper_within _, rfl⟩
  | letter hclosed hquote hbracket =>
    obtain rfl := hfits.closed hclosed
    exact ⟨Nest.proper_within [], Nest.step_char hquote hbracket⟩
  | wordEnd hclosed hseek =>
    obtain rfl := hfits.closed hclosed
    exact hseek.follows hcode
  | escaped => exact ⟨trivial, rfl⟩
  | backslash hc | quote hc =>
    subst hc
    exact ⟨trivial, rfl⟩
  | lineBreak hc =>
    subst hc
    exact ⟨rfl, _, rfl⟩
  | quoted hquote hslash hline =>
    exact ⟨trivial, by simp [Mode.nest, Nest.step, Nest.quoting, hslash, hquote, hline]⟩
  | groupEnd h hclosed =>
    obtain rfl := (hfits.1.step hfits.2 h).closed hclosed
    exact ⟨trivial, Nest.step_ok h _⟩
  | group h hopen => exact ⟨⟨hfits.1.step hfits.2 h, hopen⟩, Nest.step_ok h _⟩

theorem SeekRule.comment {before : List Lexeme} {next : Option Char}
    (h : SeekRule before k c next (.ok (now, .comment))) : c = '/' ∧ next = some '/' := by
  cases h with
  | slashes hc hnext => exact ⟨hc, hnext⟩

/-- A comment begins outside of brackets and strings, with a number sign or with two slashes. -/
theorem step_comment {next : Option Char} (hfits : mode.Fits (c :: rest))
    (h : step k c next mode = .ok (now, .comment)) :
    mode.nest = .within [] ∧ (c = '#' ∨ c = '/' ∧ next = some '/') := by
  have hrule := step_rule k c next mode
  rw [h] at hrule
  cases hrule with
  | numberSign hc => exact ⟨rfl, .inl hc⟩
  | sought hseek => exact ⟨rfl, .inr hseek.comment⟩
  | comment => exact hfits.elim
  | wordEnd hclosed hseek => exact ⟨hfits.closed hclosed, .inr hseek.comment⟩

/-- Where no comment can begin, none does. -/
theorem step_ne_comment (hfree : CommentFree (c :: rest)) (hfits : mode.Fits (c :: rest))
    (now : List Lexeme) : step k c rest.head? mode ≠ .ok (now, .comment) := by
  intro h
  rcases (step_comment hfits h).2 with rfl | ⟨rfl, hnext⟩
  · exact hfree.numberSign List.mem_cons_self
  · obtain ⟨later, rfl⟩ := List.head?_eq_some_iff.mp hnext
    exact hfree.slashes ⟨[], later, rfl⟩

/-- The lexer follows the machine through a whole text: it accepts the text, or it fails with a fault
of syntax and the machine does not accept. -/
theorem run_follows (mode : Mode) (cs : List Char) (k : Cursor) (hfits : mode.Fits cs)
    (hfree : CommentFree cs) :
    ((∃ all, run mode k cs = .ok all) ∧ mode.nest.read cs = some (.within [])) ∨
      ((∃ f, run mode k cs = .error f ∧ f.kind = .syntactic) ∧
        mode.nest.read cs ≠ some (.within [])) := by
  induction cs generalizing mode k with
  | nil =>
    cases mode with
    | seeking => exact .inl ⟨⟨_, rfl⟩, rfl⟩
    | comment => exact hfits.elim
    | doubled =>
      obtain ⟨c, later, heq, -⟩ := hfits
      cases heq
    | word start text nest =>
      simp only [run, finish]
      split
      · next hclosed =>
        have hnest : nest = .within [] := hfits.closed (by simpa [Nest.closed] using hclosed)
        exact .inl ⟨⟨_, rfl⟩, congrArg some hnest⟩
      · next hopen =>
        refine .inr ⟨⟨_, rfl, rfl⟩, fun h => hopen ?_⟩
        rw [show nest = .within [] from Option.some.inj h]
        rfl
    | string start text escaped =>
      refine .inr ⟨⟨_, rfl, rfl⟩, fun h => ?_⟩
      exact Bool.false_ne_true (congrArg Nest.quoted (Option.some.inj h)).symm
    | group start bracket text nest =>
      refine .inr ⟨⟨_, rfl, rfl⟩, fun h => hfits.2 ?_⟩
      exact congrArg Nest.opened (Option.some.inj h)
  | cons c rest ih =>
    have hfollows := step_follows k hfits (step_ne_comment hfree hfits)
    rw [run, Nest.read]
    rcases hstep : step k c rest.head? mode with f | ⟨now, mode'⟩
    · rw [hstep] at hfollows
      obtain ⟨hkind, f', hf'⟩ := hfollows
      rw [hf']
      exact .inr ⟨⟨f, rfl, hkind⟩, by simp⟩
    · rw [hstep] at hfollows
      obtain ⟨hfits', hnest⟩ := hfollows
      rw [hnest]
      rcases ih mode' (k.advance c) hfits' hfree.tail with
        ⟨⟨later, hlater⟩, hread⟩ | ⟨⟨f, hf, hkind⟩, hread⟩
      · refine .inl ⟨⟨now ++ later, ?_⟩, hread⟩
        show ((run mode' (k.advance c) rest) >>= _) = _
        rw [hlater]
        rfl
      · refine .inr ⟨⟨f, ?_, hkind⟩, hread⟩
        show ((run mode' (k.advance c) rest) >>= _) = _
        rw [hf]
        rfl

/-! ### Groups -/

/-- A group that is being read has its own bracket open all the time. -/
def Mode.Opens : Mode → Prop
  | .group _ b text nest => ∃ body, text.reverse = b.opening :: body ∧
      (Nest.within [b]).read body = some nest ∧ nest.Proper ∧
      ∀ front m, front <+: body → (Nest.within [b]).read front = some m → m.opened ≠ []
  | _ => True

/-- A token that is a group has the text of one. -/
def GroupsWell (all : List Lexeme) : Prop :=
  ∀ t b, .token t ∈ all → t.kind = .group b → GroupText b t.text.toList

theorem GroupsWell.nil : GroupsWell [] := fun _ _ h => by cases h

theorem GroupsWell.append {xs ys : List Lexeme} (hx : GroupsWell xs) (hy : GroupsWell ys) :
    GroupsWell (xs ++ ys) := by
  intro t b ht hkind
  rcases List.mem_append.mp ht with ht | ht
  · exact hx t b ht hkind
  · exact hy t b ht hkind

theorem GroupsWell.semicolon (p : Position) : GroupsWell [.semicolon p] := by
  intro t b ht
  cases List.mem_singleton.mp ht

/-- A token of another kind. -/
theorem GroupsWell.other {t : Token} (h : ∀ b, t.kind ≠ .group b) : GroupsWell [.token t] := by
  intro u b hu hkind
  obtain rfl : u = t := Lexeme.token.inj (List.mem_singleton.mp hu)
  exact absurd hkind (h b)

/-- Text that leads from an open bracket to its end, and not before, is balanced text and the closing
bracket. -/
theorem groupText_of_read {b : Bracket} {body : List Char} {c : Char}
    (hread : (Nest.within [b]).read (body ++ [c]) = some (.within []))
    (hopen : ∀ front m, front <+: body → (Nest.within [b]).read front = some m → m.opened ≠ []) :
    GroupText b (b.opening :: (body ++ [c])) := by
  obtain ⟨inner, rest, heq, hinner, -⟩ := (closes_of_read (body ++ [c])).1 [b] hread
  rcases List.eq_nil_or_concat rest with rfl | ⟨later, last, rfl⟩
  · rw [heq]
    exact ⟨inner, hinner, rfl⟩
  · -- the bracket would be closed before the last character
    rw [List.concat_eq_append, ← List.cons_append, ← List.append_assoc] at heq
    obtain ⟨rfl, -⟩ := List.append_inj' heq rfl
    have hclosed : (Nest.within [b]).read (inner ++ [b.closing]) = some (.within []) :=
      Nest.read_concat (hinner.read [b]) (Nest.step_closing (p := .start) b)
    refine absurd rfl (hopen _ _ ⟨later, ?_⟩ hclosed)
    rw [List.append_assoc, List.singleton_append]

theorem SeekRule.groups {before : List Lexeme} {next : Option Char} (hbefore : GroupsWell before)
    (h : SeekRule before k c next (.ok (now, mode'))) : mode'.Opens ∧ GroupsWell now := by
  cases h with
  | blank | quote | slashes | letter => exact ⟨trivial, hbefore⟩
  | semicolon => exact ⟨trivial, hbefore.append (.semicolon _)⟩
  | comma | doubled => exact ⟨trivial, hbefore.append (.other fun b => by simp [finished])⟩
  | opening b hc =>
    refine ⟨⟨[], by rw [hc]; rfl, rfl, Nest.proper_within [b], fun front m hfront hm => ?_⟩, hbefore⟩
    rw [List.prefix_nil.mp hfront] at hm
    rw [← Option.some.inj hm]
    exact List.cons_ne_nil b []

/-- What one character emits. -/
theorem step_groups {next : Option Char} (hopens : mode.Opens)
    (h : step k c next mode = .ok (now, mode')) : mode'.Opens ∧ GroupsWell now := by
  have hrule := step_rule k c next mode
  rw [h] at hrule
  cases hrule with
  | sought hseek => exact hseek.groups .nil
  | wordEnd _ hseek => exact hseek.groups (.other fun b => by simp [finished])
  | quote => exact ⟨trivial, .other fun b => by simp [finished]⟩
  | @groupEnd start b text nest m hm hclosed =>
    obtain ⟨body, htext, hread, hproper, hopen⟩ := hopens
    have hopened := hopen body nest (List.prefix_refl body) hread
    obtain rfl := (hproper.step hopened hm).closed hclosed
    refine ⟨trivial, fun t b' ht hkind => ?_⟩
    obtain rfl := Lexeme.token.inj (List.mem_singleton.mp ht)
    obtain rfl : b = b' := TokenKind.group.inj hkind
    rw [finished, String.toList_ofList, List.reverse_cons, htext, List.cons_append]
    exact groupText_of_read (Nest.read_concat hread hm) hopen
  | @group start b text nest m hm hopen' =>
    obtain ⟨body, htext, hread, hproper, hopen⟩ := hopens
    have hopened := hopen body nest (List.prefix_refl body) hread
    have hread' := Nest.read_concat hread hm
    refine ⟨⟨body ++ [c], ?_, hread', hproper.step hopened hm, fun front n hfront hn => ?_⟩, .nil⟩
    · rw [List.reverse_cons, htext, List.cons_append]
    · rcases List.prefix_concat_iff.mp hfront with rfl | hfront
      · rwa [Option.some.inj (hn.symm.trans hread')]
      · exact hopen front n hfront hn
  | numberSign | lineEnd | comment | doubled | selector | selectorOpens | letter | escaped
  | backslash | quoted => exact ⟨trivial, .nil⟩

/-- What a text emits. -/
theorem run_groups (mode : Mode) {cs : List Char} {all : List Lexeme} (hopens : mode.Opens)
    (h : run mode k cs = .ok all) : GroupsWell all := by
  induction cs generalizing mode k all with
  | nil =>
    cases mode with
    | word start text nest =>
      simp only [run, finish] at h
      split at h
      · obtain rfl := Except.ok.inj h
        exact .other fun b => by simp [finished]
      · cases h
    | seeking | comment | doubled =>
      obtain rfl := Except.ok.inj h
      exact .nil
    | string | group => cases h
  | cons c rest ih =>
    obtain ⟨⟨now, mode'⟩, hstep, hrun⟩ := exists_of_bind_ok h
    obtain ⟨later, hlater, hall⟩ := exists_of_bind_ok hrun
    obtain rfl := Except.ok.inj hall
    obtain ⟨hopens', hnow⟩ := step_groups hopens hstep
    exact hnow.append (ih mode' hopens' hlater)

end Lexer

/-- Every group among the tokens of a text is one. -/
theorem tokenize_groupText {terminator : Terminator} {start : Position} {source : String}
    {r : Reading} (h : tokenize terminator start source = .ok r) {t : Token} (ht : t ∈ r.tokens)
    {b : Bracket} (hkind : t.kind = .group b) : GroupText b t.text.toList := by
  obtain ⟨all, hall, hgroup⟩ := exists_of_bind_ok h
  rw [groupLexemes_tokens hgroup, List.nil_append] at ht
  obtain ⟨lexeme, hlexeme, htoken⟩ := List.mem_filterMap.mp ht
  cases lexeme with
  | token u =>
    obtain rfl : u = t := Option.some.inj htoken
    exact Lexer.run_groups .seeking trivial hall u b hlexeme hkind
  | semicolon => cases htoken

/-- No group begins with another one. -/
theorem GroupText.eq_of_front {b b' : Bracket} {front text : List Char} (h : GroupText b text)
    (hfront : GroupText b' front) (hstart : front <+: text) : front = text := by
  obtain ⟨inner, hinner, rfl⟩ := h
  obtain ⟨inner', hinner', rfl⟩ := hfront
  obtain ⟨later, heq⟩ := hstart
  rw [List.cons_append] at heq
  obtain ⟨hopening, hrest⟩ := List.cons.inj heq
  obtain rfl := Bracket.opening_injective hopening
  rcases List.eq_nil_or_concat later with rfl | ⟨later, last, rfl⟩
  · rw [List.append_nil] at hrest
    rw [hrest]
  · -- the closing bracket of the shorter group would be a stray one inside the longer group
    rw [List.concat_eq_append, ← List.append_assoc] at hrest
    obtain ⟨rfl, -⟩ := List.append_inj' hrest rfl
    have hread := hinner.read []
    rw [List.append_assoc, Nest.read_append, hinner'.read, Option.bind_some, List.singleton_append,
      Nest.read] at hread
    simp [Nest.step, Nest.within] at hread

/-- Text between brackets is what stands between them. -/
theorem Token.inner?_eq {t : Token} {b : Bracket} {inner : List Char} (hkind : t.kind = .group b)
    (htext : t.text.toList = b.opening :: (inner ++ [b.closing])) :
    t.inner? = some (String.ofList inner) := by
  unfold Token.inner?
  rw [hkind, htext]
  cases inner with
  | nil => rfl
  | cons c inner =>
    show some (String.ofList (c :: inner ++ [b.closing]).dropLast) = _
    rw [List.dropLast_concat]

theorem groupLexemes_optional (current : List Token) (all : List Lexeme) :
    ∃ r, groupLexemes .optional current all = .ok r := by
  fun_induction groupLexemes Terminator.optional current all with
  | case1 | case3 => exact ⟨_, rfl⟩
  | case2 => contradiction
  | case5 _ _ _ _ ih => exact ih
  | case4 _ _ _ _ ih | case6 _ _ _ _ ih | case7 _ _ _ _ ih =>
    obtain ⟨r, hr⟩ := ih
    exact ⟨_, by rw [hr]; rfl⟩

/-- Where no comment begins and statements need no end, a text has tokens if and only if it is
balanced, and else the fault is one of syntax. -/
theorem tokenize_optional_cases (start : Position) (source : String)
    (hfree : CommentFree source.toList) :
    ((∃ r, tokenize .optional start source = .ok r) ∧ Balanced source.toList) ∨
      ((∃ f, tokenize .optional start source = .error f ∧ f.kind = .syntactic) ∧
        ¬Balanced source.toList) := by
  rcases Lexer.run_follows .seeking source.toList ⟨0, start⟩ trivial hfree with
    ⟨⟨all, hall⟩, hread⟩ | ⟨⟨f, hf, hkind⟩, hread⟩
  · obtain ⟨r, hr⟩ := groupLexemes_optional [] all
    refine .inl ⟨⟨r, ?_⟩, Nest.read_eq_some_iff.mp hread⟩
    rw [tokenize, lexemes, hall]
    exact hr
  · refine .inr ⟨⟨f, ?_, hkind⟩, fun hbalanced => hread (Nest.read_eq_some_iff.mpr hbalanced)⟩
    rw [tokenize, lexemes, hf]
    rfl

/-- Exactly balanced texts have tokens. Where no comment begins and statements need no end, a text has
tokens if and only if it is balanced; if it is not, the fault is one of syntax. In any text, a group is
balanced text between brackets of its own kind, it is closed only by its last character, and what
stands between its brackets has tokens again. -/
theorem tokenize_accepts_balanced (start : Position) (source : String) :
    (CommentFree source.toList →
      ((∃ r, tokenize .optional start source = .ok r) ↔ Balanced source.toList) ∧
      (¬Balanced source.toList →
        ∃ f, tokenize .optional start source = .error f ∧ f.kind = .syntactic)) ∧
    ∀ (terminator : Terminator) (r : Reading), tokenize terminator start source = .ok r →
      ∀ t ∈ r.tokens, ∀ b, t.kind = .group b →
        ∃ inner, t.text.toList = b.opening :: (inner ++ [b.closing]) ∧ Balanced inner ∧
          (∀ front b', front <+: t.text.toList → GroupText b' front → front = t.text.toList) ∧
          (CommentFree inner → ∃ r', t.tokenizeInner .optional = .ok r') := by
  constructor
  · intro hfree
    rcases tokenize_optional_cases start source hfree with ⟨hok, hbalanced⟩ | ⟨⟨f, hf, hkind⟩, hnot⟩
    · exact ⟨⟨fun _ => hbalanced, fun _ => hok⟩, fun hnot => absurd hbalanced hnot⟩
    · refine ⟨⟨fun ⟨r, hr⟩ => ?_, fun hbalanced => absurd hbalanced hnot⟩, fun _ => ⟨f, hf, hkind⟩⟩
      rw [hf] at hr
      cases hr
  · intro terminator r hr t ht b hkind
    have hgroup := tokenize_groupText hr ht hkind
    obtain ⟨inner, hinner, htext⟩ := hgroup
    refine ⟨inner, htext, hinner, fun front b' hfront hgroup' => ?_, fun hfree => ?_⟩
    · exact (tokenize_groupText hr ht hkind).eq_of_front hgroup' hfront
    · rcases tokenize_optional_cases t.innerStart (String.ofList inner)
        (by rwa [String.toList_ofList]) with ⟨hok, -⟩ | ⟨-, hnot⟩
      · rw [Token.tokenizeInner, Token.inner?_eq hkind htext]
        exact hok
      · rw [String.toList_ofList] at hnot
        exact absurd hinner hnot

/-- Brackets and quotes inside one another. -/
def nestedText : String := "f(a[1] \\ \x7b \"\\\")\" \x7d) @e[x=\"]\"]"

/-- What stands between the round brackets. -/
def nestedInner : String := "a[1] \\ \x7b \"\\\")\" \x7d"

/-- The round group. -/
def nestedGroup : Token := ⟨.group .round, ⟨1, 19, ⟨1, 2⟩⟩, "(" ++ nestedInner ++ ")"⟩

/-- The tokens of the text. -/
def nestedReading : Reading :=
  ⟨[⟨[⟨.word, ⟨0, 1, ⟨1, 1⟩⟩, "f"⟩, nestedGroup,
    ⟨.word, ⟨20, 29, ⟨1, 21⟩⟩, "@e[x=\"]\"]"⟩]⟩], []⟩

theorem nested_accepts_balanced :
    (CommentFree nestedText.toList ∧ Balanced nestedText.toList) ∧
      (CommentFree "f(]".toList ∧ ¬Balanced "f(]".toList) ∧
      tokenize .optional Position.start nestedText = .ok nestedReading ∧
      nestedGroup ∈ nestedReading.tokens ∧ Balanced nestedInner.toList ∧
      ∃ r, nestedGroup.tokenizeInner .optional = .ok r := by
  have hread : tokenize .optional Position.start nestedText = .ok nestedReading := by decide +kernel
  have hfree : CommentFree nestedText.toList := ⟨by decide +kernel, by decide +kernel⟩
  have hfree' : CommentFree "f(]".toList := ⟨by decide +kernel, by decide +kernel⟩
  have hfails : ∀ r, tokenize .optional Position.start "f(]" ≠ .ok r := by
    intro r hr
    have hnone : (tokenize .optional Position.start "f(]").toOption = none := by decide +kernel
    rw [hr] at hnone
    cases hnone
  obtain ⟨haccepts, hgroups⟩ := tokenize_accepts_balanced Position.start nestedText
  have hrejects := (tokenize_accepts_balanced Position.start "f(]").1 hfree'
  have hmem : nestedGroup ∈ nestedReading.tokens := by decide +kernel
  obtain ⟨inner, htext, hinner, -, hagain⟩ := hgroups .optional _ hread _ hmem .round rfl
  obtain rfl : nestedInner.toList = inner := by
    have htext' : nestedGroup.text.toList = '(' :: (nestedInner.toList ++ [')']) := by decide +kernel
    exact (List.append_inj' (List.cons.inj (htext'.symm.trans htext)).2 rfl).1
  refine ⟨⟨hfree, (haccepts hfree).1.mp ⟨_, hread⟩⟩, ⟨hfree', fun hbalanced => ?_⟩, hread, hmem,
    hinner, hagain ⟨by decide +kernel, by decide +kernel⟩⟩
  obtain ⟨r, hr⟩ := hrejects.1.mpr hbalanced
  exact hfails r hr

end Packwright
