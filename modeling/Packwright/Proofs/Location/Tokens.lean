import Packwright.Proofs.Location.Lines
import Packwright.Proofs.Regular
import Packwright.Proofs.Searches
import Packwright.Proofs.Token.Covering
import Packwright.Proofs.Token.Nesting

/-!
# Tokens on the lines of a text

While a text is compiled, its faults know a position but no file. A fault points into the text when
its position is on a line of it. Faults at tokens are on lines that show the token; a line break
that should not be there, and a mistake in JSON text, may be reported on an empty line.

The tokens of a text, and those inside its groups, are on lines of the text that show them. The
lexer keeps its cursor on the line of the next character, so its faults are on lines of the text as
well.

## Main definitions

- `Fault.PointsInto` — the fault is at a line of the text
- `Failure.Blames` — the failure is no regular fault, or one that points into the text; the program
  only stops at once for a text that is not all ASCII
- `HasCounters` — states with counters, which may be spent
- `ReadsIn`, `RunsIn` — readers and steps whose results satisfy a condition and whose failures blame
  the text, or a spent counter
- `Token.LiesIn`, `Statement.LiesIn`, `Construct.LiesIn` — on lines of the text
- `Lexer.Mode.LiesIn` — the lexer in the middle of the text

## Main results

- `ReadsIn.bind`, `ReadsIn.foldlM`, `ReadsIn.mapM` — readers one after another
- `RunsIn.bind`, `RunsIn.mapM` — steps one after another
- `Lexer.step_lies`, `Lexer.run_lies` — one character and a whole text
- `tokenize_lies`, `Token.LiesIn.tokenizeInner` — the statements of a text and of a group
- `Token.LiesIn.tailFrom` — what is left of a word
-/

namespace Packwright

section

/-! ### Faults that point into a text -/

variable {α β σ : Type} {text : List Char}

/-- Line breaks and mistakes in JSON text may be reported on a line that is empty. -/
def Cause.mayBeEmpty : Cause → Bool
  | .lineBreakInString | .invalidJson .. => true
  | _ => false

/-- The fault has a position on a line of the text, and names neither the file nor the line. The
line shows something, unless the cause may be on an empty one. -/
def Fault.PointsInto (text : List Char) (f : Fault) : Prop :=
  ∃ p : Position, f.location = some p.location ∧ HasLine text p.line ∧
    (f.cause.mayBeEmpty = false → ShowsLine text p.line)

/-- A fault that is regular points into the text, and a text of ASCII characters does not stop the
program. -/
def Failure.Blames (text : List Char) : Failure → Prop
  | .fault f => f.cause.isRegular = true → f.PointsInto text
  | .crash => ¬Text.IsAscii text
  | .exhausted => True

theorem blames_located {p : Position} (h : ShowsLine text p.line) (cause : Cause) :
    Failure.Blames text (.fault (.located cause p)) :=
  fun _ => ⟨p, rfl, h.hasLine, fun _ => h⟩

/-! ### Readers -/

/-- What is read satisfies `P`, and a fault blames the text. -/
def ReadsIn (text : List Char) (x : Except Fault α) (P : α → Prop := fun _ => True) : Prop :=
  match x with
  | .ok a => P a
  | .error f => Failure.Blames text (.fault f)

section

variable {x : Except Fault α} {P Q : α → Prop}

theorem ReadsIn.of_ok (h : ReadsIn text x P) {a : α} (hx : x = .ok a) : P a := by
  rw [hx] at h
  exact h

theorem ReadsIn.mono (h : ReadsIn text x P) (hPQ : ∀ a, P a → Q a) : ReadsIn text x Q := by
  cases x with
  | ok a => exact hPQ a h
  | error f => exact h

theorem ReadsIn.bind {f : α → Except Fault β} {R : β → Prop} (h : ReadsIn text x P)
    (hf : ∀ a, P a → ReadsIn text (f a) R) : ReadsIn text (x >>= f) R := by
  cases x with
  | ok a => exact hf a h
  | error e => exact h

theorem ReadsIn.map {f : α → β} {R : β → Prop} (h : ReadsIn text x P) (hf : ∀ a, P a → R (f a)) :
    ReadsIn text (x.map f) R := by
  cases x with
  | ok a => exact hf a h
  | error e => exact h

theorem ReadsIn.forM {f : α → Except Fault PUnit} {l : List α}
    (hf : ∀ a ∈ l, ReadsIn text (f a)) : ReadsIn text (l.forM f) := by
  induction l with
  | nil => trivial
  | cons a l ih =>
    obtain ⟨ha, hl⟩ := List.forall_mem_cons.mp hf
    rw [List.forM_eq_forM, List.forM_cons]
    exact ha.bind fun _ _ => ih hl

theorem ReadsIn.mapM {f : α → Except Fault β} {R : β → Prop} {l : List α}
    (hf : ∀ a ∈ l, ReadsIn text (f a) R) : ReadsIn text (l.mapM f) fun bs => ∀ b ∈ bs, R b := by
  induction l with
  | nil => exact fun b hb => nomatch hb
  | cons a l ih =>
    obtain ⟨ha, hl⟩ := List.forall_mem_cons.mp hf
    rw [List.mapM_cons]
    refine ha.bind fun b hb => (ih hl).bind fun bs hbs => ?_
    exact List.forall_mem_cons.mpr ⟨hb, hbs⟩

theorem ReadsIn.foldlM {f : β → α → Except Fault β} {R : β → Prop} {l : List α} {start : β}
    (hf : ∀ b, R b → ∀ a ∈ l, ReadsIn text (f b a) R) (hstart : R start) :
    ReadsIn text (l.foldlM f start) R := by
  induction l generalizing start with
  | nil => exact hstart
  | cons a l ih =>
    rw [List.foldlM_cons]
    refine (hf start hstart a List.mem_cons_self).bind fun next hnext => ?_
    exact ih (fun b hb a' ha' => hf b hb a' (List.mem_cons_of_mem a ha')) hnext

end

/-! ### Steps -/

/-- The states of steps that may stop the program because they would count beyond a word. -/
class HasCounters (σ : Type) where
  /-- Some counter has reached its greatest value. -/
  Spent : σ → Prop

instance : HasCounters (List Warning) := ⟨fun _ => False⟩

/-- Whatever state the step starts in, its result satisfies `P` or its failure blames the text, if
the program is not stopped because a counter is spent. -/
def RunsIn [HasCounters σ] (text : List Char) (m : ExceptT Failure (StateM σ) α)
    (P : α → Prop := fun _ => True) : Prop :=
  ∀ s, match m.run.run s with
    | (.ok a, _) => P a
    | (.error e, s') => e.Blames text ∨ e = .crash ∧ HasCounters.Spent s'

section

variable [HasCounters σ] {m : ExceptT Failure (StateM σ) α} {P Q : α → Prop}

theorem runsIn_pure {a : α} (h : P a) : RunsIn text (pure a : ExceptT Failure (StateM σ) α) P :=
  fun _ => h

theorem runsIn_throw {e : Failure} (h : e.Blames text) :
    RunsIn text (throw e : ExceptT Failure (StateM σ) α) P :=
  fun _ => .inl h

theorem runsIn_get : RunsIn text (get : ExceptT Failure (StateM σ) σ) :=
  fun _ => trivial

theorem runsIn_set (s : σ) : RunsIn text (set s : ExceptT Failure (StateM σ) PUnit) :=
  fun _ => trivial

theorem runsIn_modify (f : σ → σ) : RunsIn text (modify f : ExceptT Failure (StateM σ) PUnit) :=
  fun _ => trivial

theorem RunsIn.mono (h : RunsIn text m P) (hPQ : ∀ a, P a → Q a) : RunsIn text m Q := by
  intro s
  have hm := h s
  generalize m.run.run s = result at hm ⊢
  obtain ⟨value, s'⟩ := result
  cases value with
  | ok a => exact hPQ a hm
  | error e => exact hm

theorem RunsIn.bind {f : α → ExceptT Failure (StateM σ) β} {R : β → Prop} (hm : RunsIn text m P)
    (hf : ∀ a, P a → RunsIn text (f a) R) : RunsIn text (m >>= f) R := by
  intro s
  simp only [ExceptT.run_bind, StateT.run_bind]
  have hfirst := hm s
  generalize m.run.run s = result at hfirst ⊢
  obtain ⟨value, s'⟩ := result
  cases value with
  | ok a => exact hf a hfirst s'
  | error e => exact hfirst

theorem RunsIn.forM {f : α → ExceptT Failure (StateM σ) PUnit} {l : List α}
    (hf : ∀ a ∈ l, RunsIn text (f a)) : RunsIn text (l.forM f) := by
  induction l with
  | nil => exact runsIn_pure trivial
  | cons a l ih =>
    obtain ⟨ha, hl⟩ := List.forall_mem_cons.mp hf
    rw [List.forM_eq_forM, List.forM_cons]
    exact ha.bind fun _ _ => ih hl

theorem RunsIn.mapM {f : α → ExceptT Failure (StateM σ) β} {R : β → Prop} {l : List α}
    (hf : ∀ a ∈ l, RunsIn text (f a) R) : RunsIn text (l.mapM f) fun bs => ∀ b ∈ bs, R b := by
  induction l with
  | nil => exact runsIn_pure fun b hb => nomatch hb
  | cons a l ih =>
    obtain ⟨ha, hl⟩ := List.forall_mem_cons.mp hf
    rw [List.mapM_cons]
    refine ha.bind fun b hb => (ih hl).bind fun bs hbs => ?_
    exact runsIn_pure (List.forall_mem_cons.mpr ⟨hb, hbs⟩)

end

end

variable {text : List Char}

/-- The token begins on a line of the text that shows something; a group stands there as written. In
a text of ASCII characters its value has no others. -/
structure Token.LiesIn (text : List Char) (t : Token) : Prop where
  shows : ShowsLine text t.position.line
  group : ∀ b, t.kind = .group b → GroupText b t.text.toList ∧ Stands text t.position t.text.toList
  ascii : Text.IsAscii text → Text.IsAscii t.value.toList

/-- All tokens of the statement are on lines of the text. -/
def Statement.LiesIn (text : List Char) (s : Statement) : Prop := ∀ t ∈ s.tokens, t.LiesIn text

/-- All statements of the construct are on lines of the text. -/
def Construct.LiesIn (text : List Char) (c : Construct) : Prop := ∀ s ∈ c.statements, s.LiesIn text

theorem Token.LiesIn.blames {t : Token} (h : t.LiesIn text) (cause : Cause) :
    Failure.Blames text (.fault (t.fault cause)) :=
  blames_located h.shows cause

/-- Constructs are made of the statements of a text. -/
theorem constructs_lie {statements : List Statement} (h : ∀ s ∈ statements, s.LiesIn text) :
    ∀ c ∈ constructs statements, c.LiesIn text := by
  intro c hc s hs
  apply h s
  rw [← statements_constructs statements]
  exact List.mem_flatMap.mpr ⟨c, hc, hs⟩

/-! ### The lexer -/

/-- The characters begin with one that is no blank. -/
def Visible (cs : List Char) : Prop := ∃ c rest, cs = c :: rest ∧ Text.isBlank c = false

/-- Besides the characters of its text, the value of the token has only those that escapes stand
for. -/
def Token.Spells (t : Token) : Prop :=
  Text.IsAscii t.text.toList → Text.IsAscii t.value.toList

/-- The token stands in the text as written, begins with a character that is no blank, and its value
is spelled by its text. -/
structure Token.Marks (text : List Char) (t : Token) : Prop where
  stands : Stands text t.position t.text.toList
  visible : Visible t.text.toList
  spells : t.Spells

/-- What stands in a text of ASCII characters is made of them. -/
theorem Stands.ascii {p : Position} {cs : List Char} (h : Stands text p cs)
    (hascii : Text.IsAscii text) : Text.IsAscii cs := by
  obtain ⟨before, after, rfl, -⟩ := h
  exact fun c hc => hascii c (by simp [hc])

theorem Stands.showsLine_of_visible {p : Position} {cs : List Char} (h : Stands text p cs)
    (hcs : Visible cs) : ShowsLine text p.line := by
  obtain ⟨c, rest, rfl, hc⟩ := hcs
  exact h.showsLine hc

/-- Inside brackets a fault is at the character that was read, which is a line feed or a bracket. -/
theorem Nest.step_reads {n : Nest} {p : Position} {c : Char} {rest : List Char}
    (h : Stands text p (c :: rest)) : ReadsIn text (n.step p c) := by
  have hbracket : Bracket.isClosing c = true → Text.isBlank c = false := by
    intro hc
    obtain ⟨b, rfl⟩ := Bracket.isClosing_iff.mp hc
    cases b <;> decide
  unfold Nest.step
  split
  · split
    · trivial
    split
    · trivial
    split
    · trivial
    split
    · exact fun _ => ⟨p, rfl, h.hasLine, fun hempty => nomatch hempty⟩
    · trivial
  split
  · trivial
  split
  · trivial
  split
  · next hc =>
    split
    · exact blames_located (h.showsLine (hbracket hc)) _
    · split
      · trivial
      · exact blames_located (h.showsLine (hbracket hc)) _
  · trivial

namespace Lexer

variable {k : Cursor} {c : Char} {rest : List Char}

/-- The rest of the text stands at the cursor; a token that is being read stands before it. -/
def Mode.LiesIn (text : List Char) (k : Cursor) (rest : List Char) : Mode → Prop
  | .seeking | .comment | .doubled => Stands text k.position rest
  | .word start read _ | .string start read _ | .group start _ read _ =>
    Visible read.reverse ∧ Stands text start.position (read.reverse ++ rest) ∧
      k.position = start.position.walk read.reverse

/-- What one character leads to lies in the text: the tokens that it ends, and the mode behind it.
-/
def LiesBehind (text : List Char) (k : Cursor) (rest : List Char) (r : List Lexeme × Mode) : Prop :=
  (∀ t, .token t ∈ r.1 → t.Marks text) ∧ r.2.LiesIn text k rest

theorem Mode.LiesIn.stands {mode : Mode} (h : mode.LiesIn text k rest) :
    Stands text k.position rest := by
  cases mode with
  | seeking | comment | doubled => exact h
  | word | string | group =>
    obtain ⟨-, hstands, hk⟩ := h
    rw [hk]
    exact hstands.behind

/-- One more character of a token. -/
theorem lies_push {start : Cursor} {read : List Char}
    (h : Visible read.reverse ∧ Stands text start.position (read.reverse ++ c :: rest) ∧
      k.position = start.position.walk read.reverse) :
    Visible (c :: read).reverse ∧ Stands text start.position ((c :: read).reverse ++ rest) ∧
      (k.advance c).position = start.position.walk (c :: read).reverse := by
  obtain ⟨⟨d, others, hread, hd⟩, hstands, hk⟩ := h
  refine ⟨⟨d, others ++ [c], ?_, hd⟩, ?_, ?_⟩
  · rw [List.reverse_cons, hread, List.cons_append]
  · rwa [List.reverse_cons, List.append_assoc, List.singleton_append]
  · rw [List.reverse_cons, Position.walk_append, ← hk]
    rfl

/-- Escapes stand for ASCII characters, and all others for themselves. -/
theorem unescape_ascii {cs : List Char} (h : Text.IsAscii cs) : Text.IsAscii (unescape cs) := by
  fun_induction unescape cs with
  | case1 | case2 => exact h
  | case3 rest ih | case4 rest ih | case5 rest ih | case6 rest ih =>
    exact Text.isAscii_cons.mpr ⟨by decide, ih (by simp_all)⟩
  | case7 rest ih => exact ih (by simp_all)
  | case8 | case9 => simp_all

/-- The value of a token that is no string literal is its text. -/
theorem spells_finished {kind : TokenKind} (hkind : ∀ value, kind ≠ .string value) (start : Cursor)
    (stop : Nat) (read : List Char) : (finished kind start stop read).Spells := by
  intro h
  cases kind with
  | string value => exact absurd rfl (hkind value)
  | word | group | comma => exact h

theorem spells_string (start : Cursor) (stop : Nat) (read : List Char) :
    (finished (.string (String.ofList (unescape (read.reverse.drop 1).dropLast))) start stop
      read).Spells := by
  intro h
  have hread : Text.IsAscii read.reverse := by simpa [finished] using h
  show Text.IsAscii (String.ofList _).toList
  rw [String.toList_ofList]
  exact unescape_ascii fun c hc => hread c (List.mem_of_mem_drop (List.mem_of_mem_dropLast hc))

/-- A token that is finished stands where it began. -/
theorem marks_finished {start : Cursor} {read : List Char} {kind : TokenKind} {stop : Nat}
    (hspells : (finished kind start stop read).Spells) (hvisible : Visible read.reverse)
    (hstands : Stands text start.position (read.reverse ++ rest)) :
    (finished kind start stop read).Marks text := by
  have htext : (finished kind start stop read).text.toList = read.reverse := String.toList_ofList ..
  exact ⟨htext ▸ hstands.front, htext ▸ hvisible, hspells⟩

theorem marks_append {before new : List Lexeme} (hbefore : ∀ t, .token t ∈ before → t.Marks text)
    (hnew : ∀ t, .token t ∈ new → t.Marks text) : ∀ t, .token t ∈ before ++ new → t.Marks text :=
  fun t ht => (List.mem_append.mp ht).elim (hbefore t) (hnew t)

theorem marks_singleton {t : Token} (h : t.Marks text) :
    ∀ u, Lexeme.token u ∈ [Lexeme.token t] → u.Marks text := by
  intro u hu
  obtain rfl := Lexeme.token.inj (List.mem_singleton.mp hu)
  exact h

theorem seek_lies {before : List Lexeme} (hbefore : ∀ t, .token t ∈ before → t.Marks text)
    (h : Stands text k.position (c :: rest)) :
    ReadsIn text (seek before k c rest.head?) (LiesBehind text (k.advance c) rest) := by
  unfold seek
  split
  · exact ⟨hbefore, h.tail⟩
  next hblank =>
  have hvisible : Visible [c] := ⟨c, [], rfl, by simpa using hblank⟩
  have hstart : Visible [c].reverse ∧ Stands text k.position ([c].reverse ++ rest) ∧
      (k.advance c).position = k.position.walk [c].reverse := ⟨hvisible, h, rfl⟩
  split
  · refine ⟨marks_append hbefore fun t ht => ?_, h.tail⟩
    cases List.mem_singleton.mp ht
  split
  · exact ⟨hbefore, hstart⟩
  split
  · exact ⟨marks_append hbefore (marks_singleton (marks_finished (spells_finished (by simp) _ _ _) hvisible h)), h.tail⟩
  split
  · exact ⟨hbefore, h.tail⟩
  split
  · next hdoubled =>
    simp only [Bool.and_eq_true, decide_eq_true_eq] at hdoubled
    obtain ⟨later, rfl⟩ : ∃ later, rest = c :: later := by
      cases rest with
      | nil => cases hdoubled.2
      | cons d later => exact ⟨later, by rw [Option.some.inj hdoubled.2]⟩
    have hboth : Visible [c, c].reverse := ⟨c, [c], rfl, by simpa using hblank⟩
    exact ⟨marks_append hbefore (marks_singleton (marks_finished (spells_finished (by simp) _ _ _) hboth h)), h.tail⟩
  split
  · exact blames_located (h.showsLine (by simpa using hblank)) _
  split
  · exact ⟨hbefore, hstart⟩
  · exact ⟨hbefore, hstart⟩

/-- Each character is read on a line of the text. -/
theorem step_lies {mode : Mode} (h : mode.LiesIn text k (c :: rest)) :
    ReadsIn text (step k c rest.head? mode) (LiesBehind text (k.advance c) rest) := by
  have hstands := h.stands
  have hnone : ∀ t, Lexeme.token t ∈ ([] : List Lexeme) → t.Marks text := fun t ht => nomatch ht
  cases mode with
  | seeking =>
    rw [step]
    split
    · exact ⟨hnone, h.tail⟩
    · exact seek_lies hnone h
  | comment =>
    refine ⟨hnone, ?_⟩
    show Mode.LiesIn text _ rest (if c = '\n' then .seeking else .comment)
    split
    · exact h.tail
    · exact h.tail
  | doubled => exact ⟨hnone, h.tail⟩
  | word start read nest =>
    rw [step]
    split
    · exact (nest.step_reads hstands).bind fun nest' _ => ⟨hnone, lies_push h⟩
    split
    · exact ⟨hnone, lies_push h⟩
    split
    · exact ⟨hnone, lies_push h⟩
    · exact seek_lies (marks_singleton (marks_finished (spells_finished (by simp) _ _ _) h.1 h.2.1)) hstands
  | string start read escaped =>
    have hclosed := lies_push h
    rw [step]
    split
    · exact ⟨hnone, hclosed⟩
    split
    · exact ⟨hnone, hclosed⟩
    split
    · exact blames_located (h.2.1.front.showsLine_of_visible h.1) _
    split
    · exact ⟨marks_singleton (marks_finished (spells_string _ _ _) hclosed.1 hclosed.2.1), hstands.tail⟩
    · exact ⟨hnone, hclosed⟩
  | group start bracket read nest =>
    have hclosed := lies_push h
    refine (nest.step_reads hstands).bind fun nest' _ => ?_
    split
    · exact ⟨marks_singleton (marks_finished (spells_finished (by simp) _ _ _) hclosed.1 hclosed.2.1), hstands.tail⟩
    · exact ⟨hnone, hclosed⟩

theorem finish_lies {mode : Mode} (h : mode.LiesIn text k []) :
    ReadsIn text (finish k mode) fun last => ∀ t, .token t ∈ last → t.Marks text := by
  cases mode with
  | seeking | comment | doubled => exact fun t ht => nomatch ht
  | word start read nest =>
    rw [finish]
    split
    · exact marks_singleton (marks_finished (spells_finished (by simp) _ _ _) h.1 h.2.1)
    · exact blames_located (h.2.1.front.showsLine_of_visible h.1) _
  | string | group => exact blames_located (h.2.1.front.showsLine_of_visible h.1) _

/-- Every token of a text stands in it, and faults of the lexer are on its lines. -/
theorem run_lies {mode : Mode} {cs : List Char} (h : mode.LiesIn text k cs) :
    ReadsIn text (run mode k cs) fun all => ∀ t, .token t ∈ all → t.Marks text := by
  induction cs generalizing mode k with
  | nil => exact finish_lies h
  | cons c rest ih =>
    refine (step_lies h).bind fun (now, mode') hstep => ?_
    exact (ih hstep.2).bind fun later hlater => marks_append hstep.1 hlater

end Lexer

/-! ### Statements -/

/-- A missing semicolon is reported on the line of the token before it. -/
theorem missingSemicolonAt_line (last : Token) :
    (missingSemicolonAt last).line = last.position.line := by
  unfold missingSemicolonAt
  split <;> rfl

theorem groupLexemes_reads {terminator : Terminator} {all : List Lexeme} {current : List Token}
    (hall : ∀ t, .token t ∈ all → t.Marks text) (hcurrent : ∀ t ∈ current, t.Marks text) :
    ReadsIn text (groupLexemes terminator current all) := by
  have hnone : ∀ t ∈ ([] : List Token), t.Marks text := fun t ht => nomatch ht
  fun_induction groupLexemes terminator current all with
  | case1 => trivial
  | case2 current last hlast =>
    obtain ⟨hstands, hvisible⟩ := hcurrent last (List.mem_of_getLast? hlast)
    apply blames_located
    rw [missingSemicolonAt_line]
    exact hstands.showsLine_of_visible hvisible
  | case3 => trivial
  | case4 current t rest hends ih =>
    exact (ih (fun u hu => hall u (List.mem_cons_of_mem _ hu)) hnone).map fun _ _ => trivial
  | case5 current t rest hends ih =>
    have ht := hall t List.mem_cons_self
    exact ih (fun u hu => hall u (List.mem_cons_of_mem _ hu))
      (List.forall_mem_append.mpr ⟨hcurrent, List.forall_mem_singleton.mpr ht⟩)
  | case6 current p rest hempty ih =>
    exact (ih (fun u hu => hall u (List.mem_cons_of_mem _ hu)) hnone).map fun _ _ => trivial
  | case7 current p rest hempty ih =>
    exact (ih (fun u hu => hall u (List.mem_cons_of_mem _ hu)) hnone).map fun _ _ => trivial

/-- The statements of a part of the text, read from its line on, are on lines of the text. -/
theorem tokenize_lies {start : Position} {source : String} (h : Stands text start source.toList)
    (terminator : Terminator) :
    ReadsIn text (tokenize terminator start source) fun r => ∀ s ∈ r.statements, s.LiesIn text := by
  have hlexemes : ReadsIn text (lexemes start source.toList) fun all =>
      ∀ t, .token t ∈ all → t.Marks text := Lexer.run_lies h
  have hreads : ReadsIn text (tokenize terminator start source) :=
    hlexemes.bind fun all hall => groupLexemes_reads hall fun t ht => nomatch ht
  rcases hread : tokenize terminator start source with f | r
  · rw [hread] at hreads
    exact hreads
  · intro s hs t ht
    have hmem : t ∈ r.tokens := List.mem_flatMap.mpr ⟨s, hs, ht⟩
    obtain ⟨all, hall, hgroup⟩ := exists_of_bind_ok hread
    have hmarks := hlexemes.of_ok hall
    have hfound := hmem
    rw [groupLexemes_tokens hgroup, List.nil_append] at hfound
    obtain ⟨lexeme, hlexeme, htoken⟩ := List.mem_filterMap.mp hfound
    cases lexeme with
    | semicolon => cases htoken
    | token u =>
      obtain rfl : u = t := Option.some.inj htoken
      obtain ⟨hstands, hvisible, hspells⟩ := hmarks u hlexeme
      refine ⟨hstands.showsLine_of_visible hvisible,
        fun b hkind => ⟨tokenize_groupText hread hmem hkind, hstands⟩, fun hascii => hspells ?_⟩
      exact hstands.ascii hascii

namespace Token.LiesIn

variable {t : Token}

/-- The inside of a group stands behind its opening bracket. -/
theorem inner_stands (h : t.LiesIn text) {inner : String} (hinner : t.inner? = some inner) :
    Stands text t.innerStart inner.toList := by
  obtain ⟨b, hkind⟩ : ∃ b, t.kind = .group b := by
    unfold Token.inner? at hinner
    split at hinner
    · next b _ _ _ hkind _ => exact ⟨b, hkind⟩
    · cases hinner
  obtain ⟨⟨body, -, htext⟩, hstands⟩ := h.group b hkind
  rw [Token.inner?_eq hkind htext] at hinner
  obtain rfl := Option.some.inj hinner
  rw [htext, ← List.singleton_append] at hstands
  rw [Token.innerStart, Position.right_one t.position b, String.toList_ofList]
  exact hstands.behind.front

/-- The statements inside a group are on lines of the text. -/
theorem tokenizeInner (h : t.LiesIn text) (terminator : Terminator) :
    ReadsIn text (t.tokenizeInner terminator) fun r => ∀ s ∈ r.statements, s.LiesIn text := by
  unfold Token.tokenizeInner
  split
  · next inner hinner => exact tokenize_lies (h.inner_stands hinner) terminator
  · exact h.blames _

/-- Both halves of a word are on its line. -/
theorem splitAt? (h : t.LiesIn text) {n : Nat} {first second : Token}
    (hsplit : t.splitAt? n = some (first, second)) : first.LiesIn text ∧ second.LiesIn text := by
  unfold Token.splitAt? at hsplit
  split at hsplit
  · next hkind hcut =>
    obtain ⟨rfl, rfl⟩ := Prod.mk.inj (Option.some.inj hsplit)
    obtain ⟨htext, -⟩ := Text.append_of_splitBytes hcut
    have hvalue : t.value = t.text := by rw [Token.value, hkind]
    have hascii := h.ascii
    rw [hvalue, htext, Text.isAscii_append] at hascii
    exact ⟨⟨h.shows, nofun, fun htext => by simpa [Token.value] using (hascii htext).1⟩,
      ⟨h.shows, nofun, fun htext => by simpa [Token.value] using (hascii htext).2⟩⟩
  · cases hsplit

theorem tailFrom (h : t.LiesIn text) (n : Nat) : ∀ u ∈ t.tailFrom n, u.LiesIn text := by
  intro u hu
  unfold Token.tailFrom at hu
  split at hu
  · next first second hsplit =>
    obtain rfl := List.mem_singleton.mp hu
    exact (h.splitAt? hsplit).2
  · cases hu

/-- What is left of a word, and the tokens behind it. -/
theorem tailFrom_append (h : t.LiesIn text) (n : Nat) {rest : List Token}
    (hrest : ∀ u ∈ rest, u.LiesIn text) : ∀ u ∈ t.tailFrom n ++ rest, u.LiesIn text :=
  fun u hu => (List.mem_append.mp hu).elim (h.tailFrom n u) (hrest u)

theorem scoreValue (h : t.LiesIn text) : ReadsIn text t.scoreValue := by
  unfold Token.scoreValue
  split
  · trivial
  · split
    · trivial
    · exact h.blames _

end Token.LiesIn

end Packwright
