import Packwright.Proofs.Location.Tokens
import Packwright.Proofs.Words

/-!
# What a reader accepts

A reader that notes warnings accepts a relation when its results are exactly those that the relation
allows, and it rejects everything else with a syntax error that has a place. Acceptance composes: what
a reader of several parts accepts is told by what the readers of the parts accept.

## Main definitions

- `Fault.isSyntaxError` — a syntax error with a place
- `failsBySyntax` — readers whose only failures are such errors
- `Noting.Accepts` — results are as a relation says, and failures are syntax errors
- `Token.IsAscii` — a token with ASCII text and value

## Main results

- `tokenize_failsBySyntax`, `Token.tokenizeInner_failsBySyntax` — reading tokens
- `Noting.Accepts.bind`, `Noting.Accepts.mapM` — readers one after another
- `ReadToken.isAscii`, `Token.IsAscii.inside` — ASCII tokens and what is read inside them
-/

namespace Packwright

variable {α β : Type}

/-! ### Syntax errors -/

/-- A syntax error with a place. -/
def Fault.isSyntaxError (f : Fault) : Bool := f.kind = .syntactic && f.location.isSome

/-- The result is a value or a syntax error with a place. -/
def failsBySyntax : Except Fault α → Bool
  | .ok _ => true
  | .error f => f.isSyntaxError

section

variable {x : Except Fault α}

theorem failsBySyntax_bind {f : α → Except Fault β} (hx : failsBySyntax x)
    (hf : ∀ a, failsBySyntax (f a)) : failsBySyntax (x >>= f) := by
  cases x with
  | ok a => exact hf a
  | error e => exact hx

theorem failsBySyntax_map {f : α → β} (hx : failsBySyntax x) : failsBySyntax (x.map f) := by
  cases x with
  | ok a => rfl
  | error e => exact hx

end

theorem Nest.step_failsBySyntax (n : Nest) (p : Position) (c : Char) :
    failsBySyntax (n.step p c) := by
  unfold Nest.step
  repeat' split
  all_goals rfl

namespace Lexer

theorem seek_failsBySyntax (before : List Lexeme) (k : Cursor) (c : Char) (next : Option Char) :
    failsBySyntax (seek before k c next) := by
  unfold seek
  repeat' split
  all_goals rfl

theorem step_failsBySyntax (k : Cursor) (c : Char) (next : Option Char) (mode : Mode) :
    failsBySyntax (step k c next mode) := by
  cases mode with
  | seeking =>
    rw [step]
    split
    · rfl
    · exact seek_failsBySyntax ..
  | comment | doubled => rfl
  | word start read nest =>
    rw [step]
    split
    · exact failsBySyntax_bind (nest.step_failsBySyntax _ c) fun _ => rfl
    split
    · rfl
    split
    · rfl
    · exact seek_failsBySyntax ..
  | string start read escaped =>
    rw [step]
    repeat' split
    all_goals rfl
  | group start bracket read nest =>
    refine failsBySyntax_bind (nest.step_failsBySyntax _ c) fun nest' => ?_
    split <;> rfl

theorem run_failsBySyntax (mode : Mode) (k : Cursor) (cs : List Char) :
    failsBySyntax (run mode k cs) := by
  induction cs generalizing mode k with
  | nil =>
    show failsBySyntax (finish k mode)
    unfold finish
    repeat' split
    all_goals rfl
  | cons c rest ih =>
    exact failsBySyntax_bind (step_failsBySyntax ..) fun _ => failsBySyntax_bind (ih ..) fun _ => rfl

end Lexer

theorem groupLexemes_failsBySyntax (terminator : Terminator) (current : List Token)
    (lexemes : List Lexeme) : failsBySyntax (groupLexemes terminator current lexemes) := by
  fun_induction groupLexemes terminator current lexemes with
  | case1 | case2 | case3 => rfl
  | case4 _ _ _ _ ih | case6 _ _ _ _ ih | case7 _ _ _ _ ih => exact failsBySyntax_map ih
  | case5 _ _ _ _ ih => exact ih

/-- Reading the statements of a text fails only with syntax errors. -/
theorem tokenize_failsBySyntax (terminator : Terminator) (start : Position) (source : String) :
    failsBySyntax (tokenize terminator start source) :=
  failsBySyntax_bind (Lexer.run_failsBySyntax ..) fun _ => groupLexemes_failsBySyntax ..

theorem Token.tokenizeInner_failsBySyntax (terminator : Terminator) (t : Token) :
    failsBySyntax (t.tokenizeInner terminator) := by
  unfold Token.tokenizeInner
  split
  · exact tokenize_failsBySyntax ..
  · rfl

/-! ### Acceptance -/

namespace Noting

theorem ofExcept_ok (a : α) : ofExcept (.ok a) = pure a := rfl

/-- Whatever was noted before, the results are exactly those that `R` allows, and every failure is a
syntax error with a place. -/
def Accepts (m : Noting α) (R : α → Prop) : Prop :=
  ∀ noted, (∀ a, (m.run.run noted).1 = .ok a ↔ R a) ∧
    ∀ failure, (m.run.run noted).1 = .error failure →
      ∃ f, failure = .fault f ∧ f.isSyntaxError = true

variable {m : Noting α} {R : α → Prop}

theorem Accepts.congr {S : α → Prop} (h : m.Accepts R) (hRS : ∀ a, R a ↔ S a) : m.Accepts S :=
  fun noted => ⟨fun a => ((h noted).1 a).trans (hRS a), (h noted).2⟩

theorem accepts_pure (a : α) : (pure a : Noting α).Accepts (a = ·) :=
  fun _ => ⟨fun _ => ⟨fun h => Except.ok.inj h, fun h => congrArg _ h⟩, fun _ h => nomatch h⟩

/-- What fails with a syntax error accepts nothing. -/
theorem accepts_fail {f : Fault} (h : f.isSyntaxError = true) :
    (fail f : Noting α).Accepts fun _ => False :=
  fun _ => ⟨fun _ => ⟨fun hok => (nomatch hok), False.elim⟩,
    fun _ hfailure => ⟨f, (Except.error.inj hfailure).symm, h⟩⟩

theorem accepts_note (warnings : List Warning) : (note warnings).Accepts fun _ => True :=
  fun _ => ⟨fun _ => ⟨fun _ => trivial, fun _ => rfl⟩, fun _ h => nomatch h⟩

theorem accepts_ofExcept {x : Except Fault α} (h : failsBySyntax x = true) :
    (ofExcept x).Accepts (x = .ok ·) := by
  cases x with
  | ok a => exact (accepts_pure a).congr fun b => ⟨fun h => h ▸ rfl, fun h => Except.ok.inj h⟩
  | error f => exact (accepts_fail h).congr fun b => ⟨False.elim, fun h => nomatch h⟩

/-- One reader after another. -/
theorem Accepts.bind {f : α → Noting β} {S : α → β → Prop} (hm : m.Accepts R)
    (hf : ∀ a, R a → (f a).Accepts (S a)) : (m >>= f).Accepts fun b => ∃ a, R a ∧ S a b := by
  intro noted
  obtain ⟨hok, herror⟩ := hm noted
  simp only [ExceptT.run_bind, StateT.run_bind]
  generalize m.run.run noted = result at hok herror ⊢
  obtain ⟨value, noted'⟩ := result
  cases value with
  | error e =>
    refine ⟨fun b => ⟨fun h => (nomatch h), ?_⟩, fun failure h => ?_⟩
    · rintro ⟨a, ha, -⟩
      cases (hok a).mpr ha
    · obtain rfl : e = failure := Except.error.inj h
      exact herror e rfl
  | ok a =>
    have ha : R a := (hok a).mp rfl
    refine ⟨fun b => ((hf a ha noted').1 b).trans ⟨fun hb => ⟨a, ha, hb⟩, ?_⟩, (hf a ha noted').2⟩
    rintro ⟨a', ha', hb⟩
    obtain rfl : a = a' := Except.ok.inj ((hok a').mpr ha')
    exact hb

/-- A last step that makes something of what was read. -/
theorem Accepts.bind_pure {f : α → β} (hm : m.Accepts R) :
    (m >>= fun a => (pure (f a) : Noting β)).Accepts fun b => ∃ a, R a ∧ f a = b :=
  hm.bind fun a _ => accepts_pure (f a)

/-- The same reader on every part. -/
theorem Accepts.mapM {f : α → Noting β} {S : α → β → Prop} {l : List α}
    (hf : ∀ a ∈ l, (f a).Accepts (S a)) : (l.mapM f).Accepts (List.Forall₂ S l) := by
  induction l with
  | nil =>
    exact (accepts_pure []).congr fun bs => ⟨fun h => h ▸ .nil, fun h => by cases h; rfl⟩
  | cons a l ih =>
    obtain ⟨ha, hl⟩ := List.forall_mem_cons.mp hf
    rw [List.mapM_cons]
    refine (ha.bind fun b _ => (ih hl).bind_pure).congr fun bs => ⟨?_, ?_⟩
    · rintro ⟨b, hb, more, hmore, rfl⟩
      exact .cons hb hmore
    · intro h
      cases h with
      | cons hb hmore => exact ⟨_, hb, _, hmore, rfl⟩

end Noting

/-! ### ASCII tokens -/

/-- A piece of a text has no other characters. -/
theorem Text.slice_subset {start stop : Nat} {cs part : List Char}
    (h : slice start stop cs = .ok part) : part ⊆ cs := by
  unfold slice at h
  split at h
  · cases h
  · next front _ hfront =>
    split at h
    · cases h
    · next hpart =>
      obtain rfl := Except.ok.inj h
      rw [(append_of_splitBytes hfront).1, (append_of_splitBytes hpart).1]
      exact fun c hc => List.mem_append_left _ (List.mem_append_right _ hc)

namespace Token

/-- The token is written with ASCII characters, and so is its value. -/
structure IsAscii (t : Token) : Prop where
  text : Text.IsAscii t.text.toList
  value : Text.IsAscii t.value.toList

variable {t : Token}

/-- A string literal that is written with ASCII characters has an ASCII value. -/
theorem Quotes.isAscii (h : t.Quotes) (hascii : Text.IsAscii t.text.toList) : t.IsAscii := by
  refine ⟨hascii, ?_⟩
  unfold value
  split
  · next value hkind =>
    obtain ⟨body, hbody, rfl⟩ := h value hkind
    obtain ⟨stop, -, hslice⟩ := exists_of_bind_ok hbody
    rw [String.toList_ofList]
    exact Lexer.unescape_ascii fun c hc => hascii c (Text.slice_subset hslice hc)
  · exact hascii

end Token

/-- A token that is read in a text, and is written with ASCII characters, has an ASCII value. -/
theorem ReadToken.isAscii {start : Position} {source : String} {t : Token}
    (h : ReadToken start source t) (hascii : Text.IsAscii t.text.toList) : t.IsAscii :=
  h.quotes.isAscii hascii

/-- What is read inside an ASCII token is ASCII. -/
theorem Token.IsAscii.inside {terminator : Terminator} {group t : Token} {r : Reading}
    (h : group.IsAscii) (hread : group.tokenizeInner terminator = .ok r) (ht : t ∈ r.tokens) :
    t.IsAscii := by
  obtain ⟨inner, hinner, hread⟩ := Token.tokenize_of_tokenizeInner hread
  have hown : ReadToken group.innerStart inner t := .own hread ht
  exact hown.isAscii (hown.ascii (Token.ascii_of_inner? hinner h.text))

/-- What is behind the front of an ASCII word is ASCII. -/
theorem Token.IsAscii.splitAt? {word first second : Token} {n : Nat} (h : word.IsAscii)
    (hsplit : word.splitAt? n = some (first, second)) : second.IsAscii := by
  have hsecond := (Token.ascii_of_splitAt? hsplit h.text).2
  unfold Token.splitAt? at hsplit
  split at hsplit
  · obtain ⟨-, rfl⟩ := Prod.mk.inj (Option.some.inj hsplit)
    exact ⟨hsecond, hsecond⟩
  · cases hsplit

end Packwright
