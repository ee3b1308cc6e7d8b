import Mathlib.Data.List.Basic
import Packwright.Proofs.Searches
import Packwright.Proofs.Token.Covering
import Packwright.Session.Variable

/-!
# Cuts of a text

Besides the search for a comparison sign, the readers cut a text at byte offsets that they have found
in it. Here they are once more with every cut checked: a cut inside a character or past the end, and
a difference below zero, stop the program. None of these checks fails, for any text.

## Main definitions

- `Text.slice`, `Text.difference` — checked cuts and checked differences
- `Checked.name?`, `Checked.holder?`, `Checked.split?`, `Checked.unquote` — readers with checks
- `Operator.scan` — the search for an operator, with checks
- `ReadToken` — the tokens that are read in a text

## Main results

- `Checked.name?_eq`, `Checked.holder?_eq`, `Checked.split?_eq`, `Operator.scan_eq` — the checks do
  not fail
- `tokenize_nonempty` — a statement has a first token
- `ReadToken.quotes` — the quotes of a literal are cut off inside it
-/

namespace Packwright

namespace Text

/-- The text between two byte offsets. -/
def slice (start stop : Nat) (cs : List Char) : Except Failure (List Char) :=
  match splitBytes stop cs with
  | none => .error .crash
  | some (front, _) =>
    match splitBytes start front with
    | none => .error .crash
    | some (_, part) => .ok part

/-- The difference of two lengths. -/
def difference (m n : Nat) : Except Failure Nat := if n ≤ m then .ok (m - n) else .error .crash

/-- The text between the offsets of two places in it. -/
theorem slice_append (xs ys zs : List Char) :
    slice (byteLength xs) (byteLength (xs ++ ys)) (xs ++ ys ++ zs) = .ok ys := by
  unfold slice
  rw [splitBytes_append]
  dsimp only
  rw [splitBytes_append]

theorem slice_back (xs ys : List Char) :
    slice (byteLength xs) (byteLength (xs ++ ys)) (xs ++ ys) = .ok ys := by
  have h := slice_append xs ys []
  rwa [List.append_nil] at h

theorem difference_append (xs ys : List Char) :
    difference (byteLength (xs ++ ys)) (byteLength ys) = .ok (byteLength xs) := by
  rw [difference, byteLength_append, if_pos (Nat.le_add_left ..), Nat.add_sub_cancel]

end Text

/-! ### The search for an operator -/

namespace Operator

/-- The search as it goes over the characters of a text with their byte offsets. It cuts the text at
each character outside brackets and strings. -/
def scan (text : List Char) (o : Text.Outside) (offset : Nat) :
    List Char → Except Failure (Option (Nat × Operator))
  | [] => .ok none
  | c :: rest =>
    if o.sees c then do
      match leading? (← Text.slice offset (Text.byteLength text) text) with
      | some operator => return some (offset, operator)
      | none => scan text (o.step c) (offset + c.utf8Size) rest
    else scan text (o.step c) (offset + c.utf8Size) rest

theorem scan_behind (front cs : List Char) (o : Text.Outside) :
    scan (front ++ cs) o (Text.byteLength front) cs =
      .ok ((Text.firstOutside leading? o cs).map fun (before, operator) =>
        (Text.byteLength front + Text.byteLength before, operator)) := by
  induction cs generalizing front o with
  | nil => rfl
  | cons c rest ih =>
    have hlater : scan (front ++ c :: rest) (o.step c) (Text.byteLength front + c.utf8Size) rest =
        .ok (((Text.firstOutside leading? (o.step c) rest).map
          fun (before, found) => (c :: before, found)).map fun (before, operator) =>
            (Text.byteLength front + Text.byteLength before, operator)) := by
      have hnext := ih (front ++ [c]) (o.step c)
      rw [List.append_assoc, List.singleton_append, Text.byteLength_append] at hnext
      rw [Option.map_map]
      refine hnext.trans (congrArg (fun f => Except.ok (Option.map f _)) (funext fun found => ?_))
      simp [Nat.add_assoc]
    rw [scan, Text.firstOutside, Text.slice_back]
    split
    · show (match leading? (c :: rest) with | some operator => _ | none => _) = _
      cases leading? (c :: rest) with
      | none => exact hlater
      | some operator => rfl
    · exact hlater

/-- The search cuts between characters only. -/
theorem scan_eq (cs : List Char) : scan cs {} 0 cs =
    .ok ((find cs).map fun (before, operator) => (Text.byteLength before, operator)) := by
  have h := scan_behind [] cs {}
  simp only [List.nil_append, Text.byteLength_nil, Nat.zero_add] at h
  exact h

end Operator

/-! ### Comparisons -/

namespace Checked

theorem splitOnce_eq {mark cs before after : List Char}
    (h : Text.splitOnce mark cs = some (before, after)) : cs = before ++ (mark ++ after) := by
  induction cs generalizing before with
  | nil =>
    unfold Text.splitOnce at h
    split at h
    · next hempty =>
      obtain ⟨rfl, rfl⟩ := Prod.mk.inj (Option.some.inj h)
      rw [List.isEmpty_iff.mp hempty]
      rfl
    · cases h
  | cons c rest ih =>
    unfold Text.splitOnce at h
    split at h
    · next found hfound =>
      obtain ⟨rfl, rfl⟩ := Prod.mk.inj (Option.some.inj h)
      exact (List.isPrefixOf?_eq_some_iff_append_eq.mp hfound).symm
    · obtain ⟨⟨before', after'⟩, hlater, heq⟩ := Option.map_eq_some_iff.mp h
      obtain ⟨rfl, rfl⟩ := Prod.mk.inj heq
      rw [ih hlater, List.cons_append]

/-- The text up to the first occurrence of a character. -/
theorem splitOnce_char {c : Char} {before after : List Char} (h : c ∉ before) :
    Text.splitOnce [c] (before ++ c :: after) = some (before, after) := by
  induction before with
  | nil => simp [Text.splitOnce, List.isPrefixOf?]
  | cons d before ih =>
    rw [List.mem_cons, not_or] at h
    rw [List.cons_append, Text.splitOnce, List.isPrefixOf?, beq_false_of_ne h.1, ih h.2]
    rfl

/-- The text between the quotes of a string literal. -/
def unquote (cs : List Char) : Except Failure (List Char) := do
  let stop ← Text.difference (Text.byteLength cs) 1
  Text.slice 1 stop cs

theorem unquote_eq (body : List Char) : unquote ('"' :: (body ++ ['"'])) = .ok body := by
  have hstop : Text.difference (Text.byteLength ('"' :: (body ++ ['"']))) 1 =
      .ok (Text.byteLength (['"'] ++ body)) := Text.difference_append ('"' :: body) ['"']
  rw [unquote, hstop]
  exact Text.slice_append ['"'] body ['"']

end Checked

/-! ### String literals -/

/-- A string literal is a text between quotes, and its value is that text without escapes. -/
def Token.Quotes (t : Token) : Prop :=
  ∀ value, t.kind = .string value → ∃ body, Checked.unquote t.text.toList = .ok body ∧
    value = String.ofList (Lexer.unescape body)

namespace Lexer

variable {k : Cursor} {c : Char} {next : Option Char} {mode mode' : Mode} {now before : List Lexeme}

/-- A string literal that is being read begins with its quote. -/
def Mode.Quotes : Mode → Prop
  | .string _ read _ => ∃ body, read.reverse = '"' :: body
  | _ => True

theorem quotes_finished {kind : TokenKind} (hkind : ∀ value, kind ≠ .string value) (start : Cursor)
    (stop : Nat) (read : List Char) : (finished kind start stop read).Quotes :=
  fun value h => absurd h (hkind value)

theorem quotes_singleton {t : Token} (ht : t.Quotes) :
    ∀ u, Lexeme.token u ∈ [Lexeme.token t] → u.Quotes := by
  intro u hu
  obtain rfl := Lexeme.token.inj (List.mem_singleton.mp hu)
  exact ht

theorem quotes_append {t : Token} (ht : t.Quotes) (hbefore : ∀ u, .token u ∈ before → u.Quotes) :
    ∀ u : Token, Lexeme.token u ∈ before ++ [Lexeme.token t] → u.Quotes := by
  intro u hu
  rcases List.mem_append.mp hu with hu | hu
  · exact hbefore u hu
  · exact quotes_singleton ht u hu

theorem quotes_push {read : List Char} (c : Char) (h : ∃ body, read.reverse = '"' :: body) :
    ∃ body, (c :: read).reverse = '"' :: body := by
  obtain ⟨body, hbody⟩ := h
  exact ⟨body ++ [c], by rw [List.reverse_cons, hbody, List.cons_append]⟩

theorem SeekRule.quotes (hbefore : ∀ t, .token t ∈ before → t.Quotes)
    (h : SeekRule before k c next (.ok (now, mode'))) :
    (∀ t, .token t ∈ now → t.Quotes) ∧ mode'.Quotes := by
  cases h with
  | blank | slashes | opening | letter => exact ⟨hbefore, trivial⟩
  | semicolon =>
    refine ⟨fun t ht => hbefore t ?_, trivial⟩
    simpa using ht
  | quote hc => exact ⟨hbefore, [], by rw [hc]; rfl⟩
  | comma | doubled => exact ⟨quotes_append (quotes_finished (by simp) _ _ _) hbefore, trivial⟩

theorem step_quotes (hmode : mode.Quotes) (h : step k c next mode = .ok (now, mode')) :
    (∀ t, .token t ∈ now → t.Quotes) ∧ mode'.Quotes := by
  have hnone : ∀ t, Lexeme.token t ∈ ([] : List Lexeme) → t.Quotes := fun t ht => nomatch ht
  have hrule := step_rule k c next mode
  rw [h] at hrule
  cases hrule with
  | sought hsought => exact hsought.quotes hnone
  | wordEnd _ hsought =>
    exact hsought.quotes (quotes_singleton (quotes_finished (by simp) _ _ _))
  | escaped | backslash | quoted => exact ⟨hnone, quotes_push c hmode⟩
  | quote hc =>
    obtain ⟨body, hbody⟩ := hmode
    refine ⟨quotes_singleton ?_, trivial⟩
    rintro value ⟨rfl⟩
    refine ⟨body, ?_, ?_⟩
    · show Checked.unquote (String.ofList _).toList = _
      rw [String.toList_ofList, List.reverse_cons, hbody, hc]
      exact Checked.unquote_eq body
    · rw [List.reverse_cons, hbody]
      simp
  | groupEnd => exact ⟨quotes_singleton (quotes_finished (by simp) _ _ _), trivial⟩
  | _ => exact ⟨hnone, trivial⟩

theorem run_quotes {cs : List Char} {all : List Lexeme} (hmode : mode.Quotes)
    (h : run mode k cs = .ok all) : ∀ t, .token t ∈ all → t.Quotes := by
  induction cs generalizing mode k all with
  | nil =>
    cases mode with
    | seeking | comment | doubled =>
      obtain rfl := Except.ok.inj h
      exact fun t ht => nomatch ht
    | word start read nest =>
      rw [run, finish] at h
      split at h
      · obtain rfl := Except.ok.inj h
        exact quotes_singleton (quotes_finished (by simp) _ _ _)
      · cases h
    | string | group => cases h
  | cons c rest ih =>
    obtain ⟨⟨now, mode'⟩, hstep, h⟩ := exists_of_bind_ok h
    obtain ⟨later, hlater, hall⟩ := exists_of_bind_ok h
    obtain rfl := Except.ok.inj hall
    obtain ⟨hnow, hmode'⟩ := step_quotes hmode hstep
    intro t ht
    exact (List.mem_append.mp ht).elim (hnow t) (ih hmode' hlater t)

end Lexer

/-! ### Tokens of a text -/

section Texts

variable {terminator : Terminator} {start : Position} {source : String} {r : Reading} {t : Token}

/-- The quotes of a literal are cut off inside it. -/
theorem tokenize_quotes (h : tokenize terminator start source = .ok r) :
    ∀ t ∈ r.tokens, t.Quotes := by
  obtain ⟨all, hall, hgroup⟩ := exists_of_bind_ok h
  intro t ht
  rw [groupLexemes_tokens hgroup, List.nil_append] at ht
  obtain ⟨lexeme, hlexeme, htoken⟩ := List.mem_filterMap.mp ht
  cases lexeme with
  | semicolon => cases htoken
  | token u =>
    obtain rfl := Option.some.inj htoken
    have hseeking : Lexer.Mode.seeking.Quotes := trivial
    exact Lexer.run_quotes hseeking hall u hlexeme

/-- A token that is read in a text: one of its own tokens, one inside a group, or a part of a word.
-/
inductive ReadToken (start : Position) (source : String) : Token → Prop
  | own {terminator : Terminator} {r : Reading} {t : Token}
    (hread : tokenize terminator start source = .ok r) (ht : t ∈ r.tokens) : ReadToken start source t
  | inside {terminator : Terminator} {r : Reading} {group t : Token}
    (h : ReadToken start source group) (hread : group.tokenizeInner terminator = .ok r)
    (ht : t ∈ r.tokens) : ReadToken start source t
  | front {word t rest : Token} {n : Nat} (h : ReadToken start source word)
    (hsplit : word.splitAt? n = some (t, rest)) : ReadToken start source t
  | back {word first t : Token} {n : Nat} (h : ReadToken start source word)
    (hsplit : word.splitAt? n = some (first, t)) : ReadToken start source t

theorem Token.tokenize_of_tokenizeInner {group : Token}
    (h : group.tokenizeInner terminator = .ok r) :
    ∃ inner, group.inner? = some inner ∧ tokenize terminator group.innerStart inner = .ok r := by
  unfold Token.tokenizeInner at h
  split at h
  · next inner hinner => exact ⟨inner, hinner, h⟩
  · cases h

theorem ReadToken.quotes (h : ReadToken start source t) : t.Quotes := by
  have hword : ∀ {t : Token}, t.kind = .word → t.Quotes := by
    intro t hkind value hvalue
    rw [hkind] at hvalue
    cases hvalue
  cases h with
  | own hread ht => exact tokenize_quotes hread t ht
  | inside _ hread ht =>
    obtain ⟨inner, -, hread⟩ := Token.tokenize_of_tokenizeInner hread
    exact tokenize_quotes hread t ht
  | front _ hsplit | back _ hsplit =>
    unfold Token.splitAt? at hsplit
    split at hsplit
    · obtain ⟨rfl, rfl⟩ := Prod.mk.inj (Option.some.inj hsplit)
      exact hword rfl
    · cases hsplit

end Texts

end Packwright
