import Packwright.Proofs.Token.Balance
import Packwright.Shell.Dialogue

/-!
# Complete inputs

The shell reads lines until no bracket is open, and it counts brackets with a scanner of its own. That
scanner and the lexer go through a text side by side: the one in a region, the other in a mode. They
take every character alike, with two exceptions. A comment that a number sign begins is code to the
shell, and two slashes inside brackets begin a comment for the shell alone. Where neither happens, the
shell counts exactly the brackets that the lexer holds open.

## Main definitions

- `Nest.region`, `Lexer.Mode.Agrees` — the regions that belong to a mode of the lexer
- `Lexer.partsAt`, `Lexer.parts`, `readingsPart` — the scanner and the lexer take a character, or some
  character of a text, differently

## Main results

- `Lexer.step_agrees`, `Lexer.run_agrees` — the scanner counts the brackets that the lexer holds open
- `shell_knows_completeness` — the shell evaluates what has tokens and asks for more where a bracket is
  never closed
-/

namespace Packwright

/-! ### What a character counts -/

namespace Text.Region

variable {c : Char}

@[simp] theorem weight_opening (b : Bracket) : code.weight b.opening = 1 := by cases b <;> rfl

@[simp] theorem weight_closing (b : Bracket) : code.weight b.closing = -1 := by cases b <;> rfl

theorem weight_plain (h : ∀ b : Bracket, c ≠ b.opening ∧ c ≠ b.closing) : code.weight c = 0 := by
  have hround := h .round
  have hcurly := h .curly
  have hsquare := h .square
  simp only [Bracket.opening, Bracket.closing] at hround hcurly hsquare
  simp [weight, hround, hcurly, hsquare]

/-- Code goes on behind a character that begins neither a string nor a comment. -/
theorem step_code {rest : List Char} (hquote : c ≠ '"')
    (hslashes : ¬(c = '/' ∧ rest.head? = some '/')) : code.step c rest = code := by
  simp [step, hquote, hslashes]

end Text.Region

/-- The region of the next character, given the open brackets and the open string. -/
def Nest.region (n : Nest) : Text.Region :=
  if n.quoted then if n.escaped then .escape else .string else .code

namespace Nest

variable {n m : Nest} {p : Position} {c : Char} {rest : List Char}

@[simp] theorem region_within (opened : List Bracket) : (within opened).region = .code := rfl

/-- Through one character the scanner stays in the region of the open brackets and the open string, and
counts what is opened and closed, unless it is the first of two slashes. -/
theorem region_step (hn : n = .within n.opened ∨ n = .quoting n.opened n.escaped)
    (h : n.step p c = .ok m) (hslashes : n.quoted = false → ¬(c = '/' ∧ rest.head? = some '/')) :
    n.region.step c rest = m.region ∧ n.region.weight c + n.opened.length = m.opened.length := by
  rcases hn with hn | hn
  · rw [hn] at h hslashes ⊢
    have hcode := fun hquote => Text.Region.step_code hquote (hslashes rfl)
    rcases step_within h with ⟨hquote, hbracket, rfl⟩ | ⟨rfl, rfl⟩ | ⟨b, rfl, rfl⟩ |
      ⟨b, opened, hopened, rfl, rfl⟩
    · refine ⟨hcode hquote, ?_⟩
      rw [region_within, Text.Region.weight_plain hbracket, Int.zero_add]
    · exact ⟨rfl, Int.zero_add _⟩
    · refine ⟨hcode b.opening_ne_quote, ?_⟩
      rw [region_within, Text.Region.weight_opening]
      simp only [within, List.length_cons]
      omega
    · refine ⟨hcode b.closing_ne_quote, ?_⟩
      rw [region_within, Text.Region.weight_closing]
      simp only [within, hopened, List.length_cons]
      omega
  · rw [hn] at h ⊢
    rcases step_quoting h with ⟨he, rfl⟩ | ⟨he, rfl, rfl⟩ | ⟨he, rfl, rfl⟩ |
      ⟨he, hquote, hslash, -, rfl⟩
    · rw [he]
      exact ⟨rfl, Int.zero_add _⟩
    · rw [he]
      exact ⟨rfl, Int.zero_add _⟩
    · rw [he]
      exact ⟨rfl, Int.zero_add _⟩
    · rw [he]
      refine ⟨?_, Int.zero_add _⟩
      simp [region, quoting, Text.Region.step, hslash, hquote]

end Nest

/-! ### Side by side -/

namespace Lexer

variable {mode mode' : Mode} {region : Text.Region} {k : Cursor} {c : Char} {rest : List Char}
  {now : List Lexeme}

/-- The scanner takes this character otherwise than the lexer: it is a quote or a bracket in a comment
that a number sign begins, or the first of two slashes inside brackets. -/
def partsAt (region : Text.Region) (c : Char) (next : Option Char) : Mode → Bool
  | .comment => region = .code && (c = '"' || (Bracket.ofOpening? c).isSome || Bracket.isClosing c)
  | .word _ _ nest | .group _ _ _ nest =>
    !nest.closed && !nest.quoted && c = '/' && next = some '/'
  | .seeking | .doubled | .string .. => false

/-- The scanner takes some character otherwise than the lexer, up to where the lexer fails. -/
def parts (mode : Mode) (region : Text.Region) (k : Cursor) : List Char → Bool
  | [] => false
  | c :: rest => partsAt region c rest.head? mode ||
      match step k c rest.head? mode with
      | .ok (_, mode) => parts mode (region.step c rest) (k.advance c) rest
      | .error _ => false

/-- How many brackets are open. -/
def Mode.depth (mode : Mode) : Nat := mode.nest.opened.length

/-- The scanner is in the region that belongs to the mode. In a comment it may be in code, where a
number sign began the comment. -/
def Mode.Agrees (region : Text.Region) (rest : List Char) : Mode → Prop
  | .comment => region = .code ∨ region = .comment
  | mode => mode.Fits rest ∧ region = mode.nest.region

/-- Every mode but a comment has a string open, or not. -/
theorem Mode.Fits.nest_cases (h : mode.Fits rest) :
    mode.nest = .within mode.nest.opened ∨ mode.nest = .quoting mode.nest.opened mode.nest.escaped := by
  cases mode with
  | seeking | doubled => exact .inl rfl
  | comment => exact h.elim
  | word => exact Nest.Proper.cases h
  | string => exact .inr rfl
  | group => exact h.1.cases

theorem Mode.Fits.agrees (h : mode.Fits rest) : mode.Agrees mode.nest.region rest := by
  cases mode with
  | comment => exact h.elim
  | seeking | doubled | word | string | group => exact ⟨h, rfl⟩

/-- Outside of brackets and strings two slashes begin a comment. -/
theorem step_slashes (hfits : mode.Fits ('/' :: rest)) (hnest : mode.nest = .within []) :
    ∃ now, step k '/' (some '/') mode = .ok (now, .comment) := by
  cases mode with
  | seeking => exact ⟨[], rfl⟩
  | comment => exact hfits.elim
  | doubled =>
    obtain ⟨c, later, heq, hc⟩ := hfits
    obtain ⟨rfl, -⟩ := List.cons.inj heq
    exact absurd hc (by decide)
  | word start text nest =>
    obtain rfl : nest = .within [] := hnest
    exact ⟨[wordToken start k.offset text], rfl⟩
  | string => cases hnest
  | group start b text nest =>
    obtain rfl : nest = .within [] := hnest
    exact absurd rfl hfits.2

/-- Two slashes that both take alike are in a string, or they begin a comment. -/
theorem comment_of_slashes (hfits : mode.Fits (c :: rest))
    (hsame : partsAt region c rest.head? mode = false) (hquoted : mode.nest.quoted = false)
    (hslashes : c = '/' ∧ rest.head? = some '/') :
    ∃ now, step k c rest.head? mode = .ok (now, .comment) := by
  obtain ⟨rfl, hnext⟩ := hslashes
  rw [hnext] at hsame ⊢
  suffices hnest : mode.nest = .within [] from step_slashes hfits hnest
  cases mode with
  | seeking | doubled => rfl
  | comment => exact hfits.elim
  | string => cases hquoted
  | word start text nest =>
    have hquoted : nest.quoted = false := hquoted
    have hclosed : nest.opened = [] := by simpa [partsAt, hquoted, Nest.closed] using hsame
    exact hfits.closed hclosed
  | group start b text nest =>
    have hquoted : nest.quoted = false := hquoted
    have hclosed : nest.opened = [] := by simpa [partsAt, hquoted, Nest.closed] using hsame
    exact absurd hclosed hfits.2

/-- In a comment nothing is counted. -/
theorem comment_agrees (hregion : region = .code ∨ region = .comment)
    (hsame : partsAt region c rest.head? .comment = false) :
    region.weight c = 0 ∧ (region.step c rest = .code ∨ region.step c rest = .comment) ∧
      (c = '\n' → region.step c rest = .code) := by
  rcases hregion with rfl | rfl
  · simp only [partsAt, decide_true, Bool.true_and, Bool.or_eq_false_iff, decide_eq_false_iff_not,
      Option.isSome_eq_false_iff, Option.isNone_iff_eq_none] at hsame
    obtain ⟨⟨hquote, hopening⟩, hclosing⟩ := hsame
    have hbracket := Bracket.not_bracket_iff.mpr ⟨hopening, hclosing⟩
    refine ⟨Text.Region.weight_plain hbracket, ?_, ?_⟩
    · by_cases hslashes : c = '/' ∧ rest.head? = some '/'
      · exact .inr (by simp [Text.Region.step, hslashes])
      · exact .inl (Text.Region.step_code hquote hslashes)
    · rintro rfl
      rfl
  · refine ⟨rfl, ?_, ?_⟩
    · by_cases hc : c = '\n'
      · exact .inl (by simp [Text.Region.step, hc])
      · exact .inr (by simp [Text.Region.step, hc])
    · rintro rfl
      rfl

/-- Through one character that both take alike, the scanner stays in the region of the mode and counts
the brackets that the lexer opens and closes. -/
theorem step_agrees (hagrees : mode.Agrees region (c :: rest))
    (hsame : partsAt region c rest.head? mode = false)
    (h : step k c rest.head? mode = .ok (now, mode')) :
    mode'.Agrees (region.step c rest) rest ∧ region.weight c + mode.depth = mode'.depth := by
  by_cases hmode : mode = .comment
  · subst hmode
    obtain ⟨hweight, hregion, hline⟩ := comment_agrees hagrees hsame
    obtain ⟨-, rfl⟩ := Prod.mk.inj (Except.ok.inj h)
    by_cases hc : c = '\n'
    · rw [if_pos hc, hweight]
      exact ⟨⟨trivial, hline hc⟩, rfl⟩
    · rw [if_neg hc, hweight]
      exact ⟨hregion, rfl⟩
  obtain ⟨hfits, rfl⟩ : mode.Fits (c :: rest) ∧ region = mode.nest.region := by
    cases mode with
    | comment => exact absurd rfl hmode
    | seeking | doubled | word | string | group => exact hagrees
  by_cases hbegins : mode' = .comment
  · subst hbegins
    obtain ⟨hnest, hc⟩ := step_comment hfits h
    rw [Mode.depth, hnest]
    rcases hc with rfl | ⟨rfl, hnext⟩
    · exact ⟨.inl rfl, rfl⟩
    · exact ⟨.inr (by simp [Text.Region.step, hnext]), rfl⟩
  · have hcode : ∀ now, step k c rest.head? mode ≠ .ok (now, .comment) := by
      intro now' h'
      exact hbegins (Prod.mk.inj (Except.ok.inj (h.symm.trans h'))).2
    have hfollows := step_follows k hfits hcode
    rw [h] at hfollows
    obtain ⟨hfits', hstep⟩ := hfollows
    have hslashes : mode.nest.quoted = false → ¬(c = '/' ∧ rest.head? = some '/') := by
      intro hquoted hslashes
      obtain ⟨now', h'⟩ := comment_of_slashes (k := k) hfits hsame hquoted hslashes
      exact hcode now' h'
    obtain ⟨hregion, hcount⟩ := Nest.region_step hfits.nest_cases hstep hslashes
    rw [hregion]
    exact ⟨hfits'.agrees, hcount⟩

/-- No character is at fault for a bracket that is never closed. -/
theorem step_ne_neverClosed {next : Option Char} {f : Fault} (h : step k c next mode = .error f)
    (opening : Char) : f.cause ≠ .neverClosed opening := by
  have hnest : ∀ {n : Nest}, n.step k.position c = .error f → f.cause ≠ .neverClosed opening := by
    intro n hn
    unfold Nest.step at hn
    grind [Fault.located]
  have hrule := step_rule k c next mode
  rw [h] at hrule
  cases hrule with
  | sought hseek | wordEnd _ hseek =>
    cases hseek with
    | stray => exact Cause.noConfusion
  | selectorFault h | groupFault h => exact hnest h
  | lineBreak => exact Cause.noConfusion

/-- What a text emits, given what its first character does. -/
theorem run_cons (h : step k c rest.head? mode = .ok (now, mode')) :
    run mode k (c :: rest) = (run mode' (k.advance c) rest).map (now ++ ·) := by
  rw [run, h]
  rfl

/-- At the end of a text the lexer holds no bracket open if it accepts, and some if one is never closed. -/
theorem finish_agrees (hagrees : mode.Agrees region []) :
    (∀ all, finish k mode = .ok all → mode.depth = 0) ∧
      ∀ f opening, finish k mode = .error f → f.cause = .neverClosed opening → 0 < mode.depth := by
  cases mode with
  | seeking | comment | doubled => exact ⟨fun _ _ => rfl, fun _ _ h => by cases h⟩
  | word start text nest =>
    by_cases hclosed : nest.opened = []
    · refine ⟨fun _ _ => by simp [Mode.depth, Mode.nest, hclosed], fun f opening h => ?_⟩
      simp [finish, Nest.closed, hclosed] at h
    · refine ⟨fun all h => ?_, fun _ _ _ _ => List.length_pos_iff.mpr hclosed⟩
      simp [finish, Nest.closed, hclosed] at h
  | string =>
    refine ⟨fun _ h => (by cases h), fun f opening h hcause => ?_⟩
    obtain rfl := Except.error.inj h
    cases hcause
  | group start b text nest =>
    exact ⟨fun _ h => (by cases h), fun _ _ _ _ => List.length_pos_iff.mpr hagrees.1.2⟩

/-- Over a text that both take alike, the scanner counts the brackets that the lexer holds open: none at
the end of a text that the lexer accepts, and some at the end of one with a bracket never closed. -/
theorem run_agrees (mode : Mode) (region : Text.Region) (cs : List Char) (k : Cursor)
    (hagrees : mode.Agrees region cs) (hsame : parts mode region k cs = false) :
    (∀ all, run mode k cs = .ok all → Text.openBracketsFrom region cs + mode.depth = 0) ∧
      ∀ f opening, run mode k cs = .error f → f.cause = .neverClosed opening →
        0 < Text.openBracketsFrom region cs + mode.depth := by
  induction cs generalizing mode region k with
  | nil =>
    obtain ⟨hok, herror⟩ := finish_agrees (k := k) hagrees
    rw [Text.openBracketsFrom, Int.zero_add]
    exact ⟨fun all h => Int.natCast_eq_zero.mpr (hok all h),
      fun f opening h hcause => Int.natCast_pos.mpr (herror f opening h hcause)⟩
  | cons c rest ih =>
    rw [parts, Bool.or_eq_false_iff] at hsame
    obtain ⟨hhere, hlater⟩ := hsame
    rcases hstep : step k c rest.head? mode with f | ⟨now, mode'⟩
    · have hrun : run mode k (c :: rest) = .error f := by
        rw [run, hstep]
        rfl
      rw [hrun]
      refine ⟨fun all h => (by cases h), fun f' opening h hcause => ?_⟩
      obtain rfl := Except.error.inj h
      exact absurd hcause (step_ne_neverClosed hstep opening)
    · rw [hstep] at hlater
      obtain ⟨hagrees', hcount⟩ := step_agrees hagrees hhere hstep
      obtain ⟨hok, herror⟩ := ih mode' _ (k.advance c) hagrees' hlater
      have hsum : Text.openBracketsFrom region (c :: rest) + mode.depth =
          Text.openBracketsFrom (region.step c rest) rest + mode'.depth := by
        rw [Text.openBracketsFrom, ← hcount]
        omega
      rw [hsum, run_cons hstep]
      rcases hrun : run mode' (k.advance c) rest with f | later
      · exact ⟨fun all h => (by cases h), fun f' opening h => herror f' opening (hrun.trans h)⟩
      · exact ⟨fun _ _ => hok later hrun, fun f opening h => (by cases h)⟩

end Lexer

/-! ### The shell -/

/-- The shell and the lexer take some character of the text differently. -/
def readingsPart (source : String) : Bool :=
  Lexer.parts .seeking .code ⟨0, .start⟩ source.toList

theorem groupLexemes_ne_neverClosed {terminator : Terminator} {current : List Token}
    {all : List Lexeme} {f : Fault} (h : groupLexemes terminator current all = .error f)
    (opening : Char) : f.cause ≠ .neverClosed opening := by
  fun_induction groupLexemes terminator current all with
  | case1 | case3 => cases h
  | case2 =>
    obtain rfl := Except.error.inj h
    exact Cause.noConfusion
  | case5 _ _ _ _ ih => exact ih h
  | case4 _ _ _ _ ih | case6 _ _ _ _ ih | case7 _ _ _ _ ih =>
    rcases hlater : groupLexemes terminator [] _ with f' | r
    · rw [hlater] at h
      obtain rfl := Except.error.inj h
      exact ih hlater
    · rw [hlater] at h
      cases h

/-- Where the readings do not part, a text that has tokens has no bracket open for the shell, and a text
with a bracket never closed has one. -/
theorem openBrackets_of_tokenize (terminator : Terminator) {source : String}
    (h : readingsPart source = false) :
    (∀ r, tokenize terminator .start source = .ok r → Text.openBrackets source.toList = 0) ∧
      ∀ f opening, tokenize terminator .start source = .error f → f.cause = .neverClosed opening →
        0 < Text.openBrackets source.toList := by
  obtain ⟨hok, herror⟩ :=
    Lexer.run_agrees .seeking .code source.toList ⟨0, .start⟩ ⟨trivial, rfl⟩ h
  rcases hrun : lexemes .start source.toList with f | all
  · rw [tokenize, hrun]
    refine ⟨fun r h => (by cases h), fun f' opening h hcause => ?_⟩
    obtain rfl := Except.error.inj h
    have hcount := herror f opening hrun hcause
    rwa [show ((Lexer.Mode.seeking.depth : Nat) : Int) = 0 from rfl, Int.add_zero] at hcount
  · have hcount : Text.openBrackets source.toList = 0 := (Int.add_zero _).symm.trans (hok all hrun)
    rw [tokenize, hrun]
    refine ⟨fun _ _ => hcount, fun f opening h hcause => ?_⟩
    exact absurd hcause (groupLexemes_ne_neverClosed h opening)

/-- The shell knows which inputs are complete. Unless a comment begun by a number sign holds a quote or a
bracket, or two slashes stand inside brackets, the shell evaluates an input that has tokens, and it asks
for another line where a bracket is never closed. -/
theorem shell_knows_completeness (source : String) (h : readingsPart source = false) :
    (∀ r, tokenize .required .start source = .ok r →
      Text.openBrackets source.toList ≤ 0 ∧
        ∀ (d : Dialogue) (line : String), Dialogue.extend d.held line = source →
          d.take (.line line) = { d with held := none }.evaluate source) ∧
    ∀ f opening, tokenize .required .start source = .error f → f.cause = .neverClosed opening →
      0 < Text.openBrackets source.toList ∧
        ∀ (d : Dialogue) (line : String), Dialogue.extend d.held line = source →
          d.take (.line line) = pure ({ d with held := some source }, true) := by
  obtain ⟨hok, herror⟩ := openBrackets_of_tokenize .required h
  constructor
  · intro r hr
    have hclosed : Text.openBrackets source.toList ≤ 0 := Int.le_of_eq (hok r hr)
    refine ⟨hclosed, fun d line hline => ?_⟩
    simp [Dialogue.take, hline, Text.isComplete, hclosed]
  · intro f opening hf hcause
    have hopen := herror f opening hf hcause
    refine ⟨hopen, fun d line hline => ?_⟩
    have hnot : ¬Text.openBrackets source.toList ≤ 0 := by omega
    simp [Dialogue.take, hline, Text.isComplete, hnot]

/-- Brackets in strings and comments, and slashes in a string and in a comment begun by a number sign. -/
def closedInput : String := "say @e[n=\"]\"] // (\n# note // )\nf(\"//(\");"

/-- The same with a bracket that is never closed. -/
def openInput : String := "say 1; // )\nf(a[\"]\"], # 1"

theorem inputs_know_completeness :
    (readingsPart closedInput = false ∧ (∃ r, tokenize .required .start closedInput = .ok r) ∧
      Text.openBrackets closedInput.toList ≤ 0) ∧
    (readingsPart openInput = false ∧
      (∃ f, tokenize .required .start openInput = .error f ∧ f.cause = .neverClosed '(') ∧
      0 < Text.openBrackets openInput.toList) ∧
    -- a bracket behind a number sign keeps the shell waiting, or lets it go on too early
    ((∃ r, tokenize .required .start "# (" = .ok r) ∧ 0 < Text.openBrackets "# (".toList) ∧
    ((∃ f, tokenize .required .start "# )\n(" = .error f ∧ f.cause = .neverClosed '(') ∧
      Text.openBrackets "# )\n(".toList ≤ 0) ∧
    -- two slashes in a group keep it waiting as well
    ((∃ r, tokenize .required .start "say (//);" = .ok r) ∧
      0 < Text.openBrackets "say (//);".toList) := by
  have hclosed : readingsPart closedInput = false := by decide +kernel
  have hopen : readingsPart openInput = false := by decide +kernel
  have hok : ∀ source : String, (tokenize .required .start source).toOption.isSome = true →
      ∃ r, tokenize .required .start source = .ok r := by
    intro source h
    rcases hr : tokenize .required .start source with f | r
    · rw [hr] at h
      cases h
    · exact ⟨r, rfl⟩
  have hreads := hok closedInput (by decide +kernel)
  have hfault : tokenize .required .start openInput =
      .error (.located (.neverClosed '(') ⟨2, 2⟩) := by decide +kernel
  have hfault' : tokenize .required .start "# )\n(" =
      .error (.located (.neverClosed '(') ⟨2, 1⟩) := by decide +kernel
  obtain ⟨r, hr⟩ := hreads
  refine ⟨⟨hclosed, ⟨r, hr⟩, ((shell_knows_completeness _ hclosed).1 r hr).1⟩,
    ⟨hopen, ⟨_, hfault, rfl⟩, ((shell_knows_completeness _ hopen).2 _ '(' hfault rfl).1⟩, ?_, ?_, ?_⟩
  · exact ⟨hok _ (by decide +kernel), by decide +kernel⟩
  · exact ⟨⟨_, hfault', rfl⟩, by decide +kernel⟩
  · exact ⟨hok _ (by decide +kernel), by decide +kernel⟩

end Packwright
