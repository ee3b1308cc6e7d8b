import Mathlib.Algebra.Order.BigOperators.Group.List
import Mathlib.Algebra.Order.Ring.Nat
import Packwright.Proofs.Session.Outcomes
import Packwright.Proofs.Token.Covering

/-!
# Commands taken as written

A statement that is no construct of the language is a command taken as written. Its line is put
together from its tokens again, so what is between them may change, but only in blanks. Inside a token
each line feed is spelled with two characters, which are no blanks: a command comes back as it was
written exactly if none of its tokens goes over the end of a line.

## Main definitions

- `Text.withoutBlanks` — a text without its blanks
- `Token.spelled` — the text of a token in a command

## Main results

- `Covers.withoutBlanks_plain`, `withoutBlanks_joinTokens` — a covered text and a line, up to blanks
- `length_withoutBlanks_spell` — how much longer a spelled text is
- `single_mem_constructs`, `Compile.construct_vanilla` — what becomes of the statement
- `vanilla_survives_iff` — the command and the text that the statement covers, up to blanks
-/

namespace Packwright

/-! ### Up to blanks -/

namespace Text

/-- A text without its blanks. -/
def withoutBlanks (cs : List Char) : List Char := cs.filter (!isBlank ·)

@[simp] theorem withoutBlanks_append (xs ys : List Char) :
    withoutBlanks (xs ++ ys) = withoutBlanks xs ++ withoutBlanks ys :=
  List.filter_append ..

/-- The text of a command for a piece of text: each line feed is written as `\n`. -/
def spell (cs : List Char) : List Char := replaceChar '\n' ['\\', 'n'] cs

theorem spell_cons (c : Char) (cs : List Char) :
    spell (c :: cs) = (if c = '\n' then ['\\', 'n'] else [c]) ++ spell cs := by
  rw [spell, replaceChar, List.flatMap_cons]
  rfl

theorem spell_of_not_mem {cs : List Char} (h : '\n' ∉ cs) : spell cs = cs := by
  induction cs with
  | nil => rfl
  | cons c cs ih =>
    rw [List.mem_cons, not_or] at h
    rw [spell_cons, if_neg (Ne.symm h.1), ih h.2]
    rfl

/-- Each line feed is a blank, and is spelled with two characters that are none. -/
theorem length_withoutBlanks_spell (cs : List Char) :
    (withoutBlanks (spell cs)).length = (withoutBlanks cs).length + 2 * cs.count '\n' := by
  induction cs with
  | nil => rfl
  | cons c cs ih =>
    have hsplit : withoutBlanks (c :: cs) = withoutBlanks [c] ++ withoutBlanks cs :=
      withoutBlanks_append [c] cs
    rw [spell_cons, hsplit, withoutBlanks_append, List.length_append, List.length_append, ih]
    by_cases hc : c = '\n'
    · subst hc
      have hspelled : (withoutBlanks ['\\', 'n']).length = 2 := by decide
      have hfeed : (withoutBlanks ['\n']).length = 0 := by decide
      rw [if_pos rfl, hspelled, hfeed, List.count_cons_self]
      omega
    · rw [if_neg hc, List.count_cons_of_ne hc]
      omega

end Text

/-- The text of a token in a command. -/
def Token.spelled (t : Token) : List Char := Text.spell t.value.toList

theorem Token.value_eq_text {t : Token} (h : t.isString = false) : t.value = t.text := by
  unfold Token.isString at h
  unfold Token.value
  split
  · next hstring => simp [hstring] at h
  · rfl

theorem Filler.withoutBlanks_eq_nil {after gap blanks : List Char} {p : Position}
    (h : Filler after p gap blanks) : Text.withoutBlanks blanks = [] := by
  induction h with
  | nil => rfl
  | blank hc _ ih => rw [Text.withoutBlanks, List.filter_cons_of_neg (by simp [hc]), ← ih]; rfl
  | comment _ _ _ ih => exact ih

/-- Without comments and blanks, a covered text is that of its tokens. -/
theorem Covers.withoutBlanks_plain {k : Cursor} {tokens : List Token} {covered plain : List Char}
    (h : Covers k tokens covered plain) :
    Text.withoutBlanks plain = tokens.flatMap fun t => Text.withoutBlanks t.text.toList := by
  induction h with
  | last => rw [List.flatMap_singleton]
  | cons _ _ _ hgap _ ih =>
    rw [Text.withoutBlanks_append, Text.withoutBlanks_append, hgap.withoutBlanks_eq_nil,
      List.nil_append, ih, List.flatMap_cons]

theorem withoutBlanks_joinBy (text : Token → List Char) (tokens : List Token) :
    Text.withoutBlanks (joinBy text tokens) = tokens.flatMap fun t => Text.withoutBlanks (text t) := by
  fun_induction joinBy text tokens with
  | case1 => rfl
  | case2 t => rw [List.flatMap_singleton]
  | case3 t next rest ih =>
    have hbetween : Text.withoutBlanks (if t.adjacent next = true then [] else [' ']) = [] := by
      split <;> decide
    rw [Text.withoutBlanks_append, Text.withoutBlanks_append, hbetween, List.append_nil, ih]
    rfl

/-- Without blanks, the line of a command is that of its tokens. -/
theorem withoutBlanks_joinTokens (tokens : List Token) :
    Text.withoutBlanks (joinTokens tokens).toList =
      tokens.flatMap fun t => Text.withoutBlanks t.spelled := by
  rw [joinTokens, String.toList_ofList]
  exact withoutBlanks_joinBy Token.spelled tokens

/-- Tokens that are no strings are spelled as written, up to blanks, exactly if they have no line
feed. -/
theorem flatMap_spelled_eq_iff {tokens : List Token} (h : ∀ t ∈ tokens, t.isString = false) :
    (tokens.flatMap fun t => Text.withoutBlanks t.spelled) =
        (tokens.flatMap fun t => Text.withoutBlanks t.text.toList) ↔
      ∀ t ∈ tokens, '\n' ∉ t.text.toList := by
  have hspelled : ∀ t ∈ tokens, t.spelled = Text.spell t.text.toList := by
    intro t ht
    rw [Token.spelled, Token.value_eq_text (h t ht)]
  constructor
  · intro heq t ht hmem
    -- each line feed makes the line two characters longer
    have hlength := congrArg List.length heq
    rw [List.length_flatMap, List.length_flatMap] at hlength
    have hle : ∀ u ∈ tokens, (Text.withoutBlanks u.text.toList).length ≤
        (Text.withoutBlanks u.spelled).length := by
      intro u hu
      rw [hspelled u hu, Text.length_withoutBlanks_spell]
      omega
    have hlt : (Text.withoutBlanks t.text.toList).length < (Text.withoutBlanks t.spelled).length := by
      have hcount := List.count_pos_iff.mpr hmem
      rw [hspelled t ht, Text.length_withoutBlanks_spell]
      omega
    have hsum := List.sum_lt_sum _ _ hle ⟨t, ht, hlt⟩
    omega
  · intro hlines
    refine List.flatMap_congr fun t ht => ?_
    rw [hspelled t ht, Text.spell_of_not_mem (hlines t ht)]

/-! ### What becomes of the statement -/

/-- A command taken as written stays a construct of its own behind a statement that is added. -/
theorem single_mem_addStatement {st : Statement} (hkind : st.kind = .vanilla) (s : Statement)
    (elses : List Statement) {later : List Construct} (h : .single st ∈ later) :
    .single st ∈ addStatement s elses later := by
  unfold addStatement
  split
  · exact List.mem_cons_of_mem _ h
  · split
    · next w later =>
      split
      · next hw =>
        -- the `while` that a `do` takes is no such command
        rcases List.mem_cons.mp h with heq | h
        · obtain rfl := Construct.single.inj heq
          rw [hkind] at hw
          cases hw
        · exact List.mem_cons_of_mem _ h
      · exact List.mem_cons_of_mem _ h
    · exact List.mem_cons_of_mem _ (List.mem_append_right _ h)
  · exact List.mem_cons_of_mem _ (List.mem_append_right _ h)

/-- A command taken as written is a construct of its own. -/
theorem single_mem_constructs {statements : List Statement} {st : Statement} (hst : st ∈ statements)
    (hkind : st.kind = .vanilla) : .single st ∈ constructs statements := by
  suffices h : .single st ∈ (splitElses statements).2 from List.mem_append_right _ h
  induction statements with
  | nil => cases hst
  | cons s rest ih =>
    rw [splitElses]
    by_cases helse : s.kind = .elseBranch
    · have hne : st ≠ s := by
        rintro rfl
        rw [hkind] at helse
        cases helse
      simp only [helse, if_true]
      exact ih ((List.mem_cons.mp hst).resolve_left hne)
    · simp only [helse, if_false]
      rcases List.mem_cons.mp hst with rfl | hst
      · unfold addStatement
        rw [hkind]
        exact List.mem_cons_self
      · exact single_mem_addStatement hkind s _ (ih hst)

/-- Outside of a class, a command taken as written is one line, and the session stays as it is. -/
theorem Compile.construct_vanilla {st : Statement} (hne : st.tokens ≠ []) (hkind : st.kind = .vanilla)
    {level : Level} (hlevel : ∀ path, level ≠ .inClass path) (inner : Block) (s : Session) :
    (construct inner level (.single st)).outcome s =
      (.ok [.written (joinTokens st.tokens)], s) := by
  obtain ⟨first, rest, htokens⟩ := List.exists_cons_of_ne_nil hne
  simp only [construct, atLevel, htokens, hkind]
  cases level with
  | top | body => rfl
  | inClass path => exact absurd rfl (hlevel path)

/-- A command taken as written comes back up to blanks, exactly if none of its tokens goes over the end
of a line. A statement of that kind without strings covers a text of its source. It is compiled on its
own, to one line, and without changing the session. That line is the text it covers, comments between
tokens and all blanks apart, if and only if no token holds a line feed; else each of those line feeds is
spelled with two characters. -/
theorem vanilla_survives_iff {start : Position} {source : String} {st : Statement}
    (hread : ReadStatement start source st) (hkind : st.kind = .vanilla)
    (hstrings : ∀ t ∈ st.tokens, t.isString = false) :
    (∀ statements, st ∈ statements → .single st ∈ constructs statements) ∧
    ∃ before covered plain after line,
      source.toList = before ++ (covered ++ after) ∧ st.span.slice source = String.ofList covered ∧
      Covers (Cursor.walk ⟨0, start⟩ before) st.tokens covered plain ∧
      (∀ level, (∀ path, level ≠ .inClass path) → ∀ inner s,
        (Compile.construct inner level (.single st)).outcome s = (.ok [.written line], s)) ∧
      Text.withoutBlanks line.toList =
        (st.tokens.flatMap fun t => Text.withoutBlanks (Text.spell t.text.toList)) ∧
      (Text.withoutBlanks line.toList = Text.withoutBlanks plain ↔
        ∀ t ∈ st.tokens, '\n' ∉ t.text.toList) := by
  refine ⟨fun statements hst => single_mem_constructs hst hkind, ?_⟩
  obtain ⟨before, covered, plain, after, hsource, hcovers, hslice⟩ := hread.covers
  have hline := withoutBlanks_joinTokens st.tokens
  refine ⟨before, covered, plain, after, joinTokens st.tokens, hsource, hslice, hcovers,
    fun level hlevel inner s => Compile.construct_vanilla hcovers.tokens_ne_nil hkind hlevel inner s,
    ?_, ?_⟩
  · rw [hline]
    exact List.flatMap_congr fun t ht => by rw [Token.spelled, Token.value_eq_text (hstrings t ht)]
  · rw [hline, hcovers.withoutBlanks_plain]
    exact flatMap_spelled_eq_iff hstrings

/-- A command behind a case label, with a comment between its tokens and blanks inside them. -/
def spreadText : String := "case 1:give @e[a= 1] // to all\n a\x7bb: c\x7d,d;"

/-- What stands behind the word `give`. -/
def spreadTokens : List Token :=
  [⟨.word, ⟨12, 20, ⟨1, 13⟩⟩, "@e[a= 1]"⟩, ⟨.word, ⟨32, 33, ⟨2, 2⟩⟩, "a"⟩,
    ⟨.group .curly, ⟨33, 39, ⟨2, 3⟩⟩, "\x7bb: c\x7d"⟩, ⟨.comma, ⟨39, 40, ⟨2, 9⟩⟩, ","⟩,
    ⟨.word, ⟨40, 41, ⟨2, 10⟩⟩, "d"⟩]

def spreadCommand : Statement := ⟨⟨.word, ⟨7, 11, ⟨1, 8⟩⟩, "give"⟩ :: spreadTokens⟩

/-- A command with a group that goes over the end of a line. -/
def crossingText : String := "say \x7ba:\n1\x7d;"

def crossingCommand : Statement :=
  ⟨[⟨.word, ⟨0, 3, ⟨1, 1⟩⟩, "say"⟩, ⟨.group .curly, ⟨4, 10, ⟨1, 5⟩⟩, "\x7ba:\n1\x7d"⟩]⟩

/-- The first command survives and the second does not. -/
theorem spread_survives_crossing_not :
    (ReadStatement .start spreadText spreadCommand ∧ spreadCommand.kind = .vanilla ∧
      (∀ t ∈ spreadCommand.tokens, t.isString = false) ∧
      ∃ covered plain line, spreadCommand.span.slice spreadText = String.ofList covered ∧
        (∃ k, Covers k spreadCommand.tokens covered plain) ∧
        (∀ inner s, (Compile.construct inner .body (.single spreadCommand)).outcome s =
          (.ok [.written line], s)) ∧
        Text.withoutBlanks line.toList = Text.withoutBlanks plain) ∧
    ReadStatement .start crossingText crossingCommand ∧ crossingCommand.kind = .vanilla ∧
      (∀ t ∈ crossingCommand.tokens, t.isString = false) ∧
      ∃ covered plain line, crossingCommand.span.slice crossingText = String.ofList covered ∧
        (∃ k, Covers k crossingCommand.tokens covered plain) ∧
        (∀ inner s, (Compile.construct inner .top (.single crossingCommand)).outcome s =
          (.ok [.written line], s)) ∧
        Text.withoutBlanks line.toList ≠ Text.withoutBlanks plain := by
  have hspread : ReadStatement .start spreadText spreadCommand := by
    have hread : tokenize .required .start spreadText = .ok ⟨[⟨⟨.word, ⟨0, 4, ⟨1, 1⟩⟩, "case"⟩ ::
        ⟨.word, ⟨5, 11, ⟨1, 6⟩⟩, "1:give"⟩ :: spreadTokens⟩], []⟩ := by decide +kernel
    have hsplit : splitCase ⟨.word, ⟨0, 4, ⟨1, 1⟩⟩, "case"⟩
        (⟨.word, ⟨5, 11, ⟨1, 6⟩⟩, "1:give"⟩ :: spreadTokens) =
        .ok ⟨⟨.word, ⟨5, 11, ⟨1, 6⟩⟩, "1:give"⟩, "1", spreadCommand.tokens⟩ := by decide +kernel
    exact .behindLabel (.whole hread List.mem_cons_self) hsplit (List.cons_ne_nil _ _)
  have hcrossing : ReadStatement .start crossingText crossingCommand := by
    have hread : tokenize .required .start crossingText = .ok ⟨[crossingCommand], []⟩ := by
      decide +kernel
    exact .whole hread List.mem_cons_self
  have hspreadKind : spreadCommand.kind = .vanilla := by decide +kernel
  have hspreadStrings : ∀ t ∈ spreadCommand.tokens, t.isString = false := by decide +kernel
  have hcrossingKind : crossingCommand.kind = .vanilla := by decide +kernel
  have hcrossingStrings : ∀ t ∈ crossingCommand.tokens, t.isString = false := by decide +kernel
  obtain ⟨-, before, covered, plain, after, line, -, hslice, hcovers, hconstruct, -, hiff⟩ :=
    vanilla_survives_iff hspread hspreadKind hspreadStrings
  obtain ⟨-, before', covered', plain', after', line', -, hslice', hcovers', hconstruct', -, hiff'⟩ :=
    vanilla_survives_iff hcrossing hcrossingKind hcrossingStrings
  refine ⟨⟨hspread, hspreadKind, hspreadStrings, covered, plain, line, hslice, ⟨_, hcovers⟩,
    hconstruct .body (by simp), hiff.mpr (by decide +kernel)⟩, hcrossing, hcrossingKind, hcrossingStrings,
    covered', plain', line', hslice', ⟨_, hcovers'⟩, hconstruct' .top (by simp), fun heq => ?_⟩
  exact absurd (hiff'.mp heq) (by decide +kernel)

end Packwright
