import Packwright.Proofs.Assignment.Commands
import Packwright.Proofs.Session.Parking

/-!
# Assignments with and without blanks

The operator of an assignment is found in front of the value, behind the target or in the middle of a word, as
blanks stand beside it or not, and `let` in front is left out. All of this leads to the same target, operator and
value; only the places of the tokens differ, and those are seen in faults alone.

## Main definitions

- `AssignmentText` — an assignment as it may be written
- `IsStatementAt` — a text is a statement where it stands
- `OutcomeIs` — an outcome, up to the place of a fault

## Main results

- `AssignmentText.exists_statement` — how an assignment is compiled
- `assignments_ignore_spacing` — all ways to write an assignment have the same outcome
-/

namespace Packwright

/-! ### Texts of assignments -/

/-- An assignment as it may be written: blanks stand beside the operator or not, and `let` in front or not. -/
inductive AssignmentText (left : List Char) (o : Operator) (right : List Char) : List Char → Prop
  | plain {gap gap' : List Char} (hgap : ∀ c ∈ gap, Text.isBlank c = true)
    (hgap' : ∀ c ∈ gap', Text.isBlank c = true) :
    AssignmentText left o right (left ++ (gap ++ (o.symbol.toList ++ (gap' ++ right))))
  | withLet {blanks gap gap' : List Char} (hne : blanks ≠ []) (hblanks : ∀ c ∈ blanks, Text.isBlank c = true)
    (hgap : ∀ c ∈ gap, Text.isBlank c = true) (hgap' : ∀ c ∈ gap', Text.isBlank c = true) :
    AssignmentText left o right
      ("let".toList ++ (blanks ++ (left ++ (gap ++ (o.symbol.toList ++ (gap' ++ right))))))

/-- In front of `rest`, the text with a semicolon is a statement where it stands. It is a construct of its own,
and what stands behind it is read as if it stood there alone. -/
structure IsStatementAt (k : Cursor) (text rest : List Char) (st : Statement) : Prop where
  reads : statementsAt k (text ++ ';' :: rest) =
    (statementsAt (k.walk (text ++ [';'])) rest).map (Reading.prepend st)
  single : ∀ later, constructs (st :: later) = .single st :: constructs later

/-- The outcome is this result, up to the place of a fault, and this session. -/
def OutcomeIs (r : Except Cause (List Command)) (s : Session) (x : Except Failure (List Command) × Session) :
    Prop :=
  x.2 = s ∧ match r with
    | .ok commands => x.1 = .ok commands
    | .error cause => ∃ f : Fault, x.1 = .error (.fault f) ∧ f.cause = cause

section

variable {left right text rest : List Char} {score : Score} {o : Operator} {words : List (List Char)}
  {tokens : List Token} {first : Token}

/-- An assignment is made of its words, behind `let` or not. -/
theorem AssignmentText.exists_words (hleft : ScoreWord left score) (hright : ValueWord right)
    (h : AssignmentText left o right text) : ∃ words, AssignmentWords left o right words ∧
      (Lexer.Spaced words text ∨ Lexer.Spaced ("let".toList :: words) text) := by
  have hne := hleft.ne_nil
  have hne' := hright.ne_nil
  have hsymbol := o.symbol_ne_nil
  cases h with
  | plain hgap hgap' =>
    obtain ⟨words, hwords, hspaced⟩ := exists_comparisonWords hne hsymbol hne' hgap hgap'
    exact ⟨words, hwords, .inl hspaced⟩
  | withLet hblanks hblank hgap hgap' =>
    obtain ⟨words, hwords, hspaced⟩ := exists_comparisonWords hne hsymbol hne' hgap hgap'
    exact ⟨words, hwords, .inr (.more 'l' hblanks hblank hspaced)⟩

/-! ### The statement -/

/-- A word with a dollar sign or a colon in it is not reserved. -/
theorem StatementKind.ofWord?_of_marked {w : String} (h : w.toList.any (fun c => c = '$' || c = ':') = true) :
    StatementKind.ofWord? w = none := by
  refine Option.eq_none_iff_forall_ne_some.mpr fun kind hkind => ?_
  unfold ofWord? at hkind
  split at hkind <;> first
    | exact absurd h (by decide)
    | cases hkind

theorem ScoreWord.marked (h : ScoreWord left score) (behind : List Char) :
    (left ++ behind).any (fun c => c = '$' || c = ':') = true := by
  obtain @⟨head, part, score, h, -⟩ := h
  obtain ⟨c, hc, hmark⟩ := h.marked
  exact List.any_eq_true.mpr ⟨c, List.mem_append_left _ (List.mem_append_left _ hc), by simpa using hmark⟩

/-- What begins with a score that an operator stands behind begins a variable statement. -/
theorem ScoreWord.isVariableHead (h : ScoreWord left score) {w : List Char} (hhead : Operator.head w = left)
    (hw : ∃ behind, w = left ++ behind) : isVariableHead (String.ofList w) = true := by
  obtain ⟨behind, rfl⟩ := hw
  have hparse := h.parse?
  simp only [Packwright.isVariableHead, String.toList_ofList, hhead, hparse]
  split
  · rfl
  · next hdollar =>
    obtain @⟨head, part, score, h, -⟩ := h
    cases h with
    | named => exact absurd (by simp [Text.startsWith]) hdollar
    | selector => simp

/-- The words of an assignment are compiled as its operator between its target and its value. -/
theorem exists_of_assignmentWords (hleft : ScoreWord left score) (hright : ValueWord right)
    (hwords : AssignmentWords left o right words)
    (htokens : tokens.map Token.shape = words.map (TokenKind.word, ·)) :
    ∃ first rest t v, tokens = first :: rest ∧ t.shape = (.word, left) ∧ v.shape = (.word, right) ∧
      Statement.kind ⟨tokens⟩ = .variableChange ∧ first.isWord "let" = false ∧
      ∀ block, Compile.plainVariable block first rest = Compile.operation block ⟨t, o, [v]⟩ := by
  obtain ⟨t, v, hsplit, ht, hv⟩ := Assignment.exists_ofTokens? hleft hright hwords htokens
  obtain ⟨w, more, rfl, hhead, hfront⟩ := exists_first_of_assignmentWords hleft hright hwords
  obtain ⟨first, rest, rfl, hfirst, hrest⟩ := List.map_eq_cons_iff.mp htokens
  have hword := Token.word?_of_shape hfirst
  have hmarked : w.any (fun c => c = '$' || c = ':') = true := by
    obtain ⟨behind, rfl⟩ := hfront
    exact hleft.marked behind
  refine ⟨first, rest, t, v, rfl, ht, hv, ?_, ?_, fun block => ?_⟩
  · have hkeyword : Statement.keyword? ⟨first :: rest⟩ = some (String.ofList w) := hword
    have hreserved : StatementKind.ofWord? (String.ofList w) = none :=
      StatementKind.ofWord?_of_marked (by rw [String.toList_ofList]; exact hmarked)
    simp [Statement.kind, hkeyword, hreserved, hleft.isVariableHead hhead hfront]
  · refine Bool.eq_false_iff.mpr fun hlet => ?_
    have htext : first.text.toList = w := (Prod.mk.inj hfirst).2
    rw [Token.isWord, Bool.and_eq_true, decide_eq_true_eq, decide_eq_true_eq] at hlet
    rw [← htext, hlet.2] at hmarked
    exact absurd hmarked (by decide)
  · have hgroup : ∀ group ∈ rest, group.isGroup .round = false := by
      intro group hmem
      have hshapes : rest.map Token.shape = more.map (TokenKind.word, ·) := hrest
      exact Condition.isGroup_of_word (Condition.exists_of_shapes hshapes group hmem).1
    simp only [Compile.plainVariable, hsplit]
    split
    · rw [hgroup _ (List.mem_singleton_self _), if_neg Bool.false_ne_true]
    · rfl

/-- An assignment is a statement, and all that is compiled is its operator between its target and its value. -/
theorem AssignmentText.exists_statement (hleft : ScoreWord left score) (hright : ValueWord right)
    (h : AssignmentText left o right text) (k : Cursor) (rest : List Char) :
    ∃ (st : Statement) (first t v : Token), IsStatementAt k text rest st ∧ t.shape = (.word, left) ∧
      v.shape = (.word, right) ∧ ∀ inner level, Compile.construct inner level (.single st) =
        (Compile.ofExcept (level.check .variableChange first) >>= fun _ =>
          Compile.operation inner ⟨t, o, [v]⟩) := by
  obtain ⟨words, hwords, hspaced⟩ := h.exists_words hleft hright
  have hends : Lexer.WordEnds (';' :: rest) := ⟨by decide, by simp [Lexer.continuesWord]⟩
  have hall := beginsWord_of_assignmentWords hleft hright hwords
  have hplain : ∀ {words : List (List Char)}, ∀ shape ∈ words.map (TokenKind.word, ·), shape.1 ≠ .group .curly := by
    intro words shape hshape
    obtain ⟨w, -, rfl⟩ := List.mem_map.mp hshape
    simp
  have hsingle : ∀ {st : Statement}, st.kind = .variableChange →
      ∀ later, constructs (st :: later) = .single st :: constructs later := fun hkind =>
    Compile.constructs_cons (by simp [hkind]) (by simp [hkind]) (by simp [hkind])
  rcases hspaced with hspaced | hspaced
  · obtain ⟨tokens, htokens, hreads⟩ := statementsAt_of_emits (Lexer.emits_spaced hspaced hall hends)
      (by cases hwords <;> exact List.cons_ne_nil _ _) hplain k
    obtain ⟨first, more, t, v, rfl, ht, hv, hkind, hlet, hoperation⟩ :=
      exists_of_assignmentWords hleft hright hwords htokens
    refine ⟨⟨first :: more⟩, first, t, v, ⟨hreads, hsingle hkind⟩, ht, hv, fun inner level => ?_⟩
    show (Compile.ofExcept (level.check (Statement.kind ⟨first :: more⟩) first) >>= fun _ =>
      Compile.statement inner level (Statement.kind ⟨first :: more⟩) first more) = _
    rw [hkind]
    simp only [Compile.statement, Compile.variableChange, hlet, Bool.false_eq_true, if_false, hoperation]
  · have hword : Lexer.BeginsWord "let".toList :=
      (Lexer.isWholeWord_of_forall (by decide) (List.all_eq_true.mp (by decide))).beginsWord
    obtain ⟨tokens, htokens, hreads⟩ := statementsAt_of_emits
      (Lexer.emits_spaced hspaced (List.forall_mem_cons.mpr ⟨hword, hall⟩) hends) (List.cons_ne_nil _ _) hplain k
    obtain ⟨keyword, tokens, rfl, hkeyword, htokens⟩ := List.map_eq_cons_iff.mp htokens
    obtain ⟨first, more, t, v, rfl, ht, hv, -, -, hoperation⟩ :=
      exists_of_assignmentWords hleft hright hwords htokens
    have hlet : keyword.isWord "let" = true := by
      obtain ⟨hkind, htext⟩ := Prod.mk.inj hkeyword
      simp [Token.isWord, hkind, String.toList_injective htext]
    have hkind : Statement.kind ⟨keyword :: first :: more⟩ = .variableChange := by
      have hfirst : Statement.keyword? ⟨keyword :: first :: more⟩ = some "let" := Token.word?_of_shape hkeyword
      simp [Statement.kind, hfirst, StatementKind.ofWord?]
    refine ⟨⟨keyword :: first :: more⟩, keyword, t, v, ⟨hreads, hsingle hkind⟩, ht, hv, fun inner level => ?_⟩
    show (Compile.ofExcept (level.check (Statement.kind ⟨keyword :: first :: more⟩) keyword) >>= fun _ =>
      Compile.statement inner level (Statement.kind ⟨keyword :: first :: more⟩) keyword (first :: more)) = _
    rw [hkind]
    simp only [Compile.statement, Compile.variableChange, hlet, if_true, hoperation]

/-- All ways to write an assignment have the same outcome: with blanks on each side of the operator or without,
and with `let` in front or without, wherever it stands. -/
theorem assignments_ignore_spacing (ho : o.isBinary = true) (hleft : ScoreWord left score)
    (hright : ValueWord right) (level : Level) (s : Session) :
    ∃ (r : Except Cause (List Command)) (s' : Session), ∀ text, AssignmentText left o right text →
      ∀ (k : Cursor) (rest : List Char), ∃ st : Statement, IsStatementAt k text rest st ∧
        ∀ inner, OutcomeIs r s' ((Compile.construct inner level (.single st)).outcome s) := by
  obtain ⟨x, hx⟩ := hright.exists_operandText s.scope
  by_cases hlevel : ∃ path, level = .inClass path
  · obtain ⟨path, rfl⟩ := hlevel
    refine ⟨.error .onlyFunctionsInClass, s, fun text htext k rest => ?_⟩
    obtain ⟨st, first, t, v, hst, -, -, hcompile⟩ := htext.exists_statement hleft hright k rest
    refine ⟨st, hst, fun inner => ?_⟩
    rw [hcompile]
    exact ⟨rfl, _, rfl, rfl⟩
  · have hcheck : ∀ first, level.check .variableChange first = .ok () := by
      intro first
      cases level with
      | top | body => rfl
      | inClass path => exact absurd ⟨path, rfl⟩ hlevel
    refine ⟨(x.bind (o.command (score.resolveIn s.scope))).map ([·]), o.registering x s, ?_⟩
    intro text htext k rest
    obtain ⟨st, first, t, v, hst, ht, hv, hcompile⟩ := htext.exists_statement hleft hright k rest
    refine ⟨st, hst, fun inner => ?_⟩
    rw [hcompile, hcheck]
    show OutcomeIs _ _ ((Compile.operation inner ⟨t, o, [v]⟩).outcome s)
    rw [Compile.operation_outcome ho hleft hx ht hv]
    refine ⟨rfl, ?_⟩
    cases (x.bind (o.command (score.resolveIn s.scope))).map ([·]) with
    | ok commands => rfl
    | error cause => exact ⟨_, rfl, rfl⟩

end

/-- `$x` stands for a score. -/
theorem scoreWord_x : ScoreWord "$x".toList (.ofVariable "$x") := by
  have htext : ScoreText "$x".toList [] (.ofVariable "$x") :=
    @ScoreText.named ['x'] (by decide) (List.forall_mem_singleton.mpr (by decide))
  exact .mk htext (List.forall_mem_cons.mpr ⟨by decide, List.forall_mem_singleton.mpr (by decide)⟩)

/-- Three spellings in which a minus is glued to the operator, or not. -/
theorem lesser_of_spellings : ScoreWord "$x".toList (.ofVariable "$x") ∧ ValueWord "-5".toList ∧
    ∃ (r : Except Cause (List Command)) (s' : Session), ∀ text ∈ ["$x<-5", "$x <-5", "let $x < -5"],
      ∀ (k : Cursor) (rest : List Char), ∃ st : Statement, IsStatementAt k text.toList rest st ∧
        ∀ inner, OutcomeIs r s' ((Compile.construct inner .body (.single st)).outcome (Session.new {})) := by
  have hvalue : ValueWord "-5".toList := .integer (by decide)
  have hspace : ∀ c ∈ [' '], Text.isBlank c = true := List.forall_mem_singleton.mpr (by decide)
  obtain ⟨r, s', hall⟩ :=
    assignments_ignore_spacing (o := .min) (by decide) scoreWord_x hvalue .body (Session.new {})
  refine ⟨scoreWord_x, hvalue, r, s', fun text htext => ?_⟩
  simp only [List.mem_cons, List.not_mem_nil, or_false] at htext
  rcases htext with rfl | rfl | rfl
  · exact hall _ (@AssignmentText.plain _ _ _ [] [] nofun nofun)
  · exact hall _ (@AssignmentText.plain _ _ _ [' '] [] hspace nofun)
  · exact hall _ (@AssignmentText.withLet _ _ _ [' '] [' '] [' '] (by decide) hspace hspace hspace)

end Packwright
