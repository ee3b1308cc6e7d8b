import Packwright.Proofs.Token.Grouping
import Packwright.Proofs.Token.Pieces
import Packwright.Proofs.Token.Seam

/-!
# Statements behind a case label

The label of a case stands in front of its first statement and is a part of it. With the label in front, a
brace ends the statement by another rule: not if the first word opens a block, but if any word before the
brace does. For a statement that opens a block itself, or has no such word before a brace, both rules agree,
and the label changes no statement but the first.

## Main definitions

- `Reading.shapes` — kinds and texts of all tokens, statement by statement
- `hasInnerBlock` — a brace group behind a word that opens blocks and in front of another token
- `KeepsBehindLabel` — a text is split behind a label as it is without

## Main results

- `groupLexemes_label`, `groupLexemes_kept` — the statements behind two tokens of a label
- `tokenize_label` — the statements of a text behind a label
- `label_not_always_kept` — an idle semicolon in front, or a block inside of a command, makes a difference
-/

namespace Packwright

/-- Kinds and texts of the tokens. -/
def Statement.shapes (s : Statement) : List (TokenKind × List Char) := s.tokens.map Token.shape

/-- Kinds and texts of the tokens, statement by statement. -/
def Reading.shapes (r : Reading) : List (List (TokenKind × List Char)) :=
  r.statements.map Statement.shapes

/-- A brace group stands behind a word that opens blocks and in front of another token. -/
def hasInnerBlock : List Token → Bool
  | [] => false
  | t :: rest => isBlockKeyword t && rest.dropLast.any (·.isGroup .curly) || hasInnerBlock rest

section

variable {current tokens label : List Token} {t : Token} {all : List Lexeme} {r : Reading}
  {first : Statement} {rest : List Statement}

theorem hasInnerBlock_of_curly {front back : List Token} (hfront : front.any isBlockKeyword = true)
    (ht : t.isGroup .curly = true) (hback : back ≠ []) :
    hasInnerBlock (front ++ t :: back) = true := by
  induction front with
  | nil => cases hfront
  | cons u front ih =>
    have hmem : t ∈ (front ++ t :: back).dropLast := by
      rw [List.dropLast_append_cons, List.dropLast_cons_of_ne_nil hback]
      exact List.mem_append_right _ List.mem_cons_self
    rw [List.any_cons, Bool.or_eq_true] at hfront
    rw [List.cons_append, hasInnerBlock, Bool.or_eq_true, Bool.and_eq_true]
    rcases hfront with hu | hfront
    · exact .inl ⟨hu, List.any_eq_true.mpr ⟨t, hmem, ht⟩⟩
    · exact .inr (ih hfront)

theorem isBlockKeyword_of_isGroup {b : Bracket} (h : t.isGroup b = true) : isBlockKeyword t = false := by
  have hkind : t.kind = .group b := by simpa [Token.isGroup] using h
  rw [isBlockKeyword, Token.word?, hkind]

/-- A statement does not end at its first token. -/
theorem closesBlock_first (t : Token) : closesBlock [] t = false := by
  by_cases hcurly : t.isGroup .curly = true
  · rw [closesBlock, List.nil_append, opensBlock, isBlockKeyword_of_isGroup hcurly, List.any_nil, ite_self,
      Bool.and_false]
  · rw [closesBlock, Bool.eq_false_iff.mpr hcurly, Bool.false_and]

/-- Tokens that are no brace groups end no statement. -/
theorem groupLexemes_words (current : List Token) {tokens : List Token}
    (h : ∀ t ∈ tokens, t.isGroup .curly = false) (all : List Lexeme) :
    groupLexemes .required current (tokens.map .token ++ all) =
      groupLexemes .required (current ++ tokens) all := by
  induction tokens generalizing current with
  | nil => rw [List.append_nil]; rfl
  | cons t tokens ih =>
    obtain ⟨ht, htokens⟩ := List.forall_mem_cons.mp h
    have hopen : closesBlock current t = false := by rw [closesBlock, ht, Bool.false_and]
    rw [List.map_cons, List.cons_append, groupLexemes, endsAtBrace_required, hopen,
      if_neg Bool.false_ne_true, ih _ htokens, List.append_assoc]
    rfl

/-- The first statement begins with the tokens that stand in front. -/
theorem prefix_of_groupLexemes (hne : current ≠ []) (h : groupLexemes .required current all = .ok r)
    (hfirst : r.statements = first :: rest) : current <+: first.tokens := by
  induction all generalizing current with
  | nil => simp [groupLexemes, List.getLast?_eq_some_getLast hne] at h
  | cons lexeme all ih =>
    cases lexeme with
    | token t =>
      rw [groupLexemes] at h
      split at h
      · obtain ⟨later, hlater, rfl⟩ := exists_of_map_ok h
        obtain ⟨rfl, -⟩ := List.cons.inj hfirst
        exact List.prefix_append current [t]
      · exact (List.prefix_append current [t]).trans (ih (by simp) h)
    | semicolon p =>
      rw [groupLexemes, if_neg (by simpa using hne)] at h
      obtain ⟨later, hlater, rfl⟩ := exists_of_map_ok h
      obtain ⟨rfl, -⟩ := List.cons.inj hfirst
      exact List.prefix_rfl

theorem prefix_of_groupLexemes_token (h : groupLexemes .required current (.token t :: all) = .ok r)
    (hfirst : r.statements = first :: rest) : current ++ [t] <+: first.tokens := by
  rw [groupLexemes] at h
  split at h
  · obtain ⟨later, hlater, rfl⟩ := exists_of_map_ok h
    obtain ⟨rfl, -⟩ := List.cons.inj hfirst
    exact List.prefix_rfl
  · exact prefix_of_groupLexemes (by simp) h hfirst

/-- Where the first token is no `case`, it decides alone whether a brace ends the statement. -/
theorem closesBlock_cons {head : Token} (hhead : head.isWord "case" = false) (t : Token) :
    closesBlock (head :: tokens) t = (t.isGroup .curly && isBlockKeyword head) := by
  rw [closesBlock, List.cons_append, opensBlock, hhead]
  rfl

/-- Behind a label that lets any word open a block, all tokens decide. -/
theorem closesBlock_label (hlabel : ∀ tokens, opensBlock (label ++ tokens) = tokens.any isBlockKeyword)
    (t : Token) : closesBlock (label ++ tokens) t =
      (t.isGroup .curly && (tokens ++ [t]).any isBlockKeyword) := by
  rw [closesBlock, List.append_assoc, hlabel]

/-- The statements behind a label that lets any word open a block: the label changes none but the first,
as long as no block inside of that ends it. -/
theorem groupLexemes_label (hlabel : ∀ tokens, opensBlock (label ++ tokens) = tokens.any isBlockKeyword)
    {head : Token} (hhead : head.isWord "case" = false)
    (h : groupLexemes .required (head :: tokens) all = .ok r) (hfirst : r.statements = first :: rest)
    (hinner : hasInnerBlock first.tokens = false) :
    ∃ r', groupLexemes .required (label ++ head :: tokens) all = .ok r' ∧
      r'.statements = ⟨label ++ first.tokens⟩ :: rest := by
  induction all generalizing tokens with
  | nil => simp [groupLexemes, List.getLast?_cons] at h
  | cons lexeme all ih =>
    cases lexeme with
    | semicolon p =>
      rw [groupLexemes, if_neg (by simp)] at h
      obtain ⟨later, hlater, rfl⟩ := exists_of_map_ok h
      obtain ⟨rfl, rfl⟩ := List.cons.inj hfirst
      rw [groupLexemes, if_neg (by simp), hlater]
      exact ⟨_, rfl, rfl⟩
    | token t =>
      by_cases hplain : closesBlock (head :: tokens) t = true
      · have hlabelled : closesBlock (label ++ head :: tokens) t = true := by
          rw [closesBlock_cons hhead, Bool.and_eq_true] at hplain
          rw [closesBlock_label hlabel, List.cons_append, List.any_cons, hplain.1, hplain.2]
          rfl
        rw [groupLexemes, endsAtBrace_required, if_pos hplain] at h
        obtain ⟨later, hlater, rfl⟩ := exists_of_map_ok h
        obtain ⟨rfl, rfl⟩ := List.cons.inj hfirst
        rw [groupLexemes, endsAtBrace_required, if_pos hlabelled, hlater]
        exact ⟨_, rfl, by simp⟩
      · rw [groupLexemes, endsAtBrace_required, if_neg hplain] at h
        rw [groupLexemes, endsAtBrace_required]
        by_cases hlabelled : closesBlock (label ++ head :: tokens) t = true
        · rw [if_pos hlabelled]
          rw [closesBlock_label hlabel, Bool.and_eq_true, List.any_append, Bool.or_eq_true] at hlabelled
          obtain ⟨hcurly, hblock⟩ := hlabelled
          have hbefore : (head :: tokens).any isBlockKeyword = true := by
            rcases hblock with hblock | hblock
            · exact hblock
            · simp [isBlockKeyword_of_isGroup hcurly] at hblock
          -- no token is left behind the brace, so a semicolon that is idle here ends the statement there
          cases all with
          | nil => simp [groupLexemes, List.getLast?_cons] at h
          | cons next all =>
            cases next with
            | token u =>
              obtain ⟨more, hmore⟩ := prefix_of_groupLexemes_token h hfirst
              have hinner' := hasInnerBlock_of_curly hbefore hcurly (List.cons_ne_nil u more)
              simp only [List.append_assoc, List.cons_append, List.nil_append] at hmore hinner'
              rw [hmore, hinner] at hinner'
              cases hinner'
            | semicolon p =>
              rw [groupLexemes, if_neg (by simp)] at h
              obtain ⟨later, hlater, rfl⟩ := exists_of_map_ok h
              obtain ⟨rfl, rfl⟩ := List.cons.inj hfirst
              rw [groupLexemes, if_pos List.isEmpty_nil, hlater]
              exact ⟨_, rfl, by simp⟩
        · rw [if_neg hlabelled, List.append_assoc]
          exact ih h

/-- Whatever stands in front of the tokens behind the first one, the statement is read to its end, and no token
of it is lost. If the first token opens a block, that is the label with the same tokens behind it. -/
theorem groupLexemes_kept (hlabel : ∀ tokens, opensBlock (label ++ tokens) = tokens.any isBlockKeyword)
    {head : Token} (hhead : head.isWord "case" = false)
    (hcurrent : isBlockKeyword head = true → current = label ++ head :: tokens)
    (h : groupLexemes .required (head :: tokens) all = .ok r) (hfirst : r.statements = first :: rest) :
    ∃ r' front more, groupLexemes .required current all = .ok r' ∧ r'.statements = front ++ rest ∧
      first.tokens = head :: tokens ++ more ∧ front.flatMap Statement.tokens = current ++ more := by
  induction all generalizing tokens current with
  | nil => simp [groupLexemes, List.getLast?_cons] at h
  | cons lexeme all ih =>
    cases lexeme with
    | semicolon p =>
      rw [groupLexemes, if_neg (by simp)] at h
      obtain ⟨later, hlater, rfl⟩ := exists_of_map_ok h
      obtain ⟨rfl, rfl⟩ := List.cons.inj hfirst
      rw [groupLexemes, hlater]
      cases current with
      | nil => exact ⟨_, [], [], rfl, rfl, (List.append_nil _).symm, rfl⟩
      | cons t current => exact ⟨_, [⟨t :: current⟩], [], rfl, rfl, (List.append_nil _).symm, by simp⟩
    | token t =>
      have hplain : closesBlock (head :: tokens) t = (t.isGroup .curly && isBlockKeyword head) :=
        closesBlock_cons hhead t
      rw [groupLexemes, endsAtBrace_required] at h
      rw [groupLexemes, endsAtBrace_required]
      by_cases hblock : isBlockKeyword head = true
      · -- with a block in front, both end at the same brace
        have hboth : closesBlock current t = closesBlock (head :: tokens) t := by
          rw [hplain, hblock, Bool.and_true, hcurrent hblock, closesBlock_label hlabel, List.cons_append,
            List.any_cons, hblock, Bool.true_or, Bool.and_true]
        rw [hboth]
        split at h
        · next hcloses =>
          obtain ⟨later, hlater, rfl⟩ := exists_of_map_ok h
          obtain ⟨rfl, rfl⟩ := List.cons.inj hfirst
          rw [if_pos hcloses, hlater]
          exact ⟨_, [⟨current ++ [t]⟩], [t], rfl, rfl, rfl, by simp⟩
        · next hopen =>
          rw [if_neg hopen]
          have hcurrent' : isBlockKeyword head = true → current ++ [t] = label ++ head :: (tokens ++ [t]) := by
            intro hblock
            rw [hcurrent hblock, List.append_assoc]
            rfl
          obtain ⟨r', front, more, hr', hrest, htokens, hfront⟩ := ih hcurrent' h
          exact ⟨r', front, t :: more, hr', hrest, by simpa using htokens, by simpa using hfront⟩
      · rw [Bool.not_eq_true] at hblock
        rw [hplain, hblock, Bool.and_false, if_neg Bool.false_ne_true] at h
        have hnever : ∀ {current : List Token}, isBlockKeyword head = true → current = label ++ head :: (tokens ++ [t]) :=
          fun htrue => absurd htrue (by simp [hblock])
        split
        · have hnone : isBlockKeyword head = true → [] = label ++ head :: (tokens ++ [t]) := hnever
          obtain ⟨r', front, more, hr', hrest, htokens, hfront⟩ := ih hnone h
          rw [hr']
          exact ⟨_, ⟨current ++ [t]⟩ :: front, t :: more, rfl, congrArg (List.cons _) hrest, by simpa using htokens,
            by simpa using hfront⟩
        · have hgrown : isBlockKeyword head = true → current ++ [t] = label ++ head :: (tokens ++ [t]) := hnever
          obtain ⟨r', front, more, hr', hrest, htokens, hfront⟩ := ih hgrown h
          exact ⟨r', front, t :: more, hr', hrest, by simpa using htokens, by simpa using hfront⟩

end

/-! ### Behind a label -/

/-- Kinds and texts of the tokens of a label. -/
def labelShapes : List (TokenKind × List Char) :=
  [(.word, ['c', 'a', 's', 'e']), (.word, ['1', ':'])]

/-- The label of a case on a line of its own. -/
def labelLine : List Char := ['c', 'a', 's', 'e', ' ', '1', ':', '\n']

/-- The lexemes of a text behind a label: those of the label, and the ones of the text further down. -/
theorem lexemes_label {p q : Position} {source : List Char} {all : List Lexeme} (hq : q.column = 1)
    (h : lexemes q source = .ok all) : ∃ (label : List Token) (v : Move),
      label.map Token.shape = labelShapes ∧
      lexemes p (labelLine ++ source) = .ok (label.map .token ++ all.map (Lexeme.moved v)) := by
  have hgap : ∀ b ∈ [' '], Text.isBlank b = true := List.forall_mem_singleton.mpr (by decide)
  have hspaced : Lexer.Spaced [['c', 'a', 's', 'e'], ['1', ':']] ['c', 'a', 's', 'e', ' ', '1', ':'] :=
    .more 'c' (List.cons_ne_nil _ _) hgap (.last '1')
  have hcase : Lexer.IsWholeWord ['c', 'a', 's', 'e'] :=
    Lexer.isWholeWord_of_forall (by simp) (List.all_eq_true.mp (by decide))
  have hnumber : Lexer.IsWholeWord ['1', ':'] :=
    Lexer.isWholeWord_of_forall (by simp) (List.all_eq_true.mp (by decide))
  have hwords : ∀ w ∈ [['c', 'a', 's', 'e'], ['1', ':']], Lexer.IsWholeWord w := by
    simp [hcase, hnumber]
  have hbreak : Text.isBlank '\n' = true := by decide
  have hlabel : Lexer.Reads ['c', 'a', 's', 'e', ' ', '1', ':'] ('\n' :: source) labelShapes :=
    Lexer.reads_spaced hspaced hwords (Lexer.wordEnds_blank hbreak)
  have hreads : Lexer.Reads (['c', 'a', 's', 'e', ' ', '1', ':'] ++ ['\n']) source (labelShapes ++ []) :=
    hlabel.append (Lexer.reads_blank hbreak)
  -- behind the line break the text stands in the first column
  have hwalk : Cursor.walk ⟨0, p⟩ labelLine =
      (⟨0, q⟩ : Cursor).moved ⟨8, p.line + 1 - q.line⟩ := by
    have hend : Cursor.walk ⟨0, p⟩ labelLine = ⟨8, ⟨p.line + 1, 1⟩⟩ := by
      simp [labelLine, Cursor.advance, Position.advance, Char.utf8Size]
    have hline : q.line + (p.line + 1 - q.line) = p.line + 1 := by
      rw [UInt32.add_comm, UInt32.sub_add_cancel]
    rw [hend, Cursor.moved, Position.down, hline, hq, Nat.zero_add]
  obtain ⟨later, hlater, rfl⟩ := Lexer.run_moved ⟨8, p.line + 1 - q.line⟩ .seeking ⟨0, q⟩ source all h
  rw [← hwalk] at hlater
  obtain ⟨label, hshapes, hrun⟩ := hreads ⟨0, p⟩ _ hlater
  rw [List.append_nil] at hshapes
  exact ⟨label, _, hshapes, hrun⟩

/-- A text that can be read behind a label has the statements that it has without, but for the label in front
of the first. -/
def KeepsBehindLabel (p q : Position) (source : String) : Prop :=
  ∀ r first rest, tokenize .required q source = .ok r → r.statements = first :: rest →
    first.keyword? ≠ some "case" → ∃ r', tokenize .required p ("case 1:\n" ++ source) = .ok r' ∧
      r'.shapes = (labelShapes ++ first.shapes) :: rest.map Statement.shapes

section

variable {v : Move}

theorem Statement.shapes_moved (s : Statement) : (s.moved v).shapes = s.shapes := by
  rw [Statement.shapes, Statement.moved, List.map_map]
  rfl

theorem Reading.shapes_moved (r : Reading) : (r.moved v).shapes = r.shapes := by
  rw [Reading.shapes, Reading.moved, List.map_map]
  exact List.map_congr_left fun s _ => s.shapes_moved

theorem hasInnerBlock_moved (tokens : List Token) :
    hasInnerBlock (tokens.map (Token.moved v)) = hasInnerBlock tokens := by
  induction tokens with
  | nil => rfl
  | cons t rest ih =>
    rw [List.map_cons, hasInnerBlock, ih, ← List.map_dropLast, List.any_map]
    rfl

end

section

variable {label : List Token}

/-- The tokens of a label are the word `case` and a number with its colon. -/
theorem exists_of_labelShapes (h : label.map Token.shape = labelShapes) : ∃ keyword number : Token,
    label = [keyword, number] ∧ keyword.kind = .word ∧ keyword.text = "case" ∧
      number.kind = .word ∧ number.text = "1:" := by
  obtain ⟨keyword, label, rfl, hkeyword, hlabel⟩ := List.map_eq_cons_iff.mp h
  obtain ⟨number, label, rfl, hnumber, hlabel⟩ := List.map_eq_cons_iff.mp hlabel
  obtain rfl := List.map_eq_nil_iff.mp hlabel
  obtain ⟨hkind, htext⟩ := Prod.mk.inj hkeyword
  obtain ⟨hkind', htext'⟩ := Prod.mk.inj hnumber
  exact ⟨keyword, number, rfl, hkind, String.toList_inj.mp htext, hkind', String.toList_inj.mp htext'⟩

/-- Behind a label any word may open a block. -/
theorem opensBlock_label (h : label.map Token.shape = labelShapes) (tokens : List Token) :
    opensBlock (label ++ tokens) = tokens.any isBlockKeyword := by
  obtain ⟨keyword, number, rfl, hkind, htext, hkind', htext'⟩ := exists_of_labelShapes h
  have hcase : keyword.isWord "case" = true := by simp [Token.isWord, hkind, htext]
  have hplain : isBlockKeyword number = false := by
    simp [isBlockKeyword, Token.word?, hkind', htext', blockKeywords]
  rw [List.cons_append, opensBlock, if_pos hcase, List.cons_append, List.any_cons, hplain]
  rfl

theorem not_curly_of_labelShapes (h : label.map Token.shape = labelShapes) :
    ∀ t ∈ label, t.isGroup .curly = false := by
  obtain ⟨keyword, number, rfl, hkind, -, hkind', -⟩ := exists_of_labelShapes h
  simp [Token.isGroup, hkind, hkind']

end

/-- A text behind a label is read as its lexemes are grouped behind the tokens of the label. -/
theorem exists_tokenize_label {p q : Position} (hq : q.column = 1) {source : String} {all : List Lexeme}
    (hall : lexemes q source.toList = .ok all) : ∃ (label : List Token) (v : Move),
      label.map Token.shape = labelShapes ∧ tokenize .required p ("case 1:\n" ++ source) =
        groupLexemes .required label (all.map (Lexeme.moved v)) := by
  obtain ⟨label, v, hlabel, hlabelled⟩ := lexemes_label (p := p) hq hall
  have htext : ("case 1:\n" ++ source).toList = labelLine ++ source.toList := String.toList_append
  refine ⟨label, v, hlabel, ?_⟩
  rw [tokenize, htext, hlabelled]
  exact groupLexemes_words [] (not_curly_of_labelShapes hlabel) _

section

variable {label : List Token} {v : Move} {all : List Lexeme} {r : Reading}

/-- An idle semicolon behind a label ends it. -/
theorem groupLexemes_label_semicolon (hlabel : label.map Token.shape = labelShapes) {p : Position}
    (h : groupLexemes .required [] (.semicolon p :: all) = .ok r) :
    ∃ r', groupLexemes .required label ((Lexeme.semicolon p :: all).map (Lexeme.moved v)) = .ok r' ∧
      r'.shapes = labelShapes :: r.shapes := by
  obtain ⟨keyword, number, hpair, -⟩ := exists_of_labelShapes hlabel
  rw [groupLexemes, if_pos List.isEmpty_nil] at h
  obtain ⟨r, hr, rfl⟩ := exists_of_map_ok h
  obtain ⟨r', hr', rfl⟩ := groupLexemes_moved v .required all [] r hr
  rw [List.map_nil] at hr'
  rw [List.map_cons, Lexeme.moved, groupLexemes, if_neg (by simp [hpair]), hr']
  refine ⟨_, rfl, ?_⟩
  rw [Reading.shapes, List.map_cons, Statement.shapes, hlabel]
  exact congrArg _ r.shapes_moved

/-- A first token is no block of its own, so the first statement goes on behind it, with the label and
without. -/
theorem groupLexemes_label_token (hlabel : label.map Token.shape = labelShapes) {t : Token}
    (h : groupLexemes .required [] (.token t :: all) = .ok r) :
    groupLexemes .required [t] all = .ok r ∧
      groupLexemes .required label ((Lexeme.token t :: all).map (Lexeme.moved v)) =
        groupLexemes .required (label ++ [t.moved v]) (all.map (Lexeme.moved v)) := by
  have hopen : closesBlock label (t.moved v) = false := by
    by_cases hcurly : t.isGroup .curly = true
    · rw [closesBlock, opensBlock_label hlabel, List.any_cons, isBlockKeyword_moved,
        isBlockKeyword_of_isGroup hcurly]
      exact Bool.and_false _
    · rw [closesBlock, Token.isGroup_moved, Bool.eq_false_iff.mpr hcurly, Bool.false_and]
  rw [groupLexemes, endsAtBrace_required, closesBlock_first, if_neg Bool.false_ne_true] at h
  rw [List.map_cons, Lexeme.moved, groupLexemes, endsAtBrace_required, hopen, if_neg Bool.false_ne_true]
  exact ⟨h, rfl⟩

/-- The first token of a statement that is no case is not its keyword. -/
theorem isWord_case_of_first {t : Token} {first : Statement} {rest : List Statement}
    (h : groupLexemes .required [t] all = .ok r) (hfirst : r.statements = first :: rest)
    (hcase : first.keyword? ≠ some "case") : t.isWord "case" = false := by
  obtain ⟨more, hmore⟩ := prefix_of_groupLexemes (List.cons_ne_nil t []) h hfirst
  rw [Statement.keyword?, ← hmore] at hcase
  rw [Bool.eq_false_iff]
  intro hword
  obtain ⟨hkind, htext⟩ : t.kind = .word ∧ t.text = "case" := by simpa [Token.isWord] using hword
  exact hcase (by simp [Token.word?, hkind, htext])

end

/-- A label does not change how a text is split, as long as the text begins with its first statement and
that holds no block inside. Where the text begins with an idle semicolon, that ends the label, and the
statements of the text stand behind it as they are. In any case the text is read, no token of the label and the
first statement is lost, and the other statements are kept. -/
theorem tokenize_label {p q : Position} (hq : q.column = 1) {source : String} {all : List Lexeme}
    (hall : lexemes q source.toList = .ok all) {r : Reading}
    (hread : tokenize .required q source = .ok r) {first : Statement} {rest : List Statement}
    (hfirst : r.statements = first :: rest) (hcase : first.keyword? ≠ some "case") :
    (∀ s, all.head? = some (.semicolon s) →
      ∃ r', tokenize .required p ("case 1:\n" ++ source) = .ok r' ∧
        r'.shapes = labelShapes :: r.shapes) ∧
    ∀ t, all.head? = some (.token t) →
      (hasInnerBlock first.tokens = false → ∃ r', tokenize .required p ("case 1:\n" ++ source) = .ok r' ∧
        r'.shapes = (labelShapes ++ first.shapes) :: rest.map Statement.shapes) ∧
      ∃ r' front, tokenize .required p ("case 1:\n" ++ source) = .ok r' ∧
        r'.shapes = front ++ rest.map Statement.shapes ∧ front.flatten = labelShapes ++ first.shapes := by
  obtain ⟨label, v, hlabel, hlabelled⟩ := exists_tokenize_label (p := p) hq hall
  have hgroup : groupLexemes .required [] all = .ok r := by
    rwa [tokenize, hall] at hread
  rw [hlabelled]
  constructor
  · intro s hhead
    obtain ⟨later, rfl⟩ := List.head?_eq_some_iff.mp hhead
    exact groupLexemes_label_semicolon hlabel hgroup
  · intro t hfront
    obtain ⟨later, rfl⟩ := List.head?_eq_some_iff.mp hfront
    obtain ⟨hgroup, hbehind⟩ := groupLexemes_label_token (v := v) hlabel hgroup
    have hhead : (t.moved v).isWord "case" = false := by
      rw [Token.isWord_moved]
      exact isWord_case_of_first hgroup hfirst hcase
    obtain ⟨r', hr', rfl⟩ := groupLexemes_moved v .required later [t] r hgroup
    have hfirst' : (r.moved v).statements = first.moved v :: rest.map (Statement.moved v) := by
      rw [Reading.moved, hfirst, List.map_cons]
    have hshapes : (label ++ (first.moved v).tokens).map Token.shape = labelShapes ++ first.shapes := by
      rw [List.map_append, hlabel, ← first.shapes_moved (v := v)]
      rfl
    have hrest : (rest.map (Statement.moved v)).map Statement.shapes = rest.map Statement.shapes := by
      rw [List.map_map]
      exact List.map_congr_left fun s _ => s.shapes_moved
    rw [hbehind]
    constructor
    · intro hinner
      have hinner' : hasInnerBlock (first.moved v).tokens = false := by
        rw [Statement.moved, hasInnerBlock_moved, hinner]
      obtain ⟨r', hread, hstatements⟩ :=
        groupLexemes_label (opensBlock_label hlabel) hhead hr' hfirst' hinner'
      refine ⟨r', hread, ?_⟩
      rw [Reading.shapes, hstatements, List.map_cons, hrest, Statement.shapes, hshapes]
    · obtain ⟨r', front, more, hread, hstatements, htokens, hkept⟩ :=
        groupLexemes_kept (opensBlock_label hlabel) hhead (fun _ => rfl) hr' hfirst'
      refine ⟨r', front.map Statement.shapes, hread, ?_, ?_⟩
      · rw [Reading.shapes, hstatements, List.map_append, hrest]
      · have hall : front.flatMap Statement.tokens = label ++ (first.moved v).tokens := by
          rw [hkept, htokens, List.append_assoc]
        rw [← hshapes, ← hall, List.map_flatMap, List.flatMap_def]
        rfl

/-- With an idle semicolon in front. -/
def idleText : String := ";say a;"

/-- A command with a word that opens blocks and a brace group behind it. -/
def innerBlockText : String := "say if \x7ba:1\x7d foo;"

/-- Statements are not kept behind a label that makes more of them, or fewer. -/
theorem not_keepsBehindLabel {p q : Position} {source : String} {r r' : Reading} {first : Statement}
    {rest : List Statement} (hread : tokenize .required q source = .ok r)
    (hread' : tokenize .required p ("case 1:\n" ++ source) = .ok r')
    (hfirst : r.statements = first :: rest) (hcase : first.keyword? ≠ some "case")
    (hlength : r'.statements.length ≠ r.statements.length) : ¬KeepsBehindLabel p q source := by
  intro hkeeps
  obtain ⟨r'', hr'', hshapes⟩ := hkeeps r first rest hread hfirst hcase
  obtain rfl := Except.ok.inj (hread'.symm.trans hr'')
  have hlength' := congrArg List.length hshapes
  rw [Reading.shapes, List.length_map, List.length_cons, List.length_map] at hlength'
  exact hlength (by rw [hlength', hfirst, List.length_cons])

/-- In both texts the label makes a statement more. -/
theorem label_not_always_kept : ¬KeepsBehindLabel .start .start idleText ∧
    ¬KeepsBehindLabel .start .start innerBlockText := by
  constructor
  · have hread : tokenize .required .start idleText = .ok
        ⟨[⟨[⟨.word, ⟨1, 4, ⟨1, 2⟩⟩, "say"⟩, ⟨.word, ⟨5, 6, ⟨1, 6⟩⟩, "a"⟩]⟩],
          [emptyStatementAt ⟨1, 1⟩]⟩ := by decide +kernel
    have hread' : tokenize .required .start ("case 1:\n" ++ idleText) = .ok
        ⟨[⟨[⟨.word, ⟨0, 4, ⟨1, 1⟩⟩, "case"⟩, ⟨.word, ⟨5, 7, ⟨1, 6⟩⟩, "1:"⟩]⟩,
          ⟨[⟨.word, ⟨9, 12, ⟨2, 2⟩⟩, "say"⟩, ⟨.word, ⟨13, 14, ⟨2, 6⟩⟩, "a"⟩]⟩], []⟩ := by
      decide +kernel
    exact not_keepsBehindLabel hread hread' rfl (by decide) (by decide)
  · have hread : tokenize .required .start innerBlockText = .ok
        ⟨[⟨[⟨.word, ⟨0, 3, ⟨1, 1⟩⟩, "say"⟩, ⟨.word, ⟨4, 6, ⟨1, 5⟩⟩, "if"⟩,
          ⟨.group .curly, ⟨7, 12, ⟨1, 8⟩⟩, "\x7ba:1\x7d"⟩, ⟨.word, ⟨13, 16, ⟨1, 14⟩⟩, "foo"⟩]⟩], []⟩ := by
      decide +kernel
    have hread' : tokenize .required .start ("case 1:\n" ++ innerBlockText) = .ok
        ⟨[⟨[⟨.word, ⟨0, 4, ⟨1, 1⟩⟩, "case"⟩, ⟨.word, ⟨5, 7, ⟨1, 6⟩⟩, "1:"⟩,
          ⟨.word, ⟨8, 11, ⟨2, 1⟩⟩, "say"⟩, ⟨.word, ⟨12, 14, ⟨2, 5⟩⟩, "if"⟩,
          ⟨.group .curly, ⟨15, 20, ⟨2, 8⟩⟩, "\x7ba:1\x7d"⟩]⟩,
          ⟨[⟨.word, ⟨21, 24, ⟨2, 14⟩⟩, "foo"⟩]⟩], []⟩ := by
      decide +kernel
    exact not_keepsBehindLabel hread hread' rfl (by decide) (by decide)

/-- A block and a command behind it. -/
def blockFirstText : String := "if (a) \x7b b; \x7d say c;"

/-- The tokens of the block. -/
def blockFirst : Statement :=
  ⟨[⟨.word, ⟨0, 2, ⟨1, 1⟩⟩, "if"⟩, ⟨.group .round, ⟨3, 6, ⟨1, 4⟩⟩, "(a)"⟩,
    ⟨.group .curly, ⟨7, 13, ⟨1, 8⟩⟩, "\x7b b; \x7d"⟩]⟩

/-- The tokens of the command. -/
def commandBehind : Statement :=
  ⟨[⟨.word, ⟨14, 17, ⟨1, 15⟩⟩, "say"⟩, ⟨.word, ⟨18, 19, ⟨1, 19⟩⟩, "c"⟩]⟩

/-- The block ends behind a label as it does without one, and an idle semicolon ends the label. -/
theorem block_behind_label :
    (tokenize .required .start blockFirstText = .ok ⟨[blockFirst, commandBehind], []⟩ ∧
      ∃ r', tokenize .required .start ("case 1:\n" ++ blockFirstText) = .ok r' ∧
        r'.shapes = [labelShapes ++ blockFirst.shapes, commandBehind.shapes]) ∧
    ∃ r r', tokenize .required .start idleText = .ok r ∧
      tokenize .required .start ("case 1:\n" ++ idleText) = .ok r' ∧
      r'.shapes = labelShapes :: r.shapes := by
  have hread : tokenize .required .start blockFirstText = .ok ⟨[blockFirst, commandBehind], []⟩ := by
    decide +kernel
  have hidle : (tokenize .required .start idleText).toOption.map
      (fun r => r.statements.map Statement.keyword?) = some [some "say"] := by decide +kernel
  have hfront : (lexemes .start blockFirstText.toList).toOption.bind (·.head?) =
      some (.token ⟨.word, ⟨0, 2, ⟨1, 1⟩⟩, "if"⟩) := by decide +kernel
  have hfront' : (lexemes .start idleText.toList).toOption.bind (·.head?) =
      some (.semicolon ⟨1, 1⟩) := by decide +kernel
  constructor
  · obtain ⟨all, hall, -⟩ := exists_of_bind_ok hread
    rw [hall] at hfront
    obtain ⟨-, hkept⟩ := tokenize_label (p := .start) rfl hall hread rfl (by decide)
    exact ⟨hread, (hkept _ hfront).1 (by decide)⟩
  · cases hr : tokenize .required .start idleText with
    | error f =>
      rw [hr] at hidle
      cases hidle
    | ok r =>
      rw [hr] at hidle
      obtain ⟨first, rest, hfirst, hkeyword, -⟩ := List.map_eq_cons_iff.mp (Option.some.inj hidle)
      obtain ⟨all, hall, -⟩ := exists_of_bind_ok hr
      rw [hall] at hfront'
      obtain ⟨hended, -⟩ :=
        tokenize_label (p := .start) rfl hall hr hfirst (by rw [hkeyword]; decide)
      obtain ⟨r', hr', hshapes⟩ := hended _ hfront'
      exact ⟨r, r', rfl, hr', hshapes⟩

end Packwright
