import Packwright.Proofs.Token.Tiling
import Packwright.Session.Switch

/-!
# The text of a statement

A statement covers the text from its first to its last token. Between two of its tokens stand blanks and
comments only, since a semicolon would have ended it. This holds as well of a statement behind a case
label, whose first token may be cut out of a longer one.

## Main definitions

- `Filler` — blanks and comments, and the blanks alone
- `Covers` — tokens and what is between them make up a text; the same text without the comments
- `ReadStatement` — a statement that is read from a text, behind a case label or not

## Main results

- `groupLexemes_contiguous` — the tokens of a statement follow one another without a semicolon
- `Layout.covers` — lexemes that follow one another cover a text
- `ReadStatement.covers` — what a statement covers is the text of its span
-/

namespace Packwright

/-! ### Between the tokens of a statement -/

/-- Blanks and comments, from a position on and before the text `after`, and the blanks alone. A comment
goes on to the end of its line. -/
inductive Filler (after : List Char) : Position → List Char → List Char → Prop
  | nil (p : Position) : Filler after p [] []
  | blank {p : Position} {c : Char} {rest blanks : List Char} (hc : Text.isBlank c = true)
    (h : Filler after (p.advance c) rest blanks) : Filler after p (c :: rest) (c :: blanks)
  | comment {p : Position} {text rest blanks : List Char} (hcomment : Comment p text)
    (hend : AtLineEnd (rest ++ after)) (h : Filler after (p.walk text) rest blanks) :
    Filler after p (text ++ rest) blanks

/-- From the cursor on, the tokens and what is between them make up the text `covered`, and `plain` is
the same text without the comments. -/
inductive Covers : Cursor → List Token → List Char → List Char → Prop
  | last {k : Cursor} {t : Token} (hne : t.text.toList ≠ []) (hstart : t.span.start = k.offset)
    (hstop : t.span.stop = (k.walk t.text.toList).offset) :
    Covers k [t] t.text.toList t.text.toList
  | cons {k : Cursor} {t : Token} {tokens : List Token} {gap blanks covered plain : List Char}
    (hne : t.text.toList ≠ []) (hstart : t.span.start = k.offset)
    (hstop : t.span.stop = (k.walk t.text.toList).offset)
    (hgap : Filler covered (k.walk t.text.toList).position gap blanks)
    (h : Covers (k.walk (t.text.toList ++ gap)) tokens covered plain) :
    Covers k (t :: tokens) (t.text.toList ++ (gap ++ covered)) (t.text.toList ++ (blanks ++ plain))

theorem AtLineEnd.of_append {xs ys zs : List Char} (h : AtLineEnd (xs ++ (ys ++ zs))) :
    AtLineEnd (xs ++ ys) := by
  intro c hc
  apply h c
  rw [← List.append_assoc, List.head?_append, hc]
  rfl

/-- Only the first character behind the filler matters. -/
theorem Filler.of_append {p : Position} {gap blanks after later : List Char}
    (h : Filler (after ++ later) p gap blanks) : Filler after p gap blanks := by
  induction h with
  | nil p => exact .nil p
  | blank hc _ ih => exact .blank hc ih
  | comment hcomment hend _ ih => exact .comment hcomment hend.of_append ih

namespace Covers

variable {k : Cursor} {t : Token} {tokens : List Token} {covered plain : List Char}

theorem tokens_ne_nil (h : Covers k tokens covered plain) : tokens ≠ [] := by
  cases h <;> exact List.cons_ne_nil _ _

/-- The tokens behind the first one cover the rest of the text. -/
theorem tail (h : Covers k (t :: tokens) covered plain) (hne : tokens ≠ []) :
    ∃ front covered' plain', covered = front ++ covered' ∧
      Covers (k.walk front) tokens covered' plain' := by
  cases h with
  | last => exact absurd rfl hne
  | @cons _ _ _ gap blanks covered plain _ _ _ _ h =>
    exact ⟨t.text.toList ++ gap, covered, plain, (List.append_assoc ..).symm, h⟩

/-- The span from the first to the last token is that of the text. -/
theorem span (h : Covers k tokens covered plain) :
    (Statement.mk tokens).span.start = k.offset ∧
      (Statement.mk tokens).span.stop = (k.walk covered).offset := by
  induction h with
  | last _ hstart hstop => exact ⟨hstart, hstop⟩
  | @cons k t tokens gap blanks covered plain _ hstart _ _ h ih =>
    obtain ⟨next, more, rfl⟩ := List.exists_cons_of_ne_nil h.tokens_ne_nil
    refine ⟨hstart, ?_⟩
    rw [← List.append_assoc, Cursor.walk_append]
    exact ih.2

end Covers

/-! ### Lexemes that follow one another -/

/-- The tokens of a statement follow one another without a semicolon. -/
theorem groupLexemes_contiguous {terminator : Terminator} {current : List Token} {all : List Lexeme}
    {r : Reading} (h : groupLexemes terminator current all = .ok r) :
    ∀ st ∈ r.statements, st.tokens ≠ [] ∧
      st.tokens.map Lexeme.token <:+: current.map Lexeme.token ++ all := by
  intro st hst
  fun_induction groupLexemes terminator current all generalizing r with
  | case1 =>
    obtain rfl := Except.ok.inj h
    cases hst
  | case2 => cases h
  | case3 current last hlast =>
    obtain rfl := Except.ok.inj h
    obtain rfl := List.mem_singleton.mp hst
    rw [List.append_nil]
    refine ⟨fun hnil : current = [] => ?_, List.infix_refl _⟩
    rw [hnil] at hlast
    cases hlast
  | case4 current t rest _ ih =>
    obtain ⟨later, hlater, rfl⟩ := exists_of_map_ok h
    rcases List.mem_cons.mp hst with rfl | hst
    · exact ⟨by simp, [], rest, by simp⟩
    · obtain ⟨hne, hinfix⟩ := ih hlater hst
      refine ⟨hne, hinfix.trans ?_⟩
      exact ⟨current.map Lexeme.token ++ [Lexeme.token t], [], by simp⟩
  | case5 current t rest _ ih =>
    obtain ⟨hne, hinfix⟩ := ih h hst
    refine ⟨hne, ?_⟩
    simpa using hinfix
  | case6 current p rest _ ih =>
    obtain ⟨later, hlater, rfl⟩ := exists_of_map_ok h
    obtain ⟨hne, hinfix⟩ := ih hlater hst
    refine ⟨hne, hinfix.trans ?_⟩
    exact ⟨current.map Lexeme.token ++ [Lexeme.semicolon p], [], by simp⟩
  | case7 current p rest _ ih =>
    obtain ⟨later, hlater, rfl⟩ := exists_of_map_ok h
    rcases List.mem_cons.mp hst with rfl | hst
    · exact ⟨by simpa using ‹¬current.isEmpty = true›, [], .semicolon p :: rest, by simp⟩
    · obtain ⟨hne, hinfix⟩ := ih hlater hst
      refine ⟨hne, hinfix.trans ?_⟩
      exact ⟨current.map Lexeme.token ++ [Lexeme.semicolon p], [], by simp⟩

namespace Layout

variable {k : Cursor} {cs : List Char}

/-- The last lexemes are laid out in an end of the text. -/
theorem drop {before after : List Lexeme} (h : Layout k (before ++ after) cs) :
    ∃ front rest, cs = front ++ rest ∧ Layout (k.walk front) after rest := by
  generalize hall : before ++ after = all at h
  induction h generalizing before with
  | nil k =>
    obtain ⟨-, rfl⟩ := List.append_eq_nil_iff.mp hall
    exact ⟨[], [], rfl, .nil k⟩
  | @blank k all c rest hc h ih =>
    obtain ⟨front, later, rfl, hlater⟩ := ih hall
    exact ⟨c :: front, later, rfl, hlater⟩
  | @comment k all text rest hcomment hend h ih =>
    obtain ⟨front, later, rfl, hlater⟩ := ih hall
    refine ⟨text ++ front, later, (List.append_assoc ..).symm, ?_⟩
    rw [Cursor.walk_append]
    exact hlater
  | @semicolon k all rest h ih =>
    cases before with
    | nil =>
      rw [List.nil_append] at hall
      exact ⟨[], _, rfl, hall ▸ .semicolon h⟩
    | cons first before =>
      obtain ⟨front, later, rfl, hlater⟩ := ih (List.cons.inj hall).2
      exact ⟨';' :: front, later, rfl, hlater⟩
  | @token k all t rest hstands h ih =>
    cases before with
    | nil =>
      rw [List.nil_append] at hall
      exact ⟨[], _, rfl, hall ▸ .token hstands h⟩
    | cons first before =>
      obtain ⟨front, later, rfl, hlater⟩ := ih (List.cons.inj hall).2
      refine ⟨t.text.toList ++ front, later, (List.append_assoc ..).symm, ?_⟩
      rw [Cursor.walk_append]
      exact hlater

/-- Tokens that follow one another cover a text behind a filler. -/
theorem covers {tokens : List Token} {after : List Lexeme} (hne : tokens ≠ [])
    (h : Layout k (tokens.map Lexeme.token ++ after) cs) :
    ∃ gap blanks covered plain rest, cs = gap ++ (covered ++ rest) ∧
      Filler (covered ++ rest) k.position gap blanks ∧ Covers (k.walk gap) tokens covered plain := by
  generalize hall : tokens.map Lexeme.token ++ after = all at h
  induction h generalizing tokens with
  | nil k =>
    obtain ⟨hnil, -⟩ := List.append_eq_nil_iff.mp hall
    exact absurd (List.map_eq_nil_iff.mp hnil) hne
  | @blank k all c rest hc h ih =>
    obtain ⟨gap, blanks, covered, plain, later, rfl, hgap, hcovers⟩ := ih hne hall
    exact ⟨c :: gap, c :: blanks, covered, plain, later, rfl, .blank hc hgap, hcovers⟩
  | @comment k all text rest hcomment hend h ih =>
    obtain ⟨gap, blanks, covered, plain, later, rfl, hgap, hcovers⟩ := ih hne hall
    rw [Cursor.walk_position] at hgap
    refine ⟨text ++ gap, blanks, covered, plain, later, (List.append_assoc ..).symm,
      .comment hcomment hend hgap, ?_⟩
    rw [Cursor.walk_append]
    exact hcovers
  | semicolon =>
    obtain ⟨t, more, rfl⟩ := List.exists_cons_of_ne_nil hne
    cases (List.cons.inj hall).1
  | @token k all t rest hstands h ih =>
    obtain ⟨u, more, rfl⟩ := List.exists_cons_of_ne_nil hne
    obtain ⟨hfirst, hmore⟩ := List.cons.inj hall
    obtain rfl : u = t := Lexeme.token.inj hfirst
    have hstart : u.span.start = k.offset := by rw [hstands.span]
    have hstop : u.span.stop = (k.walk u.text.toList).offset := by rw [hstands.span]
    by_cases hlast : more = []
    · subst hlast
      exact ⟨[], [], _, _, rest, rfl, .nil _, .last hstands.nonempty hstart hstop⟩
    · obtain ⟨gap, blanks, covered, plain, later, rfl, hgap, hcovers⟩ := ih hlast hmore
      rw [← Cursor.walk_append] at hcovers
      have hall : Covers k (u :: more) (u.text.toList ++ (gap ++ covered))
          (u.text.toList ++ (blanks ++ plain)) :=
        .cons hstands.nonempty hstart hstop hgap.of_append hcovers
      exact ⟨[], [], _, _, later, by simp, .nil _, hall⟩

end Layout

/-! ### Behind a case label -/

theorem Text.append_of_splitBytes {n : Nat} {cs xs ys : List Char}
    (h : Text.splitBytes n cs = some (xs, ys)) : cs = xs ++ ys ∧ Text.byteLength xs = n := by
  fun_induction Text.splitBytes n cs generalizing xs ys with
  | case1 cs =>
    obtain ⟨rfl, rfl⟩ := Prod.mk.inj (Option.some.inj h)
    exact ⟨rfl, rfl⟩
  | case2 => cases h
  | case3 n c rest hle ih =>
    obtain ⟨⟨before, after⟩, hsplit, heq⟩ := Option.map_eq_some_iff.mp h
    obtain ⟨rfl, rfl⟩ := Prod.mk.inj heq
    obtain ⟨rfl, hlength⟩ := ih hsplit
    refine ⟨rfl, ?_⟩
    rw [Text.byteLength_cons, hlength]
    omega
  | case4 => cases h

/-- The second half of a word is the end of its text, and its span that of the end. -/
theorem Token.exists_of_splitAt? {t first second : Token} {n : Nat}
    (h : t.splitAt? n = some (first, second)) :
    ∃ head, t.text.toList = head ++ second.text.toList ∧ second.text.toList ≠ [] ∧
      second.span.start = t.span.start + Text.byteLength head ∧ second.span.stop = t.span.stop := by
  unfold Token.splitAt? at h
  split at h
  · next _ _ c head d tail hkind hsplit =>
    obtain ⟨-, rfl⟩ := Prod.mk.inj (Option.some.inj h)
    obtain ⟨htext, hlength⟩ := Text.append_of_splitBytes hsplit
    refine ⟨c :: head, ?_, ?_, ?_, rfl⟩
    · simpa using htext
    · simp
    · rw [hlength]
  · cases h

namespace Covers

variable {k : Cursor} {t : Token} {tokens : List Token} {covered plain : List Char}

/-- What is left of a first token, and the tokens behind it, cover the rest of the text. -/
theorem tailFrom {n : Nat} (h : Covers k (t :: tokens) covered plain)
    (hne : t.tailFrom n ++ tokens ≠ []) :
    ∃ front covered' plain', covered = front ++ covered' ∧
      Covers (k.walk front) (t.tailFrom n ++ tokens) covered' plain' := by
  unfold Token.tailFrom at hne ⊢
  split
  · next first second hsplit =>
    obtain ⟨head, htext, hsecond, hstart', hstop'⟩ := Token.exists_of_splitAt? hsplit
    have hstart : t.span.start = k.offset → second.span.start = (k.walk head).offset := by
      intro hstart
      rw [hstart', hstart, Cursor.walk_offset]
    have hstop : t.span.stop = (k.walk t.text.toList).offset →
        second.span.stop = ((k.walk head).walk second.text.toList).offset := by
      intro hstop
      rw [hstop', hstop, htext, Cursor.walk_append]
    cases h with
    | last _ hs hp =>
      exact ⟨head, second.text.toList, second.text.toList, htext, .last hsecond (hstart hs) (hstop hp)⟩
    | @cons _ _ _ gap blanks covered plain _ hs hp hgap h =>
      refine ⟨head, second.text.toList ++ (gap ++ covered), second.text.toList ++ (blanks ++ plain),
        by rw [htext, List.append_assoc], .cons hsecond (hstart hs) (hstop hp) ?_ ?_⟩
      · rwa [← Cursor.walk_append, ← htext]
      · rwa [← Cursor.walk_append, ← List.append_assoc, ← htext]
  · next hsplit =>
    simp only [hsplit, List.nil_append] at hne
    exact h.tail hne

/-- The tokens behind a case label cover the rest of the text. -/
theorem splitCase {keyword : Token} {head : CaseHead} (h : Covers k (keyword :: tokens) covered plain)
    (hsplit : Packwright.splitCase keyword tokens = .ok head) (hne : head.rest ≠ []) :
    ∃ front covered' plain', covered = front ++ covered' ∧
      Covers (k.walk front) head.rest covered' plain' := by
  cases tokens with
  | nil => cases hsplit
  | cons label tokens =>
    obtain ⟨front, covered', plain', rfl, hlabel⟩ := h.tail (List.cons_ne_nil label tokens)
    simp only [Packwright.splitCase] at hsplit
    split at hsplit
    · obtain rfl := Except.ok.inj hsplit
      obtain ⟨front', covered'', plain'', rfl, hrest⟩ := hlabel.tailFrom hne
      refine ⟨front ++ front', covered'', plain'', (List.append_assoc ..).symm, ?_⟩
      rw [Cursor.walk_append]
      exact hrest
    · cases tokens with
      | nil => cases hsplit
      | cons next tokens =>
        simp only at hsplit
        split at hsplit
        · obtain rfl := Except.ok.inj hsplit
          obtain ⟨front', covered'', plain'', rfl, hnext⟩ :=
            hlabel.tail (List.cons_ne_nil next tokens)
          obtain ⟨front'', covered''', plain''', rfl, hrest⟩ := hnext.tailFrom hne
          refine ⟨front ++ (front' ++ front''), covered''', plain''', by simp, ?_⟩
          rw [Cursor.walk_append, Cursor.walk_append]
          exact hrest
        · cases hsplit

end Covers

/-- A statement that is read from a text: one of its statements, or what stands behind the label of a
case. -/
inductive ReadStatement (start : Position) (source : String) : Statement → Prop
  | whole {terminator : Terminator} {r : Reading} {st : Statement}
    (hread : tokenize terminator start source = .ok r) (hst : st ∈ r.statements) :
    ReadStatement start source st
  | behindLabel {keyword : Token} {tokens : List Token} {head : CaseHead}
    (h : ReadStatement start source ⟨keyword :: tokens⟩)
    (hsplit : splitCase keyword tokens = .ok head) (hne : head.rest ≠ []) :
    ReadStatement start source ⟨head.rest⟩

/-- A statement covers the text of its span. -/
theorem ReadStatement.covers {start : Position} {source : String} {st : Statement}
    (h : ReadStatement start source st) :
    ∃ before covered plain after, source.toList = before ++ (covered ++ after) ∧
      Covers (Cursor.walk ⟨0, start⟩ before) st.tokens covered plain ∧
      st.span.slice source = String.ofList covered := by
  suffices hcovers : ∃ before covered plain after, source.toList = before ++ (covered ++ after) ∧
      Covers (Cursor.walk ⟨0, start⟩ before) st.tokens covered plain by
    obtain ⟨before, covered, plain, after, hsource, hcovers⟩ := hcovers
    obtain ⟨hstart, hstop⟩ := hcovers.span
    refine ⟨before, covered, plain, after, hsource, hcovers, Span.slice_eq hsource ?_ ?_⟩
    · rw [hstart, Cursor.walk_offset]
      exact Nat.zero_add _
    · rw [hstop, Cursor.walk_offset, Cursor.walk_offset, Nat.zero_add]
  induction h with
  | whole hread hst =>
    obtain ⟨all, hall, hgroup⟩ := exists_of_bind_ok hread
    obtain ⟨hne, before, after, hlexemes⟩ := groupLexemes_contiguous hgroup _ hst
    rw [List.map_nil, List.nil_append] at hlexemes
    have hlayout := lexemes_layout hall
    rw [← hlexemes, List.append_assoc] at hlayout
    obtain ⟨front, rest, hsource, hrest⟩ := hlayout.drop
    obtain ⟨gap, blanks, covered, plain, later, rfl, -, hcovers⟩ := hrest.covers hne
    refine ⟨front ++ gap, covered, plain, later, by rw [hsource, List.append_assoc], ?_⟩
    rw [Cursor.walk_append]
    exact hcovers
  | behindLabel _ hsplit hne ih =>
    obtain ⟨before, covered, plain, after, hsource, hcovers⟩ := ih
    obtain ⟨front, covered', plain', rfl, hrest⟩ := hcovers.splitCase hsplit hne
    refine ⟨before ++ front, covered', plain', after, by rw [hsource]; simp, ?_⟩
    rw [Cursor.walk_append]
    exact hrest

end Packwright
