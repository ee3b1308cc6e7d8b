import Packwright.Proofs.Token.Grouping
import Packwright.Proofs.Token.Nesting

/-!
# Semicolons that are warned about

A warning of the tokenizer is about one semicolon of the text. At every depth of groups this is a
semicolon of the whole source, which stands between the brackets of the groups around it and in no token
of what is read there. So the groups around a semicolon are told by where it stands, and readings inside
different groups warn about different semicolons.

## Main definitions

- `Warning.IsAbout` — a warning is about a semicolon of a text
- `ReadsWithin` — what is read inside groups, the first of which is a token of the source
- `OutsideTokens` — bytes inside of groups that are in no token there

## Main results

- `Reading.exists_marks` — the semicolons that a reading warns about
- `OutsideTokens.unique` — the groups around a byte that is in no token
- `ReadsWithin.exists_marks` — the semicolons that are warned about inside groups
-/

namespace Packwright

/-- The warning is about the semicolon behind so many bytes of the text. -/
def Warning.IsAbout (start : Position) (source : String) (w : Warning) (mark : Nat) : Prop :=
  ∃ before after, source.toList = before ++ (';' :: after) ∧ Text.byteLength before = mark ∧
    w = emptyStatementAt (start.walk before)

/-! ### One reading -/

section Layout

variable {k : Cursor} {all : List Lexeme} {cs : List Char}

/-- A semicolon with its position stands at an offset of the text from a cursor on. -/
def SemicolonAt (k : Cursor) (cs : List Char) (p : Position) (mark : Nat) : Prop :=
  ∃ before after, cs = before ++ (';' :: after) ∧ (k.walk before).offset = mark ∧
    (k.walk before).position = p

/-- A text in front. -/
theorem SemicolonAt.prepend {p : Position} {mark : Nat} (front : List Char)
    (h : SemicolonAt (k.walk front) cs p mark) : SemicolonAt k (front ++ cs) p mark := by
  obtain ⟨before, after, rfl, hmark, hposition⟩ := h
  rw [← Cursor.walk_append] at hmark hposition
  exact ⟨front ++ before, after, (List.append_assoc ..).symm, hmark, hposition⟩

/-- The semicolons among the lexemes stand one behind the other, and in no token. -/
theorem Layout.exists_marks (h : Layout k all cs) :
    ∃ marks : List Nat, List.Forall₂ (SemicolonAt k cs) (all.filterMap Lexeme.semicolon?) marks ∧
      marks.Pairwise (· < ·) ∧ ∀ mark ∈ marks, k.offset ≤ mark ∧
        ∀ t ∈ all.filterMap Lexeme.token?, mark < t.span.start ∨ t.span.stop ≤ mark := by
  induction h with
  | nil k => exact ⟨[], .nil, .nil, List.forall_mem_nil _⟩
  | @blank k all c rest hc h ih =>
    obtain ⟨marks, hmarks, hless, hout⟩ := ih
    refine ⟨marks, hmarks.imp fun _ _ => SemicolonAt.prepend [c], hless, fun mark hmark => ?_⟩
    obtain ⟨hle, htokens⟩ := hout mark hmark
    exact ⟨(Nat.le_add_right _ _).trans hle, htokens⟩
  | @comment k all text rest hcomment hend h ih =>
    obtain ⟨marks, hmarks, hless, hout⟩ := ih
    refine ⟨marks, hmarks.imp fun _ _ => SemicolonAt.prepend _, hless, fun mark hmark => ?_⟩
    obtain ⟨hle, htokens⟩ := hout mark hmark
    rw [Cursor.walk_offset] at hle
    exact ⟨(Nat.le_add_right _ _).trans hle, htokens⟩
  | @semicolon k all rest h ih =>
    obtain ⟨marks, hmarks, hless, hout⟩ := ih
    have hnext : (k.advance ';').offset = k.offset + 1 := rfl
    refine ⟨k.offset :: marks, ?_, ?_, ?_⟩
    · exact .cons ⟨[], rest, rfl, rfl, rfl⟩ (hmarks.imp fun _ _ => SemicolonAt.prepend [';'])
    · refine .cons (fun mark hmark => ?_) hless
      have hle := (hout mark hmark).1
      omega
    · refine List.forall_mem_cons.mpr ⟨⟨le_rfl, fun t ht => .inl ?_⟩, fun mark hmark => ?_⟩
      · have hle := h.tiles.offset_le_of_mem ht
        omega
      · obtain ⟨hle, htokens⟩ := hout mark hmark
        exact ⟨by omega, htokens⟩
  | @token k all t rest hstands h ih =>
    obtain ⟨marks, hmarks, hless, hout⟩ := ih
    refine ⟨marks, hmarks.imp fun _ _ => SemicolonAt.prepend _, hless, fun mark hmark => ?_⟩
    obtain ⟨hle, htokens⟩ := hout mark hmark
    have hstop : t.span.stop = (k.walk t.text.toList).offset := by rw [hstands.span]
    refine ⟨?_, List.forall_mem_cons.mpr ⟨.inr (hstop.trans_le hle), htokens⟩⟩
    rw [Cursor.walk_offset] at hle
    exact (Nat.le_add_right _ _).trans hle

end Layout

/-- The warnings are about some of the semicolons, in their order. -/
theorem groupLexemes_warnings {terminator : Terminator} {current : List Token} {all : List Lexeme}
    {r : Reading} (h : groupLexemes terminator current all = .ok r) :
    r.warnings.Sublist ((all.filterMap Lexeme.semicolon?).map emptyStatementAt) := by
  fun_induction groupLexemes terminator current all generalizing r with
  | case1 | case3 =>
    obtain rfl := Except.ok.inj h
    exact List.Sublist.refl _
  | case2 => cases h
  | case4 _ _ _ _ ih =>
    obtain ⟨later, hlater, rfl⟩ := exists_of_map_ok h
    have hrest := ih hlater
    exact hrest
  | case5 _ _ _ _ ih => exact ih h
  | case6 p _ _ _ ih =>
    obtain ⟨later, hlater, rfl⟩ := exists_of_map_ok h
    exact (ih hlater).cons_cons _
  | case7 p _ _ _ ih =>
    obtain ⟨later, hlater, rfl⟩ := exists_of_map_ok h
    exact (ih hlater).cons _

/-- What corresponds to a list has a part that corresponds to a part of it. -/
theorem exists_sublist_of_forall₂ {α β : Type} {R : α → β → Prop} {xs ys : List α} {zs : List β}
    (hsub : xs.Sublist ys) (h : List.Forall₂ R ys zs) :
    ∃ zs', List.Forall₂ R xs zs' ∧ zs'.Sublist zs := by
  induction hsub generalizing zs with
  | slnil => exact ⟨[], .nil, List.nil_sublist _⟩
  | cons y _ ih =>
    cases h with
    | cons _ h =>
      obtain ⟨zs', hzs, hsub⟩ := ih h
      exact ⟨zs', hzs, hsub.cons _⟩
  | cons_cons y _ ih =>
    cases h with
    | cons hy h =>
      obtain ⟨zs', hzs, hsub⟩ := ih h
      exact ⟨_ :: zs', .cons hy hzs, hsub.cons_cons _⟩

/-- Each entry of a list that corresponds to another one does so to an entry of it. -/
theorem exists_of_mem_right {α β : Type} {R : α → β → Prop} {xs : List α} {ys : List β} {y : β}
    (h : List.Forall₂ R xs ys) (hy : y ∈ ys) : ∃ x, R x y := by
  induction h with
  | nil => cases hy
  | cons hxy _ ih =>
    rcases List.mem_cons.mp hy with rfl | hy
    · exact ⟨_, hxy⟩
    · exact ih hy

section Reading

variable {terminator terminator' : Terminator} {start : Position} {source : String} {r r' : Reading}

/-- Each warning is about a semicolon of the text, no two about the same one, and none is in a token. -/
theorem Reading.exists_marks (h : tokenize terminator start source = .ok r) :
    ∃ marks : List Nat, List.Forall₂ (Warning.IsAbout start source) r.warnings marks ∧
      marks.Pairwise (· < ·) ∧
      ∀ mark ∈ marks, ∀ t ∈ r.tokens, mark < t.span.start ∨ t.span.stop ≤ mark := by
  obtain ⟨all, hall, hgroup⟩ := exists_of_bind_ok h
  obtain ⟨marks, hmarks, hless, hout⟩ := (lexemes_layout hall).exists_marks
  have habout : List.Forall₂ (Warning.IsAbout start source)
      ((all.filterMap Lexeme.semicolon?).map emptyStatementAt) marks := by
    refine List.forall₂_map_left_iff.mpr (hmarks.imp fun p mark hmark => ?_)
    obtain ⟨before, after, hsource, hoffset, rfl⟩ := hmark
    rw [Cursor.walk_offset, Nat.zero_add] at hoffset
    exact ⟨before, after, hsource, hoffset, by rw [Cursor.walk_position]⟩
  obtain ⟨idle, hidle, hsub⟩ := exists_sublist_of_forall₂ (groupLexemes_warnings hgroup) habout
  refine ⟨idle, hidle, hless.sublist hsub, fun mark hmark => ?_⟩
  rw [groupLexemes_tokens hgroup]
  exact (hout mark (hsub.subset hmark)).2

/-- Whether statements have to be terminated, the tokens are the same. -/
theorem Reading.tokens_eq (h : tokenize terminator start source = .ok r)
    (h' : tokenize terminator' start source = .ok r') : r.tokens = r'.tokens := by
  obtain ⟨all, hall, hgroup⟩ := exists_of_bind_ok h
  obtain ⟨all', hall', hgroup'⟩ := exists_of_bind_ok h'
  rw [hall] at hall'
  obtain rfl := Except.ok.inj hall'
  rw [groupLexemes_tokens hgroup, groupLexemes_tokens hgroup']

end Reading

/-! ### Inside groups -/

/-- What is read inside groups, each of which is a token of what is read inside the one before; the first
one is a token of the source. -/
inductive ReadsWithin (terminator : Terminator) (r : Reading) : Position → String → List Token → Prop
  | whole {start : Position} {source : String} (hread : tokenize terminator start source = .ok r) :
    ReadsWithin terminator r start source []
  | inner {outer : Terminator} {around : Reading} {start : Position} {source inner : String}
    {group : Token} {groups : List Token} (haround : tokenize outer start source = .ok around)
    (hgroup : group ∈ around.tokens) (hinner : group.inner? = some inner)
    (h : ReadsWithin terminator r group.innerStart inner groups) :
    ReadsWithin terminator r start source (group :: groups)

/-- A byte of the source stands inside the groups, and there in no token. -/
inductive OutsideTokens : Position → String → List Token → Nat → Prop
  | here {terminator : Terminator} {r : Reading} {start : Position} {source : String} {mark : Nat}
    (hread : tokenize terminator start source = .ok r)
    (hout : ∀ t ∈ r.tokens, mark < t.span.start ∨ t.span.stop ≤ mark) :
    OutsideTokens start source [] mark
  | inner {terminator : Terminator} {r : Reading} {start : Position} {source inner : String}
    {group : Token} {groups : List Token} {mark inside : Nat}
    (hread : tokenize terminator start source = .ok r) (hgroup : group ∈ r.tokens)
    (hinner : group.inner? = some inner) (hmark : mark = group.innerOffset + inside)
    (hinside : inside < Text.byteLength inner.toList)
    (h : OutsideTokens group.innerStart inner groups inside) :
    OutsideTokens start source (group :: groups) mark

section

variable {terminator : Terminator} {start : Position} {source inner : String} {r : Reading}
  {group : Token}

/-- A group stands in the source with its inside between two brackets. -/
theorem exists_around (hread : tokenize terminator start source = .ok r) (hgroup : group ∈ r.tokens)
    (hinner : group.inner? = some inner) :
    ∃ before b after,
      source.toList = before ++ (Bracket.opening b :: (inner.toList ++ (Bracket.closing b :: after))) ∧
      group.innerOffset = Text.byteLength (before ++ [Bracket.opening b]) ∧
      group.innerStart = start.walk (before ++ [Bracket.opening b]) ∧
      group.span.stop = group.innerOffset + Text.byteLength inner.toList + 1 := by
  have hread' : group.tokenizeInner terminator = tokenize terminator group.innerStart inner := by
    rw [Token.tokenizeInner, hinner]
  obtain ⟨b, hkind⟩ : ∃ b, group.kind = .group b := by
    unfold Token.inner? at hinner
    split at hinner
    · next b _ _ _ hkind _ => exact ⟨b, hkind⟩
    · cases hinner
  obtain ⟨inside, -, htext⟩ := tokenize_groupText hread hgroup hkind
  rw [Token.inner?_eq hkind htext] at hinner
  obtain rfl := Option.some.inj hinner
  obtain ⟨before, after, hsource, hstands⟩ := (tokenize_tiles hread).exists_of_mem hgroup
  obtain ⟨hstart, hstop, -, hposition⟩ := hstands.slice hsource
  have hopening : b.opening.utf8Size = 1 := by cases b <;> rfl
  have hclosing : b.closing.utf8Size = 1 := by cases b <;> rfl
  refine ⟨before, b, after, ?_, ?_, ?_, ?_⟩
  · rw [hsource, htext, String.toList_ofList]
    simp
  · rw [Token.innerOffset, hstart, Text.byteLength_append, Text.byteLength_cons, hopening,
      Text.byteLength_nil]
  · rw [Token.innerStart, hposition, Position.walk_append, Position.right_one _ b]
  · rw [hstop, Token.innerOffset, hstart, htext, String.toList_ofList]
    simp [hopening, hclosing]
    omega

/-- A byte inside a group is in that token. -/
theorem inside_span (hread : tokenize terminator start source = .ok r) (hgroup : group ∈ r.tokens)
    (hinner : group.inner? = some inner) {inside : Nat} (hinside : inside < Text.byteLength inner.toList) :
    group.span.start < group.innerOffset + inside ∧ group.innerOffset + inside < group.span.stop := by
  obtain ⟨before, b, after, -, -, -, hstop⟩ := exists_around hread hgroup hinner
  have hoffset : group.innerOffset = group.span.start + 1 := rfl
  omega

/-- Tokens that share a byte are the same. -/
theorem eq_of_common (hread : tokenize terminator start source = .ok r) {t u : Token} (ht : t ∈ r.tokens)
    (hu : u ∈ r.tokens) {mark : Nat} (hin : t.span.start < mark ∧ mark < t.span.stop)
    (hin' : u.span.start < mark ∧ mark < u.span.stop) : t = u := by
  by_contra hne
  have hsymm : Std.Symm fun t u : Token => t.span.stop ≤ u.span.start ∨ u.span.stop ≤ t.span.start :=
    ⟨fun _ _ => Or.symm⟩
  have hpairwise : r.tokens.Pairwise
      fun t u => t.span.stop ≤ u.span.start ∨ u.span.stop ≤ t.span.start :=
    (tokenize_tiles hread).pairwise.imp Or.inl
  have hdisjoint := hpairwise.forall ht hu hne
  omega

end

/-- The groups around a byte that is in no token are told by where it stands. -/
theorem OutsideTokens.unique {start : Position} {source : String} {groups groups' : List Token}
    {mark : Nat} (h : OutsideTokens start source groups mark)
    (h' : OutsideTokens start source groups' mark) : groups = groups' := by
  induction h generalizing groups' with
  | here hread hout =>
    cases h' with
    | here => rfl
    | inner hread' hgroup hinner hmark hinside _ =>
      rw [Reading.tokens_eq hread hread'] at hout
      have hin := inside_span hread' hgroup hinner hinside
      have hout := hout _ hgroup
      omega
  | inner hread hgroup hinner hmark hinside _ ih =>
    cases h' with
    | here hread' hout =>
      rw [Reading.tokens_eq hread' hread] at hout
      have hin := inside_span hread hgroup hinner hinside
      have hout := hout _ hgroup
      omega
    | inner hread' hgroup' hinner' hmark' hinside' h' =>
      -- both groups share the byte, so they are the same token
      rw [Reading.tokens_eq hread' hread] at hgroup'
      have hin := inside_span hread hgroup hinner hinside
      have hin' := inside_span hread hgroup' hinner' hinside'
      rw [← hmark] at hin
      rw [← hmark'] at hin'
      obtain rfl := eq_of_common hread hgroup hgroup' hin hin'
      rw [hinner] at hinner'
      obtain rfl := Option.some.inj hinner'
      obtain rfl := Nat.add_left_cancel (hmark.symm.trans hmark')
      rw [ih h']

/-- What is read inside groups warns about semicolons of the source that are inside these groups and in
no token there, and about no semicolon twice. -/
theorem ReadsWithin.exists_marks {terminator : Terminator} {r : Reading} {start : Position}
    {source : String} {groups : List Token} (h : ReadsWithin terminator r start source groups) :
    ∃ marks : List Nat, List.Forall₂ (Warning.IsAbout start source) r.warnings marks ∧ marks.Nodup ∧
      ∀ mark ∈ marks, OutsideTokens start source groups mark := by
  induction h with
  | whole hread =>
    obtain ⟨marks, habout, hless, hout⟩ := Reading.exists_marks hread
    exact ⟨marks, habout, hless.imp Nat.ne_of_lt, fun mark hmark => .here hread (hout mark hmark)⟩
  | @inner outer around start source inner group groups haround hgroup hinner h ih =>
    obtain ⟨marks, habout, hnodup, hout⟩ := ih
    obtain ⟨before, b, after, hsource, hoffset, hstart, -⟩ := exists_around haround hgroup hinner
    refine ⟨marks.map (group.innerOffset + ·), ?_, ?_, ?_⟩
    · refine List.forall₂_map_right_iff.mpr (habout.imp fun w mark hmark => ?_)
      obtain ⟨front, back, hinside, hlength, rfl⟩ := hmark
      refine ⟨before ++ [b.opening] ++ front, back ++ (b.closing :: after), ?_, ?_, ?_⟩
      · rw [hsource, hinside]
        simp
      · rw [Text.byteLength_append, ← hoffset, hlength]
      · rw [Position.walk_append, ← hstart]
    · exact hnodup.map (add_right_injective _)
    · refine List.forall_mem_map.mpr fun mark hmark => ?_
      refine .inner haround hgroup hinner rfl ?_ (hout mark hmark)
      obtain ⟨w, front, back, hinside, hlength, -⟩ := exists_of_mem_right habout hmark
      rw [hinside, Text.byteLength_append, Text.byteLength_cons, hlength]
      have hpos := Char.utf8Size_pos ';'
      omega

end Packwright
