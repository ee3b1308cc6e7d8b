import Packwright.Proofs.Condition.Tests

/-!
# Printed conditions

Conditions over variables are written with `||`, `&&` and `!`, and with parentheses where an operand
would otherwise be taken apart. Reading such a text gives the condition that was written, whatever
blanks stand around the connectives. A sign without a blank behind it is part of the first word of its
operand, so the words of an operand are told together with the signs in front of it.

## Main definitions

- `Condition.PrintsOr`, `Condition.PrintsAnd`, `Condition.PrintsNot` — the texts of a condition
- `Condition.unplaced` — a condition without the places of its tokens
- `Condition.ReadsAs`, `Condition.OperandReadsAs` — texts and the shapes of their tokens
- `Condition.Printable`, `Condition.print` — conditions over variables, and a text of each

## Main results

- `Condition.sign_readsAs`, `Condition.round_readsAs`, `Condition.joined_readsAs` — one per construct
- `Condition.printed_all` — what the texts of conditions are read as
- `Condition.parse_printed` — what was printed is read again
-/

namespace Packwright

namespace Condition

/-! ### Printed texts -/

/-- Blanks, or nothing. -/
def IsGap (gap : List Char) : Prop := ∀ c ∈ gap, Text.isBlank c = true ∧ c.toNat < 128

/-- Texts of operands with a connective between them, and any blanks around it. -/
inductive JoinedTexts (symbol : List Char) (R : Condition → List Char → Prop) :
    List Condition → List Char → Prop
  | last {c : Condition} {text : List Char} (h : R c text) : JoinedTexts symbol R [c] text
  | more {c : Condition} {cs : List Condition} {first gap gap' rest : List Char}
    (hfirst : R c first) (hgap : IsGap gap) (hgap' : IsGap gap')
    (hrest : JoinedTexts symbol R cs rest) :
    JoinedTexts symbol R (c :: cs) (first ++ (gap ++ (symbol ++ (gap' ++ rest))))

mutual

/-- The texts of a condition. -/
inductive PrintsOr : Condition → List Char → Prop
  | any {cs : List Condition} {text : List Char} (h : JoinedTexts ['|', '|'] PrintsAnd cs text)
    (htwo : 2 ≤ cs.length) : PrintsOr (.any cs) text
  | operand {c : Condition} {text : List Char} (h : PrintsAnd c text) : PrintsOr c text

/-- The texts of an operand of `||`. -/
inductive PrintsAnd : Condition → List Char → Prop
  | all {cs : List Condition} {text : List Char} (h : JoinedTexts ['&', '&'] PrintsNot cs text)
    (htwo : 2 ≤ cs.length) : PrintsAnd (.all cs) text
  | operand {c : Condition} {text : List Char} (h : PrintsNot c text) : PrintsAnd c text

/-- The texts of an operand of `&&` and of a sign. Any condition may stand in parentheses. -/
inductive PrintsNot : Condition → List Char → Prop
  | sign {c : Condition} {gap text : List Char} (hgap : IsGap gap) (h : PrintsNot c text) :
    PrintsNot (.not c) ('!' :: (gap ++ text))
  | round {c : Condition} {gap gap' text : List Char} (hgap : IsGap gap) (hgap' : IsGap gap')
    (h : PrintsOr c text) : PrintsNot c ('(' :: ((gap ++ (text ++ gap')) ++ [')']))
  | test {tokens : List Token} {words : List (List Char)} {text : List Char}
    (htokens : tokens.map Token.shape = words.map (TokenKind.word, ·)) (hwords : TestWords words)
    (h : Lexer.Spaced words text) (hascii : Text.IsAscii text) : PrintsNot (.leaf tokens) text

end

mutual

/-- The condition without the places of its tokens. -/
def unplaced : Condition → Condition
  | .leaf tokens => .leaf (tokens.map fun t => { t with span := .empty })
  | .all body => .all (unplacedAll body)
  | .any body => .any (unplacedAll body)
  | .not body => .not (unplaced body)

/-- The conditions without the places of their tokens. -/
def unplacedAll : List Condition → List Condition
  | [] => []
  | c :: rest => unplaced c :: unplacedAll rest

end

/-- Tokens of the same shapes differ only in their places. -/
theorem unplaced_leaf {tokens tokens' : List Token}
    (h : tokens.map Token.shape = tokens'.map Token.shape) :
    unplaced (.leaf tokens) = unplaced (.leaf tokens') := by
  induction tokens generalizing tokens' with
  | nil =>
    obtain rfl := List.map_eq_nil_iff.mp h.symm
    rfl
  | cons t tokens ih =>
    obtain ⟨t', tokens', rfl, ht, hmore⟩ := List.map_eq_cons_iff.mp h.symm
    obtain ⟨hkind, htext⟩ := Prod.mk.inj ht
    have hsame := Condition.leaf.inj (ih hmore.symm)
    rw [unplaced, unplaced, List.map_cons, List.map_cons, hsame, hkind,
      String.toList_inj.mp htext]

/-! ### What printed texts are read as -/

/-- The text is balanced ASCII text, tokens of these shapes are read from it, and whatever tokens have
these shapes satisfy `P`. -/
structure ReadsAs (P : List Token → Prop) (text : List Char)
    (shapes : List (TokenKind × List Char)) : Prop where
  balanced : Balanced text
  ascii : Text.IsAscii text
  nonempty : shapes ≠ []
  reads : ∀ rest, Lexer.WordEnds rest → Lexer.Reads text rest shapes
  holds : ∀ tokens : List Token, tokens.map Token.shape = shapes → P tokens

/-- The tokens are related to a condition that differs from this one only in places. -/
def Gives (R : List Token → Condition → Prop) (c : Condition) (tokens : List Token) : Prop :=
  ∃ c', R tokens c' ∧ c'.unplaced = c.unplaced

/-- Signs in front of tokens: they go to the first one if that is a word. -/
def signed : List Char → List (TokenKind × List Char) → List (TokenKind × List Char)
  | [], shapes => shapes
  | signs, (.word, w) :: more => (.word, signs ++ w) :: more
  | signs, shapes => (.word, signs) :: shapes

/-- The text of an operand, with any signs in front of it. -/
structure OperandReadsAs (c : Condition) (text : List Char)
    (shapes : List (TokenKind × List Char)) : Prop extends
    ReadsAs (Gives DerivesNot c) text shapes where
  behind : ∀ signs rest, (∀ d ∈ signs, d = '!') → Lexer.WordEnds rest →
    Lexer.Reads (signs ++ text) rest (signed signs shapes)
  opens : (∃ d w more, shapes = (.word, d :: w) :: more ∧ (d = '$' ∨ d = '!')) ∨
    ∃ w more, shapes = (.group .round, w) :: more

section

variable {c : Condition} {text gap gap' : List Char} {shapes : List (TokenKind × List Char)}

theorem IsGap.balanced (h : IsGap gap) : Balanced gap :=
  balanced_of_forall fun c hc => Lexer.isBlank_plain (h c hc).1

theorem IsGap.ascii (h : IsGap gap) : Text.IsAscii gap := fun c hc => (h c hc).2

theorem IsGap.blank (h : IsGap gap) : ∀ c ∈ gap, Text.isBlank c = true := fun c hc => (h c hc).1

/-- A run of signs is a word, alone or in front of one. -/
theorem isWordChar_of_signs {signs : List Char} (h : ∀ d ∈ signs, d = '!') :
    ∀ d ∈ signs, Lexer.isWordChar d = true := by
  intro d hd
  rw [h d hd]
  decide

theorem reads_signs {signs rest : List Char} (h : ∀ d ∈ signs, d = '!') (hne : signs ≠ [])
    (hrest : Lexer.WordEnds rest) : Lexer.Reads signs rest [(.word, signs)] :=
  Lexer.reads_word (Lexer.isWholeWord_of_forall hne (isWordChar_of_signs h)) hrest

/-- The words of a test, with the signs at the first one. -/
theorem test_readsAs {tokens : List Token} {words : List (List Char)}
    (htokens : tokens.map Token.shape = words.map (TokenKind.word, ·)) (hwords : TestWords words)
    (h : Lexer.Spaced words text) (hascii : Text.IsAscii text) :
    OperandReadsAs (.leaf tokens) text (words.map (TokenKind.word, ·)) := by
  obtain ⟨hall, cs, more, rfl⟩ := hwords.forall
  have hbehind : ∀ signs rest, (∀ d ∈ signs, d = '!') → Lexer.WordEnds rest →
      Lexer.Reads (signs ++ text) rest
        (((signs ++ '$' :: cs) :: more).map (TokenKind.word, ·)) := by
    intro signs rest hsigns hrest
    obtain ⟨hfirst, hmore⟩ := List.forall_mem_cons.mp hall
    refine Lexer.reads_spaced (h.prepend signs) (List.forall_mem_cons.mpr
      ⟨Lexer.isWholeWord_of_forall (by simp) ?_, fun w hw => (hmore w hw).whole⟩) hrest
    exact List.forall_mem_append.mpr ⟨isWordChar_of_signs hsigns, hfirst.isWordChar⟩
  refine {
    balanced := h.balanced fun w hw => (hall w hw).whole
    ascii := hascii
    nonempty := by simp
    reads := fun rest hrest => hbehind [] rest (List.forall_mem_nil _) hrest
    holds := fun tokens' h' => ⟨.leaf tokens', .leaf (hwords.isLeaf h'), ?_⟩
    behind := fun signs rest hsigns hrest => ?_
    opens := .inl ⟨'$', cs, _, rfl, .inl rfl⟩ }
  · exact unplaced_leaf (h'.trans htokens.symm)
  · have hreads := hbehind signs rest hsigns hrest
    cases signs with
    | nil => exact hreads
    | cons d signs => exact hreads

theorem signed_append (signs : List Char) (hshapes : shapes ≠ []) :
    signed (signs ++ ['!']) shapes = signed signs (signed ['!'] shapes) := by
  obtain ⟨⟨kind, w⟩, more, rfl⟩ := List.exists_cons_of_ne_nil hshapes
  cases signs with
  | nil => rfl
  | cons d signs => cases kind <;> simp [signed]

/-- A sign that is a token of its own. -/
theorem gives_sign (h : ∀ tokens : List Token, tokens.map Token.shape = shapes →
      Gives DerivesNot c tokens) {tokens : List Token}
    (htokens : tokens.map Token.shape = (.word, ['!']) :: shapes) :
    Gives DerivesNot (.not c) tokens := by
  obtain ⟨t, ts, rfl, ht, hts⟩ := List.map_eq_cons_iff.mp htokens
  obtain ⟨hkind, htext⟩ := Prod.mk.inj ht
  obtain ⟨c', hc', hsame⟩ := h ts hts
  have hsign : t.isWord "!" = true := isWord_iff.mpr ⟨hkind, String.toList_inj.mp htext⟩
  exact ⟨.not c', .sign hsign hc', by rw [unplaced, unplaced, hsame]⟩

/-- A sign that is glued to the first word of its operand. -/
theorem gives_glued {d : Char} {w : List Char} {more : List (TokenKind × List Char)} (hd : d ≠ '=')
    (h : ∀ tokens : List Token, tokens.map Token.shape = (.word, d :: w) :: more →
      Gives DerivesNot c tokens) {tokens : List Token}
    (htokens : tokens.map Token.shape = (.word, '!' :: d :: w) :: more) :
    Gives DerivesNot (.not c) tokens := by
  obtain ⟨t, ts, rfl, ht, hts⟩ := List.map_eq_cons_iff.mp htokens
  obtain ⟨hkind, htext⟩ := Prod.mk.inj ht
  have hglued := behindNot?_eq_some_iff.mpr ⟨d, w, hkind, htext, hd, rfl⟩
  generalize hoperand : Token.mk .word _ _ = operand at hglued
  have hshape : operand.shape = (.word, d :: w) := by
    rw [← hoperand, Token.shape, String.toList_ofList]
  obtain ⟨c', hc', hsame⟩ := h (operand :: ts) (by rw [List.map_cons, hshape, hts])
  exact ⟨.not c', .glued hglued hc', by rw [unplaced, unplaced, hsame]⟩

/-- A sign in front of an operand, with or without blanks behind it. -/
theorem sign_readsAs (h : OperandReadsAs c text shapes) (hgap : IsGap gap) :
    ∃ shapes', OperandReadsAs (.not c) ('!' :: (gap ++ text)) shapes' := by
  have hbalanced : Balanced ('!' :: (gap ++ text)) :=
    .char (by decide) (fun b => by cases b <;> decide) (hgap.balanced.append h.balanced)
  have hascii : Text.IsAscii ('!' :: (gap ++ text)) :=
    Text.isAscii_cons.mpr ⟨by decide, Text.isAscii_append.mpr ⟨hgap.ascii, h.ascii⟩⟩
  have hsigns : ∀ {signs : List Char}, (∀ d ∈ signs, d = '!') → ∀ d ∈ signs ++ ['!'], d = '!' :=
    fun hsigns => List.forall_mem_append.mpr ⟨hsigns, by simp⟩
  cases gap with
  | nil =>
    have hbehind : ∀ signs rest, (∀ d ∈ signs, d = '!') → Lexer.WordEnds rest →
        Lexer.Reads (signs ++ '!' :: text) rest (signed signs (signed ['!'] shapes)) := by
      intro signs rest hall hrest
      have hreads := h.behind (signs ++ ['!']) rest (hsigns hall) hrest
      rwa [List.append_assoc, List.singleton_append, signed_append signs h.nonempty] at hreads
    have hreads := fun rest hrest => hbehind [] rest (List.forall_mem_nil _) hrest
    rcases h.opens with ⟨d, w, more, rfl, hd⟩ | ⟨w, more, rfl⟩
    · have hne : d ≠ '=' := by rcases hd with rfl | rfl <;> decide
      exact ⟨(.word, '!' :: d :: w) :: more, ⟨hbalanced, hascii, by simp, hreads,
        fun tokens => gives_glued hne h.holds⟩, hbehind, .inl ⟨'!', _, _, rfl, .inr rfl⟩⟩
    · exact ⟨(.word, ['!']) :: (.group .round, w) :: more, ⟨hbalanced, hascii, by simp, hreads,
        fun tokens => gives_sign h.holds⟩, hbehind, .inl ⟨'!', _, _, rfl, .inr rfl⟩⟩
  | cons b gap =>
    have hbehind : ∀ signs rest, (∀ d ∈ signs, d = '!') → Lexer.WordEnds rest →
        Lexer.Reads (signs ++ '!' :: (b :: gap ++ text)) rest
          (signed signs ((.word, ['!']) :: shapes)) := by
      intro signs rest hall hrest
      have hends : Lexer.WordEnds (b :: gap ++ text ++ rest) :=
        Lexer.wordEnds_blank (hgap.blank b List.mem_cons_self)
      have hreads := (reads_signs (hsigns hall) (by simp) hends).append
        ((Lexer.reads_blanks hgap.blank).append (h.reads rest hrest))
      rw [List.append_assoc, List.singleton_append] at hreads
      cases signs with
      | nil => exact hreads
      | cons d signs => exact hreads
    exact ⟨(.word, ['!']) :: shapes, ⟨hbalanced, hascii, by simp,
      fun rest hrest => hbehind [] rest (List.forall_mem_nil _) hrest,
      fun tokens => gives_sign h.holds⟩, hbehind, .inl ⟨'!', _, _, rfl, .inr rfl⟩⟩

/-- The condition inside a round group. -/
theorem gives_group (h : ReadsAs (Gives DerivesOr c) text shapes) (hgap : IsGap gap)
    (hgap' : IsGap gap') {group : Token}
    (hgroup : group.shape = (.group .round, '(' :: ((gap ++ (text ++ gap')) ++ [')']))) :
    ∃ tokens, group.tokenizeInner .optional = .ok { statements := [⟨tokens⟩] } ∧
      Gives DerivesOr c tokens := by
  have hinside := Lexer.reads_padded hgap.blank h.reads hgap'.blank
  obtain ⟨tokens, htokens, hstatement⟩ :=
    Token.tokenizeInner_of_reads (b := .round) hgroup hinside h.nonempty
  exact ⟨tokens, hstatement, h.holds tokens htokens⟩

/-- A condition in parentheses. -/
theorem round_readsAs (h : ReadsAs (Gives DerivesOr c) text shapes) (hgap : IsGap gap)
    (hgap' : IsGap gap') :
    ∃ shapes', OperandReadsAs c ('(' :: ((gap ++ (text ++ gap')) ++ [')'])) shapes' := by
  have hinner : Balanced (gap ++ (text ++ gap')) :=
    hgap.balanced.append (h.balanced.append hgap'.balanced)
  have hbalanced : Balanced ('(' :: ((gap ++ (text ++ gap')) ++ [')'])) :=
    .group .round hinner .nil
  have hascii : Text.IsAscii ('(' :: ((gap ++ (text ++ gap')) ++ [')'])) := by
    have hround : Text.IsAscii [')'] := Text.isAscii_cons.mpr ⟨by decide, List.forall_mem_nil _⟩
    exact Text.isAscii_cons.mpr ⟨by decide, Text.isAscii_append.mpr ⟨Text.isAscii_append.mpr
      ⟨hgap.ascii, Text.isAscii_append.mpr ⟨h.ascii, hgap'.ascii⟩⟩, hround⟩⟩
  have hread : ∀ rest, Lexer.Reads ('(' :: ((gap ++ (text ++ gap')) ++ [')'])) rest
      [(.group .round, '(' :: ((gap ++ (text ++ gap')) ++ [')']))] :=
    fun rest => Lexer.reads_group .round hinner
  refine ⟨[(.group .round, '(' :: ((gap ++ (text ++ gap')) ++ [')']))],
    ⟨hbalanced, hascii, List.cons_ne_nil _ _, fun rest _ => hread rest,
      fun tokens htokens => ?_⟩, fun signs rest hsigns _ => ?_, .inr ⟨_, _, rfl⟩⟩
  · obtain ⟨t, more, rfl, ht, hmore⟩ := List.map_eq_cons_iff.mp htokens
    obtain rfl := List.map_eq_nil_iff.mp hmore
    obtain ⟨tokens, hstatement, c', hc', hsame⟩ := gives_group h hgap hgap' ht
    exact ⟨c', .group (by simp [Token.isGroup, (Prod.mk.inj ht).1]) hstatement rfl hc', hsame⟩
  · cases signs with
    | nil => exact hread rest
    | cons d signs =>
      have hends : Lexer.WordEnds ('(' :: ((gap ++ (text ++ gap')) ++ [')']) ++ rest) :=
        ⟨by decide, rfl⟩
      exact (reads_signs hsigns (List.cons_ne_nil _ _) hends).append (hread rest)

end

section

variable {R S : Condition → List Char → Prop} {c : Condition} {cs : List Condition}
  {symbol text : List Char}

/-- No operand is longer than the whole text. -/
theorem JoinedTexts.imp (h : JoinedTexts symbol R cs text)
    (hRS : ∀ c part, part.length ≤ text.length → R c part → S c part) :
    JoinedTexts symbol S cs text := by
  induction h with
  | last h => exact .last (hRS _ _ le_rfl h)
  | more hfirst hgap hgap' _ ih =>
    refine .more (hRS _ _ (by simp) hfirst) hgap hgap' (ih fun c part hlength => hRS c part ?_)
    simp only [List.length_append]
    omega

/-- Operands with a connective between them. -/
theorem joined_readsAs {d : Char} {D : List Token → Condition → Prop} {word : String}
    (hd : d = '&' ∨ d = '|') (hword : word.toList = [d, d])
    (h : JoinedTexts [d, d] (fun c text => ∃ shapes, ReadsAs (Gives D c) text shapes) cs text) :
    ∃ shapes, ReadsAs (fun tokens => ∃ cs', Joined word D tokens cs' ∧
      unplacedAll cs' = unplacedAll cs) text shapes := by
  induction h with
  | last h =>
    obtain ⟨shapes, h⟩ := h
    refine ⟨shapes, h.balanced, h.ascii, h.nonempty, h.reads, fun tokens htokens => ?_⟩
    obtain ⟨c', hc', hsame⟩ := h.holds tokens htokens
    exact ⟨[c'], .last hc', by simp only [unplacedAll, hsame]⟩
  | @more c cs first gap gap' rest hfirst hgap hgap' _ ih =>
    obtain ⟨shapes, hfirst⟩ := hfirst
    obtain ⟨more, hrest⟩ := ih
    have hplain : d ≠ '"' ∧ ∀ b : Bracket, d ≠ b.opening ∧ d ≠ b.closing := by
      rcases hd with rfl | rfl <;> exact ⟨by decide, fun b => by cases b <;> decide⟩
    have hsymbol : Balanced [d, d] := .char hplain.1 hplain.2 (.char hplain.1 hplain.2 .nil)
    have hlow : Text.IsAscii [d, d] := by
      rcases hd with rfl | rfl <;> intro c hc <;> fin_cases hc <;> decide
    have hreads : ∀ rest', Lexer.WordEnds rest' →
        Lexer.Reads (first ++ (gap ++ ([d, d] ++ (gap' ++ rest)))) rest'
          (shapes ++ (.word, [d, d]) :: more) := by
      intro rest' hrest'
      have hends : Lexer.WordEnds (gap ++ ([d, d] ++ (gap' ++ rest)) ++ rest') := by
        rw [List.append_assoc]
        refine Lexer.wordEnds_blanks hgap.blank ?_
        rcases hd with rfl | rfl <;> exact ⟨by decide, rfl⟩
      exact (hfirst.reads _ hends).append ((Lexer.reads_blanks hgap.blank).append
        ((Lexer.reads_doubled hd).append
          ((Lexer.reads_blanks hgap'.blank).append (hrest.reads rest' hrest'))))
    refine ⟨shapes ++ (.word, [d, d]) :: more, ?_, ?_, by simp, hreads, fun tokens htokens => ?_⟩
    · exact hfirst.balanced.append
        (hgap.balanced.append (hsymbol.append (hgap'.balanced.append hrest.balanced)))
    · simp only [Text.isAscii_append]
      exact ⟨hfirst.ascii, hgap.ascii, hlow, hgap'.ascii, hrest.ascii⟩
    · obtain ⟨front, back, rfl, hfront, hback⟩ := List.map_eq_append_iff.mp htokens
      obtain ⟨t, back, rfl, ht, hback⟩ := List.map_eq_cons_iff.mp hback
      obtain ⟨c', hc', hsame⟩ := hfirst.holds front hfront
      obtain ⟨cs', hcs', hsames⟩ := hrest.holds back hback
      obtain ⟨hkind, htext⟩ := Prod.mk.inj ht
      have hconnective : t.isWord word = true :=
        isWord_iff.mpr ⟨hkind, String.toList_inj.mp (htext.trans hword.symm)⟩
      exact ⟨c' :: cs', .more hc' hconnective hcs', by rw [unplacedAll, unplacedAll, hsame, hsames]⟩

theorem ReadsAs.imp {P Q : List Token → Prop} {shapes : List (TokenKind × List Char)}
    (h : ReadsAs P text shapes) (hPQ : ∀ tokens, P tokens → Q tokens) : ReadsAs Q text shapes :=
  ⟨h.balanced, h.ascii, h.nonempty, h.reads, fun tokens htokens => hPQ _ (h.holds tokens htokens)⟩

theorem unplacedAll_eq_map (cs : List Condition) : unplacedAll cs = cs.map unplaced := by
  induction cs with
  | nil => rfl
  | cons c cs ih => rw [unplacedAll, List.map_cons, ih]

theorem two_le_of_unplaced {cs' : List Condition} (h : unplacedAll cs' = unplacedAll cs)
    (htwo : 2 ≤ cs.length) : 2 ≤ cs'.length := by
  rw [unplacedAll_eq_map, unplacedAll_eq_map] at h
  have hlength := congrArg List.length h
  rw [List.length_map, List.length_map] at hlength
  rwa [hlength]

/-- What the texts of conditions are read as. Only a pair of parentheses goes back to the texts of
whole conditions, so the induction is on the length of the text. -/
theorem printed_all (n : Nat) :
    (∀ c text, text.length < n → PrintsNot c text → ∃ shapes, OperandReadsAs c text shapes) ∧
    (∀ c text, text.length < n → PrintsAnd c text →
      ∃ shapes, ReadsAs (Gives DerivesAnd c) text shapes) ∧
    ∀ c text, text.length < n → PrintsOr c text →
      ∃ shapes, ReadsAs (Gives DerivesOr c) text shapes := by
  induction n with
  | zero => exact ⟨nofun, nofun, nofun⟩
  | succ n ih =>
    obtain ⟨ihnot, -, ihor⟩ := ih
    have hnot : ∀ c text, text.length < n + 1 → PrintsNot c text →
        ∃ shapes, OperandReadsAs c text shapes := by
      intro c text hlength h
      cases h with
      | sign hgap h =>
        obtain ⟨shapes, h⟩ := ihnot _ _ (by simp at hlength; omega) h
        exact sign_readsAs h hgap
      | round hgap hgap' h =>
        obtain ⟨shapes, h⟩ := ihor _ _ (by simp at hlength; omega) h
        exact round_readsAs h hgap hgap'
      | test htokens hwords h hascii => exact ⟨_, test_readsAs htokens hwords h hascii⟩
    have hand : ∀ c text, text.length < n + 1 → PrintsAnd c text →
        ∃ shapes, ReadsAs (Gives DerivesAnd c) text shapes := by
      intro c text hlength h
      cases h with
      | all h htwo =>
        have hparts := h.imp fun c part hpart h => (hnot c part (by omega) h).imp
          fun shapes h => h.toReadsAs
        obtain ⟨shapes, h⟩ := joined_readsAs (.inl rfl) (show "&&".toList = _ from rfl) hparts
        refine ⟨shapes, h.imp fun tokens => ?_⟩
        rintro ⟨cs', hcs', hsame⟩
        have hcollapse : collapse .all cs' = .all cs' :=
          collapse_of_two (two_le_of_unplaced hsame htwo)
        exact ⟨.all cs', hcollapse ▸ .operands hcs', by rw [unplaced, unplaced, hsame]⟩
      | operand h =>
        obtain ⟨shapes, h⟩ := hnot _ _ hlength h
        refine ⟨shapes, h.toReadsAs.imp fun tokens => ?_⟩
        rintro ⟨c', hc', hsame⟩
        exact ⟨c', hc'.derivesAnd, hsame⟩
    refine ⟨hnot, hand, fun c text hlength h => ?_⟩
    cases h with
    | any h htwo =>
      have hparts := h.imp fun c part hpart h => hand c part (by omega) h
      obtain ⟨shapes, h⟩ := joined_readsAs (.inr rfl) (show "||".toList = _ from rfl) hparts
      refine ⟨shapes, h.imp fun tokens => ?_⟩
      rintro ⟨cs', hcs', hsame⟩
      have hcollapse : collapse .any cs' = .any cs' :=
        collapse_of_two (two_le_of_unplaced hsame htwo)
      exact ⟨.any cs', hcollapse ▸ .operands hcs', by rw [unplaced, unplaced, hsame]⟩
    | operand h =>
      obtain ⟨shapes, h⟩ := hand _ _ hlength h
      refine ⟨shapes, h.imp fun tokens => ?_⟩
      rintro ⟨c', hc', hsame⟩
      exact ⟨c', hc'.derivesOr, hsame⟩

end

/-! ### Printing -/

/-- Conditions over tests of variables whose connectives have two operands or more. -/
inductive Printable : Condition → Prop
  | test {tokens : List Token} {words : List (List Char)}
    (htokens : tokens.map Token.shape = words.map (TokenKind.word, ·)) (hwords : TestWords words) :
    Printable (.leaf tokens)
  | all {body : List Condition} (htwo : 2 ≤ body.length) (hbody : ∀ c ∈ body, Printable c) :
    Printable (.all body)
  | any {body : List Condition} (htwo : 2 ≤ body.length) (hbody : ∀ c ∈ body, Printable c) :
    Printable (.any body)
  | not {body : Condition} (hbody : Printable body) : Printable (.not body)

/-- How tightly the outermost connective of a condition binds; a test cannot be taken apart. -/
def rank : Condition → Nat
  | .any _ => 0
  | .all _ => 1
  | .not _ => 2
  | .leaf _ => 3

/-- The text of an operand: in parentheses if its connective binds less tightly than it must. -/
def enclosed (least : Nat) (c : Condition) (text : List Char) : List Char :=
  if c.rank < least then '(' :: (text ++ [')']) else text

mutual

/-- A text of a condition, with `gap` around every connective and behind every sign. Parentheses stand
around a connective behind a sign, around `||` between `&&`, and around an operand with the connective
that it is an operand of. -/
def print (gap : List Char) : Condition → List Char
  | .leaf tokens => [' '].intercalate (tokens.map fun t => t.text.toList)
  | .all body => printAll gap 2 ['&', '&'] body
  | .any body => printAll gap 1 ['|', '|'] body
  | .not body => '!' :: (gap ++ enclosed 3 body (print gap body))

/-- Operands with a connective between them. -/
def printAll (gap : List Char) (least : Nat) (symbol : List Char) : List Condition → List Char
  | [] => []
  | [c] => enclosed least c (print gap c)
  | c :: d :: rest =>
    enclosed least c (print gap c) ++ (gap ++ (symbol ++ (gap ++ printAll gap least symbol (d :: rest))))

end

section

variable {c : Condition} {cs : List Condition} {text gap gap' : List Char}

/-- The words of a test with a blank between neighbours. -/
theorem spaced_intercalate {words : List (List Char)} (hne : words ≠ [])
    (hwords : ∀ w ∈ words, IsTestWord w) :
    Lexer.Spaced words ([' '].intercalate words) ∧ Text.IsAscii ([' '].intercalate words) := by
  induction words with
  | nil => exact absurd rfl hne
  | cons w words ih =>
    obtain ⟨hw, hmore⟩ := List.forall_mem_cons.mp hwords
    obtain ⟨c, cs, rfl⟩ := List.exists_cons_of_ne_nil hw.nonempty
    cases words with
    | nil =>
      rw [List.intercalate_singleton]
      exact ⟨.last c, hw.ascii⟩
    | cons v words =>
      obtain ⟨hspaced, hascii⟩ := ih (List.cons_ne_nil _ _) hmore
      have hgap : IsGap [' '] := List.forall_mem_singleton.mpr (by decide)
      rw [List.intercalate_cons_cons, List.append_assoc]
      exact ⟨.more c (List.cons_ne_nil _ _) hgap.blank hspaced,
        Text.isAscii_append.mpr ⟨hw.ascii, Text.isAscii_append.mpr ⟨hgap.ascii, hascii⟩⟩⟩

theorem printAll_joined {least : Nat} {symbol : List Char} {R : Condition → List Char → Prop}
    (hgap : IsGap gap) (hne : cs ≠ []) (hR : ∀ c ∈ cs, R c (enclosed least c (print gap c))) :
    JoinedTexts symbol R cs (printAll gap least symbol cs) := by
  induction cs with
  | nil => exact absurd rfl hne
  | cons c cs ih =>
    obtain ⟨hc, hcs⟩ := List.forall_mem_cons.mp hR
    cases cs with
    | nil =>
      rw [printAll]
      exact .last hc
    | cons d cs =>
      rw [printAll]
      exact .more hc hgap hgap (ih (by simp) hcs)

/-- What is printed is a text of the condition, and of an operand if the connective binds as tightly
as an operand must. -/
theorem prints_print (hgap : IsGap gap) (h : Printable c) :
    (2 ≤ c.rank → PrintsNot c (print gap c)) ∧ (1 ≤ c.rank → PrintsAnd c (print gap c)) ∧
      PrintsOr c (print gap c) := by
  have hround : ∀ {c text}, PrintsOr c text → PrintsNot c ('(' :: (text ++ [')'])) := by
    intro c text h
    have hnone : IsGap [] := List.forall_mem_nil _
    simpa using PrintsNot.round hnone hnone h
  have hempty : ∀ {body : List Condition}, 2 ≤ body.length → body ≠ [] := by
    rintro body htwo rfl
    simp at htwo
  induction h with
  | @test tokens words htokens hwords =>
    obtain ⟨hall, cs, more, rfl⟩ := hwords.forall
    have htexts : tokens.map (fun t => t.text.toList) = ('$' :: cs) :: more := by
      have hsecond := congrArg (List.map Prod.snd) htokens
      simpa [Function.comp_def, Token.shape] using hsecond
    obtain ⟨hspaced, hascii⟩ := spaced_intercalate (List.cons_ne_nil _ _) hall
    have hleaf : PrintsNot (.leaf tokens) (print gap (.leaf tokens)) := by
      rw [print, htexts]
      exact .test htokens hwords hspaced hascii
    exact ⟨fun _ => hleaf, fun _ => .operand hleaf, .operand (.operand hleaf)⟩
  | @all body htwo _ ih =>
    have hall : PrintsAnd (.all body) (print gap (.all body)) := by
      rw [print]
      refine .all (printAll_joined hgap (hempty htwo) fun c hc => ?_) htwo
      obtain ⟨hnot, -, hor⟩ := ih c hc
      unfold enclosed
      split
      · exact hround hor
      · exact hnot (by omega)
    exact ⟨fun h => absurd h (by simp [rank]), fun _ => hall, .operand hall⟩
  | @any body htwo _ ih =>
    refine ⟨fun h => absurd h (by simp [rank]), fun h => absurd h (by simp [rank]), ?_⟩
    rw [print]
    refine .any (printAll_joined hgap (hempty htwo) fun c hc => ?_) htwo
    obtain ⟨-, hand, hor⟩ := ih c hc
    unfold enclosed
    split
    · exact .operand (hround hor)
    · exact hand (by omega)
  | @not body _ ih =>
    obtain ⟨hnot, -, hor⟩ := ih
    have hsign : PrintsNot (.not body) (print gap (.not body)) := by
      rw [print]
      refine .sign hgap ?_
      unfold enclosed
      split
      · exact hround hor
      · exact hnot (by omega)
    exact ⟨fun _ => hsign, fun _ => .operand hsign, .operand (.operand hsign)⟩

/-- Every text of a condition, in parentheses, is one group that is read as the condition again; only
the places of its tokens are its own. What is printed is such a text, whatever blanks are put around
the connectives. -/
theorem parse_printed (h : Printable c) :
    (∀ gap, IsGap gap → PrintsOr c (print gap c)) ∧
      ∀ text gap gap' start, PrintsOr c text → IsGap gap → IsGap gap' → ∃ group : Token,
        tokenize .optional start (String.ofList ('(' :: ((gap ++ (text ++ gap')) ++ [')']))) =
            .ok { statements := [⟨[group]⟩] } ∧
          ∃ c', c'.unplaced = c.unplaced ∧ ∀ noted, ((parse group).run.run noted).1 = .ok c' := by
  refine ⟨fun gap hgap => (prints_print hgap h).2.2, fun text gap gap' start htext hgap hgap' => ?_⟩
  obtain ⟨shapes, hreads⟩ := (printed_all _).2.2 c text (Nat.lt_succ_self _) htext
  obtain ⟨shapes', hround⟩ := round_readsAs hreads hgap hgap'
  have hinner : Balanced (gap ++ (text ++ gap')) :=
    hgap.balanced.append (hreads.balanced.append hgap'.balanced)
  obtain ⟨group, hgroup, hstatement⟩ := tokenize_group .round hinner start
  obtain ⟨tokens, hinside, c', hc', hsame⟩ := gives_group hreads hgap hgap' hgroup
  obtain ⟨hkind, htext⟩ := Prod.mk.inj hgroup
  have hascii : group.IsAscii := by
    have htext : Text.IsAscii group.text.toList := htext ▸ hround.ascii
    exact ⟨htext, by rwa [Token.value, hkind]⟩
  have hisGroup : group.isGroup .round = true := by simp [Token.isGroup, hkind]
  exact ⟨group, hstatement, c', hsame, fun noted =>
    ((parse_accepts hisGroup hascii noted).1 c').mpr ⟨_, ⟨tokens⟩, hinside, rfl, hc'⟩⟩

end

/-- The condition `!($a || $b > 1) && $c`, with the words of its tests as tokens. -/
def mixedCondition : Condition :=
  .all [.not (.any [.leaf [⟨.word, .empty, "$a"⟩],
    .leaf [⟨.word, .empty, "$b"⟩, ⟨.word, .empty, ">"⟩, ⟨.word, .empty, "1"⟩]]),
    .leaf [⟨.word, .empty, "$c"⟩]]

/-- A condition with all connectives can be printed, and is read again. -/
theorem mixedCondition_printed :
    Printable mixedCondition ∧ print [' '] mixedCondition = "! ($a || $b > 1) && $c".toList ∧
      ∃ group : Token,
        tokenize .optional .start (String.ofList ('(' :: (([] ++ (print [' '] mixedCondition ++ []))
          ++ [')']))) = .ok { statements := [⟨[group]⟩] } ∧
        ∃ c', c'.unplaced = mixedCondition.unplaced ∧
          ∀ noted, ((parse group).run.run noted).1 = .ok c' := by
  have hvariable : ∀ c, isVariableChar c = true → IsVariable ['$', c] := fun c hc =>
    ⟨[c], rfl, List.cons_ne_nil _ _, List.forall_mem_singleton.mpr hc⟩
  have hb : TestWords [['$', 'b'], ['>'], ['1']] :=
    .compare .gt (hvariable 'b' (by decide)) (.inr ⟨by decide, by unfold Rejects; decide⟩) .apart
  have hany : Printable (.any [.leaf [⟨.word, .empty, "$a"⟩],
      .leaf [⟨.word, .empty, "$b"⟩, ⟨.word, .empty, ">"⟩, ⟨.word, .empty, "1"⟩]]) := by
    refine .any (by simp) (List.forall_mem_cons.mpr ⟨?_, List.forall_mem_singleton.mpr ?_⟩)
    · exact @Printable.test _ [['$', 'a']] rfl (.alone (hvariable 'a' (by decide)))
    · exact .test rfl hb
  have hprintable : Printable mixedCondition := by
    refine .all (by simp) (List.forall_mem_cons.mpr ⟨.not hany, List.forall_mem_singleton.mpr ?_⟩)
    exact @Printable.test _ [['$', 'c']] rfl (.alone (hvariable 'c' (by decide)))
  have hgap : IsGap [' '] := List.forall_mem_singleton.mpr (by decide)
  have hnone : IsGap [] := List.forall_mem_nil _
  obtain ⟨hprints, hparse⟩ := parse_printed hprintable
  exact ⟨hprintable, by rfl, hparse _ _ _ .start (hprints _ hgap) hnone hnone⟩

end Condition

end Packwright
