import Packwright.Proofs.Condition.Acceptance
import Packwright.Proofs.Location.Readers
import Packwright.Proofs.Termination.Conditions

/-!
# The grammar of conditions

A condition is operands between `||`, each of which is operands between `&&`. Such an operand is
behind a `!`, which may be glued to its first word, or stands in a round group, or is a single
comparison. The reader accepts these token lists and no others, and what it gives is the tree of the
derivation, where a lone operand stands for itself. It finds misplaced connectives and signs in
different places, but always reports a syntax error with a place.

## Main definitions

- `Condition.DerivesOr`, `Condition.DerivesAnd`, `Condition.DerivesNot` — the grammar
- `Condition.Joined`, `Condition.collapse` — operands between connectives, and their tree
- `Condition.IsLeaf`, `Condition.OutOfRange` — single comparisons, and those rejected for their range

## Main results

- `Condition.splitAt_accepts` — one level of connectives
- `Condition.parseWithin_accepts`, `Condition.parse_accepts` — conditions and round groups
- `Condition.parseTokens_accepts_grammar` — what is read is what the grammar derives
-/

namespace Packwright

namespace Condition

/-! ### The grammar -/

/-- Operands between connectives. The tokens are those of the operands, each of which `R` relates to
its condition, with the word `symbol` between neighbours. -/
inductive Joined (symbol : String) (R : List Token → Condition → Prop) :
    List Token → List Condition → Prop
  | last {tokens : List Token} {c : Condition} (h : R tokens c) : Joined symbol R tokens [c]
  | more {first rest : List Token} {t : Token} {c : Condition} {cs : List Condition}
    (hfirst : R first c) (ht : t.isWord symbol = true) (hrest : Joined symbol R rest cs) :
    Joined symbol R (first ++ t :: rest) (c :: cs)

/-- The tree of the operands of a connective; a lone operand stands for itself. -/
def collapse (combine : List Condition → Condition) : List Condition → Condition
  | [c] => c
  | cs => combine cs

/-- What is behind the `!` of a word that begins with `!` but not with `!=`. -/
def behindNot? (t : Token) : Option Token :=
  match t.word? with
  | some w =>
    if Text.startsWith "!" w && !Text.startsWith "!=" w then (t.splitAt? 1).map Prod.snd else none
  | none => none

/-- An integer that no comparison with this sign can be written for: it is no score, or no score is
above or below it. -/
def Rejects (sign : Comparison) (n : Int) : Prop :=
  inScoreRange n = false ∨ sign = .gt ∧ n = maxScore ∨ sign = .lt ∧ n = minScore

/-- The tokens compare a score with an integer and are rejected for its range. -/
def OutOfRange (tokens : List Token) : Prop :=
  ∃ left sign right, Comparison.find (joinTokens tokens).toList = .ok (some (left, sign, right)) ∧
    (Score.parse? (String.ofList left)).isSome = true ∧
    isIntegerText (String.ofList (Text.trimList right)) = true ∧
    Rejects sign (integerValue (String.ofList (Text.trimList right)))

/-- A single comparison: no connective, no sign in front of it and no round group, and no integer
that no score can be compared with. -/
structure IsLeaf (tokens : List Token) : Prop where
  nonempty : tokens ≠ []
  connectives : ∀ t ∈ tokens, t.isWord "||" = false ∧ t.isWord "&&" = false
  plain : ∀ t ∈ tokens, t.isWord "!" = false ∧ t.isGroup .round = false
  unsigned : ∀ t ∈ tokens.head?, behindNot? t = none
  inRange : ¬OutOfRange tokens

mutual

/-- Operands between `||`. -/
inductive DerivesOr : List Token → Condition → Prop
  | operands {tokens : List Token} {cs : List Condition} (h : Joined "||" DerivesAnd tokens cs) :
    DerivesOr tokens (collapse .any cs)

/-- Operands between `&&`. -/
inductive DerivesAnd : List Token → Condition → Prop
  | operands {tokens : List Token} {cs : List Condition} (h : Joined "&&" DerivesNot tokens cs) :
    DerivesAnd tokens (collapse .all cs)

/-- An operand of `&&`: with a sign before it, in a round group, or a single comparison. -/
inductive DerivesNot : List Token → Condition → Prop
  | sign {first : Token} {rest : List Token} {c : Condition} (hfirst : first.isWord "!" = true)
    (h : DerivesNot rest c) : DerivesNot (first :: rest) (.not c)
  | glued {first operand : Token} {rest : List Token} {c : Condition}
    (hfirst : behindNot? first = some operand) (h : DerivesNot (operand :: rest) c) :
    DerivesNot (first :: rest) (.not c)
  | group {t : Token} {reading : Reading} {s : Statement} {c : Condition}
    (ht : t.isGroup .round = true) (hread : t.tokenizeInner .optional = .ok reading)
    (hone : reading.statements = [s]) (h : DerivesOr s.tokens c) : DerivesNot [t] c
  | leaf {tokens : List Token} (h : IsLeaf tokens) : DerivesNot tokens (.leaf tokens)

end

/-! ### Operands between connectives -/

section

variable {symbol : String} {R : List Token → Condition → Prop} {tokens current part : List Token}
  {last : Option Token} {parts : List (List Token)} {cs : List Condition}

/-- What holds of the connective and of the tokens of all operands holds of all tokens. -/
theorem Joined.forall {P : Token → Prop} (h : Joined symbol R tokens cs)
    (hR : ∀ part c, R part c → ∀ t ∈ part, P t) (hsymbol : ∀ t, t.isWord symbol = true → P t) :
    ∀ t ∈ tokens, P t := by
  induction h with
  | last h => exact hR _ _ h
  | more hfirst ht _ ih =>
    exact List.forall_mem_append.mpr
      ⟨hR _ _ hfirst, List.forall_mem_cons.mpr ⟨hsymbol _ ht, ih⟩⟩

theorem Joined.ne_nil (h : Joined symbol R tokens cs) (hR : ∀ part c, R part c → part ≠ []) :
    tokens ≠ [] := by
  cases h with
  | last h => exact hR _ _ h
  | more => simp

/-- Without a connective behind the first token there is a lone operand. -/
theorem Joined.single (h : Joined symbol R tokens cs) (hR : ∀ part c, R part c → part ≠ [])
    (hfree : ∀ t ∈ tokens.tail, t.isWord symbol = false) : ∃ c, cs = [c] ∧ R tokens c := by
  cases h with
  | @last _ c h => exact ⟨c, rfl, h⟩
  | @more first rest t c cs hfirst ht _ =>
    cases first with
    | nil => exact absurd rfl (hR _ _ hfirst)
    | cons u first =>
      have hno := hfree t (by simp)
      rw [ht] at hno
      cases hno

theorem collapse_of_two {combine : List Condition → Condition} (h : 2 ≤ cs.length) :
    collapse combine cs = combine cs := by
  unfold collapse
  split
  · simp at h
  · rfl

/-! ### Splitting at a connective -/

theorem splitFrom_failsBySyntax : failsBySyntax (splitFrom symbol last current tokens) := by
  fun_induction splitFrom symbol last current tokens with
  | case1 | case2 | case3 | case4 => rfl
  | case5 _ _ _ _ _ _ _ ih => exact failsBySyntax_map ih
  | case6 _ _ _ _ _ ih => exact ih

theorem splitFrom_connective {t : Token} (ht : t.isWord symbol = true) (hcurrent : current ≠ []) :
    splitFrom symbol last current (t :: tokens) =
      (splitFrom symbol (some t) [] tokens).map (current :: ·) := by
  obtain ⟨u, current, rfl⟩ := List.exists_cons_of_ne_nil hcurrent
  rw [splitFrom.eq_def]
  exact if_pos ht

theorem splitFrom_plain {t : Token} (ht : t.isWord symbol = false) :
    splitFrom symbol last current (t :: tokens) =
      splitFrom symbol last (current ++ [t]) tokens := by
  rw [splitFrom.eq_def]
  exact if_neg (by simp [ht])

/-- Tokens that are no connective go to the operand that is being read. -/
theorem splitFrom_append (hpart : ∀ t ∈ part, t.isWord symbol = false) :
    splitFrom symbol last current (part ++ tokens) =
      splitFrom symbol last (current ++ part) tokens := by
  induction part generalizing current with
  | nil => simp
  | cons t part ih =>
    obtain ⟨ht, hpart⟩ := List.forall_mem_cons.mp hpart
    rw [List.cons_append, splitFrom_plain ht, ih hpart, List.append_assoc, List.singleton_append]

/-- Without a connective there is a lone operand. -/
theorem splitFrom_single (hne : tokens ≠ []) (hfree : ∀ t ∈ tokens, t.isWord symbol = false) :
    splitFrom symbol last [] tokens = .ok [tokens] := by
  have hsplit : splitFrom symbol last [] (tokens ++ []) =
      splitFrom symbol last ([] ++ tokens) [] := splitFrom_append hfree
  rw [List.append_nil, List.nil_append] at hsplit
  rw [hsplit, splitFrom]
  rintro t rfl
  exact absurd rfl hne

/-- Operands without connectives are found again. -/
theorem splitFrom_of_joined (h : Joined symbol R tokens cs)
    (hR : ∀ part c, R part c → part ≠ [] ∧ ∀ t ∈ part, t.isWord symbol = false) :
    ∃ parts, splitFrom symbol last [] tokens = .ok parts ∧ List.Forall₂ R parts cs := by
  induction h generalizing last with
  | @last tokens c h =>
    obtain ⟨hne, hfree⟩ := hR _ _ h
    exact ⟨[tokens], splitFrom_single hne hfree, .cons h .nil⟩
  | @more first rest t c cs hfirst ht _ ih =>
    obtain ⟨hne, hfree⟩ := hR _ _ hfirst
    obtain ⟨parts, hparts, hall⟩ := @ih (some t)
    refine ⟨first :: parts, ?_, .cons hfirst hall⟩
    rw [splitFrom_append hfree, List.nil_append, splitFrom_connective ht hne, hparts]
    rfl

/-- The operands that are found have the connective between them. -/
theorem joined_of_splitFrom (h : splitFrom symbol last current tokens = .ok parts)
    (hparts : List.Forall₂ R parts cs) : Joined symbol R (current ++ tokens) cs := by
  induction tokens generalizing last current parts cs with
  | nil =>
    unfold splitFrom at h
    split at h
    · cases h
    · obtain rfl := Except.ok.inj h
      obtain ⟨c, cs, hc, hnil, rfl⟩ := List.forall₂_cons_left_iff.mp hparts
      obtain rfl := List.forall₂_nil_left_iff.mp hnil
      rw [List.append_nil]
      exact .last hc
  | cons t rest ih =>
    unfold splitFrom at h
    split at h
    · next ht =>
      split at h
      · cases h
      · cases h
      · obtain ⟨more, hmore, rfl⟩ := exists_of_map_ok h
        obtain ⟨c, cs, hc, hcs, rfl⟩ := List.forall₂_cons_left_iff.mp hparts
        exact .more hc ht (ih hmore hcs)
    · have hjoined := ih h hparts
      rwa [List.append_assoc, List.singleton_append] at hjoined

/-- The operands have no connective among their tokens, which are those that are split. -/
theorem splitFrom_free (h : splitFrom symbol last current tokens = .ok parts)
    (hcurrent : ∀ t ∈ current, t.isWord symbol = false) :
    ∀ part ∈ parts, ∀ t ∈ part, t ∈ current ++ tokens ∧ t.isWord symbol = false := by
  induction tokens generalizing last current parts with
  | nil =>
    unfold splitFrom at h
    split at h
    · cases h
    · obtain rfl := Except.ok.inj h
      intro part hpart t ht
      obtain rfl := List.mem_singleton.mp hpart
      exact ⟨by simpa using ht, hcurrent t ht⟩
  | cons u rest ih =>
    unfold splitFrom at h
    split at h
    · split at h
      · cases h
      · cases h
      · obtain ⟨more, hmore, rfl⟩ := exists_of_map_ok h
        refine List.forall_mem_cons.mpr ⟨fun t ht => ⟨by simp [ht], hcurrent t ht⟩, ?_⟩
        intro part hpart t ht
        obtain ⟨hmem, hfree⟩ := ih hmore (List.forall_mem_nil _) part hpart t ht
        exact ⟨by simp_all, hfree⟩
    · next hu =>
      intro part hpart t ht
      have hcurrent' : ∀ t ∈ current ++ [u], t.isWord symbol = false :=
        List.forall_mem_append.mpr ⟨hcurrent, List.forall_mem_singleton.mpr (by simpa using hu)⟩
      obtain ⟨hmem, hfree⟩ := ih h hcurrent' part hpart t ht
      exact ⟨by simpa using hmem, hfree⟩

/-- A lone operand is all that is split. -/
theorem splitAt_singleton (h : splitAt symbol tokens = .ok parts) (hparts : parts.length < 2) :
    parts = [tokens] := by
  have hjoined : Joined symbol (fun part c => c = .leaf part) ([] ++ tokens)
      (parts.map Condition.leaf) :=
    joined_of_splitFrom h (List.forall₂_map_right_iff.mpr (List.forall₂_same.mpr fun _ _ => rfl))
  rw [List.nil_append] at hjoined
  match parts, hparts with
  | [], _ => cases hjoined
  | [part], _ =>
    cases hjoined with
    | last h =>
      obtain rfl := Condition.leaf.inj h
      rfl
    | more _ _ hrest => cases hrest

/-- One level of connectives: operands are read one by one, and a lone one is left to what comes
next. -/
theorem splitAt_accepts {combine : List Condition → Condition}
    {read : List Token → Noting Condition} {next : Noting Condition}
    (hR : ∀ part c, R part c → part ≠ [] ∧ ∀ t ∈ part, t.isWord symbol = false)
    (hread : ∀ parts, splitAt symbol tokens = .ok parts → 2 ≤ parts.length → ∀ part ∈ parts,
      (∀ t ∈ part, t ∈ tokens ∧ t.isWord symbol = false) → (read part).Accepts (R part))
    (hnext : (∀ t ∈ tokens, t.isWord symbol = false) → next.Accepts (R tokens)) :
    (do
      match ← Noting.ofExcept (splitAt symbol tokens) with
      | parts@(_ :: _ :: _) => return combine (← parts.mapM read)
      | _ => next : Noting Condition).Accepts
      fun c => ∃ cs, Joined symbol R tokens cs ∧ collapse combine cs = c := by
  have hlevel : ∀ parts, splitAt symbol tokens = .ok parts →
      (match parts with
        | parts@(_ :: _ :: _) => return combine (← parts.mapM read)
        | _ => next : Noting Condition).Accepts
        fun c => ∃ cs, List.Forall₂ R parts cs ∧ collapse combine cs = c := by
    intro parts hparts
    have hfree := splitFrom_free hparts (List.forall_mem_nil _)
    rw [List.nil_append] at hfree
    split
    · next parts first second more =>
      have hall := hread _ hparts (by simp)
      refine (Noting.Accepts.mapM fun part hpart =>
        hall part hpart (hfree part hpart)).bind_pure.congr fun c => ?_
      refine exists_congr fun cs => and_congr_right fun hcs => ?_
      rw [collapse_of_two (hcs.length_eq ▸ by simp)]
    · next hfew =>
      have hlength : parts.length < 2 := by
        match parts, hfew with
        | [], _ | [_], _ => simp
        | first :: second :: more, hfew => exact (hfew first second more rfl).elim
      obtain rfl := splitAt_singleton hparts hlength
      refine (hnext fun t ht => (hfree tokens (by simp) t ht).2).congr fun c => ⟨fun hc => ?_, ?_⟩
      · exact ⟨[c], .cons hc .nil, rfl⟩
      · rintro ⟨cs, hcs, rfl⟩
        obtain ⟨c, cs, hc, hnil, rfl⟩ := List.forall₂_cons_left_iff.mp hcs
        obtain rfl := List.forall₂_nil_left_iff.mp hnil
        exact hc
  refine ((Noting.accepts_ofExcept splitFrom_failsBySyntax).bind hlevel).congr fun c => ⟨?_, ?_⟩
  · rintro ⟨parts, hparts, cs, hcs, rfl⟩
    exact ⟨cs, joined_of_splitFrom hparts hcs, rfl⟩
  · rintro ⟨cs, hcs, rfl⟩
    obtain ⟨parts, hparts, hall⟩ := splitFrom_of_joined hcs hR
    exact ⟨parts, hparts, cs, hall, rfl⟩

end

/-! ### What the grammar derives -/

section

variable {tokens : List Token} {c : Condition} {first operand : Token} {rest : List Token}

theorem derivesOr_iff : DerivesOr tokens c ↔
    ∃ cs, Joined "||" DerivesAnd tokens cs ∧ collapse .any cs = c := by
  constructor
  · rintro ⟨h⟩
    exact ⟨_, h, rfl⟩
  · rintro ⟨cs, h, rfl⟩
    exact .operands h

theorem derivesAnd_iff : DerivesAnd tokens c ↔
    ∃ cs, Joined "&&" DerivesNot tokens cs ∧ collapse .all cs = c := by
  constructor
  · rintro ⟨h⟩
    exact ⟨_, h, rfl⟩
  · rintro ⟨cs, h, rfl⟩
    exact .operands h

theorem DerivesNot.derivesAnd (h : DerivesNot tokens c) : DerivesAnd tokens c :=
  .operands (.last h)

theorem DerivesAnd.derivesOr (h : DerivesAnd tokens c) : DerivesOr tokens c :=
  .operands (.last h)

theorem isWord_iff {t : Token} {w : String} : t.isWord w = true ↔ t.kind = .word ∧ t.text = w := by
  simp [Token.isWord]

/-- Words that differ in their text are different tokens. -/
theorem isWord_ne {t : Token} {v w : String} (h : t.isWord v = true) (hne : v ≠ w) :
    t.isWord w = false := by
  rw [isWord_iff] at h
  rw [Bool.eq_false_iff, ne_eq, isWord_iff, h.2]
  exact fun hw => hne hw.2

/-- A word is cut behind its sign. -/
theorem splitAt?_sign {c : Char} {cs : List Char} (hkind : first.kind = .word)
    (htext : first.text.toList = '!' :: c :: cs) : first.splitAt? 1 =
      some (⟨.word, ⟨first.span.start, first.span.start + 1, first.position⟩, "!"⟩,
        ⟨.word, ⟨first.span.start + 1, first.span.stop, first.position.right 1⟩,
          String.ofList (c :: cs)⟩) := by
  have hcut : Text.splitBytes 1 first.text.toList = some (['!'], c :: cs) := by
    rw [htext]
    exact Text.splitBytes_append ['!'] (c :: cs)
  unfold Token.splitAt?
  rw [hkind, hcut]
  rfl

theorem behindNot?_eq_some_iff : behindNot? first = some operand ↔
    ∃ c cs, first.kind = .word ∧ first.text.toList = '!' :: c :: cs ∧ c ≠ '=' ∧
      operand = ⟨.word, ⟨first.span.start + 1, first.span.stop, first.position.right 1⟩,
        String.ofList (c :: cs)⟩ := by
  constructor
  · intro h
    unfold behindNot? at h
    split at h
    · next w hword =>
      obtain ⟨hkind, rfl⟩ := Token.word?_eq_some_iff.mp hword
      split at h
      · next hsign =>
        simp only [Text.startsWith, Bool.and_eq_true, Bool.not_eq_true', List.isPrefixOf_iff_prefix,
          Bool.eq_false_iff, ne_eq] at hsign
        obtain ⟨⟨cs, htext⟩, hequals⟩ := hsign
        cases cs with
        | nil =>
          have hcut : Text.splitBytes 1 first.text.toList = some (['!'], []) := by
            rw [← htext]
            exact Text.splitBytes_append ['!'] []
          unfold Token.splitAt? at h
          rw [hkind, hcut] at h
          cases h
        | cons c cs =>
          have htext : first.text.toList = '!' :: c :: cs := htext.symm
          rw [splitAt?_sign hkind htext] at h
          refine ⟨c, cs, hkind, htext, ?_, (Option.some.inj h).symm⟩
          rintro rfl
          exact hequals ⟨cs, htext.symm⟩
      · cases h
    · cases h
  · rintro ⟨c, cs, hkind, htext, hc, rfl⟩
    have hword : first.word? = some first.text := Token.word?_eq_some_iff.mpr ⟨hkind, rfl⟩
    have hsign : Text.startsWith "!" first.text = true := by
      rw [Text.startsWith, htext]
      rfl
    have hequals : Text.startsWith "!=" first.text = false := by
      rw [Text.startsWith, htext]
      simp [List.isPrefixOf, hc.symm]
    unfold behindNot?
    rw [hword]
    dsimp only
    rw [hsign, hequals, splitAt?_sign hkind htext]
    rfl

/-- A sign that is written alone, or one that is glued to its operand. -/
theorem negated?_eq_some_iff {rest tokens : List Token} : negated? first rest = some tokens ↔
    first.isWord "!" = true ∧ tokens = rest ∨
      ∃ operand, behindNot? first = some operand ∧ tokens = operand :: rest := by
  unfold negated?
  split
  · next hfirst =>
    obtain ⟨w, hword, htext⟩ := Option.map_eq_some_iff.mp hfirst
    obtain ⟨hkind, rfl⟩ := Token.word?_eq_some_iff.mp hword
    have hsign : first.isWord "!" = true := isWord_iff.mpr ⟨hkind, String.toList_inj.mp htext⟩
    have hglued : ∀ operand, behindNot? first ≠ some operand := by
      intro operand h
      obtain ⟨c, cs, -, hlong, -⟩ := behindNot?_eq_some_iff.mp h
      rw [htext] at hlong
      cases hlong
    simp [hsign, hglued, eq_comm]
  · next c cs hfirst =>
    obtain ⟨w, hword, htext⟩ := Option.map_eq_some_iff.mp hfirst
    obtain ⟨hkind, rfl⟩ := Token.word?_eq_some_iff.mp hword
    have hsign : first.isWord "!" = false := by
      rw [Bool.eq_false_iff, ne_eq, isWord_iff]
      rintro ⟨-, hword⟩
      rw [hword] at htext
      cases htext
    split
    · next hc =>
      have hglued : ∀ operand, behindNot? first ≠ some operand := by
        intro operand h
        obtain ⟨c', cs', -, hlong, hc', -⟩ := behindNot?_eq_some_iff.mp h
        rw [htext] at hlong
        cases hlong
        exact hc' hc
      simp [hsign, hglued]
    · next hc =>
      have hglued := behindNot?_eq_some_iff.mpr ⟨c, cs, hkind, htext, hc, rfl⟩
      simp [hsign, hglued, Token.tailFrom, splitAt?_sign hkind htext, eq_comm]
  · next hnone hmore =>
    have hsign : first.isWord "!" ≠ true := by
      intro h
      obtain ⟨hkind, htext⟩ := isWord_iff.mp h
      exact hnone (Option.map_eq_some_iff.mpr ⟨_, Token.word?_eq_some_iff.mpr ⟨hkind, rfl⟩, htext ▸ rfl⟩)
    have hglued : ∀ operand, behindNot? first ≠ some operand := by
      intro operand h
      obtain ⟨c, cs, hkind, htext, -⟩ := behindNot?_eq_some_iff.mp h
      exact hmore c cs
        (Option.map_eq_some_iff.mpr ⟨_, Token.word?_eq_some_iff.mpr ⟨hkind, rfl⟩, htext⟩)
    simp [hsign, hglued]

theorem DerivesNot.ne_nil (h : DerivesNot tokens c) : tokens ≠ [] := by
  cases h with
  | sign | glued | group => exact List.cons_ne_nil _ _
  | leaf h => exact h.nonempty

theorem DerivesAnd.ne_nil (h : DerivesAnd tokens c) : tokens ≠ [] := by
  obtain ⟨cs, h, -⟩ := derivesAnd_iff.mp h
  exact h.ne_nil fun _ _ => DerivesNot.ne_nil

theorem DerivesOr.ne_nil (h : DerivesOr tokens c) : tokens ≠ [] := by
  obtain ⟨cs, h, -⟩ := derivesOr_iff.mp h
  exact h.ne_nil fun _ _ => DerivesAnd.ne_nil

/-- An operand of `&&` has no connectives outside of round groups. -/
theorem DerivesNot.connectives {tokens : List Token} {c : Condition} :
    DerivesNot tokens c → ∀ t ∈ tokens, t.isWord "||" = false ∧ t.isWord "&&" = false
  | .sign hfirst h =>
    List.forall_mem_cons.mpr ⟨⟨isWord_ne hfirst (by decide), isWord_ne hfirst (by decide)⟩,
      DerivesNot.connectives h⟩
  | .glued hfirst h => by
    obtain ⟨c, cs, -, htext, -⟩ := behindNot?_eq_some_iff.mp hfirst
    obtain ⟨-, hrest⟩ := List.forall_mem_cons.mp (DerivesNot.connectives h)
    refine List.forall_mem_cons.mpr ⟨⟨?_, ?_⟩, hrest⟩
    all_goals
      rw [Bool.eq_false_iff, ne_eq, isWord_iff]
      rintro ⟨-, hword⟩
      rw [hword] at htext
      simp at htext
  | .group ht _ _ _ => by
    have hkind := of_decide_eq_true ht
    simp [Token.isWord, hkind]
  | .leaf h => h.connectives

/-- An operand of `||` has no such connective outside of round groups. -/
theorem DerivesAnd.connectives (h : DerivesAnd tokens c) : ∀ t ∈ tokens, t.isWord "||" = false := by
  obtain ⟨cs, h, -⟩ := derivesAnd_iff.mp h
  exact h.forall (fun part c hpart t ht => (hpart.connectives t ht).1)
    fun t ht => isWord_ne ht (by decide)

/-- Without `||` behind its first token a condition is a single operand of it. -/
theorem DerivesOr.derivesAnd (h : DerivesOr tokens c)
    (hfree : ∀ t ∈ tokens.tail, t.isWord "||" = false) : DerivesAnd tokens c := by
  obtain ⟨cs, hjoined, rfl⟩ := derivesOr_iff.mp h
  obtain ⟨c, rfl, hc⟩ := hjoined.single (fun _ _ => DerivesAnd.ne_nil) hfree
  exact hc

theorem DerivesAnd.derivesNot (h : DerivesAnd tokens c)
    (hfree : ∀ t ∈ tokens.tail, t.isWord "&&" = false) : DerivesNot tokens c := by
  obtain ⟨cs, hjoined, rfl⟩ := derivesAnd_iff.mp h
  obtain ⟨c, rfl, hc⟩ := hjoined.single (fun _ _ => DerivesNot.ne_nil) hfree
  exact hc

end

/-! ### Single comparisons -/

theorem Comparison.exists_find {cs : List Char} (h : Text.IsAscii cs) :
    ∃ found, Comparison.find cs = .ok found := by
  rcases hfind : Comparison.find cs with failure | found
  · cases Comparison.eq_crash_of_find hfind
    obtain ⟨before, c, after, rfl, hforeign, -⟩ := Comparison.find_eq_crash_iff.mp hfind
    exact absurd (h c (by simp)) (Nat.not_lt.mpr hforeign)
  · exact ⟨found, rfl⟩

theorem range?_eq_none_iff (sign : Comparison) {n : Int} (h : inScoreRange n = true) :
    sign.range? n = none ↔ sign = .gt ∧ n = maxScore ∨ sign = .lt ∧ n = minScore := by
  rw [inScoreRange_iff] at h
  cases sign <;> simp [Comparison.range?] <;> omega

/-- The three results of reading an integer literal. -/
theorem scoreValue_eq (s : String) :
    isIntegerText s = false ∧ scoreValue s = .ok none ∨
      isIntegerText s = true ∧ inScoreRange (integerValue s) = true ∧
        scoreValue s = .ok (some (integerValue s)) ∨
      isIntegerText s = true ∧ inScoreRange (integerValue s) = false ∧
        scoreValue s = .error (.scoreOutOfRange s) := by
  unfold scoreValue
  cases isIntegerText s <;> cases inScoreRange (integerValue s) <;> simp

/-- If the search for a sign comes to an end, a comparison is rejected exactly for its range. -/
theorem checkLiteral_eq {tokens : List Token} (last : Token)
    {found : Option (List Char × Comparison × List Char)}
    (hfind : Comparison.find (joinTokens tokens).toList = .ok found) :
    match checkLiteral tokens last with
    | .ok _ => ¬OutOfRange tokens
    | .error failure => OutOfRange tokens ∧ ∃ f, failure = .fault f ∧ f.isSyntaxError = true := by
  unfold checkLiteral
  simp only [hfind, bind, Except.bind]
  rcases found with _ | ⟨left, sign, right⟩
  · rintro ⟨left, sign, right, hfound, -⟩
    rw [hfind] at hfound
    cases hfound
  have hout : OutOfRange tokens ↔ (Score.parse? (String.ofList left)).isSome = true ∧
      isIntegerText (String.ofList (Text.trimList right)) = true ∧
      Rejects sign (integerValue (String.ofList (Text.trimList right))) := by
    constructor
    · rintro ⟨left', sign', right', hfound, h⟩
      rw [hfind] at hfound
      cases hfound
      exact h
    · exact fun h => ⟨left, sign, right, hfind, h⟩
  rw [hout]
  dsimp only
  cases Score.parse? (String.ofList left) with
  | none => exact fun h => nomatch h.1
  | some score =>
    rcases scoreValue_eq (String.ofList (Text.trimList right)) with
      ⟨hinteger, hvalue⟩ | ⟨hinteger, hrange, hvalue⟩ | ⟨hinteger, hrange, hvalue⟩
    all_goals
      rw [hvalue]
      dsimp only
    · exact fun h => nomatch hinteger.symm.trans h.2.1
    · have hrejects := range?_eq_none_iff sign hrange
      cases hnone : sign.range? (integerValue (String.ofList (Text.trimList right))) with
      | none => exact ⟨⟨rfl, hinteger, .inr (hrejects.mp hnone)⟩, _, rfl, rfl⟩
      | some range =>
        rintro ⟨-, -, hfalse | hbound⟩
        · rw [hrange] at hfalse
          cases hfalse
        · rw [hrejects.mpr hbound] at hnone
          cases hnone
    · exact ⟨⟨rfl, hinteger, .inl hrange⟩, _, rfl, rfl⟩

theorem checkLeafToken_failsBySyntax (t : Token) : failsBySyntax (checkLeafToken t) := by
  unfold checkLeafToken
  repeat' split
  all_goals rfl

theorem checkLeafToken_eq_ok_iff {t : Token} :
    checkLeafToken t = .ok () ↔ t.isWord "!" = false ∧ t.isGroup .round = false := by
  unfold checkLeafToken
  cases t.isWord "!" <;> cases t.isGroup .round <;> simp

theorem forM_failsBySyntax {α : Type} {f : α → Except Fault PUnit} (hf : ∀ a, failsBySyntax (f a))
    (l : List α) : failsBySyntax (l.forM f) := by
  induction l with
  | nil => rfl
  | cons a l ih =>
    rw [List.forM_eq_forM, List.forM_cons]
    exact failsBySyntax_bind (hf a) fun _ => ih

/-- A single comparison is read as it stands. -/
theorem parseLeaf_accepts {first : Token} {rest : List Token}
    (hascii : ∀ t ∈ first :: rest, t.IsAscii) :
    (parseLeaf first rest).Accepts fun c =>
      (∀ t ∈ first :: rest, t.isWord "!" = false ∧ t.isGroup .round = false) ∧
        ¬OutOfRange (first :: rest) ∧ c = .leaf (first :: rest) := by
  obtain ⟨found, hfind⟩ := Comparison.exists_find (joinTokens_ascii fun t ht => (hascii t ht).value)
  have hliteral := checkLiteral_eq ((first :: rest).getLast (by simp)) hfind
  unfold parseLeaf
  refine ((Noting.accepts_ofExcept (forM_failsBySyntax checkLeafToken_failsBySyntax _)).bind
    (S := fun _ c => ¬OutOfRange (first :: rest) ∧ c = .leaf (first :: rest))
    fun _ _ => ?_).congr fun c => ?_
  · split
    · next hcheck =>
      rw [hcheck] at hliteral
      exact (Noting.accepts_pure _).congr fun c => ⟨fun h => ⟨hliteral, h.symm⟩, fun h => h.2.symm⟩
    · next failure hcheck =>
      rw [hcheck] at hliteral
      obtain ⟨hout, f, rfl, hf⟩ := hliteral
      exact (Noting.accepts_fail hf).congr fun c => ⟨False.elim, fun h => h.1 hout⟩
  · rw [← forall₂_congr fun _ _ => checkLeafToken_eq_ok_iff, ← forM_eq_ok_iff]
    exact ⟨fun ⟨_, hplain, h⟩ => ⟨hplain, h⟩, fun ⟨hplain, h⟩ => ⟨_, hplain, h⟩⟩

/-! ### Signs -/

section

variable {tokens : List Token} {c : Condition} {first : Token} {rest operand : List Token}

theorem isGroup_of_word {t : Token} {b : Bracket} (h : t.kind = .word) : t.isGroup b = false := by
  simp [Token.isGroup, h]

/-- Behind a sign, an operand of `&&` is one as well. -/
theorem derivesNot_of_negated (h : negated? first rest = some operand) :
    DerivesNot (first :: rest) c ↔ ∃ d, DerivesNot operand d ∧ .not d = c := by
  rcases negated?_eq_some_iff.mp h with ⟨hsign, rfl⟩ | ⟨t, hglued, rfl⟩
  · have hkind := (isWord_iff.mp hsign).1
    have hglued : ∀ t, behindNot? first ≠ some t := by
      intro t hglued
      obtain ⟨c, cs, -, htext, -⟩ := behindNot?_eq_some_iff.mp hglued
      rw [(isWord_iff.mp hsign).2] at htext
      cases htext
    constructor
    · intro hnot
      cases hnot with
      | sign _ hoperand => exact ⟨_, hoperand, rfl⟩
      | glued hfirst => exact absurd hfirst (hglued _)
      | group hgroup => exact absurd hgroup (by simp [isGroup_of_word hkind])
      | leaf hleaf =>
        have hplain := (hleaf.plain first List.mem_cons_self).1
        rw [hsign] at hplain
        cases hplain
    · rintro ⟨d, hd, rfl⟩
      exact .sign hsign hd
  · obtain ⟨d, ds, hkind, htext, -⟩ := behindNot?_eq_some_iff.mp hglued
    constructor
    · intro hnot
      cases hnot with
      | sign hsign =>
        rw [(isWord_iff.mp hsign).2] at htext
        cases htext
      | glued hfirst hoperand =>
        rw [hglued] at hfirst
        obtain rfl := Option.some.inj hfirst
        exact ⟨_, hoperand, rfl⟩
      | group hgroup => exact absurd hgroup (by simp [isGroup_of_word hkind])
      | leaf hleaf =>
        have hunsigned := hleaf.unsigned first rfl
        rw [hglued] at hunsigned
        cases hunsigned
    · rintro ⟨d, hd, rfl⟩
      exact .glued hglued hd

/-- Without a sign, an operand of `&&` is a round group or a single comparison. -/
theorem derivesNot_of_unsigned (h : negated? first rest = none) : DerivesNot (first :: rest) c ↔
    (rest = [] ∧ first.isGroup .round = true ∧ ∃ reading s,
      first.tokenizeInner .optional = .ok reading ∧ reading.statements = [s] ∧
        DerivesOr s.tokens c) ∨
      IsLeaf (first :: rest) ∧ c = .leaf (first :: rest) := by
  have hnone : ∀ tokens, negated? first rest ≠ some tokens := by simp [h]
  constructor
  · intro hnot
    cases hnot with
    | sign hsign => exact absurd (negated?_eq_some_iff.mpr (.inl ⟨hsign, rfl⟩)) (hnone _)
    | glued hfirst => exact absurd (negated?_eq_some_iff.mpr (.inr ⟨_, hfirst, rfl⟩)) (hnone _)
    | group hgroup hread hone hinside =>
      exact .inl ⟨rfl, hgroup, _, _, hread, hone, hinside⟩
    | leaf hleaf => exact .inr ⟨hleaf, rfl⟩
  · rintro (⟨rfl, hgroup, reading, s, hread, hone, hinside⟩ | ⟨hleaf, rfl⟩)
    · exact .group hgroup hread hone hinside
    · exact .leaf hleaf

end

/-! ### Reading conditions -/

/-- A reader of shorter conditions reads what the grammar derives. -/
theorem parseGroup_accepts {read : Position → List Token → Noting Condition} {group : Token}
    (hgroup : group.isGroup .round = true) (hascii : group.IsAscii)
    (hread : ∀ p tokens, weight tokens < group.length → (∀ t ∈ tokens, t.IsAscii) →
      (read p tokens).Accepts (DerivesOr tokens)) :
    (parseGroup read group).Accepts fun c => ∃ reading s,
      group.tokenizeInner .optional = .ok reading ∧ reading.statements = [s] ∧
        DerivesOr s.tokens c := by
  unfold parseGroup
  rw [if_pos hgroup]
  refine ((Noting.accepts_ofExcept (Token.tokenizeInner_failsBySyntax ..)).bind
    (S := fun reading c => ∃ s, reading.statements = [s] ∧ DerivesOr s.tokens c)
    fun reading hreading => ?_).congr fun c => ?_
  · refine ((Noting.accepts_note _).bind fun _ _ => ?_).congr
      (R := fun c => ∃ _ : Unit, True ∧ ∃ s, reading.statements = [s] ∧ DerivesOr s.tokens c)
      fun c => ⟨fun ⟨_, _, h⟩ => h, fun h => ⟨(), trivial, h⟩⟩
    split
    · next hnone =>
      exact (Noting.accepts_fail rfl).congr fun c => by simp [hnone]
    · next s hone =>
      have hmem : s ∈ reading.statements := hone ▸ List.mem_singleton_self s
      have hshorter := Reading.weight_le hmem
      have hweight := Token.tokenizeInner_weight hreading
      have hinside : ∀ t ∈ s.tokens, t.IsAscii := fun t ht =>
        hascii.inside hreading (List.mem_flatMap.mpr ⟨s, hmem, ht⟩)
      exact (hread _ _ (by omega) hinside).congr fun c => by simp [hone]
    · next hmore =>
      exact (Noting.accepts_fail rfl).congr fun c => by simp [hmore]
  · exact ⟨fun ⟨reading, hreading, s, h⟩ => ⟨reading, s, hreading, h⟩,
      fun ⟨reading, s, hreading, h⟩ => ⟨reading, hreading, s, h⟩⟩

/-- Behind its first token, a negated operand has only tokens that stand behind the sign. -/
theorem forall_tail_of_negated {first : Token} {rest operand : List Token} {P : Token → Prop}
    (h : negated? first rest = some operand) (hP : ∀ t ∈ rest, P t) : ∀ t ∈ operand.tail, P t := by
  rcases negated?_eq_some_iff.mp h with ⟨-, rfl⟩ | ⟨t, -, rfl⟩
  · exact fun t ht => hP t (List.mem_of_mem_tail ht)
  · exact hP

theorem isAscii_of_negated {first : Token} {rest operand : List Token}
    (h : negated? first rest = some operand) (hascii : ∀ t ∈ first :: rest, t.IsAscii) :
    ∀ t ∈ operand, t.IsAscii := by
  obtain ⟨hfirst, hrest⟩ := List.forall_mem_cons.mp hascii
  rcases negated?_eq_some_iff.mp h with ⟨-, rfl⟩ | ⟨t, hglued, rfl⟩
  · exact hrest
  · refine List.forall_mem_cons.mpr ⟨?_, hrest⟩
    obtain ⟨c, cs, hkind, htext, -, rfl⟩ := behindNot?_eq_some_iff.mp hglued
    exact hfirst.splitAt? (splitAt?_sign hkind htext)

/-- With a bound above the number of characters, exactly the conditions of the grammar are read. -/
theorem parseWithin_accepts {depth : Nat} (at_ : Position) {tokens : List Token}
    (hdepth : weight tokens < depth) (hascii : ∀ t ∈ tokens, t.IsAscii) :
    (parseWithin depth at_ tokens).Accepts (DerivesOr tokens) := by
  -- each nested step reads fewer characters
  induction depth generalizing at_ tokens with
  | zero => omega
  | succ depth ih =>
    cases tokens with
    | nil => exact (Noting.accepts_fail rfl).congr fun c => ⟨False.elim, fun h => h.ne_nil rfl⟩
    | cons first rest =>
      have hoperands : ∀ {symbol parts part}, symbol ≠ "" →
          splitAt symbol (first :: rest) = .ok parts → 2 ≤ parts.length → part ∈ parts →
            (∀ t ∈ part, t ∈ first :: rest ∧ t.isWord symbol = false) →
              (parseWithin depth at_ part).Accepts (DerivesOr part) := by
        intro symbol parts part hsymbol hparts htwo hpart hfree
        have hshorter := splitAt_weight hsymbol hparts htwo part hpart
        exact ih at_ (by omega) fun t ht => hascii t (hfree t ht).1
      unfold parseWithin
      refine (splitAt_accepts (R := DerivesAnd)
        (fun part c h => ⟨h.ne_nil, h.connectives⟩) (fun parts hparts htwo part hpart hfree => ?_)
        fun hor => ?_).congr fun c => derivesOr_iff.symm
      · refine (hoperands (by decide) hparts htwo hpart hfree).congr fun c =>
          ⟨fun h => h.derivesAnd fun t ht => ?_, DerivesAnd.derivesOr⟩
        exact (hfree t (List.mem_of_mem_tail ht)).2
      refine (splitAt_accepts (R := DerivesNot)
        (fun part c h => ⟨h.ne_nil, fun t ht => (h.connectives t ht).2⟩)
        (fun parts hparts htwo part hpart hfree => ?_) fun hand => ?_).congr
          fun c => derivesAnd_iff.symm
      · refine (hoperands (by decide) hparts htwo hpart hfree).congr fun c =>
          ⟨fun h => ?_, fun h => h.derivesAnd.derivesOr⟩
        refine (h.derivesAnd fun t ht => ?_).derivesNot fun t ht => ?_
        · exact hor t (hfree t (List.mem_of_mem_tail ht)).1
        · exact (hfree t (List.mem_of_mem_tail ht)).2
      split
      · next hnegated =>
        refine (Noting.accepts_fail rfl).congr fun c => ⟨False.elim, fun h => ?_⟩
        obtain ⟨d, hd, -⟩ := (derivesNot_of_negated hnegated).mp h
        exact hd.ne_nil rfl
      · next operand _ hnegated =>
        have hshorter := negated?_weight hnegated
        refine (ih at_ (by omega) (isAscii_of_negated hnegated hascii)).bind_pure.congr fun c => ?_
        rw [derivesNot_of_negated hnegated]
        refine exists_congr fun d => and_congr_left fun _ =>
          ⟨fun h => ?_, fun h => h.derivesAnd.derivesOr⟩
        refine (h.derivesAnd (forall_tail_of_negated hnegated fun t ht => ?_)).derivesNot
          (forall_tail_of_negated hnegated fun t ht => ?_)
        · exact hor t (List.mem_cons_of_mem first ht)
        · exact hand t (List.mem_cons_of_mem first ht)
      · next hnegated =>
        obtain ⟨hfirst, hrest⟩ := List.forall_mem_cons.mp hascii
        split
        · next hgroup =>
          simp only [Bool.and_eq_true, List.isEmpty_iff] at hgroup
          obtain ⟨rfl, hgroup⟩ := hgroup
          refine (parseGroup_accepts hgroup hfirst fun p tokens hshorter hinside => ?_).congr
            fun c => ?_
          · exact ih p (by simp at hdepth; omega) hinside
          · rw [derivesNot_of_unsigned hnegated]
            refine ⟨fun h => .inl ⟨rfl, hgroup, h⟩, ?_⟩
            rintro (⟨-, -, h⟩ | ⟨hleaf, -⟩)
            · exact h
            · have hplain := (hleaf.plain first List.mem_cons_self).2
              rw [hgroup] at hplain
              cases hplain
        · next hgroup =>
          refine (parseLeaf_accepts hascii).congr fun c => ?_
          rw [derivesNot_of_unsigned hnegated]
          constructor
          · rintro ⟨hplain, hrange, rfl⟩
            refine .inr ⟨⟨by simp, fun t ht => ⟨hor t ht, hand t ht⟩, hplain, ?_, hrange⟩, rfl⟩
            intro t ht
            obtain rfl := Option.some.inj ht
            refine Option.eq_none_iff_forall_ne_some.mpr fun operand hglued => ?_
            rw [negated?_eq_some_iff.mpr (.inr ⟨operand, hglued, rfl⟩)] at hnegated
            cases hnegated
          · rintro (⟨rfl, hround, -⟩ | ⟨hleaf, rfl⟩)
            · exact absurd (by simp [hround]) hgroup
            · exact ⟨hleaf.plain, hleaf.inRange, rfl⟩

theorem parseTokens_accepts (at_ : Position) {tokens : List Token}
    (hascii : ∀ t ∈ tokens, t.IsAscii) :
    (parseTokens at_ tokens).Accepts (DerivesOr tokens) :=
  parseWithin_accepts at_ (Nat.lt_succ_self _) hascii

/-- The condition in a round group is read as the grammar derives it from its only statement. -/
theorem parse_accepts {group : Token} (hgroup : group.isGroup .round = true)
    (hascii : group.IsAscii) : (parse group).Accepts fun c => ∃ reading s,
      group.tokenizeInner .optional = .ok reading ∧ reading.statements = [s] ∧
        DerivesOr s.tokens c :=
  parseGroup_accepts hgroup hascii fun p _ _ hinside => parseTokens_accepts p hinside

/-- Tokens are read as a condition exactly if the grammar derives one from them, which is then the
tree that is read. Everything else is rejected with a syntax error that has a place. -/
theorem parseTokens_accepts_grammar (at_ : Position) (tokens : List Token)
    (hascii : ∀ t ∈ tokens, t.IsAscii) (noted : List Warning) :
    (∀ c, ((parseTokens at_ tokens).run.run noted).1 = .ok c ↔ DerivesOr tokens c) ∧
      ∀ failure, ((parseTokens at_ tokens).run.run noted).1 = .error failure →
        ∃ f, failure = .fault f ∧ f.kind = .syntactic ∧ f.location.isSome = true := by
  obtain ⟨hok, herror⟩ := parseTokens_accepts at_ hascii noted
  refine ⟨hok, fun failure hfailure => ?_⟩
  obtain ⟨f, rfl, hf⟩ := herror failure hfailure
  exact ⟨f, rfl, by simpa [Fault.isSyntaxError] using hf⟩

/-- The tokens of `!$a && $b`. -/
def signedTokens : List Token :=
  [⟨.word, ⟨0, 3, ⟨1, 1⟩⟩, "!$a"⟩, ⟨.word, ⟨4, 6, ⟨1, 5⟩⟩, "&&"⟩, ⟨.word, ⟨7, 9, ⟨1, 8⟩⟩, "$b"⟩]

/-- The tree of `!$a && $b`. -/
def signedCondition : Condition :=
  .all [.not (.leaf [⟨.word, ⟨1, 3, ⟨1, 2⟩⟩, "$a"⟩]), .leaf [⟨.word, ⟨7, 9, ⟨1, 8⟩⟩, "$b"⟩]]

/-- The sign binds tighter than the connective: the grammar derives the tree that is read. -/
theorem signedTokens_derive :
    (∀ t ∈ signedTokens, t.IsAscii) ∧ DerivesOr signedTokens signedCondition := by
  have htexts : ∀ t ∈ signedTokens, (∀ c ∈ t.text.toList, c.toNat < 128) ∧
      ∀ c ∈ t.value.toList, c.toNat < 128 := by simp [signedTokens, Token.value]
  have hascii : ∀ t ∈ signedTokens, t.IsAscii := fun t ht => ⟨(htexts t ht).1, (htexts t ht).2⟩
  have hread : ((parseTokens .start signedTokens).run.run []).1 = .ok signedCondition := by cbv
  exact ⟨hascii, ((parseTokens_accepts_grammar .start signedTokens hascii []).1 _).mp hread⟩

end Condition

end Packwright
