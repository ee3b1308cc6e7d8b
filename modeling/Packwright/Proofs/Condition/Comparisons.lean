import Packwright.Condition.Parser
import Packwright.Proofs.Searches
import Packwright.Proofs.Token.Pieces

/-!
# The text of a comparison

A comparison is written in up to three words, as blanks may stand before and behind its sign. Its
text is that of the words with at most one blank between neighbours. The search for the sign passes
over the left side, selectors included, and finds the sign that was written.

## Main definitions

- `Comparison.isQuiet` — characters that the search for a sign passes
- `ComparisonWords` — the words of a comparison
- `OptionalBlank` — nothing, or one blank

## Main results

- `Comparison.find_sign`, `Comparison.find_unsigned`, `Comparison.find_foreign` — what the search finds
- `Text.trimList_padded` — a side without the blanks around it
- `ComparisonWords.joinTokens` — the text of the words
-/

namespace Packwright

/-! ### The search passes over a side -/

namespace Text

variable {α : Type} {test : List Char → Option α} {o : Outside} {c : Char}
  {cs front rest : List Char}

/-- What is found behind some characters. -/
def foundBehind (front : List Char) (x : Option (List Char × α)) : Option (List Char × α) :=
  x.map fun (before, found) => (front ++ before, found)

theorem foundBehind_append (xs ys : List Char) (x : Option (List Char × α)) :
    foundBehind (xs ++ ys) x = foundBehind xs (foundBehind ys x) := by
  cases x with
  | none => rfl
  | some found => simp [foundBehind]

/-- The search goes on behind a character where the test fails or that it does not look at. -/
theorem firstOutside_cons (h : o.sees c = true → test (c :: rest) = none) :
    firstOutside test o (c :: rest) = foundBehind [c] (firstOutside test (o.step c) rest) := by
  have hhere : (if o.sees c = true then test (c :: rest) else none) = none := by
    split
    · next hsees => exact h hsees
    · rfl
  rw [firstOutside, hhere]
  rfl

theorem firstOutside_quoted {n : Nat} (h : Quoted cs) :
    firstOutside test ⟨n, true, false⟩ (cs ++ rest) =
      foundBehind cs (firstOutside test ⟨n, true, false⟩ rest) := by
  induction h with
  | nil => simp [foundBehind]
  | @plain c cs hquote hslash _ _ ih =>
    have hstep : (⟨n, true, false⟩ : Outside).step c = ⟨n, true, false⟩ := by
      simp [Outside.step, hquote, hslash]
    rw [List.cons_append, firstOutside_cons (by simp [Outside.sees]), hstep, ih,
      ← foundBehind_append, List.singleton_append]
  | @escape c cs _ ih =>
    rw [List.cons_append, List.cons_append, firstOutside_cons (by simp [Outside.sees])]
    rw [show (⟨n, true, false⟩ : Outside).step '\\' = ⟨n, true, true⟩ from rfl,
      firstOutside_cons (by simp [Outside.sees])]
    rw [show (⟨n, true, true⟩ : Outside).step c = ⟨n, true, false⟩ from rfl, ih,
      ← foundBehind_append, ← foundBehind_append]
    rfl

/-- The search does not look inside brackets. -/
theorem firstOutside_balanced {n : Nat} (h : Balanced cs) :
    firstOutside test ⟨n + 1, false, false⟩ (cs ++ rest) =
      foundBehind cs (firstOutside test ⟨n + 1, false, false⟩ rest) := by
  have hhidden : ∀ {c : Char} {m : Nat}, (⟨m + 1, false, false⟩ : Outside).sees c = false := by
    simp [Outside.sees]
  induction h generalizing n rest with
  | nil => simp [foundBehind]
  | @char c cs hquote hbracket _ ih =>
    have hstep : (⟨n + 1, false, false⟩ : Outside).step c = ⟨n + 1, false, false⟩ := by
      have hround := hbracket .round
      have hcurly := hbracket .curly
      have hsquare := hbracket .square
      simp only [Bracket.opening, Bracket.closing] at hround hcurly hsquare
      simp [Outside.step, hquote, hround, hcurly, hsquare]
    rw [List.cons_append, firstOutside_cons (by simp [hhidden]), hstep, ih, ← foundBehind_append,
      List.singleton_append]
  | @string body cs hbody _ ih =>
    rw [List.cons_append, List.append_assoc, List.cons_append,
      firstOutside_cons (by simp [hhidden])]
    rw [show (⟨n + 1, false, false⟩ : Outside).step '"' = ⟨n + 1, true, false⟩ from rfl,
      firstOutside_quoted hbody, firstOutside_cons (by simp [Outside.sees])]
    rw [show (⟨n + 1, true, false⟩ : Outside).step '"' = ⟨n + 1, false, false⟩ from rfl, ih,
      ← foundBehind_append, ← foundBehind_append, ← foundBehind_append]
    simp
  | @group b inner cs _ _ ihinner ih =>
    have hopening : (⟨n + 1, false, false⟩ : Outside).step b.opening = ⟨n + 2, false, false⟩ := by
      cases b <;> rfl
    have hclosing : (⟨n + 2, false, false⟩ : Outside).step b.closing = ⟨n + 1, false, false⟩ := by
      cases b <;> rfl
    rw [List.cons_append, List.append_assoc, List.cons_append,
      firstOutside_cons (by simp [hhidden]), hopening, ihinner,
      firstOutside_cons (by simp [hhidden]), hclosing, ih,
      ← foundBehind_append, ← foundBehind_append, ← foundBehind_append]
    simp

/-- The search passes over characters where the test fails and that are no quotes and no brackets, and over
selectors between them. -/
theorem firstOutside_withSelectors {P : Char → Prop} (htest : ∀ c rest, P c → test (c :: rest) = none)
    (hplain : ∀ c, P c → c ≠ '"' ∧ ∀ b : Bracket, c ≠ b.opening ∧ c ≠ b.closing)
    (h : Lexer.WithSelectors P cs) :
    firstOutside test {} (cs ++ rest) = foundBehind cs (firstOutside test {} rest) := by
  induction h with
  | nil => simp [foundBehind]
  | @char c cs hc _ ih =>
    obtain ⟨hquote, hbracket⟩ := hplain c hc
    have hround := hbracket .round
    have hcurly := hbracket .curly
    have hsquare := hbracket .square
    simp only [Bracket.opening, Bracket.closing] at hround hcurly hsquare
    have hstep : ({} : Outside).step c = {} := by
      simp [Outside.step, hquote, hround, hcurly, hsquare]
    rw [List.cons_append, firstOutside_cons fun _ => htest _ _ hc, hstep, ih, ← foundBehind_append,
      List.singleton_append]
  | @selector inner cs hinner _ ih =>
    rw [List.cons_append, List.append_assoc, List.cons_append, firstOutside_cons (by simp [Outside.sees])]
    rw [show ({} : Outside).step '[' = ⟨0 + 1, false, false⟩ from rfl,
      firstOutside_balanced hinner, firstOutside_cons (by simp [Outside.sees])]
    rw [show (⟨0 + 1, false, false⟩ : Outside).step ']' = {} from rfl, ih,
      ← foundBehind_append, ← foundBehind_append, ← foundBehind_append]
    simp

end Text

namespace Comparison

variable {c : Char} {cs rest left after : List Char} {sign : Comparison}

/-- The search for a sign passes the character: it is ASCII, no quote and no bracket, and no sign
begins with it. -/
def isQuiet (c : Char) : Bool :=
  c.toNat < 128 && !(['"', '=', '!', '<', '>'].contains c) && Bracket.ofOpening? c = none &&
    !Bracket.isClosing c

theorem isQuiet_iff : isQuiet c = true ↔ c.toNat < 128 ∧
    (∀ d ∈ ['"', '=', '!', '<', '>'], c ≠ d) ∧ ∀ b : Bracket, c ≠ b.opening ∧ c ≠ b.closing := by
  rw [Bracket.not_bracket_iff]
  simp [isQuiet, and_assoc]

theorem probe_quiet (hc : isQuiet c = true) : probe (c :: rest) = none := by
  obtain ⟨hascii, hmarks, -⟩ := isQuiet_iff.mp hc
  rw [probe_cons, if_pos hascii]
  refine Option.map_eq_none_iff.mpr (Option.eq_none_iff_forall_ne_some.mpr fun sign hsign => ?_)
  obtain ⟨more, hmore⟩ := exists_of_leading? hsign
  have hfirst : c ∈ ['=', '!', '<', '>'] := by
    cases sign <;> obtain ⟨rfl, -⟩ := List.cons.inj hmore <;> decide
  exact hmarks c (List.mem_cons_of_mem _ hfirst) rfl

/-- The search passes over quiet characters and selectors. -/
theorem firstOutside_side (h : Lexer.WithSelectors (isQuiet · = true) cs) :
    Text.firstOutside probe {} (cs ++ rest) =
      Text.foundBehind cs (Text.firstOutside probe {} rest) := by
  refine Text.firstOutside_withSelectors (fun _ _ hc => probe_quiet hc) (fun c hc => ?_) h
  obtain ⟨-, hmarks, hbracket⟩ := isQuiet_iff.mp hc
  exact ⟨hmarks '"' (by simp), hbracket⟩

/-- A sign that no equals sign follows is the one that is written. -/
theorem leading?_symbol (sign : Comparison) (hafter : after.head? ≠ some '=') :
    leading? (sign.symbol.toList ++ after) = some sign := by
  cases after with
  | nil => cases sign <;> rfl
  | cons c after =>
    have hc : ('=' == c) = false := by
      rw [beq_eq_false_iff_ne]
      exact fun h => hafter (h ▸ rfl)
    -- the longer signs are tried before those that they begin with
    have hlonger : ∀ d : Char, [d, '='].isPrefixOf (d :: c :: after) = false := by
      intro d
      simp only [List.isPrefixOf, hc, BEq.rfl, Bool.true_and, Bool.false_and]
    cases sign with
    | eq | ne | ge | le => rfl
    | gt =>
      show (match ['>', '='].isPrefixOf ('>' :: c :: after) with | true => some ge | false => _) = _
      rw [hlonger]
      rfl
    | lt =>
      show (match ['<', '='].isPrefixOf ('<' :: c :: after) with | true => some le | false => _) = _
      rw [hlonger]
      rfl

/-- A sign is looked at. -/
theorem exists_symbol (sign : Comparison) : ∃ c cs, sign.symbol.toList = c :: cs ∧
    c.toNat < 128 ∧ ({} : Text.Outside).sees c = true := by
  cases sign <;> exact ⟨_, _, rfl, by decide, by decide⟩

/-- The sign of a comparison, with the texts of its two sides. -/
theorem find_sign (hleft : Lexer.WithSelectors (isQuiet · = true) left)
    (hafter : after.head? ≠ some '=') :
    find (left ++ (sign.symbol.toList ++ after)) = .ok (some (left, sign, after)) := by
  have hleading := leading?_symbol sign hafter
  have hprobe : Text.firstOutside probe {} (sign.symbol.toList ++ after) = some ([], .ok sign) := by
    obtain ⟨c, cs, hsymbol, hascii, hsees⟩ := exists_symbol sign
    rw [hsymbol, List.cons_append] at hleading ⊢
    rw [Text.firstOutside, if_pos hsees, probe_cons, if_pos hascii, hleading]
    rfl
  rw [find, firstOutside_side hleft, hprobe]
  simp [Text.foundBehind]

theorem find_unsigned (hcs : Lexer.WithSelectors (isQuiet · = true) cs) : find cs = .ok none := by
  have hside : Text.firstOutside probe {} (cs ++ []) = Text.foundBehind cs none :=
    firstOutside_side hcs
  rw [List.append_nil] at hside
  rw [find, hside]
  rfl

/-- At a character outside ASCII on the left side the search stops the program. -/
theorem find_foreign (hleft : Lexer.WithSelectors (isQuiet · = true) left) (hc : 128 ≤ c.toNat) :
    find (left ++ c :: rest) = .error .crash := by
  have hsees : ({} : Text.Outside).sees c = true := by rw [sees_foreign hc]; rfl
  have hprobe : probe (c :: rest) = some (.error .crash) := by
    rw [probe_cons, if_neg (Nat.not_lt.mpr hc)]
  have hfirst : Text.firstOutside probe {} (c :: rest) = some ([], .error .crash) := by
    rw [Text.firstOutside, if_pos hsees, hprobe]
  rw [find, firstOutside_side hleft, hfirst]
  rfl

end Comparison

/-! ### Characters of a side -/

/-- Characters of names and integers, and those that a score is written with besides. -/
def isSideChar (c : Char) : Bool := c.isAlphanum || ['_', '.', '-', '+', '$', ':', '@'].contains c

/-- Characters of comparison signs. -/
def isSignChar (c : Char) : Bool := ['=', '!', '<', '>'].contains c

section

variable {c : Char}

/-- Characters of a side lie between the dollar sign and the last letter. -/
theorem toNat_of_side (h : isSideChar c = true) : 36 ≤ c.toNat ∧ c.toNat ≤ 122 := by
  unfold isSideChar Char.isAlphanum Char.isAlpha Char.isUpper Char.isLower Char.isDigit at h
  simp only [Bool.or_eq_true, Bool.and_eq_true, decide_eq_true_eq, List.contains_eq_mem,
    List.mem_cons, List.not_mem_nil, or_false] at h
  rcases h with ((h | h) | h) | rfl | rfl | rfl | rfl | rfl | rfl | rfl
  · exact ⟨Nat.le_trans (by decide) (show 65 ≤ c.toNat from h.1),
      Nat.le_trans (show c.toNat ≤ 90 from h.2) (by decide)⟩
  · exact ⟨Nat.le_trans (by decide) (show 97 ≤ c.toNat from h.1), h.2⟩
  · exact ⟨Nat.le_trans (by decide) (show 48 ≤ c.toNat from h.1),
      Nat.le_trans (show c.toNat ≤ 57 from h.2) (by decide)⟩
  all_goals decide

theorem ne_of_side (h : isSideChar c = true) {d : Char} (hd : isSideChar d = false) : c ≠ d := by
  rintro rfl
  rw [h] at hd
  cases hd

theorem isBlank_of_side (h : isSideChar c = true) : Text.isBlank c = false := by
  obtain ⟨hlow, hhigh⟩ := toNat_of_side h
  simp only [Text.isBlank, Bool.or_eq_false_iff, Bool.and_eq_false_iff, decide_eq_false_iff_not,
    beq_eq_false_iff_ne]
  omega

theorem ne_bracket_of_side (h : isSideChar c = true) (b : Bracket) :
    c ≠ b.opening ∧ c ≠ b.closing := by
  cases b <;> exact ⟨ne_of_side h (by decide), ne_of_side h (by decide)⟩

/-- The search for a sign passes the characters of a side. -/
theorem isQuiet_of_side (h : isSideChar c = true) : Comparison.isQuiet c = true := by
  refine Comparison.isQuiet_iff.mpr
    ⟨Nat.lt_of_le_of_lt (toNat_of_side h).2 (by decide), fun d hd => ne_of_side h ?_,
      ne_bracket_of_side h⟩
  have hmarks : ['"', '=', '!', '<', '>'].all (!isSideChar ·) = true := by decide
  simpa using List.all_eq_true.mp hmarks d hd

theorem isWordChar_of_side (h : isSideChar c = true) : Lexer.isWordChar c = true := by
  refine Lexer.isWordChar_iff.mpr ⟨isBlank_of_side h, fun d hd => ne_of_side h ?_,
    ne_bracket_of_side h⟩
  have hmarks : [';', '"', ',', '/', '&', '|', '#'].all (!isSideChar ·) = true := by decide
  simpa using List.all_eq_true.mp hmarks d hd

theorem isWordChar_of_sign (h : isSignChar c = true) : Lexer.isWordChar c = true := by
  simp only [isSignChar, List.contains_eq_mem, List.mem_cons, List.not_mem_nil, or_false,
    decide_eq_true_eq] at h
  rcases h with rfl | rfl | rfl | rfl <;> decide

end

/-! ### Blanks around a side -/

section

variable {cs front back : List Char}

theorem Text.dropWhile_blanks (hfront : ∀ c ∈ front, isBlank c = true)
    (hcs : ∀ c ∈ cs, isBlank c = false) : (front ++ cs).dropWhile isBlank = cs := by
  rw [List.dropWhile_append_of_pos hfront]
  cases cs with
  | nil => rfl
  | cons c cs => exact List.dropWhile_cons_of_neg (by simp [hcs c List.mem_cons_self])

/-- Blanks around a text without blanks are dropped. -/
theorem Text.trimList_padded (hfront : ∀ c ∈ front, isBlank c = true)
    (hcs : ∀ c ∈ cs, isBlank c = false) (hback : ∀ c ∈ back, isBlank c = true) :
    trimList (front ++ (cs ++ back)) = cs := by
  have hright : trimRight (cs ++ back) = cs := by
    rw [trimRight, List.reverse_append, dropWhile_blanks (by simpa using hback)
      (by simpa using hcs), List.reverse_reverse]
  cases cs with
  | nil =>
    have hall := dropWhile_blanks hback hcs
    rw [List.append_nil] at hall
    rw [List.nil_append, trimList, List.dropWhile_append_of_pos hfront, hall]
    rfl
  | cons c cs =>
    rw [trimList, List.dropWhile_append_of_pos hfront, List.cons_append,
      List.dropWhile_cons_of_neg (by simp [hcs c List.mem_cons_self])]
    exact hright

end

/-! ### Words of a comparison -/

/-- The words of a comparison, with a blank or without one on each side of the sign. -/
inductive ComparisonWords (left sign right : List Char) : List (List Char) → Prop
  | apart : ComparisonWords left sign right [left, sign, right]
  | front : ComparisonWords left sign right [left ++ sign, right]
  | back : ComparisonWords left sign right [left, sign ++ right]
  | glued : ComparisonWords left sign right [left ++ (sign ++ right)]

/-- Nothing, or one blank. -/
def OptionalBlank (gap : List Char) : Prop := gap = [] ∨ gap = [' ']

section

variable {tokens : List Token} {words : List (List Char)} {left sign right : List Char}

/-- Blanks around the sign are those between words. -/
theorem exists_comparisonWords {gap gap' : List Char} (hleft : left ≠ []) (hsign : sign ≠ [])
    (hright : right ≠ []) (hgap : ∀ c ∈ gap, Text.isBlank c = true)
    (hgap' : ∀ c ∈ gap', Text.isBlank c = true) :
    ∃ words, ComparisonWords left sign right words ∧
      Lexer.Spaced words (left ++ (gap ++ (sign ++ (gap' ++ right)))) := by
  obtain ⟨c, cs, rfl⟩ := List.exists_cons_of_ne_nil hleft
  obtain ⟨d, ds, rfl⟩ := List.exists_cons_of_ne_nil hsign
  obtain ⟨e, es, rfl⟩ := List.exists_cons_of_ne_nil hright
  cases gap with
  | nil =>
    cases gap' with
    | nil => exact ⟨_, .glued, .last c⟩
    | cons b gap' =>
      rw [List.nil_append, ← List.append_assoc]
      exact ⟨_, .front, .more c (List.cons_ne_nil _ _) hgap' (.last e)⟩
  | cons b gap =>
    cases gap' with
    | nil => exact ⟨_, .back, .more c (List.cons_ne_nil _ _) hgap (.last d)⟩
    | cons b' gap' =>
      exact ⟨_, .apart, .more c (List.cons_ne_nil _ _) hgap
        (.more d (List.cons_ne_nil _ _) hgap' (.last e))⟩

/-- What holds of the sides and of the sign, and of two texts together, holds of all words. -/
theorem ComparisonWords.forall {P : List Char → Prop} (h : ComparisonWords left sign right words)
    (hleft : P left) (hsign : P sign) (hright : P right)
    (happend : ∀ {cs ds}, P cs → P ds → P (cs ++ ds)) : ∀ w ∈ words, P w := by
  cases h with
  | apart => simp [hleft, hsign, hright]
  | front => simp [happend hleft hsign, hright]
  | back => simp [hleft, happend hsign hright]
  | glued => simpa using happend hleft (happend hsign hright)

/-- A text without the character stays as it is. -/
theorem Text.replaceChar_of_not_mem {old : Char} {new cs : List Char} (h : old ∉ cs) :
    replaceChar old new cs = cs := by
  induction cs with
  | nil => rfl
  | cons c cs ih =>
    rw [List.mem_cons, not_or] at h
    rw [replaceChar, List.flatMap_cons, if_neg (Ne.symm h.1)]
    exact congrArg (c :: ·) (ih h.2)

/-- The text of a word stands for itself. -/
theorem wordText_eq {t : Token} {w : List Char} (ht : t.shape = (.word, w)) (hw : '\n' ∉ w) :
    Text.replaceChar '\n' ['\\', 'n'] t.value.toList = w := by
  obtain ⟨hkind, htext⟩ := Prod.mk.inj ht
  rw [Token.value, hkind]
  dsimp only
  rw [htext, Text.replaceChar_of_not_mem hw]

theorem joinTokens_singleton {t : Token} {w : List Char} (ht : t.shape = (.word, w))
    (hw : '\n' ∉ w) : (joinTokens [t]).toList = w := by
  rw [joinTokens, String.toList_ofList, joinBy, wordText_eq ht hw]

/-- The text of a comparison is that of its sides and its sign, with at most one blank between. -/
theorem ComparisonWords.joinTokens (h : ComparisonWords left sign right words)
    (htokens : tokens.map Token.shape = words.map (TokenKind.word, ·))
    (hlines : '\n' ∉ left ++ (sign ++ right)) :
    ∃ gap gap', OptionalBlank gap ∧ OptionalBlank gap' ∧
      (joinTokens tokens).toList = left ++ (gap ++ (sign ++ (gap' ++ right))) := by
  have hgap : ∀ t u : Token, OptionalBlank (if t.adjacent u = true then [] else [' ']) := by
    intro t u
    split
    · exact .inl rfl
    · exact .inr rfl
  simp only [List.mem_append, not_or] at hlines
  obtain ⟨hleft, hsign, hright⟩ := hlines
  cases h with
  | apart =>
    obtain ⟨t, more, rfl, ht, hmore⟩ := List.map_eq_cons_iff.mp htokens
    obtain ⟨u, more, rfl, hu, hmore⟩ := List.map_eq_cons_iff.mp hmore
    obtain ⟨v, more, rfl, hv, hmore⟩ := List.map_eq_cons_iff.mp hmore
    obtain rfl := List.map_eq_nil_iff.mp hmore
    refine ⟨_, _, hgap t u, hgap u v, ?_⟩
    rw [Packwright.joinTokens, String.toList_ofList, joinBy, joinBy, joinBy, wordText_eq ht hleft,
      wordText_eq hu hsign, wordText_eq hv hright]
    simp
  | front =>
    obtain ⟨t, more, rfl, ht, hmore⟩ := List.map_eq_cons_iff.mp htokens
    obtain ⟨u, more, rfl, hu, hmore⟩ := List.map_eq_cons_iff.mp hmore
    obtain rfl := List.map_eq_nil_iff.mp hmore
    refine ⟨[], _, .inl rfl, hgap t u, ?_⟩
    rw [Packwright.joinTokens, String.toList_ofList, joinBy, joinBy,
      wordText_eq ht (by simp [hleft, hsign]), wordText_eq hu hright]
    simp
  | back =>
    obtain ⟨t, more, rfl, ht, hmore⟩ := List.map_eq_cons_iff.mp htokens
    obtain ⟨u, more, rfl, hu, hmore⟩ := List.map_eq_cons_iff.mp hmore
    obtain rfl := List.map_eq_nil_iff.mp hmore
    refine ⟨_, [], hgap t u, .inl rfl, ?_⟩
    rw [Packwright.joinTokens, String.toList_ofList, joinBy, joinBy, wordText_eq ht hleft,
      wordText_eq hu (by simp [hsign, hright])]
    simp
  | glued =>
    obtain ⟨t, more, rfl, ht, hmore⟩ := List.map_eq_cons_iff.mp htokens
    obtain rfl := List.map_eq_nil_iff.mp hmore
    refine ⟨[], [], .inl rfl, .inl rfl, ?_⟩
    rw [joinTokens_singleton ht (by simp [hleft, hsign, hright])]
    rfl

theorem OptionalBlank.eq_blank {gap : List Char} (h : OptionalBlank gap) : ∀ c ∈ gap, c = ' ' := by
  rcases h with rfl | rfl <;> simp

theorem OptionalBlank.isBlank {gap : List Char} (h : OptionalBlank gap) :
    ∀ c ∈ gap, Text.isBlank c = true := by
  intro c hc
  rw [h.eq_blank c hc]
  rfl

/-- The sign of the words is found, and on its right is the right side, maybe behind a blank. -/
theorem ComparisonWords.find {sign : Comparison}
    (h : ComparisonWords left sign.symbol.toList right words)
    (htokens : tokens.map Token.shape = words.map (TokenKind.word, ·))
    (hleft : Lexer.WithSelectors (Comparison.isQuiet · = true) left) (hline : '\n' ∉ left)
    (hright : ∀ c ∈ right, isSideChar c = true) :
    ∃ gap gap', OptionalBlank gap ∧ OptionalBlank gap' ∧ Text.trimList (gap' ++ right) = right ∧
      (Packwright.joinTokens tokens).toList =
        left ++ (gap ++ (sign.symbol.toList ++ (gap' ++ right))) ∧
      Comparison.find (Packwright.joinTokens tokens).toList =
        .ok (some (left ++ gap, sign, gap' ++ right)) := by
  have hsymbol : '\n' ∉ sign.symbol.toList := by cases sign <;> decide
  have hside : '\n' ∉ right := fun hmem => absurd (hright _ hmem) (by decide)
  obtain ⟨gap, gap', hgap, hgap', htext⟩ := h.joinTokens htokens (by simp [hline, hsymbol, hside])
  have hquiet : Lexer.WithSelectors (Comparison.isQuiet · = true) (left ++ gap) := by
    refine hleft.append (Lexer.withSelectors_of_forall fun c hc => ?_)
    rw [hgap.eq_blank c hc]
    decide
  have hafter : (gap' ++ right).head? ≠ some '=' := by
    intro hhead
    rcases List.mem_append.mp (List.mem_of_mem_head? hhead) with hmem | hmem
    · exact absurd (hgap'.eq_blank _ hmem) (by decide)
    · exact absurd (hright _ hmem) (by decide)
  have htrim : Text.trimList (gap' ++ (right ++ [])) = right :=
    Text.trimList_padded hgap'.isBlank (fun c hc => isBlank_of_side (hright c hc))
      (List.forall_mem_nil _)
  rw [List.append_nil] at htrim
  refine ⟨gap, gap', hgap, hgap', htrim, htext, ?_⟩
  rw [htext, ← List.append_assoc, Comparison.find_sign hquiet hafter]

end

end Packwright
