import Packwright.Operator
import Packwright.Proofs.Condition.Exactness
import Packwright.Proofs.Token.Pieces

/-!
# The words of an assignment

An assignment is written in up to three words, as blanks may stand in front of its operator and behind it. The
search for the operator passes over the target, selectors included, and finds the operator that was written; what
is cut off in front of it and behind it are the target and the value.

## Main definitions

- `Operator.isBinary`, `Operator.isQuiet` — operators between two values, and characters that the search for an
  operator passes
- `ScoreWord`, `ValueWord` — words that stand for a score, and for what an operator takes on its right

## Main results

- `Operator.find_symbol`, `Operator.find_quiet`, `ValueWord.find` — what the search finds
- `Assignment.exists_ofTokens?` — the words are split into the target, the operator and the value
- `AssignmentWords.beginsWord` — each word is read as a whole
-/

namespace Packwright

/-! ### Operators in a text -/

namespace Operator

variable {c : Char} {cs left right rest after : List Char} {o : Operator}

/-- The operator stands between two values. -/
def isBinary : Operator → Bool
  | .increment | .decrement => false
  | _ => true

/-- The search for an operator passes the character: it is no quote and no bracket, and no operator begins with
it. -/
def isQuiet (c : Char) : Bool :=
  !(['"', '>', '<', '-', '+', '*', '/', '%', '='].contains c) && Bracket.ofOpening? c = none &&
    !Bracket.isClosing c

theorem isQuiet_iff : isQuiet c = true ↔ (∀ d ∈ ['"', '>', '<', '-', '+', '*', '/', '%', '='], c ≠ d) ∧
    ∀ b : Bracket, c ≠ b.opening ∧ c ≠ b.closing := by
  rw [Bracket.not_bracket_iff]
  simp [isQuiet, and_assoc]

/-- A character of a side is passed unless it is a sign. -/
theorem isQuiet_of_side (h : isSideChar c = true) (hsigns : c ≠ '+' ∧ c ≠ '-') : isQuiet c = true := by
  refine isQuiet_iff.mpr ⟨?_, ne_bracket_of_side h⟩
  have hmarks : ∀ {d}, isSideChar d = false → c ≠ d := fun hd => ne_of_side h hd
  simp only [List.forall_mem_cons]
  exact ⟨hmarks (by decide), hmarks (by decide), hmarks (by decide), hsigns.2, hsigns.1, hmarks (by decide),
    hmarks (by decide), hmarks (by decide), hmarks (by decide), nofun⟩

theorem isQuiet_of_foreign (hc : 128 ≤ c.toNat) : isQuiet c = true := by
  have hne : ∀ {d : Char}, d.toNat < 128 → c ≠ d := by
    rintro d hd rfl
    omega
  refine isQuiet_iff.mpr ⟨fun d hd => hne ?_, fun b => ?_⟩
  · fin_cases hd <;> decide
  · cases b <;> exact ⟨hne (by decide), hne (by decide)⟩

/-- An operator that is found is written there. -/
theorem exists_of_leading? (h : leading? cs = some o) : ∃ rest, cs = o.symbol.toList ++ rest := by
  have hprefix : o.symbol.toList.isPrefixOf cs = true := by
    unfold leading? at h
    simpa using List.find?_some h
  obtain ⟨rest, hrest⟩ := List.isPrefixOf_iff_prefix.mp hprefix
  exact ⟨rest, hrest.symm⟩

theorem leading?_quiet (hc : isQuiet c = true) : leading? (c :: rest) = none := by
  refine Option.eq_none_iff_forall_ne_some.mpr fun o ho => ?_
  obtain ⟨more, hmore⟩ := exists_of_leading? ho
  have hfirst : c ∈ ['>', '<', '-', '+', '*', '/', '%', '='] := by
    cases o <;> obtain ⟨rfl, -⟩ := List.cons.inj hmore <;> decide
  exact (isQuiet_iff.mp hc).1 c (List.mem_cons_of_mem _ hfirst) rfl

/-- The search passes over quiet characters and selectors. -/
theorem firstOutside_quiet (h : Lexer.WithSelectors (isQuiet · = true) cs) :
    Text.firstOutside leading? {} (cs ++ rest) =
      Text.foundBehind cs (Text.firstOutside leading? {} rest) :=
  Text.firstOutside_withSelectors (fun _ _ hc => leading?_quiet hc)
    (fun _ hc => ⟨(isQuiet_iff.mp hc).1 '"' (by simp), (isQuiet_iff.mp hc).2⟩) h

/-- An operator that nothing makes longer is the one that is written. -/
theorem leading?_symbol (o : Operator) (hafter : ∀ c ∈ after.head?, c ≠ '=' ∧ c ≠ '<') :
    leading? (o.symbol.toList ++ after) = some o := by
  cases after with
  | nil => cases o <;> rfl
  | cons c after =>
    obtain ⟨hequals, hless⟩ := hafter c rfl
    have hequals : ('=' == c) = false := beq_eq_false_iff_ne.mpr (Ne.symm hequals)
    have hless : ('<' == c) = false := beq_eq_false_iff_ne.mpr (Ne.symm hless)
    cases o with
    | min => simp [leading?, all, symbol, List.find?, List.isPrefixOf, hequals]
    | max => simp [leading?, all, symbol, List.find?, List.isPrefixOf, hequals, hless]
    | _ => rfl

theorem symbol_ne_nil (o : Operator) : o.symbol.toList ≠ [] := by cases o <;> decide

/-- An operator is looked at. -/
theorem exists_symbol (o : Operator) : ∃ c cs, o.symbol.toList = c :: cs ∧ ({} : Text.Outside).sees c = true := by
  cases o <;> exact ⟨_, _, rfl, by decide⟩

/-- The operator behind a target, with the text of the target. -/
theorem find_symbol (hleft : Lexer.WithSelectors (isQuiet · = true) left)
    (hafter : ∀ c ∈ after.head?, c ≠ '=' ∧ c ≠ '<') :
    find (left ++ (o.symbol.toList ++ after)) = some (left, o) := by
  have hleading := leading?_symbol o hafter
  have hfirst : Text.firstOutside leading? {} (o.symbol.toList ++ after) = some ([], o) := by
    obtain ⟨c, cs, hsymbol, hsees⟩ := exists_symbol o
    rw [hsymbol, List.cons_append] at hleading ⊢
    rw [Text.firstOutside, if_pos hsees, hleading]
  rw [find, firstOutside_quiet hleft, hfirst]
  simp [Text.foundBehind]

theorem find_quiet (hcs : Lexer.WithSelectors (isQuiet · = true) cs) : find cs = none := by
  have hside : Text.firstOutside leading? {} (cs ++ []) = Text.foundBehind cs none := firstOutside_quiet hcs
  rw [List.append_nil] at hside
  rw [find, hside]
  rfl

/-- A minus in front of digits is no operator. -/
theorem find_literal (h : isIntegerText (String.ofList cs) = true) : find cs = none := by
  have hdigits : ∀ {ds : List Char}, isDigits ds = true → ds ≠ [] ∧ Lexer.WithSelectors (isQuiet · = true) ds := by
    intro ds hds
    simp only [isDigits, Bool.and_eq_true, Bool.not_eq_true', List.isEmpty_eq_false_iff, List.all_eq_true] at hds
    refine ⟨hds.1, Lexer.withSelectors_of_forall fun c hc => isQuiet_of_side ?_ ⟨?_, ?_⟩⟩
    · simp [isSideChar, Char.isAlphanum, hds.2 c hc]
    all_goals
      rintro rfl
      exact absurd (hds.2 _ hc) (by decide)
  unfold isIntegerText at h
  rw [String.toList_ofList] at h
  split at h
  · next digits =>
    obtain ⟨hne, hquiet⟩ := hdigits h
    have hnone : leading? ('-' :: digits) = none := by
      refine Option.eq_none_iff_forall_ne_some.mpr fun o ho => ?_
      obtain ⟨more, hmore⟩ := exists_of_leading? ho
      obtain ⟨d, digits, rfl⟩ := List.exists_cons_of_ne_nil hne
      have hdigit : d.isDigit = true := (List.all_eq_true.mp (Bool.and_eq_true_iff.mp h).2) d List.mem_cons_self
      have hsign : d ∈ ['>', '-', '='] := by
        cases o <;> simp [symbol] at hmore <;> simp [hmore.1]
      revert hdigit
      fin_cases hsign <;> decide
    have hrest : Text.firstOutside leading? {} (digits ++ []) = Text.foundBehind digits none :=
      firstOutside_quiet hquiet
    rw [List.append_nil] at hrest
    rw [find, Text.firstOutside_cons fun _ => hnone, show ({} : Text.Outside).step '-' = {} from rfl, hrest]
    rfl
  · exact find_quiet (hdigits h).2

end Operator

/-! ### Words of scores and values -/

/-- A text that stands for a score: `$name`, or an objective without signs in its name and a selector. -/
inductive ScoreWord : List Char → Score → Prop
  | mk {head part : List Char} {score : Score} (h : ScoreText head part score)
    (hsigns : ∀ c ∈ head, c ≠ '+' ∧ c ≠ '-') : ScoreWord (head ++ part) score

/-- A text that an operator takes on its right: an integer literal of any size, or a score. -/
inductive ValueWord : List Char → Prop
  | integer {cs : List Char} (h : isIntegerText (String.ofList cs) = true) : ValueWord cs
  | score {cs : List Char} {score : Score} (h : ScoreWord cs score) : ValueWord cs

section

variable {cs left right : List Char} {score : Score} {o : Operator} {words : List (List Char)} {tokens : List Token}

theorem ScoreWord.begins (h : ScoreWord cs score) : ∃ c rest, cs = c :: rest ∧ isSideChar c = true := by
  obtain @⟨head, part, score, h, -⟩ := h
  obtain ⟨c, rest, rfl, hc⟩ := h.begins
  exact ⟨c, rest ++ part, rfl, hc⟩

theorem ScoreWord.ne_nil (h : ScoreWord cs score) : cs ≠ [] := by
  obtain ⟨c, rest, rfl, -⟩ := h.begins
  exact List.cons_ne_nil _ _

theorem ScoreWord.quiet (h : ScoreWord cs score) : Lexer.WithSelectors (Operator.isQuiet · = true) cs := by
  obtain @⟨head, part, score, h, hsigns⟩ := h
  refine (Lexer.withSelectors_of_forall fun c hc => ?_).append h.selectorPart.withSelectors
  by_cases hascii : c.toNat < 128
  · exact Operator.isQuiet_of_side (h.side hc hascii) (hsigns c hc)
  · exact Operator.isQuiet_of_foreign (Nat.not_lt.mp hascii)

theorem ScoreWord.whole (h : ScoreWord cs score) : Lexer.IsWholeWord cs := by
  obtain @⟨head, part, score, h, -⟩ := h
  have hword := h.isWordChar
  obtain ⟨c, rest, rfl, hc⟩ := h.begins
  exact .mk (isWordChar_of_side hc)
    ((Lexer.withSelectors_of_forall (List.forall_mem_cons.mp hword).2).append h.selectorPart.withSelectors)

theorem ScoreWord.parse? (h : ScoreWord cs score) : Score.parse? (String.ofList cs) = some score := by
  obtain @⟨head, part, score, h, -⟩ := h
  have hparse := h.parse? (List.forall_mem_nil _)
  rwa [List.append_nil] at hparse

/-- A score is no integer. -/
theorem ScoreWord.not_integer (h : ScoreWord cs score) : isIntegerText (String.ofList cs) = false := by
  obtain @⟨head, part, score, h, -⟩ := h
  refine Bool.eq_false_iff.mpr fun hinteger => ?_
  obtain ⟨c, hc, hmark⟩ := h.marked
  rcases (Condition.chars_of_isIntegerText hinteger).2 c (List.mem_append_left _ hc) with hdigit | hminus
  · rcases hmark with rfl | rfl <;> exact absurd hdigit (by decide)
  · rcases hmark with rfl | rfl <;> exact absurd hminus (by decide)

namespace ValueWord

theorem begins (h : ValueWord cs) : ∃ c rest, cs = c :: rest ∧ isSideChar c = true := by
  cases h with
  | integer h =>
    obtain ⟨c, rest, rfl⟩ := List.exists_cons_of_ne_nil (Condition.chars_of_isIntegerText h).1
    exact ⟨c, rest, rfl, Condition.side_of_isIntegerText h c List.mem_cons_self⟩
  | score h => exact h.begins

theorem ne_nil (h : ValueWord cs) : cs ≠ [] := by
  obtain ⟨c, rest, rfl, -⟩ := h.begins
  exact List.cons_ne_nil _ _

/-- There is no operator in a value. -/
theorem find (h : ValueWord cs) : Operator.find cs = none := by
  cases h with
  | integer h => exact Operator.find_literal h
  | score h => exact Operator.find_quiet h.quiet

theorem whole (h : ValueWord cs) : Lexer.IsWholeWord cs := by
  cases h with
  | integer h =>
    exact Lexer.isWholeWord_of_forall (Condition.chars_of_isIntegerText h).1 fun c hc =>
      isWordChar_of_side (Condition.side_of_isIntegerText h c hc)
  | score h => exact h.whole

/-- A value makes no operator longer. -/
theorem head (h : ValueWord cs) : ∀ c ∈ cs.head?, c ≠ '=' ∧ c ≠ '<' := by
  obtain ⟨c, rest, rfl, hc⟩ := h.begins
  rintro d ⟨⟩
  exact ⟨ne_of_side hc (by decide), ne_of_side hc (by decide)⟩

end ValueWord

/-! ### Words of an assignment -/

/-- The words of an assignment, with a blank or without one on each side of the operator. -/
abbrev AssignmentWords (left : List Char) (o : Operator) (right : List Char) : List (List Char) → Prop :=
  ComparisonWords left o.symbol.toList right

/-- An operator is read as a word, and a word goes on over it. -/
theorem Operator.symbol_reads (o : Operator) :
    Lexer.BeginsWord o.symbol.toList ∧ Lexer.GoesOn o.symbol.toList := by
  by_cases hdivide : o = .divide
  · subst hdivide
    -- no word begins or goes on with two slashes, but the character behind this slash is an equals sign
    have hbegins : ∀ k, Lexer.step k '/' (some '=') .seeking = .ok ([], .word k ['/'] (.within [])) := fun _ => rfl
    have hslash : ∀ k start text, Lexer.step k '/' (some '=') (.word start text (.within [])) =
        .ok ([], .word start ('/' :: text) (.within [])) := fun _ _ _ => rfl
    have hequals : ∀ k next start text, Lexer.step k '=' next (.word start text (.within [])) =
        .ok ([], .word start ('=' :: text) (.within [])) := fun _ _ _ _ => rfl
    refine ⟨fun k rest => ?_, fun start k text rest => ?_⟩
    · show Lexer.run .seeking k ('/' :: '=' :: rest) = _
      rw [Lexer.run_silent (hbegins k), Lexer.run_silent (hequals _ _ _ _)]
      rfl
    · show Lexer.run _ k ('/' :: '=' :: rest) = _
      rw [Lexer.run_silent (hslash _ _ _), Lexer.run_silent (hequals _ _ _ _)]
      rfl
  · have hword : Lexer.IsWholeWord o.symbol.toList := by
      cases o <;> first
        | exact absurd rfl hdivide
        | exact Lexer.isWholeWord_of_forall (by decide) (List.all_eq_true.mp (by decide))
    exact ⟨hword.beginsWord, hword.goesOn⟩

/-- Each word of an assignment is read as a whole. -/
theorem beginsWord_of_assignmentWords (hleft : ScoreWord left score) (hright : ValueWord right)
    (h : AssignmentWords left o right words) : ∀ w ∈ words, Lexer.BeginsWord w := by
  have hword : ∀ w ∈ words, Lexer.BeginsWord w ∧ Lexer.GoesOn w :=
    h.forall ⟨hleft.whole.beginsWord, hleft.whole.goesOn⟩ o.symbol_reads
      ⟨hright.whole.beginsWord, hright.whole.goesOn⟩ fun hcs hds => ⟨hcs.1.append hds.2, hcs.2.append hds.2⟩
  exact fun w hw => (hword w hw).1

/-- The first word of an assignment begins with the target, and the search finds no other operator in it. -/
theorem exists_first_of_assignmentWords (hleft : ScoreWord left score) (hright : ValueWord right)
    (h : AssignmentWords left o right words) : ∃ first more, words = first :: more ∧
      Operator.head first = left ∧ ∃ behind, first = left ++ behind := by
  have hfound : ∀ after : List Char, (∀ c ∈ after.head?, c ≠ '=' ∧ c ≠ '<') →
      Operator.head (left ++ (o.symbol.toList ++ after)) = left := fun after hafter => by
    rw [Operator.head, Operator.find_symbol hleft.quiet hafter]
  have halone : Operator.head left = left := by rw [Operator.head, Operator.find_quiet hleft.quiet]
  cases h with
  | apart => exact ⟨left, _, rfl, halone, [], (List.append_nil _).symm⟩
  | back => exact ⟨left, _, rfl, halone, [], (List.append_nil _).symm⟩
  | front =>
    have hfront := hfound [] nofun
    rw [List.append_nil] at hfront
    exact ⟨_, _, rfl, hfront, _, rfl⟩
  | glued => exact ⟨_, _, rfl, hfound right hright.head, _, rfl⟩

end

/-! ### The words are split -/

namespace Token

variable {t : Token} {xs ys : List Char}

/-- A word is cut in two. -/
theorem exists_splitAt? (ht : t.shape = (.word, xs ++ ys)) (hxs : xs ≠ []) (hys : ys ≠ []) :
    ∃ u v : Token, t.splitAt? (Text.byteLength xs) = some (u, v) ∧ u.shape = (.word, xs) ∧ v.shape = (.word, ys) := by
  obtain ⟨hkind, htext⟩ := Prod.mk.inj ht
  obtain ⟨x, xs, rfl⟩ := List.exists_cons_of_ne_nil hxs
  obtain ⟨y, ys, rfl⟩ := List.exists_cons_of_ne_nil hys
  have hsplit := Text.splitBytes_append (x :: xs) (y :: ys)
  unfold splitAt?
  rw [hkind, htext, hsplit]
  exact ⟨_, _, rfl, by simp [shape], by simp [shape]⟩

theorem exists_tailFrom (ht : t.shape = (.word, xs ++ ys)) (hxs : xs ≠ []) (hys : ys ≠ []) :
    ∃ v : Token, t.tailFrom (Text.byteLength xs) = [v] ∧ v.shape = (.word, ys) := by
  obtain ⟨u, v, hsplit, -, hv⟩ := exists_splitAt? ht hxs hys
  exact ⟨v, by rw [tailFrom, hsplit], hv⟩

/-- Behind a whole word nothing is left of it. -/
theorem tailFrom_whole (ht : t.shape = (.word, xs)) : t.tailFrom (Text.byteLength xs) = [] := by
  obtain ⟨hkind, htext⟩ := Prod.mk.inj ht
  have hsplit := Text.splitBytes_append xs []
  rw [List.append_nil] at hsplit
  unfold tailFrom splitAt?
  rw [hkind, htext, hsplit]
  cases xs <;> rfl

theorem word?_of_shape (ht : t.shape = (.word, xs)) : t.word? = some (String.ofList xs) := by
  obtain ⟨hkind, htext⟩ := Prod.mk.inj ht
  exact word?_eq_some_iff.mpr ⟨hkind, String.toList_injective (by rw [htext, String.toList_ofList])⟩

end Token

namespace Assignment

variable {left right : List Char} {score : Score} {o : Operator} {words : List (List Char)} {tokens : List Token}

/-- The words of an assignment are split into the target, the operator and the value. -/
theorem exists_ofTokens? (hleft : ScoreWord left score) (hright : ValueWord right)
    (hwords : AssignmentWords left o right words)
    (htokens : tokens.map Token.shape = words.map (TokenKind.word, ·)) :
    ∃ t v : Token, ofTokens? tokens = some ⟨t, o, [v]⟩ ∧ t.shape = (.word, left) ∧ v.shape = (.word, right) := by
  have hne := hleft.ne_nil
  have hne' := hright.ne_nil
  have hsymbol := o.symbol_ne_nil
  have hlength : o.symbol.toList.length = Text.byteLength o.symbol.toList := by cases o <;> rfl
  have halone := Operator.find_quiet hleft.quiet
  have hnone : ∀ c ∈ ([] : List Char).head?, c ≠ '=' ∧ c ≠ '<' := nofun
  cases hwords with
  | apart =>
    obtain ⟨t, more, rfl, ht, hmore⟩ := List.map_eq_cons_iff.mp htokens
    obtain ⟨u, more, rfl, hu, hmore⟩ := List.map_eq_cons_iff.mp hmore
    obtain ⟨v, more, rfl, hv, hmore⟩ := List.map_eq_cons_iff.mp hmore
    obtain rfl := List.map_eq_nil_iff.mp hmore
    have hleading := Operator.leading?_symbol o hnone
    rw [List.append_nil] at hleading
    refine ⟨t, v, ?_, ht, hv⟩
    simp only [ofTokens?, (Prod.mk.inj ht).2, halone, Token.word?_of_shape hu, Option.bind_some,
      String.toList_ofList, hleading, Option.map_some, hlength, Token.tailFrom_whole hu, List.nil_append]
  | front =>
    obtain ⟨t, more, rfl, ht, hmore⟩ := List.map_eq_cons_iff.mp htokens
    obtain ⟨v, more, rfl, hv, hmore⟩ := List.map_eq_cons_iff.mp hmore
    obtain rfl := List.map_eq_nil_iff.mp hmore
    have hfind := Operator.find_symbol (o := o) hleft.quiet hnone
    rw [List.append_nil] at hfind
    obtain ⟨target, tail, hsplit, htarget, htail⟩ := Token.exists_splitAt? ht hne hsymbol
    refine ⟨target, v, ?_, htarget, hv⟩
    simp only [ofTokens?, (Prod.mk.inj ht).2, hfind, hsplit, Option.map_some, hlength,
      Token.tailFrom_whole htail, List.nil_append]
  | back =>
    obtain ⟨t, more, rfl, ht, hmore⟩ := List.map_eq_cons_iff.mp htokens
    obtain ⟨u, more, rfl, hu, hmore⟩ := List.map_eq_cons_iff.mp hmore
    obtain rfl := List.map_eq_nil_iff.mp hmore
    obtain ⟨v, htail, hv⟩ := Token.exists_tailFrom hu hsymbol hne'
    refine ⟨t, v, ?_, ht, hv⟩
    simp only [ofTokens?, (Prod.mk.inj ht).2, halone, Token.word?_of_shape hu, Option.bind_some,
      String.toList_ofList, Operator.leading?_symbol o hright.head, Option.map_some, hlength, htail, List.append_nil]
  | glued =>
    obtain ⟨t, more, rfl, ht, hmore⟩ := List.map_eq_cons_iff.mp htokens
    obtain rfl := List.map_eq_nil_iff.mp hmore
    have hfind := Operator.find_symbol (o := o) hleft.quiet hright.head
    have hbehind : o.symbol.toList ++ right ≠ [] := by simp [hne']
    obtain ⟨target, tail, hsplit, htarget, htail⟩ := Token.exists_splitAt? ht hne hbehind
    obtain ⟨v, hvalue, hv⟩ := Token.exists_tailFrom htail hsymbol hne'
    refine ⟨target, v, ?_, htarget, hv⟩
    simp only [ofTokens?, (Prod.mk.inj ht).2, hfind, hsplit, Option.map_some, hlength, hvalue, List.append_nil]

end Assignment

end Packwright
