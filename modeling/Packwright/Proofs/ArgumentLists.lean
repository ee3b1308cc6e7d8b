import Packwright.Proofs.ArgumentTexts
import Packwright.Proofs.Token.Grouping

/-!
# The argument lists that are accepted

An argument list is refused when a piece between its commas is empty, when a keyword argument has no value,
when two of them have one name, and when a positional argument stands behind a keyword argument. It is meant
to be refused for a semicolon as well; but a semicolon counts only where it parts tokens, so one at either end
of the list is passed over.

## Main definitions

- `Arguments.IsKeyword` — a piece that gives the argument of a name, and its value
- `Arguments.Listed` — the pieces of a list that is accepted
- `Parts` — a semicolon stands between tokens
- `Arguments.Documented` — lists without any semicolon, as they are meant

## Main results

- `Arguments.splitKeyword_of_isKeyword`, `Arguments.exists_isKeyword` — names are split off by the rules for them
- `Arguments.addSegment_eq_ok_iff`, `Arguments.foldlM_eq_ok_iff` — one piece, and a whole list
- `arguments_accepted_iff` — the lists that are accepted, and how the others are refused
-/

namespace Packwright

namespace Arguments

variable {first t : Token} {more rest piece tokens : List Token} {name value : List Char} {a a' : Arguments}
  {s : Segment} {lastComma : Option Position}

/-! ### Keyword arguments -/

/-- The piece begins with a name and an equals sign, in one word or in two. Behind the sign stand `value`,
which does not make it a comparison or an arrow, and the tokens of `rest`. -/
structure IsKeyword (name value : List Char) (rest piece : List Token) : Prop where
  identifier : isIdentifierList name = true
  assigns : value.head? ≠ some '=' ∧ value.head? ≠ some '>'
  shape : (∃ t : Token, piece = t :: rest ∧ t.kind = .word ∧ t.text.toList = name ++ '=' :: value) ∨
    ∃ t sign : Token, piece = t :: sign :: rest ∧ t.kind = .word ∧ t.text.toList = name ∧
      sign.kind = .word ∧ sign.text.toList = '=' :: value

/-- The piece gives the argument of this name. -/
def Names (name : List Char) (piece : List Token) : Prop := ∃ value rest, IsKeyword name value rest piece

/-- The piece gives a keyword argument. -/
def Keyworded (piece : List Token) : Prop := ∃ name, Names name piece

theorem IsKeyword.assigns_eq (h : IsKeyword name value rest piece) : Arguments.assigns value = true := by
  simpa [Arguments.assigns] using h.assigns

/-- An equals sign is no character of a name. -/
theorem sign_not_mem (h : isIdentifierList name = true) : '=' ∉ name := by
  intro hmem
  cases name with
  | nil => cases hmem
  | cons c cs =>
    rw [isIdentifierList, Bool.and_eq_true, List.all_eq_true] at h
    rcases List.mem_cons.mp hmem with rfl | hmem
    · exact absurd h.1 (by decide)
    · exact absurd (h.2 _ hmem) (by decide)

/-- What is cut off a word is nothing if no text is left. -/
theorem tailFrom_eq_nil_iff {head tail : List Char} (hkind : t.kind = .word)
    (htext : t.text.toList = head ++ tail) (hne : head ≠ []) :
    t.tailFrom (Text.byteLength head) = [] ↔ tail = [] := by
  obtain ⟨c, head, rfl⟩ := List.exists_cons_of_ne_nil hne
  unfold Token.tailFrom Token.splitAt?
  rw [hkind, htext, Text.splitBytes_append]
  cases tail with
  | nil => simp
  | cons d tail => simp

/-- A keyword argument is split into its name and what is left of its piece. -/
theorem splitKeyword_of_isKeyword (h : IsKeyword name value rest (first :: more)) :
    ∃ tokens, splitKeyword first more = (some (String.ofList name), tokens) ∧
      (tokens = [] ↔ value = [] ∧ rest = []) := by
  have hname := h.identifier
  have hassigns := h.assigns_eq
  rcases h.shape with ⟨t, hpiece, hkind, htext⟩ | ⟨t, sign, hpiece, hkind, htext, hsign, hvalue⟩
  · obtain ⟨rfl, rfl⟩ := List.cons.inj hpiece
    have hlength : name.length + 1 = Text.byteLength (name ++ ['=']) := by
      rw [Text.byteLength_append, byteLength_of_isIdentifierList hname]
      rfl
    have htext' : first.text.toList = (name ++ ['=']) ++ value := by
      rw [htext, List.append_assoc, List.singleton_append]
    refine ⟨first.tailFrom (name.length + 1) ++ more, ?_, ?_⟩
    · unfold splitKeyword
      rw [Token.word?_eq_some_iff.mpr ⟨hkind, rfl⟩]
      simp only [htext, Checked.splitOnce_char (sign_not_mem hname), hname, hassigns, Bool.and_self, if_true]
    · rw [List.append_eq_nil_iff, hlength, tailFrom_eq_nil_iff hkind htext' (by simp)]
  · obtain ⟨rfl, rfl⟩ := List.cons.inj hpiece
    have hsplit : Text.splitOnce ['='] first.text.toList = none := by
      rw [Option.eq_none_iff_forall_ne_some]
      rintro ⟨before, after⟩ hfound
      apply sign_not_mem hname
      rw [← htext, Checked.splitOnce_eq hfound]
      simp
    have hidentifier : isIdentifier first.text = true := by rw [isIdentifier, htext, hname]
    have hone : 1 = Text.byteLength ['='] := rfl
    refine ⟨sign.tailFrom 1 ++ rest, ?_, ?_⟩
    · have hop : sign.word?.map String.toList = some ('=' :: value) := by
        rw [Token.word?_eq_some_iff.mpr ⟨hsign, rfl⟩, Option.map_some, hvalue]
      unfold splitKeyword
      rw [Token.word?_eq_some_iff.mpr ⟨hkind, rfl⟩]
      simp only [hsplit, hop, hidentifier, hassigns, Bool.and_self, if_true, ← htext, String.ofList_toList]
    · rw [List.append_eq_nil_iff, hone, tailFrom_eq_nil_iff hsign hvalue (List.cons_ne_nil _ _)]

/-- What is split off as a name is one. -/
theorem exists_isKeyword {name : String} (h : splitKeyword first more = (some name, tokens)) :
    Names name.toList (first :: more) := by
  unfold splitKeyword at h
  split at h
  · cases h
  next w hw =>
  obtain ⟨hkind, rfl⟩ := Token.word?_eq_some_iff.mp hw
  split at h
  · next key value hsplit =>
    split at h
    · next hname =>
      obtain ⟨heq, -⟩ := Prod.mk.inj h
      obtain rfl := Option.some.inj heq
      rw [Bool.and_eq_true] at hname
      rw [String.toList_ofList]
      refine ⟨value, more, hname.1, by simpa [assigns] using hname.2, .inl ⟨first, rfl, hkind, ?_⟩⟩
      exact Checked.splitOnce_eq hsplit
    · cases h
  split at h
  · cases h
  next op rest' =>
  split at h
  · next value hop =>
    split at h
    · next hname =>
      obtain ⟨heq, -⟩ := Prod.mk.inj h
      obtain rfl := Option.some.inj heq
      rw [Bool.and_eq_true] at hname
      obtain ⟨sign, hsign, htext⟩ := Option.map_eq_some_iff.mp hop
      obtain ⟨hopkind, rfl⟩ := Token.word?_eq_some_iff.mp hsign
      refine ⟨value, rest', hname.1, by simpa [assigns] using hname.2, .inr ?_⟩
      exact ⟨first, op, rfl, hkind, rfl, hopkind, htext⟩
    · cases h
  · cases h

/-- A piece has one name at most. -/
theorem Names.unique {name' : List Char} (h : Names name piece) (h' : Names name' piece) : name = name' := by
  obtain ⟨value, rest, hkeyword⟩ := h
  obtain ⟨value', rest', hkeyword'⟩ := h'
  cases piece with
  | nil => rcases hkeyword.shape with ⟨t, hpiece, -⟩ | ⟨t, sign, hpiece, -⟩ <;> cases hpiece
  | cons first more =>
    obtain ⟨tokens, hsplit, -⟩ := splitKeyword_of_isKeyword hkeyword
    obtain ⟨tokens', hsplit', -⟩ := splitKeyword_of_isKeyword hkeyword'
    have hname := (Prod.mk.inj (hsplit.symm.trans hsplit')).1
    exact String.ofList_injective (Option.some.inj hname)

/-! ### Lists -/

/-- The piece has a token, and a value where it has a name. -/
structure Filled (piece : List Token) : Prop where
  nonempty : piece ≠ []
  value : ∀ name value rest, IsKeyword name value rest piece → ¬(value = [] ∧ rest = [])

/-- A keyword argument is filled if there is a value behind its sign. -/
theorem IsKeyword.filled_iff (h : IsKeyword name value rest piece) :
    Filled piece ↔ ¬(value = [] ∧ rest = []) := by
  refine ⟨fun hfilled => hfilled.value _ _ _ h, fun hvalue => ⟨?_, fun name' value' rest' h' => ?_⟩⟩
  · rintro rfl
    rcases h.shape with ⟨t, hpiece, -⟩ | ⟨t, sign, hpiece, -⟩ <;> cases hpiece
  · obtain ⟨first, more, rfl⟩ : ∃ first more, piece = first :: more := by
      rcases h.shape with ⟨t, hpiece, -⟩ | ⟨t, sign, hpiece, -⟩ <;> exact ⟨_, _, hpiece⟩
    -- both are what is left of the same piece
    obtain ⟨tokens, hsplit, hempty⟩ := splitKeyword_of_isKeyword h
    obtain ⟨tokens', hsplit', hempty'⟩ := splitKeyword_of_isKeyword h'
    obtain ⟨-, rfl⟩ := Prod.mk.inj (hsplit.symm.trans hsplit')
    rwa [← hempty', hempty]

/-- No piece is empty and no keyword is without a value, no keyword occurs twice, and no positional argument
follows a keyword argument. -/
structure Listed (pieces : List (List Token)) : Prop where
  filled : ∀ piece ∈ pieces, Filled piece
  distinct : pieces.Pairwise fun piece later => ∀ name, Names name piece → ¬Names name later
  ordered : pieces.Pairwise fun piece later => Keyworded piece → Keyworded later

/-- The pieces may stand behind the arguments that are there. -/
structure Follow (a : Arguments) (pieces : List (List Token)) : Prop where
  fresh : ∀ piece ∈ pieces, ∀ name, Names name piece → String.ofList name ∉ a.keywords.map Prod.fst
  ordered : a.keywords ≠ [] → ∀ piece ∈ pieces, Keyworded piece

theorem keyword?_isSome_iff {name : String} :
    (a.keyword? name).isSome = true ↔ name ∈ a.keywords.map Prod.fst := by
  rw [keyword?, List.lookup_isSome_iff, List.mem_map]
  simp

/-- A keyword argument is added if it has a value and its name is new. -/
theorem addSegment_keyword (a : Arguments) (lastComma : Option Position) (h : IsKeyword name value rest s.tokens) :
    (∃ argument, addSegment lastComma a s =
        .ok { a with keywords := a.keywords ++ [(String.ofList name, argument)] }) ∧
      ¬(value = [] ∧ rest = []) ∧ String.ofList name ∉ a.keywords.map Prod.fst ∨
    (∃ f, addSegment lastComma a s = .error f) ∧
      ((value = [] ∧ rest = []) ∨ String.ofList name ∈ a.keywords.map Prod.fst) := by
  rcases htokens : s.tokens with _ | ⟨first, more⟩
  · rw [htokens] at h
    rcases h.shape with ⟨t, hpiece, -⟩ | ⟨t, sign, hpiece, -⟩ <;> cases hpiece
  rw [htokens] at h
  obtain ⟨tokens, hsplit, hempty⟩ := splitKeyword_of_isKeyword h
  rw [← keyword?_isSome_iff, ← hempty]
  unfold addSegment
  rw [htokens]
  simp only [hsplit]
  cases tokens with
  | nil => exact .inr ⟨⟨_, rfl⟩, .inl rfl⟩
  | cons first' more' =>
    by_cases hold : (a.keyword? (String.ofList name)).isSome = true
    · exact .inr ⟨⟨_, if_pos hold⟩, .inr hold⟩
    · exact .inl ⟨⟨_, if_neg hold⟩, List.cons_ne_nil _ _, hold⟩

/-- A positional argument is added if no keyword argument is there. -/
theorem addSegment_positional (a : Arguments) (lastComma : Option Position) (hne : s.tokens ≠ [])
    (h : ¬Keyworded s.tokens) :
    (∃ argument, addSegment lastComma a s =
        .ok { a with positional := a.positional ++ [argument] }) ∧ a.keywords = [] ∨
    (∃ f, addSegment lastComma a s = .error f) ∧ a.keywords ≠ [] := by
  obtain ⟨first, more, htokens⟩ := List.exists_cons_of_ne_nil hne
  rw [htokens] at h
  unfold addSegment
  rw [htokens]
  rcases hsplit : splitKeyword first more with ⟨_ | name, tokens⟩
  · obtain rfl := splitKeyword_none hsplit
    simp only [hsplit, List.isEmpty_iff]
    by_cases hempty : a.keywords = []
    · exact .inl ⟨⟨_, if_pos hempty⟩, hempty⟩
    · exact .inr ⟨⟨_, if_neg hempty⟩, hempty⟩
  · exact absurd ⟨_, exists_isKeyword hsplit⟩ h

/-- A piece is added if it is filled and may stand there. Other pieces may stand behind it if they may stand
behind what was there, with another name each if this is a keyword argument. -/
theorem addSegment_eq_ok_iff (pieces : List (List Token)) :
    (∃ a', addSegment lastComma a s = .ok a' ∧ a'.Follow pieces) ↔
      Filled s.tokens ∧ a.Follow (s.tokens :: pieces) ∧
        (∀ piece ∈ pieces, ∀ name, Names name s.tokens → ¬Names name piece) ∧
        ∀ piece ∈ pieces, Keyworded s.tokens → Keyworded piece := by
  by_cases hne : s.tokens = []
  · have hadd : addSegment lastComma a s = .error (.located .emptyArgument (emptyAt a.position lastComma s)) := by
      unfold addSegment
      rw [hne]
    rw [hadd, iff_false_left (by simp)]
    exact fun h => h.1.nonempty hne
  by_cases hkeyworded : Keyworded s.tokens
  · obtain ⟨name, value, rest, h⟩ := hkeyworded
    rcases addSegment_keyword a lastComma h with
      ⟨⟨argument, hadd⟩, hvalue, hnew⟩ | ⟨⟨f, hadd⟩, hrefused⟩
    · have hnames : Names name s.tokens := ⟨value, rest, h⟩
      rw [hadd]
      constructor
      · rintro ⟨a', heq, hfollow⟩
        obtain rfl := Except.ok.inj heq
        have hordered : ∀ piece ∈ pieces, Keyworded piece := hfollow.ordered (by simp)
        refine ⟨h.filled_iff.mpr hvalue, ⟨List.forall_mem_cons.mpr ⟨?_, ?_⟩, fun _ => ?_⟩, ?_, ?_⟩
        · intro name' hname'
          rwa [hname'.unique hnames]
        · intro piece hpiece name' hname' hold
          exact hfollow.fresh piece hpiece name' hname' (by simp [hold])
        · exact List.forall_mem_cons.mpr ⟨⟨name, hnames⟩, hordered⟩
        · intro piece hpiece name' hname' hlater
          obtain rfl := hname'.unique hnames
          exact hfollow.fresh piece hpiece name' hlater (by simp)
        · exact fun piece hpiece _ => hordered piece hpiece
      · rintro ⟨-, hfollow, hdistinct, hordered⟩
        refine ⟨_, rfl, ⟨fun piece hpiece name' hname' hold => ?_, fun _ piece hpiece => ?_⟩⟩
        · rw [List.map_append, List.mem_append, List.map_singleton, List.mem_singleton] at hold
          rcases hold with hold | hsame
          · exact hfollow.fresh piece (List.mem_cons_of_mem _ hpiece) name' hname' hold
          · obtain rfl := String.ofList_injective hsame
            exact hdistinct piece hpiece name' hnames hname'
        · exact hordered piece hpiece ⟨name, hnames⟩
    · rw [hadd, iff_false_left (by simp)]
      rintro ⟨hfilled, hfollow, -⟩
      rcases hrefused with hempty | hold
      · exact hfilled.value _ _ _ h hempty
      · exact hfollow.fresh _ List.mem_cons_self name ⟨value, rest, h⟩ hold
  · rcases addSegment_positional a lastComma hne hkeyworded with
      ⟨⟨argument, hadd⟩, hnone⟩ | ⟨⟨f, hadd⟩, hsome⟩
    · have hfilled : Filled s.tokens := ⟨hne, fun name value rest h => absurd ⟨name, value, rest, h⟩ hkeyworded⟩
      rw [hadd]
      constructor
      · rintro ⟨a', heq, -⟩
        refine ⟨hfilled, ⟨fun _ _ _ _ => by simp [hnone], fun hsome => absurd hnone hsome⟩, ?_, ?_⟩
        · exact fun _ _ name hname => absurd ⟨name, hname⟩ hkeyworded
        · exact fun _ _ h => absurd h hkeyworded
      · intro _
        exact ⟨_, rfl, ⟨fun _ _ _ _ => by simp [hnone], fun hsome => absurd hnone hsome⟩⟩
    · rw [hadd, iff_false_left (by simp)]
      rintro ⟨-, hfollow, -⟩
      exact hkeyworded (hfollow.ordered hsome _ List.mem_cons_self)

/-- A list of segments is added if it is one that is accepted and may stand behind what is there. -/
theorem foldlM_eq_ok_iff (parts : List Segment) :
    (∃ a', parts.foldlM (addSegment lastComma) a = .ok a') ↔
      Listed (parts.map Segment.tokens) ∧ a.Follow (parts.map Segment.tokens) := by
  induction parts generalizing a with
  | nil =>
    rw [iff_true_left ⟨a, rfl⟩]
    exact ⟨⟨by simp, .nil, .nil⟩, ⟨by simp, by simp⟩⟩
  | cons s parts ih =>
    have hstep : (∃ a', (s :: parts).foldlM (addSegment lastComma) a = .ok a') ↔
        Listed (parts.map Segment.tokens) ∧
          ∃ a₁, addSegment lastComma a s = .ok a₁ ∧ a₁.Follow (parts.map Segment.tokens) := by
      rw [List.foldlM_cons]
      cases addSegment lastComma a s with
      | error f => simp [bind, Except.bind]
      | ok a₁ => simpa [bind, Except.bind] using ih (a := a₁)
    rw [hstep, addSegment_eq_ok_iff, List.map_cons]
    constructor
    · rintro ⟨hlisted, hfilled, hfollow, hdistinct, hordered⟩
      refine ⟨⟨List.forall_mem_cons.mpr ⟨hfilled, hlisted.filled⟩, ?_, ?_⟩, hfollow⟩
      · exact List.pairwise_cons.mpr ⟨hdistinct, hlisted.distinct⟩
      · exact List.pairwise_cons.mpr ⟨hordered, hlisted.ordered⟩
    · rintro ⟨hlisted, hfollow⟩
      obtain ⟨hfilled, hrest⟩ := List.forall_mem_cons.mp hlisted.filled
      obtain ⟨hdistinct, hdistincts⟩ := List.pairwise_cons.mp hlisted.distinct
      obtain ⟨hordered, hordereds⟩ := List.pairwise_cons.mp hlisted.ordered
      exact ⟨⟨hrest, hdistincts, hordereds⟩, hfilled, hfollow, hdistinct, hordered⟩

/-- The arguments of a list of tokens are accepted if the pieces between its commas are. -/
theorem ofTokens_eq_ok_iff (position : Position) :
    (∃ args, ofTokens position tokens = .ok args) ↔ Listed (commaPieces tokens) := by
  have hparts : (segments [] tokens).map Segment.tokens = commaPieces tokens := by
    rw [segments_tokens]
    exact congrFun List.modifyHead_id _
  unfold ofTokens
  rw [foldlM_eq_ok_iff, hparts]
  exact and_iff_left ⟨by simp, fun hsome => absurd rfl hsome⟩

/-! ### Refusals -/

/-- A fault of syntax with a place. -/
def IsSyntaxAt (f : Fault) : Prop := ∃ cause p, f = .located cause p ∧ cause.kind = .syntactic

theorem addSegment_refused {f : Fault} (h : addSegment lastComma a s = .error f) : IsSyntaxAt f := by
  unfold addSegment at h
  repeat' split at h
  all_goals first
    | exact ⟨_, _, (Except.error.inj h).symm, rfl⟩
    | cases h

theorem foldlM_refused {parts : List Segment} {f : Fault}
    (h : parts.foldlM (addSegment lastComma) a = .error f) : IsSyntaxAt f := by
  induction parts generalizing a with
  | nil => cases h
  | cons s parts ih =>
    rw [List.foldlM_cons] at h
    cases hadd : addSegment lastComma a s with
    | error f' =>
      rw [hadd] at h
      obtain rfl := Except.error.inj h
      exact addSegment_refused hadd
    | ok a₁ =>
      rw [hadd] at h
      exact ih h

end Arguments

/-! ### Semicolons -/

/-- A semicolon stands between tokens. -/
def Parts (all : List Lexeme) : Prop :=
  ∃ front p back t u, all = front ++ Lexeme.semicolon p :: back ∧ Lexeme.token t ∈ front ∧
    Lexeme.token u ∈ back

section

variable {all rest : List Lexeme} {lexeme : Lexeme}

theorem Parts.cons (h : Parts rest) : Parts (lexeme :: rest) := by
  obtain ⟨front, p, back, t, u, rfl, ht, hu⟩ := h
  exact ⟨lexeme :: front, p, back, t, u, rfl, List.mem_cons_of_mem _ ht, hu⟩

/-- Where a run has tokens the text has. -/
theorem exists_token_of_run (h : ∃ run ∈ tokenRuns all, run ≠ []) : ∃ t, .token t ∈ all := by
  induction all with
  | nil => simp [tokenRuns] at h
  | cons lexeme rest ih =>
    cases lexeme with
    | token t => exact ⟨t, List.mem_cons_self⟩
    | semicolon p =>
      obtain ⟨t, ht⟩ := ih (by simpa [tokenRuns] using h)
      exact ⟨t, List.mem_cons_of_mem _ ht⟩

theorem exists_run_of_token (h : ∃ t, .token t ∈ all) : ∃ run ∈ tokenRuns all, run ≠ [] := by
  induction all with
  | nil => simp at h
  | cons lexeme rest ih =>
    cases lexeme with
    | token t =>
      obtain ⟨run, runs, hruns⟩ := List.exists_cons_of_ne_nil (tokenRuns_ne_nil rest)
      exact ⟨t :: run, by simp [tokenRuns, hruns], List.cons_ne_nil _ _⟩
    | semicolon p => simpa [tokenRuns] using ih (by simpa using h)

/-- Tokens behind the first run stand behind a semicolon. -/
theorem exists_semicolon {run : List Token} {runs : List (List Token)} (hruns : tokenRuns all = run :: runs)
    (h : ∃ run ∈ runs, run ≠ []) :
    ∃ front p back u, all = front ++ Lexeme.semicolon p :: back ∧ Lexeme.token u ∈ back := by
  induction all generalizing run with
  | nil =>
    obtain ⟨-, rfl⟩ := List.cons.inj hruns
    simp at h
  | cons lexeme rest ih =>
    cases lexeme with
    | token t =>
      obtain ⟨first, more, hrest⟩ := List.exists_cons_of_ne_nil (tokenRuns_ne_nil rest)
      rw [tokenRuns, hrest, List.modifyHead_cons] at hruns
      obtain ⟨-, rfl⟩ := List.cons.inj hruns
      obtain ⟨front, p, back, u, rfl, hu⟩ := ih hrest
      exact ⟨.token t :: front, p, back, u, rfl, hu⟩
    | semicolon p =>
      obtain ⟨-, rfl⟩ := List.cons.inj hruns
      obtain ⟨u, hu⟩ := exists_token_of_run h
      exact ⟨[], p, rest, u, rfl, hu⟩

theorem tokenRuns_append (front back : List Lexeme) (p : Position) :
    tokenRuns (front ++ .semicolon p :: back) = tokenRuns front ++ tokenRuns back := by
  induction front with
  | nil => rfl
  | cons lexeme front ih =>
    cases lexeme with
    | token t =>
      obtain ⟨run, runs, hruns⟩ := List.exists_cons_of_ne_nil (tokenRuns_ne_nil front)
      simp [tokenRuns, ih, hruns]
    | semicolon q => simp [tokenRuns, ih]

/-- There is more than one statement if a semicolon stands between tokens. -/
theorem parts_iff : Parts all ↔ 2 ≤ ((tokenRuns all).filter (!·.isEmpty)).length := by
  have hpos : ∀ runs : List (List Token),
      1 ≤ (runs.filter (!·.isEmpty)).length ↔ ∃ run ∈ runs, run ≠ [] := by
    intro runs
    rw [Nat.one_le_iff_ne_zero, Ne, List.length_eq_zero_iff, List.filter_eq_nil_iff]
    simp
  constructor
  · rintro ⟨front, p, back, t, u, rfl, ht, hu⟩
    have hfront := (hpos _).mpr (exists_run_of_token ⟨t, ht⟩)
    have hback := (hpos _).mpr (exists_run_of_token ⟨u, hu⟩)
    rw [tokenRuns_append, List.filter_append, List.length_append]
    omega
  · intro h
    induction all with
    | nil => simp [tokenRuns] at h
    | cons lexeme rest ih =>
      cases lexeme with
      | token t =>
        obtain ⟨run, runs, hruns⟩ := List.exists_cons_of_ne_nil (tokenRuns_ne_nil rest)
        rw [tokenRuns, hruns, List.modifyHead_cons, List.filter_cons_of_pos rfl, List.length_cons] at h
        obtain ⟨front, p, back, u, rfl, hu⟩ := exists_semicolon hruns ((hpos _).mp (by omega))
        exact ⟨.token t :: front, p, back, t, u, rfl, List.mem_cons_self, hu⟩
      | semicolon p => exact (ih (by simpa [tokenRuns] using h)).cons

end

/-! ### Argument lists -/

/-- The tokens among the lexemes. -/
def Lexeme.tokens (all : List Lexeme) : List Token := all.filterMap Lexeme.token?

/-- The lists that are meant to be accepted: no semicolon anywhere, and pieces that go together. -/
structure Arguments.Documented (all : List Lexeme) : Prop where
  semicolons : ∀ p, Lexeme.semicolon p ∉ all
  listed : Lexeme.tokens all = [] ∨ Listed (commaPieces (Lexeme.tokens all))

section

variable {group : Token} {inner : String} {all : List Lexeme}

/-- How an argument list is read from its lexemes. -/
theorem Arguments.parse_run (hround : group.isGroup .round = true) (hinner : group.inner? = some inner)
    (hall : lexemes group.innerStart inner.toList = .ok all) :
    (Parts all ∧ ∃ p warnings, (Arguments.parse group).run.run [] =
        (.error (.fault (.located .semicolonInArguments p)), warnings)) ∨
      (¬Parts all ∧ Lexeme.tokens all = [] ∧ ∃ args warnings,
        (Arguments.parse group).run.run [] = (.ok args, warnings)) ∨
      (¬Parts all ∧ Lexeme.tokens all ≠ [] ∧ ∃ warnings, (Arguments.parse group).run.run [] =
        ((Arguments.ofTokens group.position (Lexeme.tokens all)).mapError .fault, warnings)) := by
  have hruns := groupLexemes_runs [] all
  rw [runsBehind_nil] at hruns
  have htokens := groupLexemes_tokens hruns
  rw [List.nil_append] at htokens
  have hread : group.tokenizeInner .optional = groupLexemes .optional [] all := by
    unfold Token.tokenizeInner tokenize
    rw [hinner]
    dsimp only
    rw [hall]
    rfl
  rw [parts_iff]
  unfold Arguments.parse Lexeme.tokens
  rw [if_pos hround, hread, hruns, ← htokens]
  generalize (emptyRuns (tokenRuns all) (all.filterMap Lexeme.semicolon?)).map emptyStatementAt = idle
  rcases hfilled : (tokenRuns all).filter (!·.isEmpty) with _ | ⟨run, _ | ⟨second, more⟩⟩
  · rw [hfilled]
    exact .inr (.inl ⟨by simp, rfl, _, _, rfl⟩)
  · have hrun : run ≠ [] := by
      have hmem : run ∈ (tokenRuns all).filter (!·.isEmpty) := by simp [hfilled]
      simpa using (List.mem_filter.mp hmem).2
    rw [hfilled]
    refine .inr (.inr ⟨by simp, by simpa [Reading.tokens] using hrun, idle, ?_⟩)
    have hone : Reading.tokens ⟨[run].map Statement.mk, idle⟩ = run := by simp [Reading.tokens]
    rw [hone]
    simp only [Noting.ofExcept, pure_bind, List.map_cons, List.map_nil]
    cases Arguments.ofTokens group.position run <;> rfl
  · rw [hfilled]
    exact .inl ⟨by simp, _, _, rfl⟩

/-- A list is accepted if its pieces go together and no semicolon stands between tokens; so a semicolon at
either end of the list is passed over, and a list that is meant to be accepted is. All others are refused with
a fault of syntax and its place. -/
theorem arguments_accepted_iff (hround : group.isGroup .round = true) (hinner : group.inner? = some inner)
    (hall : lexemes group.innerStart inner.toList = .ok all) :
    ((∃ args, (Arguments.parse group).Gives args) ↔ ¬Parts all ∧
      (Lexeme.tokens all = [] ∨ Arguments.Listed (commaPieces (Lexeme.tokens all)))) ∧
    (Arguments.Documented all → ∃ args, (Arguments.parse group).Gives args) ∧
    ∀ failure warnings, (Arguments.parse group).run.run [] = (.error failure, warnings) →
      ∃ f, failure = .fault f ∧ Arguments.IsSyntaxAt f := by
  have hiff : (∃ args, (Arguments.parse group).Gives args) ↔ ¬Parts all ∧
      (Lexeme.tokens all = [] ∨ Arguments.Listed (commaPieces (Lexeme.tokens all))) := by
    unfold Noting.Gives
    rcases Arguments.parse_run hround hinner hall with
      ⟨hparts, p, warnings, hrun⟩ | ⟨hparts, hnone, args, warnings, hrun⟩ | ⟨hparts, hsome, warnings, hrun⟩
    · rw [iff_false_right (fun h => h.1 hparts), hrun]
      rintro ⟨args, warnings', hgives⟩
      cases (Prod.mk.inj hgives).1
    · exact iff_of_true ⟨args, warnings, hrun⟩ ⟨hparts, .inl hnone⟩
    · rw [← Arguments.ofTokens_eq_ok_iff group.position, hrun]
      cases Arguments.ofTokens group.position (Lexeme.tokens all) with
      | error f =>
        refine iff_of_false ?_ (by simp [hsome])
        rintro ⟨args, warnings', hgives⟩
        cases (Prod.mk.inj hgives).1
      | ok args => exact iff_of_true ⟨args, warnings, rfl⟩ ⟨hparts, .inr ⟨args, rfl⟩⟩
  refine ⟨hiff, fun hdocumented => hiff.mpr ⟨?_, hdocumented.listed⟩, fun failure warnings hfail => ?_⟩
  · rintro ⟨front, p, back, t, u, rfl, -, -⟩
    exact hdocumented.semicolons p (by simp)
  · rcases Arguments.parse_run hround hinner hall with
      ⟨-, p, warnings', hrun⟩ | ⟨-, -, args, warnings', hrun⟩ | ⟨-, -, warnings', hrun⟩
    · rw [hrun] at hfail
      obtain ⟨heq, -⟩ := Prod.mk.inj hfail
      exact ⟨_, (Except.error.inj heq).symm, _, p, rfl, rfl⟩
    · rw [hrun] at hfail
      cases hfail
    · rw [hrun] at hfail
      obtain ⟨heq, -⟩ := Prod.mk.inj hfail
      cases hargs : Arguments.ofTokens group.position (Lexeme.tokens all) with
      | ok args =>
        rw [hargs] at heq
        cases heq
      | error f =>
        rw [hargs] at heq
        exact ⟨f, (Except.error.inj heq).symm, Arguments.foldlM_refused hargs⟩

end

/-- One argument, with a semicolon behind it. -/
def endedGroup : Token := ⟨.group .round, ⟨0, 4, ⟨1, 1⟩⟩, "(a;)"⟩

/-- Two arguments, with a semicolon between them. -/
def partedGroup : Token := ⟨.group .round, ⟨0, 5, ⟨1, 1⟩⟩, "(a;b)"⟩

/-- The list that ends in a semicolon is accepted, though it is not meant to be; the other one is refused. -/
theorem ended_arguments_accepted : (∃ all, lexemes endedGroup.innerStart "a;".toList = .ok all ∧
      (∃ args, (Arguments.parse endedGroup).Gives args) ∧ ¬Arguments.Documented all) ∧
    ¬∃ args, (Arguments.parse partedGroup).Gives args := by
  have hall : lexemes endedGroup.innerStart "a;".toList =
      .ok [.token ⟨.word, ⟨0, 1, ⟨1, 2⟩⟩, "a"⟩, .semicolon ⟨1, 3⟩] := by decide +kernel
  have hall' : lexemes partedGroup.innerStart "a;b".toList = .ok [.token ⟨.word, ⟨0, 1, ⟨1, 2⟩⟩, "a"⟩,
      .semicolon ⟨1, 3⟩, .token ⟨.word, ⟨2, 3, ⟨1, 4⟩⟩, "b"⟩] := by decide +kernel
  have hinner : endedGroup.inner? = some "a;" := by decide +kernel
  have hinner' : partedGroup.inner? = some "a;b" := by decide +kernel
  constructor
  · refine ⟨_, hall, ?_, fun h => h.semicolons ⟨1, 3⟩ (by simp)⟩
    refine (arguments_accepted_iff rfl hinner hall).1.mpr ⟨?_, .inr ?_⟩
    · rw [parts_iff]
      decide
    · refine ⟨List.forall_mem_singleton.mpr ⟨List.cons_ne_nil _ _, ?_⟩, List.pairwise_singleton _ _,
        List.pairwise_singleton _ _⟩
      rintro name value rest h ⟨rfl, rfl⟩
      rcases h.shape with ⟨t, hpiece, -, htext⟩ | ⟨t, sign, hpiece, -⟩
      · obtain ⟨rfl, -⟩ := List.cons.inj hpiece
        have hsign : '=' ∈ "a".toList := by rw [show "a".toList = name ++ ['='] from htext]; simp
        exact absurd hsign (by decide)
      · cases hpiece
  · rw [(arguments_accepted_iff rfl hinner' hall').1]
    rintro ⟨hparts, -⟩
    apply hparts
    rw [parts_iff]
    decide

end Packwright
