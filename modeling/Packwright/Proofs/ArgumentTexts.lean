import Packwright.Proofs.Cuts
import Packwright.Proofs.Session.Handlers
import Packwright.Proofs.Token.Balance
import Packwright.Proofs.Vanilla

/-!
# The texts of arguments

An argument list neither loses nor invents text. Its arguments are the pieces between the commas, in their
order: first the positional ones, then the keyword arguments, whose names are identifiers and differ. A name
and its equals sign may be cut out of a word, and an arrow function keeps only its body; written out again,
every argument has the text of its piece, up to blanks.

## Main definitions

- `tokenTexts` — the texts of tokens, one behind the other
- `commaPieces` — the pieces of a list of tokens between its commas
- `Argument.spelling`, `Arguments.spellings` — arguments as they are written
- `Arguments.Takes` — the arguments that were read from some pieces

## Main results

- `Lexer.run_commas` — the text of a comma is one
- `Arguments.splitKeyword_name` — a name and its equals sign are the front of their piece
- `Arguments.addSegment_takes`, `Arguments.ofTokens_takes` — one piece, and a whole list
- `arguments_keep_text` — what an argument list makes of the inside of its bracket
-/

namespace Packwright

/-! ### Commas -/

namespace Lexer

variable {mode mode' : Mode} {k : Cursor} {c : Char} {next : Option Char} {now before : List Lexeme}

/-- A token that is a comma has the text of one. -/
def CommasWell (all : List Lexeme) : Prop :=
  ∀ t, .token t ∈ all → t.kind = .comma → t.text.toList = [',']

theorem CommasWell.nil : CommasWell [] := fun _ h => by cases h

theorem CommasWell.append {xs ys : List Lexeme} (hx : CommasWell xs) (hy : CommasWell ys) :
    CommasWell (xs ++ ys) :=
  fun t ht => (List.mem_append.mp ht).elim (hx t) (hy t)

theorem CommasWell.semicolon (p : Position) : CommasWell [.semicolon p] := by
  intro t ht
  cases List.mem_singleton.mp ht

theorem CommasWell.finished {kind : TokenKind} {start : Cursor} {stop : Nat} {text : List Char}
    (h : kind = .comma → text = [',']) : CommasWell [.token (finished kind start stop text)] := by
  intro t ht hkind
  obtain rfl := Lexeme.token.inj (List.mem_singleton.mp ht)
  simp [Lexer.finished, h hkind]

theorem SeekRule.commas (hbefore : CommasWell before)
    (h : SeekRule before k c next (.ok (now, mode'))) : CommasWell now := by
  cases h with
  | blank | quote | slashes | opening | letter => exact hbefore
  | semicolon => exact hbefore.append (.semicolon _)
  | comma hc => exact hbefore.append (.finished fun _ => by rw [hc])
  | doubled => exact hbefore.append (.finished (by simp))

/-- What one character emits. -/
theorem step_commas (h : step k c next mode = .ok (now, mode')) : CommasWell now := by
  have hrule := step_rule k c next mode
  rw [h] at hrule
  cases hrule with
  | sought hseek => exact hseek.commas .nil
  | wordEnd _ hseek => exact hseek.commas (.finished (by simp))
  | quote | groupEnd => exact .finished (by simp)
  | numberSign | lineEnd | comment | doubled | selector | selectorOpens | letter | escaped
  | backslash | quoted | group => exact .nil

/-- What a text emits. -/
theorem run_commas {cs : List Char} {all : List Lexeme} (h : run mode k cs = .ok all) :
    CommasWell all := by
  induction cs generalizing mode k all with
  | nil =>
    cases mode with
    | word start text nest =>
      simp only [run, finish] at h
      split at h
      · obtain rfl := Except.ok.inj h
        exact .finished (by simp)
      · cases h
    | seeking | comment | doubled =>
      obtain rfl := Except.ok.inj h
      exact .nil
    | string | group => cases h
  | cons c rest ih =>
    obtain ⟨⟨now, mode'⟩, hstep, hrun⟩ := exists_of_bind_ok h
    obtain ⟨later, hlater, hall⟩ := exists_of_bind_ok hrun
    obtain rfl := Except.ok.inj hall
    exact (step_commas hstep).append (ih hlater)

end Lexer

/-- Every comma among the tokens of a text is one. -/
theorem tokenize_commas {terminator : Terminator} {start : Position} {source : String} {r : Reading}
    (h : tokenize terminator start source = .ok r) :
    ∀ t ∈ r.tokens, t.kind = .comma → t.text.toList = [','] := by
  intro t ht
  obtain ⟨all, hall, hgroup⟩ := exists_of_bind_ok h
  rw [groupLexemes_tokens hgroup, List.nil_append] at ht
  obtain ⟨lexeme, hlexeme, htoken⟩ := List.mem_filterMap.mp ht
  cases lexeme with
  | token u =>
    obtain rfl : u = t := Option.some.inj htoken
    exact Lexer.run_commas hall u hlexeme
  | semicolon => cases htoken

/-! ### Texts of tokens -/

/-- The texts of tokens, one behind the other. -/
def tokenTexts (tokens : List Token) : List Char := tokens.flatMap fun t => t.text.toList

@[simp] theorem tokenTexts_nil : tokenTexts [] = [] := rfl

@[simp] theorem tokenTexts_cons (t : Token) (tokens : List Token) :
    tokenTexts (t :: tokens) = t.text.toList ++ tokenTexts tokens := rfl

@[simp] theorem tokenTexts_append (xs ys : List Token) :
    tokenTexts (xs ++ ys) = tokenTexts xs ++ tokenTexts ys :=
  List.flatMap_append

/-- The pieces of a list of tokens between its commas. -/
def commaPieces (tokens : List Token) : List (List Token) :=
  tokens.splitOnP fun t => t.kind = .comma

theorem commaPieces_ne_nil (tokens : List Token) : commaPieces tokens ≠ [] :=
  List.splitOnP_ne_nil _ _

theorem commaPieces_cons (t : Token) (tokens : List Token) : commaPieces (t :: tokens) =
    if t.kind = .comma then [] :: commaPieces tokens
    else (commaPieces tokens).modifyHead (t :: ·) := by
  rw [commaPieces, List.splitOnP_cons_eq_if_modifyHead]
  by_cases hcomma : t.kind = .comma
  · rw [if_pos (decide_eq_true hcomma), if_pos hcomma]
    rfl
  · rw [if_neg (by simpa using hcomma), if_neg hcomma]
    rfl

/-- There is one piece more than there are commas. -/
theorem length_commaPieces (tokens : List Token) :
    (commaPieces tokens).length = tokens.countP (fun t => t.kind = .comma) + 1 := by
  induction tokens with
  | nil => rfl
  | cons t tokens ih =>
    rw [commaPieces_cons]
    by_cases hcomma : t.kind = .comma
    · rw [if_pos hcomma, List.length_cons, ih, List.countP_cons_of_pos (by simpa using hcomma)]
    · rw [if_neg hcomma, List.length_modifyHead, ih, List.countP_cons_of_neg (by simpa using hcomma)]

/-- With commas between them the pieces make up the whole text. -/
theorem intercalate_commaPieces {tokens : List Token}
    (h : ∀ t ∈ tokens, t.kind = .comma → t.text.toList = [',']) :
    [','].intercalate ((commaPieces tokens).map tokenTexts) = tokenTexts tokens := by
  induction tokens with
  | nil => rfl
  | cons t tokens ih =>
    obtain ⟨ht, htokens⟩ := List.forall_mem_cons.mp h
    have hrest := ih htokens
    obtain ⟨piece, pieces, hpieces⟩ := List.exists_cons_of_ne_nil (commaPieces_ne_nil tokens)
    rw [commaPieces_cons, tokenTexts_cons, ← hrest, hpieces]
    by_cases hcomma : t.kind = .comma
    · rw [if_pos hcomma, ht hcomma, List.map_cons, List.map_cons, List.intercalate_cons_cons]
      rfl
    · rw [if_neg hcomma, List.modifyHead_cons, List.map_cons, List.map_cons, tokenTexts_cons]
      cases pieces with
      | nil => simp
      | cons next pieces => simp [List.intercalate_cons_cons]

/-- What is cut off a word is the end of its text. -/
theorem tokenTexts_tailFrom {t : Token} {head tail : List Char} (hkind : t.kind = .word)
    (htext : t.text.toList = head ++ tail) (hne : head ≠ []) :
    tokenTexts (t.tailFrom (Text.byteLength head)) = tail := by
  obtain ⟨c, head, rfl⟩ := List.exists_cons_of_ne_nil hne
  unfold Token.tailFrom Token.splitAt?
  rw [hkind, htext, Text.splitBytes_append]
  cases tail with
  | nil => rfl
  | cons d tail => simp

theorem kind_of_mem_tailFrom {t u : Token} {n : Nat} (h : u ∈ t.tailFrom n) : u.kind = .word := by
  unfold Token.tailFrom Token.splitAt? at h
  split at h
  · next first second hsplit =>
    obtain rfl := List.mem_singleton.mp h
    split at hsplit
    · obtain ⟨-, rfl⟩ := Prod.mk.inj (Option.some.inj hsplit)
      rfl
    · cases hsplit
  · cases h

theorem utf8Size_of_isIdentifierChar {c : Char} (h : isIdentifierChar c = true) : c.utf8Size = 1 := by
  rw [Char.utf8Size_eq_one_iff]
  unfold isIdentifierChar Char.isAlphanum Char.isAlpha Char.isUpper Char.isLower Char.isDigit at h
  simp only [Bool.or_eq_true, Bool.and_eq_true, decide_eq_true_eq] at h
  rcases h with ((h | h) | h) | rfl
  · exact Nat.le_trans (show c.toNat ≤ 90 from h.2) (by decide)
  · exact Nat.le_trans (show c.toNat ≤ 122 from h.2) (by decide)
  · exact Nat.le_trans (show c.toNat ≤ 57 from h.2) (by decide)
  · decide

/-- The characters of an identifier are one byte each. -/
theorem byteLength_of_isIdentifierList {cs : List Char} (h : isIdentifierList cs = true) :
    Text.byteLength cs = cs.length := by
  have hall : ∀ c ∈ cs, isIdentifierChar c = true := by
    cases cs with
    | nil => cases h
    | cons c cs =>
      rw [isIdentifierList, Bool.and_eq_true, List.all_eq_true] at h
      rw [List.forall_mem_cons]
      refine ⟨?_, h.2⟩
      have hfirst := h.1
      rw [isIdentifierStart, Bool.or_eq_true] at hfirst
      rw [isIdentifierChar, Bool.or_eq_true, Char.isAlphanum, Bool.or_eq_true]
      exact hfirst.imp_left .inl
  clear h
  induction cs with
  | nil => rfl
  | cons c cs ih =>
    obtain ⟨hc, hcs⟩ := List.forall_mem_cons.mp hall
    rw [Text.byteLength_cons, utf8Size_of_isIdentifierChar hc, ih hcs, List.length_cons, Nat.add_comm]

/-! ### Arguments as they are written -/

/-- The text of an argument as it is written; an arrow function has no parameters. -/
def Argument.spelling : Argument → List Char
  | .plain tokens => tokenTexts tokens
  | .arrow body => '(' :: ')' :: '=' :: '>' :: body.text.toList

/-- The texts of all arguments as they are written, keyword arguments behind their names. -/
def Arguments.spellings (a : Arguments) : List (List Char) :=
  a.positional.map Argument.spelling ++
    a.keywords.map fun (name, argument) => name.toList ++ '=' :: argument.spelling

theorem Text.withoutBlanks_cons {c : Char} (hc : isBlank c = false) (cs : List Char) :
    withoutBlanks (c :: cs) = c :: withoutBlanks cs :=
  List.filter_cons_of_pos (by simp [hc])

/-- Groups among the tokens have the texts of groups. -/
def GroupsRead (tokens : List Token) : Prop :=
  ∀ t ∈ tokens, ∀ b, t.kind = .group b → GroupText b t.text.toList

/-- An argument is written as its tokens are, up to blanks. -/
theorem Argument.withoutBlanks_spelling_ofTokens {tokens : List Token} (h : GroupsRead tokens) :
    Text.withoutBlanks (ofTokens tokens).spelling = Text.withoutBlanks (tokenTexts tokens) := by
  unfold ofTokens
  split
  · next params sign body =>
    split
    · next harrow =>
      simp only [Bool.and_eq_true] at harrow
      obtain ⟨⟨⟨hround, hblank⟩, hsign⟩, -⟩ := harrow
      have hkind : params.kind = .group .round := by simpa [Token.isGroup] using hround
      obtain ⟨inner, -, htext⟩ := h params List.mem_cons_self _ hkind
      have hinner : ∀ c ∈ inner, Text.isBlank c = true := by
        simpa [Token.innerBlank, Token.inner?_eq hkind htext, Text.allBlank] using hblank
      have hempty : Text.withoutBlanks inner = [] := by
        simpa [Text.withoutBlanks, List.filter_eq_nil_iff] using hinner
      obtain ⟨-, hsign⟩ : sign.kind = .word ∧ sign.text = "=>" := by simpa [Token.isWord] using hsign
      have hparams : Text.withoutBlanks params.text.toList = ['(', ')'] := by
        have hsplit : params.text.toList = ['('] ++ (inner ++ [')']) := htext
        rw [hsplit, Text.withoutBlanks_append, Text.withoutBlanks_append, hempty]
        decide
      have hsign' : Text.withoutBlanks "=>".toList = ['=', '>'] := by decide
      have htexts : tokenTexts [params, sign, body] =
          params.text.toList ++ (sign.text.toList ++ body.text.toList) := by simp
      rw [htexts, Text.withoutBlanks_append, Text.withoutBlanks_append, hparams, hsign, hsign']
      exact Text.withoutBlanks_append ['(', ')', '=', '>'] body.text.toList
    · rfl
  · rfl

namespace Arguments

/-- A piece without a name is an argument as it stands. -/
theorem splitKeyword_none {first : Token} {rest tokens : List Token}
    (h : splitKeyword first rest = (none, tokens)) : tokens = first :: rest := by
  unfold splitKeyword at h
  repeat' split at h
  all_goals simp_all

/-- The name of a piece is an identifier, and with its equals sign the front of the text. -/
theorem splitKeyword_name {first : Token} {rest tokens : List Token} {name : String}
    (h : splitKeyword first rest = (some name, tokens)) : isIdentifier name = true ∧
      name.toList ++ '=' :: tokenTexts tokens = tokenTexts (first :: rest) ∧
      ∀ t ∈ tokens, t ∈ rest ∨ t.kind = .word := by
  unfold splitKeyword at h
  split at h
  · cases h
  next w hw =>
  obtain ⟨hkind, rfl⟩ := Token.word?_eq_some_iff.mp hw
  split at h
  · next key value hsplit =>
    split at h
    · next hname =>
      obtain ⟨heq, rfl⟩ := Prod.mk.inj h
      obtain rfl := Option.some.inj heq
      rw [Bool.and_eq_true] at hname
      have htext : first.text.toList = (key ++ ['=']) ++ value := by
        rw [Checked.splitOnce_eq hsplit, List.append_assoc]
      have hlength : key.length + 1 = Text.byteLength (key ++ ['=']) := by
        rw [Text.byteLength_append, byteLength_of_isIdentifierList hname.1]
        rfl
      refine ⟨by rw [isIdentifier, String.toList_ofList]; exact hname.1, ?_, fun t ht => ?_⟩
      · rw [tokenTexts_append, hlength, tokenTexts_tailFrom hkind htext (by simp), tokenTexts_cons,
          htext, String.toList_ofList]
        simp
      · exact (List.mem_append.mp ht).symm.imp_right kind_of_mem_tailFrom
    · cases h
  split at h
  · cases h
  next op rest' =>
  split at h
  · next value hop =>
    split at h
    · next hname =>
      obtain ⟨heq, rfl⟩ := Prod.mk.inj h
      obtain rfl := Option.some.inj heq
      rw [Bool.and_eq_true] at hname
      obtain ⟨sign, hsign, htext⟩ := Option.map_eq_some_iff.mp hop
      obtain ⟨hopkind, rfl⟩ := Token.word?_eq_some_iff.mp hsign
      have hone : 1 = Text.byteLength ['='] := rfl
      refine ⟨hname.1, ?_, fun t ht => ?_⟩
      · rw [tokenTexts_append, hone, tokenTexts_tailFrom hopkind htext (List.cons_ne_nil _ _),
          tokenTexts_cons, tokenTexts_cons, htext]
        rfl
      · rcases List.mem_append.mp ht with ht | ht
        · exact .inr (kind_of_mem_tailFrom ht)
        · exact .inl (List.mem_cons_of_mem op ht)
    · cases h
  · cases h

/-- The arguments are those of some pieces: in their order each has the text of its piece, up to blanks, and
the names are identifiers that differ. -/
structure Takes (a : Arguments) (pieces : List (List Token)) : Prop where
  spellings : a.spellings.map Text.withoutBlanks =
    pieces.map fun piece => Text.withoutBlanks (tokenTexts piece)
  nodup : (a.keywords.map Prod.fst).Nodup
  identifiers : ∀ name ∈ a.keywords.map Prod.fst, isIdentifier name = true

variable {a a' : Arguments} {pieces : List (List Token)} {lastComma : Option Position}

/-- One piece more. -/
theorem addSegment_takes {s : Segment} (h : a.Takes pieces)
    (hgroups : GroupsRead s.tokens)
    (hadd : addSegment lastComma a s = .ok a') : a'.Takes (pieces ++ [s.tokens]) := by
  unfold addSegment at hadd
  split at hadd
  · cases hadd
  next first rest htokens =>
  rw [htokens] at hgroups ⊢
  split at hadd
  · cases hadd
  · next name tokens _ hsplit =>
    obtain ⟨hname, htexts, hkinds⟩ := splitKeyword_name hsplit
    split at hadd
    · cases hadd
    next hnew =>
    obtain rfl := Except.ok.inj hadd
    have hgroups' : GroupsRead tokens := by
      intro t ht b hkind
      rcases hkinds t ht with hrest | hword
      · exact hgroups t (List.mem_cons_of_mem first hrest) b hkind
      · rw [hword] at hkind
        cases hkind
    have hfresh : name ∉ a.keywords.map Prod.fst := by
      intro hmem
      obtain ⟨e, he, heq⟩ := List.mem_map.mp hmem
      exact hnew (List.lookup_isSome_iff.mpr ⟨e, he, by simp [heq]⟩)
    refine ⟨?_, ?_, ?_⟩
    · have hspelling : Text.withoutBlanks (name.toList ++ '=' :: (Argument.ofTokens tokens).spelling) =
          Text.withoutBlanks (tokenTexts (first :: rest)) := by
        have hsign : Text.isBlank '=' = false := by decide
        rw [← htexts, Text.withoutBlanks_append, Text.withoutBlanks_append,
          Text.withoutBlanks_cons hsign, Text.withoutBlanks_cons hsign,
          Argument.withoutBlanks_spelling_ofTokens hgroups']
      rw [List.map_append, ← h.spellings, List.map_singleton, ← hspelling]
      simp [Arguments.spellings]
    · rw [List.map_append, List.map_singleton, ← List.concat_eq_append]
      exact h.nodup.concat hfresh
    · rw [List.map_append, List.map_singleton]
      exact List.forall_mem_append.mpr ⟨h.identifiers, List.forall_mem_singleton.mpr hname⟩
  · next tokens _ hsplit =>
    split at hadd
    · next hempty =>
      obtain rfl := Except.ok.inj hadd
      obtain rfl := splitKeyword_none hsplit
      have hkeywords : a.keywords = [] := List.isEmpty_iff.mp hempty
      refine ⟨?_, h.nodup, h.identifiers⟩
      rw [List.map_append, ← h.spellings, List.map_singleton,
        ← Argument.withoutBlanks_spelling_ofTokens hgroups]
      simp [Arguments.spellings, hkeywords]
    · cases hadd

theorem segments_tokens (current tokens : List Token) :
    (segments current tokens).map Segment.tokens = (commaPieces tokens).modifyHead (current ++ ·) := by
  induction tokens generalizing current with
  | nil => simp [segments, commaPieces]
  | cons t tokens ih =>
    rw [segments, commaPieces_cons]
    by_cases hcomma : t.kind = .comma
    · rw [if_pos hcomma, if_pos hcomma, List.map_cons, ih, List.modifyHead_cons, List.append_nil]
      exact congrArg _ (congrFun List.modifyHead_id _)
    · rw [if_neg hcomma, if_neg hcomma, ih, List.modifyHead_modifyHead]
      congr 1
      funext piece
      simp

/-- The arguments of some segments, behind those of some pieces. -/
theorem foldlM_takes {parts : List Segment} (h : a.Takes pieces)
    (hgroups : ∀ s ∈ parts, GroupsRead s.tokens)
    (hadd : parts.foldlM (addSegment lastComma) a = .ok a') :
    a'.Takes (pieces ++ parts.map Segment.tokens) := by
  induction parts generalizing a pieces with
  | nil =>
    obtain rfl := Except.ok.inj hadd
    rwa [List.map_nil, List.append_nil]
  | cons s parts ih =>
    obtain ⟨hs, hparts⟩ := List.forall_mem_cons.mp hgroups
    rw [List.foldlM_cons] at hadd
    obtain ⟨next, hnext, hrest⟩ := exists_of_bind_ok hadd
    have htakes := ih (addSegment_takes h hs hnext) hparts hrest
    rwa [List.append_assoc] at htakes

/-- The arguments of a list of tokens are those of the pieces between its commas. -/
theorem ofTokens_takes {position : Position} {tokens : List Token} {args : Arguments}
    (hgroups : GroupsRead tokens) (h : ofTokens position tokens = .ok args) :
    args.Takes (commaPieces tokens) := by
  have hparts : (segments [] tokens).map Segment.tokens = commaPieces tokens := by
    rw [segments_tokens]
    exact congrFun List.modifyHead_id _
  have hnone : ({ position } : Arguments).Takes [] :=
    ⟨rfl, List.nodup_nil, List.forall_mem_nil _⟩
  have htakes := foldlM_takes hnone (fun s hs t ht => hgroups t ?_) h
  · rwa [List.nil_append, hparts] at htakes
  · exact (mem_segments hs t ht).resolve_left List.not_mem_nil

theorem Takes.length (h : a.Takes pieces) : a.length = pieces.length := by
  have hlength := congrArg List.length h.spellings
  simpa [Arguments.spellings, Arguments.length] using hlength

/-- Commas are no blanks. -/
theorem withoutBlanks_intercalate (texts : List (List Char)) :
    Text.withoutBlanks ([','].intercalate texts) = [','].intercalate (texts.map Text.withoutBlanks) := by
  induction texts with
  | nil => rfl
  | cons first texts ih =>
    cases texts with
    | nil => rw [List.map_cons, List.map_nil, List.intercalate_singleton, List.intercalate_singleton]
    | cons next texts =>
      have hcomma : Text.withoutBlanks [','] = [','] := by decide
      rw [List.map_cons] at ih ⊢
      rw [List.map_cons, List.intercalate_cons_cons, List.intercalate_cons_cons, Text.withoutBlanks_append,
        Text.withoutBlanks_append, hcomma, ih]

/-- With commas between them the arguments have the text of their pieces, up to blanks. -/
theorem Takes.intercalate (h : a.Takes pieces) : Text.withoutBlanks ([','].intercalate a.spellings) =
    Text.withoutBlanks ([','].intercalate (pieces.map tokenTexts)) := by
  rw [withoutBlanks_intercalate, withoutBlanks_intercalate, h.spellings, List.map_map]
  rfl

end Arguments

/-- An argument list neither loses nor invents text. It has no arguments if there is nothing in its bracket,
and else one more than there are commas between the tokens there. The arguments have the texts of the pieces
between the commas, in their order, the positional arguments first; a keyword argument has its name and an
equals sign in front, and the names are identifiers that differ. With commas between them the arguments make
up the text inside the bracket, up to blanks. -/
theorem arguments_keep_text {group : Token} {args : Arguments}
    (h : (Arguments.parse group).Gives args) :
    ∃ r, group.tokenizeInner .optional = .ok r ∧
      args.length = (if r.tokens = [] then 0 else r.tokens.countP (fun t => t.kind = .comma) + 1) ∧
      (r.tokens ≠ [] → args.spellings.map Text.withoutBlanks =
        (commaPieces r.tokens).map fun piece => Text.withoutBlanks (tokenTexts piece)) ∧
      (args.keywords.map Prod.fst).Nodup ∧
      (∀ name ∈ args.keywords.map Prod.fst, isIdentifier name = true) ∧
      Text.withoutBlanks ([','].intercalate args.spellings) = Text.withoutBlanks (tokenTexts r.tokens) := by
  obtain ⟨r, hread, ⟨hnone, rfl⟩ | ⟨st, hst, hargs⟩⟩ := Arguments.exists_of_parse h
  · have htokens : r.tokens = [] := by rw [Reading.tokens, hnone, List.flatMap_nil]
    refine ⟨r, hread, ?_, fun hne => absurd htokens hne, List.nodup_nil, List.forall_mem_nil _, ?_⟩
    · rw [if_pos htokens]
      rfl
    · rw [htokens]
      rfl
  · have htokens : r.tokens = st.tokens := by
      rw [Reading.tokens, hst, List.flatMap_cons, List.flatMap_nil, List.append_nil]
    obtain ⟨inner, -, htokenize⟩ := Token.tokenize_of_tokenizeInner hread
    have hgroups : GroupsRead r.tokens := fun t ht b hkind => tokenize_groupText htokenize ht hkind
    have hne : r.tokens ≠ [] := by
      obtain ⟨all, -, hgroup⟩ := exists_of_bind_ok htokenize
      rw [htokens]
      exact (groupLexemes_contiguous hgroup st (by simp [hst])).1
    rw [← htokens] at hargs
    have htakes := Arguments.ofTokens_takes hgroups hargs
    refine ⟨r, hread, ?_, fun _ => htakes.spellings, htakes.nodup, htakes.identifiers, ?_⟩
    · rw [htakes.length, length_commaPieces, if_neg hne]
    · rw [htakes.intercalate, intercalate_commaPieces (tokenize_commas htokenize)]

/-- A comparison, an arrow function, and two keyword arguments with and without blanks. -/
def mixedGroup : Token :=
  ⟨.group .round, ⟨0, 34, ⟨1, 1⟩⟩, "(x == 1, ( ) => \x7bb;\x7d, k=v, m =\"s\")"⟩

/-- The arguments as they are written. -/
def mixedSpellings : List (List Char) :=
  ["x==1".toList, "()=>\x7bb;\x7d".toList, "k=v".toList, "m=\"s\"".toList]

theorem mixed_arguments_keep_text : ∃ args r, (Arguments.parse mixedGroup).Gives args ∧
    mixedGroup.tokenizeInner .optional = .ok r ∧ args.spellings = mixedSpellings ∧ args.length = 4 ∧
    args.keywords.map Prod.fst = ["k", "m"] ∧
    Text.withoutBlanks (tokenTexts r.tokens) = [','].intercalate mixedSpellings := by
  have hparse : ((Arguments.parse mixedGroup).run.run []).1.toOption.map
      (fun args => (args.spellings, args.length, args.keywords.map Prod.fst)) =
        some (mixedSpellings, 4, ["k", "m"]) := by decide +kernel
  have hblanks : Text.withoutBlanks ([','].intercalate mixedSpellings) =
      [','].intercalate mixedSpellings := by decide +kernel
  rcases hrun : (Arguments.parse mixedGroup).run.run [] with ⟨result, warnings⟩
  rw [hrun] at hparse
  cases result with
  | error f => cases hparse
  | ok args =>
    have hgives : (Arguments.parse mixedGroup).Gives args := ⟨warnings, hrun⟩
    obtain ⟨hspellings, hrest⟩ := Prod.mk.inj (Option.some.inj hparse)
    obtain ⟨hlength, hnames⟩ := Prod.mk.inj hrest
    obtain ⟨r, hread, -, -, -, -, htext⟩ := arguments_keep_text hgives
    rw [hspellings, hblanks] at htext
    exact ⟨args, r, hgives, hread, hspellings, hlength, hnames, htext.symm⟩

end Packwright
