import Packwright.Proofs.Completion
import Packwright.Proofs.Condition.Exactness
import Packwright.Proofs.Json.Printing
import Packwright.Proofs.Session.Parking
import Packwright.Proofs.Session.TopLevel
import Packwright.Proofs.Token.Pieces

/-!
# Every JSON object is the body of a resource

The lexer decides where the body of a resource ends before the codec reads the text. It groups by brackets and
quotes as JSON does, so the group is the whole object, and what stands behind it is read as if it stood alone.
The definition needs no semicolon, and its only effect is the resource with the object as the codec writes it.

## Main definitions

- `resourceText` — a resource as it is written
- `StoredAs` — the body is stored as a text, wherever the resource stands

## Main results

- `objects_storedAs_pretty` — every object is stored as it is written; objects without other numbers than
  integers of 64 bits are stored alike when this text is the body
-/

namespace Packwright

/-- The name of a kind of resources: lowercase letters and underscores. -/
def IsResourceKind (kind : String) : Prop :=
  kind.toList ≠ [] ∧ ∀ c ∈ kind.toList, c.isLower = true ∨ c = '_'

/-- A character of the path of a resource: a digit, an underscore, a slash, or a letter in lower case. -/
def IsPathChar (c : Char) : Prop :=
  c.isDigit = true ∨ c = '_' ∨ c = '/' ∨ Text.isAlphabetic c = true ∧ Text.lowercase [c] = [c]

instance (c : Char) : Decidable (IsPathChar c) :=
  inferInstanceAs (Decidable (c.isDigit = true ∨ c = '_' ∨ c = '/' ∨
    Text.isAlphabetic c = true ∧ Text.lowercase [c] = [c]))

/-- The path of a resource in lower case. -/
def IsResourcePath (path : String) : Prop := path.toList ≠ [] ∧ ∀ c ∈ path.toList, IsPathChar c

/-- A resource as it is written. -/
def resourceText (kind path body : String) : String := "new " ++ kind ++ "(" ++ path ++ ") " ++ body

/-- No resource of this kind is at this path. -/
def Pack.LacksResource (p : Pack) (key : ResourceKey) : Prop := ∀ r ∈ p.resources, r.1 ≠ key

/-- The pack with one resource more. -/
def Pack.withResource (p : Pack) (key : ResourceKey) (json : String) : Pack :=
  { p with resources := p.resources ++ [(key, json)] }

/-- With this codec, the body of a resource is stored as the text `json`. -/
structure StoredAs (codec : Json.Codec) (kind path body json : String) : Prop where
  /-- Wherever it stands, the resource is a statement that ends at the last brace of its body. What stands
  behind it is read and compiled as if it stood there alone, in a session with the resource. -/
  statement : ∀ (k : Cursor) (rest : List Char), ∃ (st : Statement) (before braces after : List Char),
    body.toList = before ++ (braces ++ after) ∧ Json.Spaces before ∧ Json.Spaces after ∧
    st.tokens.map Token.shape = [(.word, "new".toList), (.word, kind.toList),
      (.group .round, '(' :: (path.toList ++ [')'])), (.group .curly, braces)] ∧
    statementsAt k ((resourceText kind path body).toList ++ rest) =
      (statementsAt (k.walk (resourceText kind path body).toList) rest).map (Reading.prepend st) ∧
    ∀ (inner : Compile.Block) (importer : Compile.Importer) (out : List Command) (later : List Statement)
      (s : Session), s.settings.codec = codec → s.pack.LacksResource ⟨kind, path⟩ →
      (Compile.topConstructs inner importer out (constructs (st :: later))).outcome s =
        (Compile.topConstructs inner importer out (constructs later)).outcome
          { s with pack := s.pack.withResource ⟨kind, path⟩ json }
  /-- The resource alone compiles, and nothing else becomes of the pack. -/
  alone : ∀ (settings : Settings) (tasks : List Task) (files : File.Tree) (name : String),
    settings.codec = codec →
    validateSpace ((Session.new settings).after tasks).settings.space = .ok () →
    ((Session.new settings).after tasks).pack.LacksResource ⟨kind, path⟩ →
    ∃ t, (Session.compileText files name (resourceText kind path body)).outcome
        ((Session.new settings).after tasks) = (.ok (), t) ∧
      t.pack = ((Session.new settings).after tasks).pack.withResource ⟨kind, path⟩ json

section

variable {kind path body : String} {cs before braces after : List Char} {c : Char}

/-! ### Kinds and paths -/

theorem isSideChar_of_lower (h : c.isLower = true ∨ c = '_') : isSideChar c = true := by
  rcases h with h | rfl
  · simp [isSideChar, Char.isAlphanum, Char.isAlpha, h]
  · decide

theorem IsResourceKind.isWholeWord (h : IsResourceKind kind) : Lexer.IsWholeWord kind.toList :=
  Lexer.isWholeWord_of_forall h.1 fun c hc => isWordChar_of_side (isSideChar_of_lower (h.2 c hc))

/-- A character that is its own lower-case form everywhere. -/
theorem lowercaseAfter_self (h : ∀ c ∈ cs, Text.lowercase [c] = [c]) (front : List Char) :
    Text.lowercaseAfter front cs = cs := by
  induction cs generalizing front with
  | nil => rfl
  | cons c cs ih =>
    obtain ⟨hc, hcs⟩ := List.forall_mem_cons.mp h
    rw [Text.lowercase, Text.lowercaseAfter, Text.lowercaseAfter, List.append_nil] at hc
    rw [Text.lowercaseAfter, ih hcs]
    -- a sigma is the only letter whose form depends on its surroundings, and no form is a capital one
    by_cases hsigma : c = 'Σ'
    · subst hsigma
      exact absurd hc (by decide)
    · simp only [hsigma, if_false] at hc ⊢
      rw [hc, List.singleton_append]

theorem toLower_of_isDigit (h : c.isDigit = true) : c.toLower = c := by
  have hbound : c.val ≤ '9'.val := by
    simp only [Char.isDigit, Bool.and_eq_true, decide_eq_true_eq] at h
    exact h.2
  exact dif_neg fun hupper => absurd (UInt32.le_trans hupper.1 hbound) (by decide)

theorem IsPathChar.lowercase (h : IsPathChar c) : Text.lowercase [c] = [c] := by
  rcases h with h | rfl | rfl | ⟨-, h⟩
  · have hascii : c.toNat < 128 :=
      Nat.lt_of_le_of_lt (toNat_of_side (by simp [isSideChar, Char.isAlphanum, h])).2 (by decide)
    rw [Text.lowercase, Text.lowercaseAfter, if_pos hascii, toLower_of_isDigit h]
    rfl
  · decide
  · decide
  · exact h

/-- A character of a path is neither a blank nor a quote nor a bracket. -/
theorem IsPathChar.plain (h : IsPathChar c) :
    Text.isBlank c = false ∧ c ≠ '"' ∧ ∀ b : Bracket, c ≠ b.opening ∧ c ≠ b.closing := by
  have hword : Lexer.isWordChar c = true ∨ c = '/' := by
    rcases h with h | rfl | rfl | ⟨h, -⟩
    · exact .inl (isWordChar_of_side (by simp [isSideChar, Char.isAlphanum, h]))
    · exact .inl (by decide)
    · exact .inr rfl
    · by_cases hascii : c.toNat < 128
      · exact .inl (isWordChar_of_side (side_of_letter h hascii))
      · exact .inl (isWordChar_of_foreign (Nat.not_lt.mp hascii) (isBlank_of_letter h))
  rcases hword with hword | rfl
  · obtain ⟨hblank, hmarks, hbracket⟩ := Lexer.isWordChar_iff.mp hword
    exact ⟨hblank, hmarks _ (by simp), hbracket⟩
  · exact ⟨by decide, by decide, fun b => by cases b <;> decide⟩

theorem IsResourcePath.balanced (h : IsResourcePath path) : Balanced path.toList :=
  balanced_of_forall fun c hc => (h.2 c hc).plain.2

/-- The path in parentheses is found again. -/
theorem IsResourcePath.resourcePath?_eq (h : IsResourcePath path) {t : Token} (hkind : t.kind = .group .round)
    (htext : t.text.toList = '(' :: (path.toList ++ [')'])) : resourcePath? t = some path := by
  have hinner : t.inner? = some path := by
    rw [Token.inner?_eq hkind htext, String.ofList_toList]
  have htrim : Text.trimList path.toList = path.toList := by
    have hpadded : Text.trimList ([] ++ (path.toList ++ [])) = path.toList :=
      Text.trimList_padded nofun (fun c hc => (h.2 c hc).plain.1) nofun
    rwa [List.nil_append, List.append_nil] at hpadded
  have hquotes : ∀ cs : List Char, (∀ c ∈ cs, c ≠ '"') → cs.dropWhile (fun c => decide (c = '"')) = cs := by
    intro cs hcs
    cases cs with
    | nil => rfl
    | cons c cs => exact List.dropWhile_cons_of_neg (by simpa using hcs c List.mem_cons_self)
  have hplain : ∀ c ∈ path.toList, c ≠ '"' := fun c hc => (h.2 c hc).plain.2.1
  have hreverse : ∀ c ∈ path.toList.reverse, c ≠ '"' := fun c hc => hplain c (List.mem_reverse.mp hc)
  have hlower : Text.lowercase path.toList = path.toList :=
    lowercaseAfter_self (fun c hc => (h.2 c hc).lowercase) []
  unfold resourcePath?
  rw [if_pos (by simp [Token.isGroup, hkind]), hinner, Option.getD_some, htrim]
  simp only [hquotes _ hplain, hquotes _ hreverse, List.reverse_reverse, hlower]
  rw [if_neg (by simpa using h.1), String.ofList_toList]

/-! ### The statement -/

/-- The tokens of a resource, without their places. -/
def resourceShapes (kind path : String) (braces : List Char) : List (TokenKind × List Char) :=
  [(.word, "new".toList), (.word, kind.toList), (.group .round, '(' :: (path.toList ++ [')'])),
    (.group .curly, braces)]

theorem isBlank_of_isSpace (h : Json.isSpace c = true) : Text.isBlank c = true := by
  simp only [Json.isSpace, Bool.or_eq_true, decide_eq_true_eq] at h
  rcases h with ((rfl | rfl) | rfl) | rfl <;> decide

/-- What is in front of the body and the body itself are four tokens, whatever stands behind them. -/
theorem emits_resourceText (hkind : IsResourceKind kind) (hpath : IsResourcePath path)
    (hbody : body.toList = before ++ (braces ++ after)) (hbefore : Json.Spaces before)
    (hafter : Json.Spaces after) (hbraces : GroupText .curly braces) (rest : List Char) :
    Lexer.Emits (resourceText kind path body).toList rest (resourceShapes kind path braces) := by
  have htext : (resourceText kind path body).toList = "new".toList ++ ([' '] ++ (kind.toList ++
      ('(' :: (path.toList ++ [')']) ++ (' ' :: before ++ (braces ++ after))))) := by
    simp [resourceText, hbody]
  have hspace : ∀ c ∈ [' '], Text.isBlank c = true := List.forall_mem_singleton.mpr (by decide)
  have hgap : ∀ c ∈ ' ' :: before, Text.isBlank c = true :=
    List.forall_mem_cons.mpr ⟨by decide, fun c hc => isBlank_of_isSpace (hbefore c hc)⟩
  have hnew : Lexer.IsWholeWord "new".toList :=
    Lexer.isWholeWord_of_forall (by decide) (Json.forall_of_all (by decide))
  obtain ⟨inner, hinner, rfl⟩ := hbraces
  rw [htext]
  have hopening : ∀ cs, Lexer.WordEnds ('(' :: cs) := fun cs => ⟨by decide, by simp [Lexer.continuesWord]⟩
  have hend : Lexer.Emits after rest [] := Lexer.emits_blanks fun c hc => isBlank_of_isSpace (hafter c hc)
  have hcurly : Lexer.Emits (Bracket.curly.opening :: (inner ++ [Bracket.curly.closing]) ++ after) rest [_] :=
    (Lexer.emits_group .curly hinner).append hend
  have hround : Lexer.Emits ('(' :: (path.toList ++ [')']) ++ (' ' :: before ++ (_ ++ after))) rest [_, _] :=
    (Lexer.emits_group .round hpath.balanced).append ((Lexer.emits_blanks hgap).append hcurly)
  have hword : Lexer.Emits (kind.toList ++ ('(' :: (path.toList ++ [')']) ++ (' ' :: before ++ (_ ++ after)))) rest
      [_, _, _] :=
    (Lexer.emits_word hkind.isWholeWord (hopening _)).append hround
  exact (Lexer.emits_word hnew (Lexer.wordEnds_blank (by decide))).append ((Lexer.emits_blanks hspace).append hword)

/-- The tokens of a resource one by one. -/
theorem exists_of_resourceShapes {tokens : List Token}
    (h : tokens.map Token.shape = resourceShapes kind path braces) :
    ∃ keyword kindToken pathToken bodyToken, tokens = [keyword, kindToken, pathToken, bodyToken] ∧
      keyword.word? = some "new" ∧ kindToken.word? = some kind ∧
      pathToken.shape = (.group .round, '(' :: (path.toList ++ [')'])) ∧
      bodyToken.shape = (.group .curly, braces) := by
  obtain ⟨keyword, tokens, rfl, hkeyword, h⟩ := List.map_eq_cons_iff.mp h
  obtain ⟨kindToken, tokens, rfl, hkindToken, h⟩ := List.map_eq_cons_iff.mp h
  obtain ⟨pathToken, tokens, rfl, hpathToken, h⟩ := List.map_eq_cons_iff.mp h
  obtain ⟨bodyToken, tokens, rfl, hbodyToken, h⟩ := List.map_eq_cons_iff.mp h
  obtain rfl := List.map_eq_nil_iff.mp h
  have hword : ∀ {t : Token} {w : String}, t.shape = (.word, w.toList) → t.word? = some w := fun ht =>
    Token.word?_eq_some_iff.mpr ⟨congrArg Prod.fst ht, String.toList_injective (congrArg Prod.snd ht)⟩
  exact ⟨keyword, kindToken, pathToken, bodyToken, rfl, hword hkeyword, hword hkindToken, hpathToken, hbodyToken⟩

/-- The tokens of a resource are a statement that ends at the brace. -/
theorem groupLexemes_resource {tokens : List Token} (h : tokens.map Token.shape = resourceShapes kind path braces)
    (later : List Lexeme) : groupLexemes .required [] (tokens.map .token ++ later) =
      (groupLexemes .required [] later).map (Reading.prepend ⟨tokens⟩) := by
  obtain ⟨keyword, kindToken, pathToken, bodyToken, rfl, hkeyword, hkind, hpath, hbody⟩ :=
    exists_of_resourceShapes h
  have hword := (Token.word?_eq_some_iff.mp hkeyword).1
  have hword' := (Token.word?_eq_some_iff.mp hkind).1
  have hround : pathToken.kind = .group .round := congrArg Prod.fst hpath
  have hcurly : bodyToken.kind = .group .curly := congrArg Prod.fst hbody
  have htext := (Token.word?_eq_some_iff.mp hkeyword).2
  have hblock : opensBlock [keyword, kindToken, pathToken, bodyToken] = true := by
    simp [opensBlock, Token.isWord, isBlockKeyword, hkeyword, htext, blockKeywords]
  simp only [List.map_cons, List.map_nil, List.cons_append, List.nil_append, groupLexemes, endsAtBrace,
    List.getLast?_cons_cons, List.getLast?_singleton, Option.map_some, Option.getD_some, Token.isGroup, hword,
    hword', hround, hcurly, hblock]
  rfl

/-! ### Compilation -/

theorem resourceHead_eq {keyword kindToken pathToken bodyToken : Token} (hkind : IsResourceKind kind)
    (hpath : IsResourcePath path) (hkindToken : kindToken.word? = some kind)
    (hpathToken : pathToken.shape = (.group .round, '(' :: (path.toList ++ [')'])))
    (hbodyToken : bodyToken.shape = (.group .curly, braces)) :
    resourceHead keyword [kindToken, pathToken, bodyToken] = .ok ⟨kind, path, pathToken, bodyToken⟩ := by
  obtain ⟨hround, hpathText⟩ := Prod.mk.inj hpathToken
  have hcurly : bodyToken.isGroup .curly = true := decide_eq_true (congrArg Prod.fst hbodyToken)
  have hall : kind.toList.all isResourceKindChar = true := by
    refine List.all_eq_true.mpr fun c hc => ?_
    rcases hkind.2 c hc with h | rfl
    · simp [isResourceKindChar, h]
    · decide
  simp only [resourceHead, hkindToken, Option.filter_some, hall, if_true,
    hpath.resourcePath?_eq hround hpathText, hcurly]
  rfl

theorem addResource_of_lacks {p : Pack} (h : p.LacksResource ⟨kind, path⟩) (json : String) :
    p.addResource kind path json = .ok (p.withResource ⟨kind, path⟩ json) := by
  have hnone : p.resources.any (·.1 = (⟨kind, path⟩ : ResourceKey)) = false :=
    List.any_eq_false.mpr fun r hr => by simpa using h r hr
  simp [Pack.addResource, hnone, Pack.withResource]

variable {tokens : List Token} {codec : Json.Codec} {v : Json} {s : Session}

theorem kind_of_resourceShapes (h : tokens.map Token.shape = resourceShapes kind path braces) :
    Statement.kind ⟨tokens⟩ = .newResource := by
  obtain ⟨keyword, kindToken, pathToken, bodyToken, rfl, hkeyword, -⟩ := exists_of_resourceShapes h
  have hkey : Statement.keyword? ⟨[keyword, kindToken, pathToken, bodyToken]⟩ = some "new" := hkeyword
  simp [Statement.kind, hkey, StatementKind.ofWord?]

/-- A resource whose body is read as a value is stored as the value is printed, and nothing else happens. -/
theorem outcome_resource (hkind : IsResourceKind kind) (hpath : IsResourcePath path)
    (hcodec : s.settings.codec = codec) (hdecode : codec.decode (String.ofList braces) = .ok v)
    (htokens : tokens.map Token.shape = resourceShapes kind path braces)
    (hfree : s.pack.LacksResource ⟨kind, path⟩) (inner : Compile.Block) :
    (Compile.construct inner .top (.single ⟨tokens⟩)).outcome s =
      (.ok [], { s with pack := s.pack.withResource ⟨kind, path⟩ (codec.pretty v) }) := by
  have hstatement := kind_of_resourceShapes htokens
  obtain ⟨keyword, kindToken, pathToken, bodyToken, rfl, -, hkindToken, hpathToken, hbodyToken⟩ :=
    exists_of_resourceShapes htokens
  have htext : bodyToken.text = String.ofList braces := by
    refine String.toList_injective ?_
    rw [String.toList_ofList]
    exact congrArg Prod.snd hbodyToken
  have hnew : (Compile.newResource keyword [kindToken, pathToken, bodyToken]).outcome s =
      (.ok (), { s with pack := s.pack.withResource ⟨kind, path⟩ (codec.pretty v) }) := by
    unfold Compile.newResource
    rw [resourceHead_eq hkind hpath hkindToken hpathToken hbodyToken]
    simp only [Compile.ofExcept, pure_bind, htext, Compile.outcome_get_bind, hcodec, hdecode,
      addResource_of_lacks hfree]
    rfl
  show (Compile.statement inner .top (Statement.kind ⟨_⟩) keyword [kindToken, pathToken, bodyToken]).outcome s = _
  rw [hstatement]
  show (Compile.newResource keyword _ >>= fun _ => pure []).outcome s = _
  rw [Compile.outcome_bind, hnew]
  rfl

/-- What stands behind a resource is compiled as if it stood there alone. -/
theorem topConstructs_resource (hkind : IsResourceKind kind) (hpath : IsResourcePath path)
    (hcodec : s.settings.codec = codec) (hdecode : codec.decode (String.ofList braces) = .ok v)
    (htokens : tokens.map Token.shape = resourceShapes kind path braces)
    (hfree : s.pack.LacksResource ⟨kind, path⟩) (inner : Compile.Block) (importer : Compile.Importer)
    (out : List Command) (later : List Statement) :
    (Compile.topConstructs inner importer out (constructs (⟨tokens⟩ :: later))).outcome s =
      (Compile.topConstructs inner importer out (constructs later)).outcome
        { s with pack := s.pack.withResource ⟨kind, path⟩ (codec.pretty v) } := by
  have hstatement := kind_of_resourceShapes htokens
  have himport : Construct.import? (.single ⟨tokens⟩) = none := by
    refine Construct.import?_eq_none fun st hst => ?_
    obtain rfl := List.mem_singleton.mp hst
    rw [hstatement]
    decide
  rw [Compile.constructs_cons (by rw [hstatement]; decide) (by rw [hstatement]; decide) (by rw [hstatement]; decide),
    Compile.topConstructs, himport]
  show (Compile.construct inner .top _ >>= fun commands => _).outcome s = _
  rw [Compile.outcome_bind, outcome_resource hkind hpath hcodec hdecode htokens hfree]
  show (Compile.topConstructs inner importer (out ++ []) _).outcome _ = _
  rw [List.append_nil]

/-- A resource that is all of a text is read as one statement. -/
theorem tokenize_resourceText (hkind : IsResourceKind kind) (hpath : IsResourcePath path)
    (hbody : body.toList = before ++ (braces ++ after)) (hbefore : Json.Spaces before)
    (hafter : Json.Spaces after) (hbraces : GroupText .curly braces) :
    ∃ tokens, tokens.map Token.shape = resourceShapes kind path braces ∧
      tokenize .required Position.start (resourceText kind path body) = .ok (Reading.prepend ⟨tokens⟩ {}) := by
  obtain ⟨tokens, htokens, hrun⟩ :=
    emits_resourceText hkind hpath hbody hbefore hafter hbraces [] ⟨0, Position.start⟩
  refine ⟨tokens, htokens, ?_⟩
  rw [List.append_nil] at hrun
  rw [tokenize, lexemes, hrun]
  exact groupLexemes_resource htokens []

/-- A resource that is all of a text is compiled in a session that has a load function. -/
theorem exists_compileText_resource (hkind : IsResourceKind kind) (hpath : IsResourcePath path)
    (hcodec : s.settings.codec = codec) (hdecode : codec.decode (String.ofList braces) = .ok v) {text : String}
    (htokens : tokens.map Token.shape = resourceShapes kind path braces)
    (hread : tokenize .required Position.start text = .ok (Reading.prepend ⟨tokens⟩ {}))
    (hspace : validateSpace s.settings.space = .ok ()) (hfree : s.pack.LacksResource ⟨kind, path⟩)
    (hload : s.pack.hasFunction loadPath = true) (files : File.Tree) (name : String) :
    ∃ t, (Session.compileText files name text).outcome s = (.ok (), t) ∧
      t.pack = s.pack.withResource ⟨kind, path⟩ (codec.pretty v) := by
  have hall : ∃ (out : List Command) (s₁ : Session) (later : List Warning),
      (Compile.source (Compile.importFile files) name text).outcome s =
        (.ok (), { s₁ with pack := s₁.pack.extendLoad out, warnings := later }) ∧
      out = [] ∧ s₁.pack = s.pack.withResource ⟨kind, path⟩ (codec.pretty v) :=
    Compile.source_ok name hread fun log warnings =>
      ⟨[], { s with log, warnings, pack := s.pack.withResource ⟨kind, path⟩ (codec.pretty v) },
        topConstructs_resource (s := { s with log, warnings }) hkind hpath hcodec hdecode htokens hfree _ _ [] [],
        rfl, rfl⟩
  obtain ⟨out, s₁, later, hsource, hout, hpack⟩ := hall
  refine ⟨_, Compile.step_eq_ok.mpr ⟨_, hspace, hsource, rfl⟩, ?_⟩
  show s₁.pack.extendLoad out = _
  have hload' : (s.pack.withResource ⟨kind, path⟩ (codec.pretty v)).hasFunction loadPath = true := hload
  rw [hout, hpack, Pack.extendLoad_eq_ahead _ _ hload', Pack.ahead_nil]

/-- A value in braces is stored as it is printed. -/
theorem storedAs_pretty (hkind : IsResourceKind kind) (hpath : IsResourcePath path)
    (hbody : body.toList = before ++ (braces ++ after)) (hbefore : Json.Spaces before)
    (hafter : Json.Spaces after) (hbraces : GroupText .curly braces)
    (hdecode : codec.decode (String.ofList braces) = .ok v) :
    StoredAs codec kind path body (codec.pretty v) := by
  refine ⟨fun k rest => ?_, fun settings tasks files name hcodec hspace hfree => ?_⟩
  · obtain ⟨tokens, htokens, hrun⟩ := emits_resourceText hkind hpath hbody hbefore hafter hbraces rest k
    refine ⟨⟨tokens⟩, before, braces, after, hbody, hbefore, hafter, htokens, ?_,
      fun inner importer out later s hcodec hfree =>
        topConstructs_resource hkind hpath hcodec hdecode htokens hfree inner importer out later⟩
    rw [statementsAt, hrun, statementsAt]
    cases Lexer.run .seeking (k.walk (resourceText kind path body).toList) rest with
    | error f => rfl
    | ok later => exact groupLexemes_resource htokens later
  · obtain ⟨tokens, htokens, hread⟩ := tokenize_resourceText hkind hpath hbody hbefore hafter hbraces
    have hkept : ((Session.new settings).after tasks).settings.codec = codec := by
      rw [Session.after_settings, hcodec]
    exact exists_compileText_resource hkind hpath hkept hdecode htokens hread hspace hfree
      (Session.after_hasLoad settings tasks) files name

end

/-- The text stands for a value, and its numbers have neither a fraction nor an exponent and fit 64 bits. -/
def Json.HasOnlyIntegers (text : String) : Prop :=
  ∃ before cs after v, text.toList = before ++ (cs ++ after) ∧ Spaces before ∧ Spaces after ∧
    Spells IntegerText maxDepth cs (some v)

/-- What is read from a text without other numbers than integers is written as a text that is read as it. -/
theorem Json.Codec.Lawful.decode_pretty {codec : Json.Codec} {value? : Json.Numeral → Option Json.Number}
    (hcodec : codec.Lawful value?) {text : String} {v : Json} (h : HasOnlyIntegers text)
    (hdecode : codec.decode text = .ok v) : codec.decode (codec.pretty v) = .ok v := by
  obtain ⟨before, cs, after, w, htext, hbefore, hafter, hcs⟩ := h
  have hnumber : ∀ cs n?, IntegerText cs n? → NumberText value? cs n? := by
    rintro cs n? ⟨l, hl, htext, rfl⟩
    exact ⟨l, htext, hcodec.integer hl⟩
  have hread := hcodec.decode_eq_ok_iff.mpr ⟨before, cs, after, htext, hbefore, hafter, hcs.mono hnumber⟩
  obtain rfl := Except.ok.inj (hdecode.symm.trans hread)
  exact hcodec.decode_eq_ok_iff.mpr
    ⟨[], _, [], (List.append_nil _).symm, spaces_nil, spaces_nil, hcodec.pretty_spells hcs⟩

/-- Every text that a codec reads as an object is the body of a resource and is stored as the object is written,
whatever stands in its strings. If its numbers are integers of 64 bits, what was stored is stored as it is when
it is the body. -/
theorem objects_storedAs_pretty {codec : Json.Codec} {value? : Json.Numeral → Option Json.Number}
    (hcodec : codec.Lawful value?) {kind path body : String} {members : List (String × Json)}
    (hkind : IsResourceKind kind) (hpath : IsResourcePath path)
    (hbody : codec.decode body = .ok (.object members)) :
    StoredAs codec kind path body (codec.pretty (.object members)) ∧
      (Json.HasOnlyIntegers body → ∀ {kind' path' : String}, IsResourceKind kind' → IsResourcePath path' →
        StoredAs codec kind' path' (codec.pretty (.object members)) (codec.pretty (.object members))) := by
  have hstored : ∀ {kind path body : String}, IsResourceKind kind → IsResourcePath path →
      codec.decode body = .ok (.object members) →
      StoredAs codec kind path body (codec.pretty (.object members)) := by
    intro kind path body hkind hpath hbody
    obtain ⟨before, braces, after, htext, hbefore, hafter, hbraces⟩ := hcodec.decode_eq_ok_iff.mp hbody
    have hgroup : GroupText .curly braces := hbraces.groupText (Json.Spells.head_of_object hbraces)
    have hdecode : codec.decode (String.ofList braces) = .ok (.object members) :=
      hcodec.decode_eq_ok_iff.mpr ⟨[], braces, [], by simp, Json.spaces_nil, Json.spaces_nil, hbraces⟩
    exact storedAs_pretty hkind hpath htext hbefore hafter hgroup hdecode
  exact ⟨hstored hkind hpath hbody, fun hintegers _ _ hkind' hpath' =>
    hstored hkind' hpath' (hcodec.decode_pretty hintegers hbody)⟩

/-- An object with braces, quotes and slashes in its strings. -/
def trickyText : String := " \x7b\"\x7d//\" : [\"\\\"\x7b\", -1]\x7d"

/-- What `trickyText` stands for. -/
def trickyMembers : List (String × Json) := [("\x7d//", .array [.string "\"\x7b", .number (.negative 1)])]

/-- The text that `trickyText` is stored as. -/
def trickyPretty : String := "\x7b\n  \"\x7d//\": [\n    \"\\\"\x7b\",\n    -1\n  ]\n\x7d"

theorem spells_trickyText :
    Json.Spells Json.IntegerText Json.maxDepth (trickyText.toList.drop 1) (some (.object trickyMembers)) := by
  have hspace : Json.Spaces [' '] := List.forall_mem_singleton.mpr rfl
  have hkey : Json.StringText "\x7d//".toList (some "\x7d//".toList) :=
    .plain (by decide) (by decide) (by decide) (.plain (by decide) (by decide) (by decide)
      (.plain (by decide) (by decide) (by decide) .nil))
  have hstring : Json.StringText "\\\"\x7b".toList (some "\"\x7b".toList) :=
    .escape (by decide) (.plain (by decide) (by decide) (by decide) .nil)
  have hnumber : Json.IntegerText "-1".toList (some (.negative 1)) :=
    ⟨Json.integer true 1, Json.integral_integer (by decide), rfl, rfl⟩
  have hlast : Json.Listed (Json.Spells Json.IntegerText 125) _ _ := .last hspace (.number hnumber) Json.spaces_nil
  have hitems : Json.Listed (Json.Spells Json.IntegerText 125) _ _ :=
    .more Json.spaces_nil (.string hstring) Json.spaces_nil hlast
  have harray : Json.Spells Json.IntegerText 126 _ _ := Json.ValueText.array rfl hitems
  have hmember : Json.MemberText (Json.Spells Json.IntegerText 126) _ _ := .mk hkey hspace hspace harray
  have hmembers : Json.Listed (Json.MemberText (Json.Spells Json.IntegerText 126)) _ _ :=
    .last Json.spaces_nil hmember Json.spaces_nil
  exact Json.ValueText.object rfl hmembers

theorem trickyText_storedAs :
    (Json.Codec.standard.Lawful Json.Numeral.value? ∧ IsResourceKind "loot_table" ∧ IsResourcePath "food/bread_1" ∧
      Json.Codec.standard.decode trickyText = .ok (.object trickyMembers) ∧ Json.HasOnlyIntegers trickyText) ∧
    StoredAs .standard "loot_table" "food/bread_1" trickyText trickyPretty ∧
      StoredAs .standard "recipe" "again" trickyPretty trickyPretty := by
  have hcodec := Json.Codec.lawful_standard
  have hspace : Json.Spaces [' '] := List.forall_mem_singleton.mpr rfl
  have hintegers : Json.HasOnlyIntegers trickyText :=
    ⟨[' '], _, [], _, rfl, hspace, Json.spaces_nil, spells_trickyText⟩
  have hbody : Json.Codec.standard.decode trickyText = .ok (.object trickyMembers) :=
    hcodec.decode_eq_ok_iff.mpr ⟨[' '], _, [], rfl, hspace, Json.spaces_nil,
      spells_trickyText.mono fun _ _ ⟨l, hl, htext, hvalue⟩ => ⟨l, htext, (hcodec.integer hl).trans hvalue⟩⟩
  have hkind : IsResourceKind "loot_table" := ⟨by decide, Json.forall_of_all (by decide)⟩
  have hkind' : IsResourceKind "recipe" := ⟨by decide, Json.forall_of_all (by decide)⟩
  have hpath : IsResourcePath "food/bread_1" := ⟨by decide, Json.forall_of_all (by decide)⟩
  have hpath' : IsResourcePath "again" := ⟨by decide, Json.forall_of_all (by decide)⟩
  have hpretty : Json.Codec.standard.pretty (.object trickyMembers) = trickyPretty := by decide +kernel
  obtain ⟨hstored, hagain⟩ := objects_storedAs_pretty hcodec hkind hpath hbody
  rw [hpretty] at hstored hagain
  exact ⟨⟨hcodec, hkind, hpath, hbody, hintegers⟩, hstored, hagain hintegers hkind' hpath'⟩

end Packwright
