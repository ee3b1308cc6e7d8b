import Packwright.Proofs.Session.Following

/-!
# Reading further down in a file

The parts of a statement are found by the texts of its tokens. Further down in a file the same parts
are found, moved with the statement: conditions become the same clauses, arguments have the same
values, and bodies are the same ones further down.

## Main definitions

- `Condition.Alike` — conditions that become the same clauses
- `Arguments.moved`, `Bindings.Moved` — arguments and bound values further down

## Main results

- `Condition.parse_follows`, `Condition.parseTokens_follows` — conditions
- `Arguments.parse_follows`, `Builtin.bind_moved` — arguments and their binding
- `headAndBody_moved`, `functionHead_moved`, `addCaseStatement_moved` — the parts of statements
-/

namespace Packwright

/-! ### Conditions -/

namespace Condition

variable {v : Move}

/-- The conditions become the same clauses in every scope. -/
def Alike (c c' : Condition) : Prop := ∀ scope, c.rendering scope = c'.rendering scope

theorem renderingAll_alike {cs cs' : List Condition} (h : List.Forall₂ Alike cs cs')
    (scope : Scope) : renderingAll scope cs = renderingAll scope cs' := by
  induction h with
  | nil => rfl
  | cons hc _ ih => simp only [renderingAll, hc scope, ih]

theorem renderingAny_alike {cs cs' : List Condition} (h : List.Forall₂ Alike cs cs')
    (scope : Scope) (flag : Score) : renderingAny scope flag cs = renderingAny scope flag cs' := by
  induction h with
  | nil => rfl
  | cons hc _ ih => simp only [renderingAny, hc scope, ih]

theorem Alike.all {cs cs' : List Condition} (h : List.Forall₂ Alike cs cs') :
    Alike (.all cs) (.all cs') := by
  intro scope
  rw [rendering, rendering, renderingAll_alike h]

theorem Alike.any {cs cs' : List Condition} (h : List.Forall₂ Alike cs cs') :
    Alike (.any cs) (.any cs') := by
  intro scope
  simp only [rendering, renderingAny_alike h]

theorem Alike.not {c c' : Condition} (h : Alike c c') : Alike (.not c) (.not c') := by
  intro scope
  rw [rendering, rendering, h scope]

theorem alike_leaf (v : Move) (tokens : List Token) :
    Alike (.leaf tokens) (.leaf (tokens.map (Token.moved v))) := by
  intro scope
  rw [rendering, rendering, leafClause, leafClause, leafText, leafText, joinTokens_moved]

theorem splitFrom_moved (v : Move) (symbol : String) (tokens : List Token) (last : Option Token)
    (current : List Token) :
    Carries (List.map (List.map (Token.moved v))) (splitFrom symbol last current tokens)
      (splitFrom symbol (last.map (Token.moved v)) (current.map (Token.moved v))
        (tokens.map (Token.moved v))) := by
  induction tokens generalizing last current with
  | nil =>
    cases current with
    | nil =>
      cases last with
      | none => exact agrees_ok rfl
      | some t => exact agrees_error
    | cons t rest => exact agrees_ok rfl
  | cons t rest ih =>
    by_cases hword : t.isWord symbol = true
    · simp only [List.map_cons, splitFrom, Token.isWord_moved, hword, if_true]
      cases current with
      | nil => cases last <;> exact agrees_error
      | cons first others => exact (ih (some t) []).map fun _ => rfl
    · simp only [List.map_cons, splitFrom, Token.isWord_moved, hword, Bool.false_eq_true, if_false]
      simpa only [List.map_append, List.map_cons, List.map_nil] using ih last (current ++ [t])

theorem checkLiteral_moved (v : Move) (tokens : List Token) (last last' : Token) :
    Carries id (checkLiteral tokens last) (checkLiteral (tokens.map (Token.moved v)) last') := by
  unfold checkLiteral
  rw [joinTokens_moved]
  refine (carries_refl _).bind fun found => ?_
  cases found with
  | none => exact agrees_ok rfl
  | some parts =>
    obtain ⟨left, c, right⟩ := parts
    dsimp only [id_eq]
    split
    · exact agrees_ok rfl
    split
    · exact agrees_error
    · exact agrees_ok rfl
    split
    · exact agrees_error
    · exact agrees_ok rfl

theorem parseLeaf_follows (v : Move) (first : Token) (rest : List Token) :
    Noting.Follows Alike (parseLeaf first rest)
      (parseLeaf (first.moved v) (rest.map (Token.moved v))) := by
  have htoken : ∀ t : Token, Carries id (checkLeafToken t) (checkLeafToken (t.moved v)) := by
    intro t
    show Carries id (if t.isWord "!" then _ else if t.isGroup .round then _ else _)
      (if t.isWord "!" then _ else if t.isGroup .round then _ else _)
    split
    · exact agrees_error
    split
    · exact agrees_error
    · exact agrees_ok rfl
  refine (Noting.follows_ofExcept (Carries.forM htoken (first :: rest))).bind fun _ _ _ => ?_
  have hliteral := checkLiteral_moved v (first :: rest) ((first :: rest).getLast (by simp))
    ((first.moved v :: rest.map (Token.moved v)).getLast (by simp))
  cases hcheck : checkLiteral (first :: rest) ((first :: rest).getLast (by simp)) with
  | error e => exact Noting.follows_throw
  | ok u =>
    obtain ⟨u', hcheck', -⟩ := hliteral u hcheck
    rw [List.map_cons] at hcheck'
    rw [hcheck']
    exact Noting.follows_pure (alike_leaf v (first :: rest))

theorem negated?_moved (v : Move) (first : Token) (rest : List Token) :
    negated? (first.moved v) (rest.map (Token.moved v)) =
      (negated? first rest).map (List.map (Token.moved v)) := by
  unfold negated?
  rw [Token.word?_moved]
  split
  · rfl
  · split
    · rfl
    · rw [Token.tailFrom_moved, ← List.map_append]
      rfl
  · rfl

/-- A reader of conditions gives the same further down, wherever it reports an empty one. -/
def ReaderFollows (read : Position → List Token → Noting Condition) : Prop :=
  ∀ (v : Move) (p p' : Position) (tokens : List Token),
    Noting.Follows Alike (read p tokens) (read p' (tokens.map (Token.moved v)))

theorem parseGroup_follows {read : Position → List Token → Noting Condition}
    (hread : ReaderFollows read) (v : Move) (group : Token) :
    Noting.Follows Alike (parseGroup read group) (parseGroup read (group.moved v)) := by
  unfold parseGroup
  rw [Token.isGroup_moved]
  split
  · refine (Noting.follows_ofExcept (group.tokenizeInner_moved v .optional)).bind ?_
    rintro reading _ rfl
    refine (Noting.follows_note _ _).bind fun _ _ _ => ?_
    obtain ⟨statements, warnings⟩ := reading
    match statements with
    | [] => exact Noting.follows_fail
    | [s] => exact hread v.inside _ _ s.tokens
    | _ :: s :: _ => exact Noting.follows_fail
  · exact Noting.follows_fail

/-- Several operands are read one by one. -/
theorem operands_follow {read : Position → List Token → Noting Condition}
    (hread : ReaderFollows read) {join : List Condition → Condition}
    (hjoin : ∀ cs cs', List.Forall₂ Alike cs cs' → Alike (join cs) (join cs')) (v : Move)
    (p p' : Position) (parts : List (List Token)) :
    Noting.Follows Alike (do return join (← parts.mapM (read p)))
      (do return join (← (parts.map (List.map (Token.moved v))).mapM (read p'))) :=
  (Noting.follows_mapM (fun part => hread v p p' part) parts).bind
    fun cs cs' hcs => Noting.follows_pure (hjoin cs cs' hcs)

theorem parseWithin_follows (depth : Nat) : ReaderFollows (parseWithin depth) := by
  induction depth with
  | zero => exact fun v p p' tokens => Noting.follows_throw
  | succ depth ih =>
    intro v p p' tokens
    cases tokens with
    | nil => exact Noting.follows_fail
    | cons first rest =>
      have hsplit : ∀ symbol, Carries (List.map (List.map (Token.moved v)))
          (splitAt symbol (first :: rest))
          (splitAt symbol (first.moved v :: rest.map (Token.moved v))) :=
        fun symbol => splitFrom_moved v symbol (first :: rest) none []
      rw [List.map_cons, parseWithin, parseWithin]
      refine (Noting.follows_ofExcept (hsplit "||")).bind ?_
      rintro parts _ rfl
      match parts with
      | a :: b :: more => exact operands_follow ih (fun _ _ => Alike.any) v p p' (a :: b :: more)
      | [] | [_] =>
        refine (Noting.follows_ofExcept (hsplit "&&")).bind ?_
        rintro parts _ rfl
        match parts with
        | a :: b :: more => exact operands_follow ih (fun _ _ => Alike.all) v p p' (a :: b :: more)
        | [] | [_] =>
          rw [negated?_moved]
          match negated? first rest with
          | some [] => exact Noting.follows_fail
          | some (t :: more) =>
            exact (ih v p p' (t :: more)).bind fun c c' hc => Noting.follows_pure hc.not
          | none =>
            simp only [Option.map_none, List.isEmpty_map, Token.isGroup_moved]
            split
            · exact parseGroup_follows ih v first
            · exact parseLeaf_follows v first rest

theorem weight_moved (v : Move) (tokens : List Token) :
    weight (tokens.map (Token.moved v)) = weight tokens := by
  rw [weight, weight, List.foldr_map]
  rfl

theorem parseTokens_follows : ReaderFollows parseTokens := by
  intro v p p' tokens
  rw [parseTokens, parseTokens, weight_moved]
  exact parseWithin_follows _ v p p' tokens

/-- A condition in a round group is the same further down. -/
theorem parse_follows (v : Move) (group : Token) :
    Noting.Follows Alike (parse group) (parse (group.moved v)) :=
  parseGroup_follows parseTokens_follows v group

end Condition

/-! ### Arguments -/

theorem Token.scoreValue_moved (v : Move) (t : Token) :
    Agrees Eq t.scoreValue (t.moved v).scoreValue := by
  unfold Token.scoreValue
  rw [Token.word?_moved]
  split
  · exact agrees_ok rfl
  split
  · exact agrees_ok rfl
  · exact agrees_error

theorem Token.int?_moved (v : Move) (t : Token) : (t.moved v).int? = t.int? := by
  unfold Token.int? Token.scoreValue
  rw [Token.word?_moved]
  cases t.word? with
  | none => rfl
  | some w => rcases h : Packwright.scoreValue w <;> simp only [h]

/-- The argument further down. -/
def Argument.moved (v : Move) : Argument → Argument
  | .plain tokens => .plain (tokens.map (Token.moved v))
  | .arrow body => .arrow (body.moved v)

/-- The argument list further down. -/
def Arguments.moved (v : Move) (a : Arguments) : Arguments where
  positional := a.positional.map (Argument.moved v)
  keywords := a.keywords.map fun (name, value) => (name, value.moved v)
  position := a.position.down v.lines

namespace Argument

variable (v : Move) (a : Argument)

theorem tokens_moved : (a.moved v).tokens = a.tokens.map (Token.moved v) := by
  cases a <;> rfl

@[simp] theorem text_moved : (a.moved v).text = a.text := by
  rw [text, tokens_moved, joinTokens_moved, text]

@[simp] theorem int?_moved : (a.moved v).int? = a.int? := by
  unfold int?
  rw [tokens_moved]
  match a.tokens with
  | [] | _ :: _ :: _ => rfl
  | [t] => exact t.int?_moved v

@[simp] theorem string?_moved : (a.moved v).string? = a.string? := by
  unfold string?
  rw [tokens_moved]
  match a.tokens with
  | [] | _ :: _ :: _ | [_] => rfl

@[simp] theorem word?_moved : (a.moved v).word? = a.word? := by
  unfold word?
  rw [tokens_moved]
  match a.tokens with
  | [] | _ :: _ :: _ | [_] => rfl

@[simp] theorem arrow?_moved : (a.moved v).arrow? = a.arrow?.map (Token.moved v) := by
  cases a <;> rfl

theorem ofTokens_moved (tokens : List Token) :
    ofTokens (tokens.map (Token.moved v)) = (ofTokens tokens).moved v := by
  match tokens with
  | [] | [_] | [_, _] | _ :: _ :: _ :: _ :: _ => rfl
  | [params, sign, body] =>
    show (if params.isGroup .round && params.innerBlank && sign.isWord "=>" && body.isGroup .curly
      then _ else _) = Argument.moved v (if _ then _ else _)
    split <;> rfl

end Argument

namespace Arguments

def Segment.moved (v : Move) (s : Segment) : Segment :=
  ⟨s.tokens.map (Token.moved v), s.comma.map (Position.down v.lines)⟩

theorem segments_moved (v : Move) (tokens current : List Token) :
    segments (current.map (Token.moved v)) (tokens.map (Token.moved v)) =
      (segments current tokens).map (Segment.moved v) := by
  induction tokens generalizing current with
  | nil => rfl
  | cons t rest ih =>
    by_cases hcomma : t.kind = .comma
    · simp only [List.map_cons, segments, Token.kind_moved, hcomma, if_true]
      exact congrArg _ (ih [])
    · simp only [List.map_cons, segments, Token.kind_moved, hcomma, if_false]
      simpa only [List.map_append, List.map_cons, List.map_nil] using ih (current ++ [t])

theorem splitKeyword_moved (v : Move) (first : Token) (rest : List Token) :
    splitKeyword (first.moved v) (rest.map (Token.moved v)) =
      ((splitKeyword first rest).1, (splitKeyword first rest).2.map (Token.moved v)) := by
  unfold splitKeyword
  simp only [Token.word?_moved, Token.tailFrom_moved]
  cases first.word? with
  | none => rfl
  | some w =>
    simp only
    cases Text.splitOnce ['='] w.toList with
    | some parts =>
      simp only
      split
      · simp only [List.map_append]
      · rfl
    | none =>
      cases rest with
      | nil => rfl
      | cons op rest' =>
        simp only [List.map_cons, Token.word?_moved, Token.tailFrom_moved]
        split
        · split
          · simp only [List.map_append]
          · rfl
        · rfl

theorem keyword?_moved (v : Move) (a : Arguments) (name : String) :
    (a.moved v).keyword? name = (a.keyword? name).map (Argument.moved v) := by
  unfold keyword? moved
  simp only
  induction a.keywords with
  | nil => rfl
  | cons k rest ih =>
    obtain ⟨key, value⟩ := k
    simp only [List.map_cons, List.lookup_cons, ih]
    split <;> rfl

theorem addSegment_moved (v : Move) (lastComma lastComma' : Option Position) (list : Arguments)
    (s : Segment) :
    Carries (Arguments.moved v) (addSegment lastComma list s)
      (addSegment lastComma' (list.moved v) (s.moved v)) := by
  obtain ⟨tokens, comma⟩ := s
  cases tokens with
  | nil => exact agrees_error
  | cons first rest =>
    simp only [addSegment, Segment.moved, List.map_cons, splitKeyword_moved, keyword?_moved,
      Option.isSome_map]
    obtain ⟨name, tokens⟩ := splitKeyword first rest
    match name, tokens with
    | none, [] | some _, [] => exact agrees_error
    | some name, t :: more =>
      simp only [List.map_cons]
      split
      · exact agrees_error
      · refine agrees_ok ?_
        rw [← List.map_cons, Argument.ofTokens_moved]
        simp [Arguments.moved]
    | none, t :: more =>
      by_cases hempty : list.keywords = []
      · simp only [List.map_cons, Arguments.moved, hempty, List.map_nil, List.isEmpty_nil, if_true]
        refine agrees_ok ?_
        rw [← List.map_cons, Argument.ofTokens_moved]
        simp [Arguments.moved]
      · simp only [List.map_cons, List.isEmpty_iff, hempty, if_false]
        exact agrees_error

/-- The argument list of tokens further down. -/
theorem ofTokens_moved (v : Move) (position : Position) (tokens : List Token) :
    Carries (Arguments.moved v) (ofTokens position tokens)
      (ofTokens (position.down v.lines) (tokens.map (Token.moved v))) := by
  unfold ofTokens
  rw [show segments [] (tokens.map (Token.moved v)) = _ from segments_moved v tokens []]
  exact Carries.foldlM (fun list s => addSegment_moved v _ _ list s) _ { position }

theorem parse_follows (v : Move) (group : Token) :
    Noting.Follows (fun a b => b = a.moved v.inside) (parse group) (parse (group.moved v)) := by
  unfold parse
  rw [Token.isGroup_moved]
  split
  · refine (Noting.follows_ofExcept (group.tokenizeInner_moved v .optional)).bind ?_
    rintro reading _ rfl
    refine (Noting.follows_note _ _).bind fun _ _ _ => ?_
    obtain ⟨statements, warnings⟩ := reading
    match statements with
    | [] => exact Noting.follows_pure rfl
    | [s] => exact Noting.follows_ofExcept (ofTokens_moved v.inside group.position s.tokens)
    | _ :: s :: _ => exact Noting.follows_fail
  · exact Noting.follows_fail

end Arguments

/-! ### Bound values -/

def Value.moved (v : Move) : Value → Value
  | .arrow body => .arrow (body.moved v)
  | value => value

/-- The values are the same further down, wherever they are reported. -/
def Bindings.Moved (v : Move) (bs bs' : Bindings) : Prop :=
  List.Forall₂ (fun b b' => b'.name = b.name ∧ b'.value = b.value.moved v) bs.values bs'.values

theorem ParamKind.convert?_moved (v : Move) (scope : Scope) (a : Argument) (k : ParamKind) :
    k.convert? scope (a.moved v) = (k.convert? scope a).map (Value.moved v) := by
  cases k with
  | integer =>
    simp only [convert?, Argument.int?_moved, Option.map_map]
    rfl
  | number | score | selector =>
    simp only [convert?, Argument.word?_moved, Option.map_map]
    rfl
  | scoreOrInteger =>
    simp only [convert?, Argument.int?_moved, Argument.word?_moved, Option.map_or, Option.map_map]
    rfl
  | text =>
    cases a with
    | arrow body => rfl
    | plain tokens =>
      have htext : (Argument.plain (tokens.map (Token.moved v))).text = (Argument.plain tokens).text :=
        Argument.text_moved v (.plain tokens)
      have hstring : (Argument.plain (tokens.map (Token.moved v))).string? =
          (Argument.plain tokens).string? := Argument.string?_moved v (.plain tokens)
      simp only [convert?, Argument.moved, htext, hstring]
      rfl
  | objective =>
    simp only [convert?, Argument.string?_moved, Argument.word?_moved, Option.map_map]
    rfl
  | arrow =>
    simp only [convert?, Argument.arrow?_moved, Option.map_map]
    rfl

theorem ParamKind.default?_moved (v : Move) {k : ParamKind} {text : String} {value : Value}
    (h : k.default? text = some value) : value.moved v = value := by
  cases value with
  | arrow body => cases k <;> simp [default?] at h
  | _ => rfl

namespace Builtin

theorem bindParam_moved (v : Move) (b : Builtin) (scope : Scope) (args : Arguments)
    (indexed : Param × Nat) :
    Agrees (fun x y => y.name = x.name ∧ y.value = x.value.moved v)
      (b.bindParam scope args indexed) (b.bindParam scope (args.moved v) indexed) := by
  obtain ⟨p, index⟩ := indexed
  have hfound : ((args.moved v).positional[index]?).or ((args.moved v).keyword? p.name) =
      ((args.positional[index]?).or (args.keyword? p.name)).map (Argument.moved v) := by
    rw [Arguments.keyword?_moved, Option.map_or, Arguments.moved, List.getElem?_map]
  simp only [bindParam, hfound]
  cases (args.positional[index]?).or (args.keyword? p.name) with
  | some a =>
    simp only [Option.map_some, ParamKind.convert?_moved]
    cases p.kind.convert? scope a with
    | none => exact agrees_error
    | some value => exact agrees_ok ⟨rfl, rfl⟩
  | none =>
    simp only [Option.map_none]
    cases p.default? with
    | none => exact agrees_error
    | some d =>
      simp only
      cases hdefault : p.kind.default? d with
      | none => exact agrees_error
      | some value => exact agrees_ok ⟨rfl, (ParamKind.default?_moved v hdefault).symm⟩

theorem checkCount_moved (v : Move) (b : Builtin) (args : Arguments) :
    Carries id (b.checkCount args) (b.checkCount (args.moved v)) := by
  unfold checkCount Arguments.moved
  simp only [List.getElem?_map]
  cases args.positional[b.params.length]? with
  | some extra => exact agrees_error
  | none => exact agrees_ok rfl

theorem checkKeyword_moved (v : Move) (b : Builtin) (args : Arguments)
    (keyword : String × Argument) :
    Carries id (b.checkKeyword args keyword)
      (b.checkKeyword (args.moved v) (keyword.1, keyword.2.moved v)) := by
  obtain ⟨name, value⟩ := keyword
  unfold checkKeyword Arguments.moved
  simp only [List.length_map]
  cases b.params.findIdx? (·.name = name) with
  | none => exact agrees_error
  | some index =>
    simp only
    split
    · exact agrees_error
    · exact agrees_ok rfl

/-- Arguments are bound to the same values further down. -/
theorem bind_moved (v : Move) (b : Builtin) (scope : Scope) (args : Arguments) :
    Agrees (Bindings.Moved v) (b.bind scope args) (b.bind scope (args.moved v)) := by
  refine (checkCount_moved v b args).bind fun _ => ?_
  refine (Carries.forM (checkKeyword_moved v b args) args.keywords).bind fun _ => ?_
  exact (Agrees.mapM (bindParam_moved v b scope args) b.params.zipIdx).bind
    fun values values' h => agrees_ok h

end Builtin

namespace Bindings

variable {v : Move} {bs bs' : Bindings}

theorem Moved.get (h : Moved v bs bs') (name : String) :
    Carries (Value.moved v) (bs.get name) (bs'.get name) := by
  obtain ⟨b, values⟩ := bs
  obtain ⟨b', values'⟩ := bs'
  change List.Forall₂ _ values values' at h
  unfold get
  induction h with
  | nil => exact agrees_error
  | @cons x y _ _ hxy _ ih =>
    obtain ⟨hname, hvalue⟩ := hxy
    by_cases hx : x.name = name
    · simp only [List.find?_cons, hname, hx, decide_true]
      exact agrees_ok hvalue
    · simp only [List.find?_cons, hname, hx, decide_false]
      exact ih

theorem Moved.int (h : Moved v bs bs') (name : String) :
    Agrees Eq (bs.int name) (bs'.int name) := by
  refine (h.get name).bind fun value => ?_
  cases value with
  | int n => exact agrees_ok rfl
  | _ => exact agrees_error

theorem Moved.number (h : Moved v bs bs') (name : String) :
    Agrees Eq (bs.number name) (bs'.number name) := by
  refine (h.get name).bind fun value => ?_
  cases value with
  | number d => exact agrees_ok rfl
  | _ => exact agrees_error

theorem Moved.text (h : Moved v bs bs') (name : String) :
    Agrees Eq (bs.text name) (bs'.text name) := by
  refine (h.get name).bind fun value => ?_
  cases value with
  | text s => exact agrees_ok rfl
  | _ => exact agrees_error

theorem Moved.arrow (h : Moved v bs bs') (name : String) :
    Carries (Token.moved v) (bs.arrow name) (bs'.arrow name) := by
  refine (h.get name).bind fun value => ?_
  cases value with
  | arrow body => exact agrees_ok rfl
  | _ => exact agrees_error

end Bindings

/-! ### The parts of statements -/

theorem headAndBody_moved (v : Move) (keyword : Token) (rest : List Token) :
    Carries (Prod.map (Token.moved v) (Token.moved v)) (headAndBody keyword rest)
      (headAndBody (keyword.moved v) (rest.map (Token.moved v))) := by
  match rest with
  | [] => exact agrees_error
  | [head] =>
    simp only [headAndBody]
    split <;> exact agrees_error
  | head :: body :: rest =>
    show Carries _ (if !head.isGroup .round then _ else if !body.isGroup .curly then _ else _)
      (if !head.isGroup .round then _ else if !body.isGroup .curly then _ else _)
    split
    · exact agrees_error
    split
    · exact agrees_error
    cases rest with
    | nil => exact agrees_ok rfl
    | cons extra rest => exact agrees_error

theorem doWhileHead_moved (v : Move) (keyword : Token) (rest : List Token) :
    Carries (Token.moved v) (Compile.doWhileHead keyword rest)
      (Compile.doWhileHead (keyword.moved v) (rest.map (Token.moved v))) := by
  match rest with
  | [] => exact agrees_error
  | head :: rest =>
    show Carries _ (if head.isGroup .round then _ else _) (if head.isGroup .round then _ else _)
    split
    · cases rest with
      | nil => exact agrees_ok rfl
      | cons extra rest => exact agrees_error
    · exact agrees_error

def FunctionHead.moved (v : Move) (head : FunctionHead) : FunctionHead :=
  ⟨head.name.moved v, head.path, head.body.moved v⟩

theorem functionHead_moved (v : Move) (level : Except Cause FunctionPath) (keyword : Token)
    (rest : List Token) :
    Carries (FunctionHead.moved v) (functionHead level keyword rest)
      (functionHead level (keyword.moved v) (rest.map (Token.moved v))) := by
  match rest with
  | [] | [_] | [_, _] | _ :: _ :: _ :: _ :: _ => exact agrees_error
  | [name, params, body] =>
    cases level with
    | error cause => exact agrees_error
    | ok above =>
      have hname : functionName? (name.moved v) = functionName? name := rfl
      simp only [List.map_cons, List.map_nil, functionHead]
      rw [hname]
      cases functionName? name with
      | none => exact agrees_error
      | some text =>
        show Carries _ (if !params.isGroup .round then _ else if !params.innerBlank then _ else
            if !body.isGroup .curly then _ else _)
          (if !params.isGroup .round then _ else if !params.innerBlank then _ else
            if !body.isGroup .curly then _ else _)
        split
        · exact agrees_error
        split
        · exact agrees_error
        split
        · exact agrees_error
        · exact agrees_ok rfl

theorem classHead_moved (v : Move) (keyword : Token) (rest : List Token) :
    Carries (Prod.map id (Token.moved v)) (classHead keyword rest)
      (classHead (keyword.moved v) (rest.map (Token.moved v))) := by
  match rest with
  | [] | [_] | _ :: _ :: _ :: _ => exact agrees_error
  | [name, body] =>
    have hname : functionName? (name.moved v) = functionName? name := rfl
    simp only [List.map_cons, List.map_nil, classHead]
    rw [hname]
    cases functionName? name with
    | none => exact agrees_error
    | some text =>
      show Carries _ (if !body.isGroup .curly then _ else _) (if !body.isGroup .curly then _ else _)
      split
      · exact agrees_error
      · exact agrees_ok rfl

def ResourceHead.moved (v : Move) (head : ResourceHead) : ResourceHead :=
  ⟨head.kind, head.path, head.pathToken.moved v, head.body.moved v⟩

theorem resourceHead_moved (v : Move) (keyword : Token) (rest : List Token) :
    Carries (ResourceHead.moved v) (resourceHead keyword rest)
      (resourceHead (keyword.moved v) (rest.map (Token.moved v))) := by
  match rest with
  | [] | [_] | [_, _] | _ :: _ :: _ :: _ :: _ => exact agrees_error
  | [kind, path, body] =>
    have hpath : resourcePath? (path.moved v) = resourcePath? path := rfl
    simp only [List.map_cons, List.map_nil, resourceHead]
    rw [Token.word?_moved, hpath]
    cases kind.word?.filter fun k => k.toList.all isResourceKindChar with
    | none => exact agrees_error
    | some kindText =>
      cases resourcePath? path with
      | none => exact agrees_error
      | some pathText =>
        show Carries _ (if !body.isGroup .curly then _ else _)
          (if !body.isGroup .curly then _ else _)
        split
        · exact agrees_error
        · exact agrees_ok rfl

theorem Level.check_moved (v : Move) (level : Level) (kind : StatementKind) (first : Token) :
    Agrees Eq (level.check kind first) (level.check kind (first.moved v)) := by
  cases level with
  | top => exact agrees_ok rfl
  | inClass path =>
    simp only [Level.check]
    split
    · exact agrees_ok rfl
    · exact agrees_error
  | body =>
    simp only [Level.check]
    split
    · exact agrees_error
    · exact agrees_ok rfl

theorem importTarget_moved (v : Move) (keyword : Token) (rest : List Token) :
    Carries (Token.moved v) (importTarget keyword rest)
      (importTarget (keyword.moved v) (rest.map (Token.moved v))) := by
  match rest with
  | [] | _ :: _ :: _ => exact agrees_error
  | [target] =>
    show Carries _ (if target.isString then _ else _) (if target.isString then _ else _)
    split
    · exact agrees_ok rfl
    · exact agrees_error

/-! ### Cases of a switch -/

def Case.moved (v : Move) (c : Case) : Case := ⟨c.label, c.statements.map (Statement.moved v)⟩

def CaseHead.moved (v : Move) (head : CaseHead) : CaseHead :=
  ⟨head.token.moved v, head.label, head.rest.map (Token.moved v)⟩

theorem splitCase_moved (v : Move) (keyword : Token) (rest : List Token) :
    Carries (CaseHead.moved v) (splitCase keyword rest)
      (splitCase (keyword.moved v) (rest.map (Token.moved v))) := by
  cases rest with
  | nil => exact agrees_error
  | cons label rest =>
    simp only [List.map_cons, splitCase, Token.text_moved, Token.tailFrom_moved]
    cases Text.splitOnce [':'] label.text.toList with
    | some parts => exact agrees_ok (by simp [CaseHead.moved])
    | none =>
      cases rest with
      | nil => exact agrees_error
      | cons next rest =>
        show Carries _ (if Text.startsWith ":" next.text then _ else _)
          (if Text.startsWith ":" next.text then _ else _)
        split
        · refine agrees_ok ?_
          simp [CaseHead.moved]
        · exact agrees_error

theorem expectedLabel_moved (v : Move) (cases : List Case) :
    expectedLabel (cases.map (Case.moved v)) = expectedLabel cases := by
  unfold expectedLabel
  rw [List.getLast?_map]
  cases cases.getLast? <;> rfl

theorem labelValue_moved (v : Move) (cases : List Case) (head : CaseHead) :
    Carries id (labelValue cases head) (labelValue (cases.map (Case.moved v)) (head.moved v)) := by
  unfold labelValue
  rw [expectedLabel_moved, List.isEmpty_map]
  cases expectedLabel cases with
  | none => exact agrees_error
  | some expected =>
    have hlabel : (head.moved v).label = head.label := rfl
    simp only [hlabel]
    by_cases hnext : head.label = "_"
    · rw [if_pos hnext, if_pos hnext]
      exact agrees_ok rfl
    rw [if_neg hnext, if_neg hnext]
    rcases scoreValue head.label with _ | _ | n
    · exact agrees_error
    · exact agrees_error
    show Carries _ (if !cases.isEmpty && n ≠ expected then _ else _)
      (if !cases.isEmpty && n ≠ expected then _ else _)
    split
    · exact agrees_error
    · exact agrees_ok rfl

theorem addToLast_moved (v : Move) (s : Statement) (cases : List Case) :
    addToLast (s.moved v) (cases.map (Case.moved v)) = (addToLast s cases).map (Case.moved v) := by
  unfold addToLast
  rw [List.getLast?_map]
  cases cases.getLast? with
  | none => rfl
  | some c => simp [Case.moved, List.map_dropLast]

theorem addCaseStatement_moved (v : Move) (cases : List Case) (s : Statement) :
    Carries (List.map (Case.moved v)) (addCaseStatement cases s)
      (addCaseStatement (cases.map (Case.moved v)) (s.moved v)) := by
  obtain ⟨tokens⟩ := s
  cases tokens with
  | nil => exact agrees_ok rfl
  | cons first rest =>
    show Carries _ (if first.isWord "case" then _ else if cases.isEmpty then _ else _)
      (if first.isWord "case" then _ else if (cases.map (Case.moved v)).isEmpty then _ else _)
    rw [List.isEmpty_map]
    split
    · refine (splitCase_moved v first rest).bind fun head => ?_
      refine (labelValue_moved v cases head).bind fun label => agrees_ok ?_
      show cases.map (Case.moved v) ++ [⟨label, if (head.rest.map (Token.moved v)).isEmpty then [] else
        [⟨head.rest.map (Token.moved v)⟩]⟩] = _
      rw [List.isEmpty_map, List.map_append]
      split <;> rfl
    split
    · exact agrees_error
    · exact agrees_ok (addToLast_moved v ⟨first :: rest⟩ cases)

theorem isBreak_moved (v : Move) (s : Statement) : isBreak (s.moved v) = isBreak s := by
  obtain ⟨tokens⟩ := s
  match tokens with
  | [] | [_] | _ :: _ :: _ => rfl

theorem dropFinalBreak_moved (v : Move) (statements : List Statement) :
    dropFinalBreak (statements.map (Statement.moved v)) =
      (dropFinalBreak statements).map (Statement.moved v) := by
  unfold dropFinalBreak
  rw [List.getLast?_map]
  cases statements.getLast? with
  | none => rfl
  | some s =>
    simp only [Option.map_some, isBreak_moved]
    split
    · rw [List.map_dropLast]
    · rfl

/-! ### Variable statements -/

def Assignment.moved (v : Move) (a : Assignment) : Assignment :=
  ⟨a.target.moved v, a.operator, a.right.map (Token.moved v)⟩

theorem Assignment.ofTokens?_moved (v : Move) (tokens : List Token) :
    Assignment.ofTokens? (tokens.map (Token.moved v)) =
      (Assignment.ofTokens? tokens).map (Assignment.moved v) := by
  cases tokens with
  | nil => rfl
  | cons first rest =>
    simp only [List.map_cons, ofTokens?, Token.text_moved, Token.splitAt?_moved]
    cases Operator.find first.text.toList with
    | some found =>
      simp only [Option.map_map]
      refine Option.map_congr fun halves _ => ?_
      simp [Assignment.moved]
    | none =>
      cases rest with
      | nil => rfl
      | cons next rest =>
        simp only [List.map_cons, Token.word?_moved, Token.tailFrom_moved]
        cases next.word?.bind fun w => Operator.leading? w.toList with
        | none => rfl
        | some o => simp [Assignment.moved]

end Packwright
