import Packwright.Proofs.Session.Readers
import Packwright.Proofs.Session.Statements

/-!
# Constructs further down in a file

A construct further down in a file is compiled as it is here: it succeeds where it does here, emits
the same commands and does the same to the session. A greater bound on the depth of bodies makes no
difference to what succeeds.

## Main results

- `Compile.follows_chain`, `Compile.follows_whileLoop`, `Compile.follows_forLoop`,
  `Compile.follows_switch` — control flow
- `Compile.follows_builtin`, `Compile.follows_variableChange` — calls and variables
- `Compile.follows_functionDefinition`, `Compile.follows_newResource` — definitions
- `Compile.follows_construct`, `Compile.follows_block` — whole constructs and bodies
-/

namespace Packwright

namespace Compile

variable {block block' : Block} {v : Move}

/-- A condition in a round group becomes the same clauses further down. -/
theorem follows_condition (v : Move) (group : Token) :
    Follows Eq (condition group) (condition (group.moved v)) :=
  (follows_ofNoting (Condition.parse_follows v group)).bind fun _ _ h => follows_render h

/-! ### Chains -/

theorem follows_ifBranch (hblock : FollowsBlock block block') (v : Move) (keyword : Token)
    (rest : List Token) :
    Follows Eq (ifBranch block keyword rest)
      (ifBranch block' (keyword.moved v) (rest.map (Token.moved v))) := by
  refine (follows_ofExcept (headAndBody_moved v keyword rest)).bind ?_
  rintro ⟨head, braces⟩ _ rfl
  refine (follows_condition v head).bind ?_
  rintro c _ rfl
  refine (follows_body hblock v braces).bind ?_
  rintro commands _ rfl
  exact follows_pure rfl

theorem follows_elseBranch (hblock : FollowsBlock block block') (v : Move) (closed : Bool)
    (keyword : Token) (rest : List Token) :
    Follows Eq (elseBranch block closed keyword rest)
      (elseBranch block' closed (keyword.moved v) (rest.map (Token.moved v))) := by
  unfold elseBranch
  split
  · exact follows_failAt
  cases rest with
  | nil => exact follows_failAt
  | cons next more =>
    show Follows Eq (if more.isEmpty && next.isGroup .curly then _ else
        if next.isWord "if" then _ else _)
      (if (more.map (Token.moved v)).isEmpty && next.isGroup .curly then _ else
        if next.isWord "if" then _ else _)
    rw [List.isEmpty_map]
    split
    · refine (follows_body hblock v next).bind ?_
      rintro commands _ rfl
      exact follows_pure rfl
    split
    · exact follows_ifBranch hblock v next more
    · exact follows_failAt

theorem follows_elseBranches (hblock : FollowsBlock block block') (v : Move)
    (statements : List Statement) (arms : List Branch) :
    Follows Eq (elseBranches block arms statements)
      (elseBranches block' arms (statements.map (Statement.moved v))) := by
  induction statements generalizing arms with
  | nil => exact follows_pure rfl
  | cons s rest ih =>
    obtain ⟨tokens⟩ := s
    cases tokens with
    | nil => exact ih arms
    | cons keyword tokens =>
      refine (follows_elseBranch hblock v _ keyword tokens).bind ?_
      rintro arm _ rfl
      exact ih (arms ++ [arm])

theorem follows_armsCommands (first : Bool) (arms : List Branch) :
    Follows Eq (armsCommands first arms) (armsCommands first arms) := by
  induction arms generalizing first with
  | nil => exact follows_pure rfl
  | cons arm rest ih =>
    refine (follows_allocateNext _ _).bind ?_
    rintro path _ rfl
    refine (follows_call path).bind ?_
    rintro callArm _ rfl
    refine (ih false).bind ?_
    rintro commands _ rfl
    exact follows_pure rfl

theorem follows_chainCommands (arms : List Branch) :
    Follows Eq (chainCommands arms) (chainCommands arms) := by
  unfold chainCommands
  split
  · unfold singleArm
    split
    · exact follows_pure rfl
    · exact follows_pure rfl
    · refine (follows_allocateNext _ _).bind ?_
      rintro path _ rfl
      refine (follows_call path).bind ?_
      rintro callArm _ rfl
      exact follows_pure rfl
  · exact follows_fail
  · refine (follows_armsCommands _ _).bind ?_
    rintro commands _ rfl
    exact follows_pure rfl

theorem follows_chain (hblock : FollowsBlock block block') (v : Move) (keyword : Token)
    (rest : List Token) (elses : List Statement) :
    Follows Eq (chain block keyword rest elses)
      (chain block' (keyword.moved v) (rest.map (Token.moved v))
        (elses.map (Statement.moved v))) := by
  refine (follows_ifBranch hblock v keyword rest).bind ?_
  rintro first _ rfl
  refine (follows_elseBranches hblock v elses [first]).bind ?_
  rintro arms _ rfl
  exact follows_chainCommands arms

/-! ### Loops -/

theorem follows_whileLoop (hblock : FollowsBlock block block') (v : Move) (keyword : Token)
    (rest : List Token) :
    Follows Eq (whileLoop block keyword rest)
      (whileLoop block' (keyword.moved v) (rest.map (Token.moved v))) := by
  refine (follows_ofExcept (headAndBody_moved v keyword rest)).bind ?_
  rintro ⟨head, braces⟩ _ rfl
  refine (follows_takeId .whileLoop).bind ?_
  rintro id _ rfl
  refine (follows_condition v head).bind ?_
  rintro c _ rfl
  refine (follows_call _).bind ?_
  rintro again _ rfl
  refine (follows_body hblock v braces).bind ?_
  rintro commands _ rfl
  exact (follows_allocate _ (plainName_nat id) _).bind fun _ _ _ => follows_pure rfl

theorem follows_doWhile (hblock : FollowsBlock block block') (v : Move) (keyword : Token)
    (rest : List Token) (tail : Option Statement) :
    Follows Eq (doWhile block keyword rest tail)
      (doWhile block' (keyword.moved v) (rest.map (Token.moved v))
        (tail.map (Statement.moved v))) := by
  match rest with
  | [] | _ :: _ :: _ => exact follows_failAt
  | [braces] =>
    refine (follows_takeId .doWhileLoop).bind ?_
    rintro id _ rfl
    refine (follows_body hblock v braces).bind ?_
    rintro commands _ rfl
    match tail with
    | none | some ⟨[]⟩ => exact follows_failAt
    | some ⟨whileKeyword :: tokens⟩ =>
      refine (follows_ofExcept (doWhileHead_moved v whileKeyword tokens)).bind ?_
      rintro head _ rfl
      refine (follows_condition v head).bind ?_
      rintro c _ rfl
      refine (follows_call _).bind ?_
      rintro again _ rfl
      exact (follows_allocate _ (plainName_nat id) _).bind fun _ _ _ => follows_pure rfl

theorem follows_bindLoopVariable (v : Move) (id : Nat) (tokens : List Token) :
    Follows (fun _ _ => True) (bindLoopVariable id tokens)
      (bindLoopVariable id (tokens.map (Token.moved v))) := by
  match tokens with
  | [] | [_] => exact follows_pure trivial
  | first :: second :: rest =>
    show Follows _ (if first.isWord "let" then _ else _) (if first.isWord "let" then _ else _)
    split
    · rw [Token.text_moved]
      cases leadingVariable? second.text with
      | none => exact follows_pure trivial
      | some name => exact (follows_debug _ _).bind fun _ _ _ => follows_rename _ _
    · exact follows_pure trivial

/-- The parts of the head of a `for` are moved by the lines alone, as they are inside a group. -/
theorem follows_forParts (hblock : FollowsBlock block block') (v w : Move) (id : Nat)
    (init test step : Statement) (head braces : Token) :
    Follows Eq (forParts block id init test step head braces)
      (forParts block' id (init.moved w) (test.moved w) (step.moved w) (head.moved v)
        (braces.moved v)) := by
  refine (follows_bindLoopVariable w id init.tokens).bind fun _ _ _ => ?_
  refine (hblock w [init]).bind ?_
  rintro initCommands _ rfl
  refine (follows_ofNoting (Condition.parseTokens_follows w _ _ test.tokens)).bind
    fun tree tree' htree => ?_
  refine (follows_render htree).bind ?_
  rintro c _ rfl
  refine (hblock w [step]).bind ?_
  rintro stepCommands _ rfl
  refine (follows_call _).bind ?_
  rintro again _ rfl
  refine (follows_body hblock v braces).bind ?_
  rintro commands _ rfl
  exact (follows_allocate _ (plainName_nat id) _).bind fun _ _ _ => follows_pure rfl

theorem follows_forLoop (hblock : FollowsBlock block block') (v : Move) (keyword : Token)
    (rest : List Token) :
    Follows Eq (forLoop block keyword rest)
      (forLoop block' (keyword.moved v) (rest.map (Token.moved v))) := by
  refine (follows_ofExcept (headAndBody_moved v keyword rest)).bind ?_
  rintro ⟨head, braces⟩ _ rfl
  refine (follows_tokenizeInner v .optional head).bind ?_
  rintro statements _ rfl
  match statements with
  | [init, test, step] =>
    refine (follows_takeId .forLoop).bind ?_
    rintro id _ rfl
    exact follows_inScope (follows_forParts hblock v v.inside id init test step head braces)
  | [] | [_] | [_, _] | _ :: _ :: _ :: _ :: _ => exact follows_failAt

/-! ### Switches -/

theorem follows_dropBreaks (v : Move) (c : Case) :
    Follows (fun a b => b = a.moved v) (dropBreaks c) (dropBreaks (c.moved v)) := by
  have hbreaks : ∀ p : Statement → Bool, (∀ s : Statement, p (s.moved v) = p s) →
      (dropFinalBreak (c.statements.map (Statement.moved v))).filter p =
        ((dropFinalBreak c.statements).filter p).map (Statement.moved v) := by
    intro p hp
    rw [dropFinalBreak_moved, List.filter_map]
    congr 2
    exact funext hp
  unfold dropBreaks
  simp only [Case.moved]
  rw [hbreaks isBreak (isBreak_moved v), hbreaks (fun s => !isBreak s)
    fun s => congrArg _ (isBreak_moved v s)]
  exact (follows_forM (g := Statement.moved v) (fun s => follows_warn _ _ _ _) _).bind
    fun _ _ _ => follows_pure rfl

theorem follows_collectCases (v : Move) (statements : List Statement) :
    Follows (fun a b => b = a.map (Case.moved v)) (collectCases statements)
      (collectCases (statements.map (Statement.moved v))) := by
  refine (follows_ofExcept (Carries.foldlM (addCaseStatement_moved v) statements [])).bind ?_
  rintro cases _ rfl
  refine (follows_mapM (follows_dropBreaks v) cases).mono fun as bs h => ?_
  induction h with
  | nil => rfl
  | cons hab _ ih => rw [ih, hab, List.map_cons]

theorem follows_rangeTest (id : Nat) (score : Score) (d : Dispatch) :
    Follows Eq (rangeTest id score d) (rangeTest id score d) := by
  refine (follows_call _).bind ?_
  rintro callRange _ rfl
  exact follows_pure rfl

theorem follows_registerRange (id : Nat) (d : Dispatch) {inner : Compile (List Command)}
    (h : Follows Eq inner inner) :
    Follows (fun _ _ => True) (registerRange id d inner) (registerRange id d inner) := by
  cases d with
  | leaf label => exact follows_pure trivial
  | node low high left right =>
    refine h.bind ?_
    rintro commands _ rfl
    have hname := (plainName_nat id).slash (plainName_dispatch (.node low high left right))
    exact (follows_register _ hname _).bind fun _ _ _ => follows_pure trivial

theorem follows_rangeTests (id : Nat) (score : Score) (d : Dispatch) :
    Follows Eq (rangeTests id score d) (rangeTests id score d) := by
  induction d with
  | leaf label =>
    refine (follows_rangeTest id score _).bind ?_
    rintro test _ rfl
    exact follows_pure rfl
  | node low high left right ihleft ihright =>
    refine (follows_registerRange id left ihleft).bind fun _ _ _ => ?_
    refine (follows_rangeTest id score left).bind ?_
    rintro testLeft _ rfl
    refine (follows_registerRange id right ihright).bind fun _ _ _ => ?_
    refine (follows_rangeTest id score right).bind ?_
    rintro testRight _ rfl
    exact follows_pure rfl

theorem follows_registerCases (hblock : FollowsBlock block block') (v : Move) (id : Nat)
    (cases : List Case) :
    Follows (fun _ _ => True) (registerCases block id cases)
      (registerCases block' id (cases.map (Case.moved v))) := by
  induction cases with
  | nil => exact follows_pure trivial
  | cons c rest ih =>
    refine (hblock v c.statements).bind ?_
    rintro commands _ rfl
    have hname := (plainName_nat id).slash (plainName_int c.label)
    exact (follows_register _ hname _).bind fun _ _ _ => ih

-- reading a score computes on characters, which unification must not look into
attribute [local irreducible] score? switchScore

theorem follows_switchScore (v : Move) (head : Token) :
    Follows Eq (switchScore head) (switchScore (head.moved v)) := by
  unfold switchScore
  refine Follows.bind (follows_score? _) ?_
  rintro score _ rfl
  split
  · exact follows_pure rfl
  · exact follows_failAt

theorem follows_switch (hblock : FollowsBlock block block') (v : Move) (keyword : Token)
    (rest : List Token) :
    Follows Eq (switch block keyword rest)
      (switch block' (keyword.moved v) (rest.map (Token.moved v))) := by
  match rest with
  | [] | [_] | _ :: _ :: _ :: _ => exact follows_failAt
  | [head, braces] =>
    show Follows Eq (if !head.isGroup .round then _ else if !braces.isGroup .curly then _ else _)
      (if !head.isGroup .round then _ else if !braces.isGroup .curly then _ else _)
    split
    · exact follows_failAt
    split
    · exact follows_failAt
    refine (follows_switchScore v head).bind ?_
    rintro score _ rfl
    refine (follows_tokenizeInner v .required braces).bind ?_
    rintro statements _ rfl
    refine (follows_collectCases v.inside statements).bind ?_
    rintro cases _ rfl
    rw [List.head?_map, List.getLast?_map]
    match cases.head?, cases.getLast? with
    | none, _ | some _, none => exact follows_failAt
    | some first, some last =>
      refine (follows_takeId .switchCase).bind ?_
      rintro id _ rfl
      refine (follows_debug _ _).bind fun _ _ _ => ?_
      refine (follows_registerCases hblock v.inside id cases).bind fun _ _ _ => ?_
      exact follows_rangeTests id score _

/-! ### Built-in functions -/

theorem follows_emitSqrt (callMain callStep : Command) :
    Follows (fun _ _ => True) (emitSqrt callMain callStep) (emitSqrt callMain callStep) := by
  refine follows_get.bind ?_
  rintro s s' ⟨out, hs⟩
  -- both sessions have the functions of the square root, or neither has them
  rw [hs.sqrtEmitted]
  split
  · refine (follows_registerConstant 2).bind fun _ _ _ => ?_
    refine (follows_register _ Sqrt.plainName_mainName _).bind fun _ _ _ => ?_
    refine (follows_register _ Sqrt.plainName_stepName _).bind fun _ _ _ => ?_
    refine Follows.bind (R := fun _ _ => True) ?_ fun _ _ _ => follows_debug _ _
    exact follows_modify (fun _ => .of_pack rfl rfl rfl)
      fun hs => ⟨hs.settings, hs.scope, hs.tickDefined, rfl, hs.pack⟩
  · exact follows_pure trivial

theorem follows_sqrt {args args' : Bindings} (hargs : args.Moved v args') (target : Score) :
    Follows Eq (sqrt args target) (sqrt args' target) := by
  refine (follows_call _).bind ?_
  rintro callMain _ rfl
  refine (follows_call _).bind ?_
  rintro callStep _ rfl
  refine (follows_emitSqrt callMain callStep).bind fun _ _ _ => ?_
  refine (follows_ofExcept (hargs.get "value")).bind ?_
  rintro value _ rfl
  cases value with
  | int n => exact follows_pure rfl
  | score s => exact follows_pure rfl
  | number | text | arrow => exact follows_throw

theorem follows_random {args args' : Bindings} (hargs : args.Moved v args') (target : Score) :
    Follows Eq (random args target) (random args' target) := by
  refine (follows_ofExcept (hargs.int "min")).bind ?_
  rintro min _ rfl
  refine (follows_ofExcept (hargs.int "max")).bind ?_
  rintro max _ rfl
  split
  · exact follows_fail
  · exact follows_pure rfl

theorem follows_addObjective {args args' : Bindings} (hargs : args.Moved v args') :
    Follows Eq (addObjective args) (addObjective args') := by
  refine (follows_ofExcept (hargs.text "objective")).bind ?_
  rintro objective _ rfl
  refine (follows_ofExcept (hargs.text "criteria")).bind ?_
  rintro criteria _ rfl
  refine follows_get.bind ?_
  rintro s s' ⟨out, hs⟩
  -- commands in the load function declare nothing
  have hdeclared : s.pack.isDeclared objective = s'.pack.isDeclared objective := by
    rw [hs.pack]
    rfl
  rw [hdeclared]
  split
  · exact (follows_warn _ _ _ _).bind fun _ _ _ => follows_pure rfl
  · exact (follows_declare _ _).bind fun _ _ _ => follows_pure rfl

theorem follows_onEvent (hblock : FollowsBlock block block') {args args' : Bindings}
    (hargs : args.Moved v args') : Follows Eq (onEvent block args) (onEvent block' args') := by
  refine (follows_ofExcept (hargs.text "objective")).bind ?_
  rintro objective _ rfl
  refine (follows_ofExcept (hargs.text "criteria")).bind ?_
  rintro criteria _ rfl
  refine (follows_ofExcept (hargs.arrow "handler")).bind ?_
  rintro handler _ rfl
  -- the objective is declared first and the hook comes last, with the handler in between
  refine (follows_declare _ _).bind fun _ _ _ => ?_
  refine (follows_body hblock v handler).bind ?_
  rintro commands _ rfl
  refine (follows_registerNext _ _).bind ?_
  rintro path _ rfl
  refine (follows_debug _ _).bind fun _ _ _ => (follows_call path).bind ?_
  rintro hook _ rfl
  exact (follows_extendTick _).bind fun _ _ _ => follows_pure rfl

theorem follows_circle {args args' : Bindings} (hargs : args.Moved v args') :
    Follows Eq (circle args) (circle args') := by
  refine (follows_ofExcept (hargs.text "particle")).bind ?_
  rintro particle _ rfl
  refine (follows_ofExcept (hargs.number "radius")).bind ?_
  rintro radius _ rfl
  refine (follows_ofExcept (hargs.int "spread")).bind ?_
  rintro spread _ rfl
  split
  · exact follows_pure rfl
  · exact follows_fail

theorem follows_tellraw {args args' : Bindings} (hargs : args.Moved v args') :
    Follows Eq (tellraw args) (tellraw args') := by
  refine (follows_ofExcept (hargs.text "selector")).bind ?_
  rintro selector _ rfl
  refine (follows_ofExcept (hargs.text "message")).bind ?_
  rintro message _ rfl
  refine follows_get.bind ?_
  rintro s s' ⟨out, hs⟩
  rw [hs.settings]
  exact follows_pure rfl

theorem follows_expand (hblock : FollowsBlock block block') (b : Builtin) (target : Option Score)
    {args args' : Bindings} (hargs : args.Moved v args') :
    Follows Eq (expand block b target args) (expand block' b target args') := by
  cases b with
  | mathSqrt =>
    cases target with
    | none => exact follows_fail
    | some target => exact follows_sqrt hargs target
  | mathRandom =>
    cases target with
    | none => exact follows_fail
    | some target => exact follows_random hargs target
  | scoreboardAdd =>
    cases target with
    | none => exact follows_addObjective hargs
    | some target => exact follows_fail
  | playerOnEvent =>
    cases target with
    | none => exact follows_onEvent hblock hargs
    | some target => exact follows_fail
  | particleCircle =>
    cases target with
    | none => exact follows_circle hargs
    | some target => exact follows_fail
  | textTellraw =>
    cases target with
    | none => exact follows_tellraw hargs
    | some target => exact follows_fail

theorem follows_builtin (hblock : FollowsBlock block block') (v : Move) (b : Builtin) (name : Token)
    (rest : List Token) (target : Option Score) :
    Follows Eq (builtin block b name rest target)
      (builtin block' b (name.moved v) (rest.map (Token.moved v)) target) := by
  match rest with
  | [] | _ :: _ :: _ => exact follows_failAt
  | [group] =>
    simp only [List.map_cons, List.map_nil, builtin]
    split
    · exact follows_failAt
    · exact follows_failAt
    · refine (follows_ofNoting (Arguments.parse_follows v group)).bind ?_
      rintro arguments _ rfl
      refine follows_get.bind ?_
      rintro s s' ⟨out, hs⟩
      -- the arguments are bound in the scope, which is the same
      rw [hs.scope]
      refine (follows_ofExcept (Builtin.bind_moved v.inside b s'.scope arguments)).bind
        fun args args' hargs => ?_
      exact (follows_debug _ _).bind fun _ _ _ => follows_expand hblock b _ hargs

/-! ### Variable statements -/

theorem follows_score (v : Move) (text : String) (t : Token) :
    Follows Eq (score text t) (score text (t.moved v)) := by
  unfold score
  refine Follows.bind (follows_score? text) ?_
  rintro result _ rfl
  split
  · exact follows_pure rfl
  · exact follows_failAt

theorem leadingOperator?_moved (v : Move) (t : Token) :
    leadingOperator? (t.moved v) = leadingOperator? t := rfl

theorem follows_checkSingle (v : Move) (value : Token) (rest : List Token) :
    Follows (fun _ _ => True) (checkSingle value rest)
      (checkSingle (value.moved v) (rest.map (Token.moved v))) := by
  unfold checkSingle
  rw [Token.word?_moved]
  split
  · exact follows_fail
  cases rest with
  | nil => exact follows_pure trivial
  | cons extra rest =>
    simp only
    split
    · exact follows_fail
    · exact follows_failAt

theorem follows_operand (v : Move) (o : Operator) (target : Token) (right : List Token) :
    Follows (fun a b => b = (a.1.moved v, a.2)) (operand o target right)
      (operand o (target.moved v) (right.map (Token.moved v))) := by
  cases right with
  | nil => exact follows_failAt
  | cons value rest =>
    refine (follows_checkSingle v value rest).bind fun _ _ _ => ?_
    refine (follows_ofExcept (value.scoreValue_moved v)).bind ?_
    rintro n _ rfl
    cases n with
    | some n => exact follows_pure rfl
    | none =>
      refine follows_get.bind ?_
      rintro s s' ⟨out, hs⟩
      rw [hs.scope, Token.word?_moved]
      split
      · exact follows_pure rfl
      · exact follows_failAt

theorem follows_operandScore (value : Operand) :
    Follows Eq (operandScore value) (operandScore value) := by
  cases value with
  | score s => exact follows_pure rfl
  | int n => exact (follows_registerConstant n).bind fun _ _ _ => follows_pure rfl

theorem follows_addition (target : Score) (o : Operator) (value : Operand) :
    Follows Eq (addition target o value) (addition target o value) := by
  unfold addition
  split
  · split
    · refine (follows_operandScore _).bind ?_
      rintro score _ rfl
      exact follows_pure rfl
    split
    · exact follows_pure rfl
    · exact follows_pure rfl
  · exact follows_pure rfl

theorem follows_functionCall (v : Move) (name : Token) (rest : List Token) :
    Follows Eq (functionCall name rest)
      (functionCall (name.moved v) (rest.map (Token.moved v))) := by
  match rest with
  | [] | _ :: _ :: _ => exact follows_failAt
  | [group] =>
    show Follows Eq (if group.inner?.isSome && !group.innerBlank then _ else _)
      (if group.inner?.isSome && !group.innerBlank then _ else _)
    split
    · exact follows_failAt
    · exact follows_call _

theorem follows_assignment (hblock : FollowsBlock block block') (v : Move) (target : Score)
    (targetToken : Token) (right : List Token) :
    Follows Eq (assignment block target targetToken right)
      (assignment block' target (targetToken.moved v) (right.map (Token.moved v))) := by
  cases right with
  | nil => exact follows_failAt
  | cons first rest =>
    refine follows_get.bind ?_
    rintro s s' ⟨out, hs⟩
    have hvalue : isValueToken s'.scope (first.moved v) = isValueToken s.scope first := by
      rw [hs.scope]
      rfl
    have hkind : (Statement.mk ((first :: rest).map (Token.moved v))).kind =
        (Statement.mk (first :: rest)).kind := Statement.kind_moved v ⟨first :: rest⟩
    -- what the right side is depends on its tokens and on the scope alone
    rw [hvalue, leadingOperator?_moved, hkind]
    split
    · refine (follows_operand v .assign targetToken (first :: rest)).bind ?_
      rintro ⟨t, value⟩ _ rfl
      cases value <;> exact follows_pure rfl
    split
    · exact follows_fail
    split
    · exact follows_builtin hblock v _ first rest (some target)
    · refine (follows_functionCall v first rest).bind ?_
      rintro command _ rfl
      exact follows_pure rfl
    · refine follows_pure ?_
      rw [joinTokens_moved]

theorem follows_getStatement (v : Move) (holder : String) (name group : Token) :
    Follows Eq (getStatement holder name group)
      (getStatement holder (name.moved v) (group.moved v)) := by
  show Follows Eq (if group.inner?.isSome && !group.innerBlank then _ else _)
    (if group.inner?.isSome && !group.innerBlank then _ else _)
  split
  · exact follows_failAt
  · refine Follows.bind (follows_score v holder name) ?_
    rintro score _ rfl
    exact follows_pure rfl

theorem follows_operation (hblock : FollowsBlock block block') (v : Move) (a : Assignment) :
    Follows Eq (operation block a) (operation block' (a.moved v)) := by
  unfold operation
  refine Follows.bind (follows_score v a.target.text a.target) ?_
  rintro target _ rfl
  have hoperand := follows_operand v a.operator a.target a.right
  obtain ⟨targetToken, o, right⟩ := a
  dsimp only [Assignment.moved] at hoperand ⊢
  cases o with
  | increment | decrement =>
    cases right with
    | nil => exact follows_pure rfl
    | cons extra rest => exact follows_failAt
  | assign => exact follows_assignment hblock v target targetToken right
  | copyTo | swap =>
    refine hoperand.bind ?_
    rintro ⟨t, value⟩ _ rfl
    cases value with
    | int n => exact follows_failAt
    | score s => exact follows_pure rfl
  | add | subtract =>
    refine hoperand.bind ?_
    rintro ⟨t, value⟩ _ rfl
    refine (follows_addition target _ value).bind ?_
    rintro command _ rfl
    exact follows_pure rfl
  | atMost | atLeast | multiply | divide | modulo | min | max =>
    refine hoperand.bind ?_
    rintro ⟨t, value⟩ _ rfl
    refine (follows_operandScore value).bind ?_
    rintro score _ rfl
    exact follows_pure rfl

theorem follows_plainVariable (hblock : FollowsBlock block block') (v : Move) (first : Token)
    (rest : List Token) :
    Follows Eq (plainVariable block first rest)
      (plainVariable block' (first.moved v) (rest.map (Token.moved v))) := by
  have hassign : Assignment.ofTokens? (first.moved v :: rest.map (Token.moved v)) =
      (Assignment.ofTokens? (first :: rest)).map (Assignment.moved v) :=
    Assignment.ofTokens?_moved v (first :: rest)
  have hholder : getHolder? (first.moved v) = getHolder? first := rfl
  unfold plainVariable
  rw [hassign]
  -- a statement that reads no score is an assignment, if anything
  generalize Assignment.ofTokens? (first :: rest) = a?
  match rest with
  | [] | _ :: _ :: _ =>
    cases a? with
    | none => exact follows_failAt
    | some a => exact follows_operation hblock v a
  | [group] =>
    show Follows Eq (if group.isGroup .round then _ else _) (if group.isGroup .round then _ else _)
    split
    · rw [hholder]
      cases getHolder? first with
      | some holder => exact follows_getStatement v holder first group
      | none =>
        cases a? with
        | none => exact follows_failAt
        | some a => exact follows_operation hblock v a
    · cases a? with
      | none => exact follows_failAt
      | some a => exact follows_operation hblock v a

theorem follows_variableChange (hblock : FollowsBlock block block') (v : Move) (first : Token)
    (rest : List Token) :
    Follows Eq (variableChange block first rest)
      (variableChange block' (first.moved v) (rest.map (Token.moved v))) := by
  show Follows Eq (if first.isWord "let" then _ else _) (if first.isWord "let" then _ else _)
  split
  · cases rest with
    | nil => exact follows_failAt
    | cons name rest => exact follows_plainVariable hblock v name rest
  · exact follows_plainVariable hblock v first rest

/-! ### Definitions -/

/-- Something new is put into the pack, where that does not depend on the end of the load function. -/
theorem follows_add {f : Pack → Except Cause Pack} (hchange : ∀ p q, f p = .ok q → p.Change q)
    (hahead : ∀ p out q, f (Pack.ahead p out) = .ok q →
      ∃ q', f p = .ok q' ∧ q = Pack.ahead q' out) (t t' : Token) :
    Follows (fun _ _ => True)
      (get >>= fun s => match f s.pack with
        | .ok pack => modify fun s => { s with pack }
        | .error cause => failAt t cause)
      (get >>= fun s => match f s.pack with
        | .ok pack => modify fun s => { s with pack }
        | .error cause => failAt t' cause) := by
  -- the pack is read, changed as a whole and put back, or nothing happens
  have hrun : ∀ (t : Token) (s : Session), outcome (get >>= fun s => match f s.pack with
        | .ok pack => modify fun s => { s with pack }
        | .error cause => failAt t cause) s =
      match f s.pack with
      | .ok pack => (.ok ⟨⟩, { s with pack })
      | .error cause => (.error (.fault (t.fault cause)), s) := by
    intro t s
    show outcome (match f s.pack with
      | .ok pack => modify fun s => { s with pack }
      | .error cause => failAt t cause) s = _
    cases f s.pack <;> rfl
  constructor
  · intro s
    rw [hrun]
    cases hadd : f s.pack with
    | ok p => exact .of_change (hchange s.pack p hadd)
    | error cause => exact .refl s
  · intro out s s' hs u r hok
    rw [hrun] at hok
    cases hadd : f s.pack with
    | error cause =>
      rw [hadd] at hok
      cases hok
    | ok p =>
      rw [hadd] at hok
      obtain ⟨-, rfl⟩ := Prod.mk.inj hok
      obtain ⟨p', hadd', rfl⟩ := hahead s'.pack out p (hs.pack ▸ hadd)
      refine ⟨_, { s' with pack := p' }, by rw [hrun, hadd'], trivial, ?_⟩
      exact ⟨hs.settings, hs.scope, hs.tickDefined, hs.sqrtEmitted, rfl⟩

theorem follows_addFunction {path : FunctionPath} (hpath : path ≠ loadPath) (hdots : path.Dotless)
    (commands : List Command) (t t' : Token) :
    Follows (fun _ _ => True)
      (get >>= fun s => match s.pack.addFunction path commands with
        | .ok pack => modify fun s => { s with pack }
        | .error cause => failAt t cause)
      (get >>= fun s => match s.pack.addFunction path commands with
        | .ok pack => modify fun s => { s with pack }
        | .error cause => failAt t' cause) := by
  refine follows_add (f := (·.addFunction path commands)) (fun p q hadd => ?_)
    (fun p out q hadd => ?_) t t'
  · unfold Pack.addFunction at hadd
    split at hadd
    · cases hadd
    · next hfree =>
      obtain rfl := Except.ok.inj hadd
      exact .define commands (by simpa using hfree) hpath hdots
  · unfold Pack.addFunction at hadd ⊢
    rw [Pack.hasFunction_ahead] at hadd
    split at hadd
    · cases hadd
    · next hfree =>
      obtain rfl := Except.ok.inj hadd
      -- the new function is not the load function, so the commands ahead stay where they are
      refine ⟨_, if_neg hfree, ?_⟩
      simp [Pack.ahead, Pack.updateFunction, hpath]

/-- A path that passes is not that of the load function. -/
theorem follows_checkPath (v : Move) (head : FunctionHead) :
    Follows (fun _ _ => head.path ≠ loadPath) (checkPath head) (checkPath (head.moved v)) := by
  refine follows_get.bind ?_
  rintro s s' ⟨out, hs⟩
  rw [hs.tickDefined, hs.hasFunction]
  show Follows _ (if head.path = loadPath then _ else _) (if head.path = loadPath then _ else _)
  split
  · exact follows_failAt
  next hpath =>
  show Follows _
    (if (if head.path = tickPath then s'.tickDefined else s'.pack.hasFunction head.path) then _
      else if head.path.isPrivate then _ else _)
    (if (if head.path = tickPath then s'.tickDefined else s'.pack.hasFunction head.path) then _
      else if head.path.isPrivate then _ else _)
  -- whether a path is taken is the same in both sessions; how it is found out does not matter
  generalize (if head.path = tickPath then s'.tickDefined else s'.pack.hasFunction head.path) = taken
  split
  · exact follows_failAt
  split
  · exact (follows_warn _ _ _ _).mono fun _ _ _ => hpath
  · exact follows_pure hpath

theorem follows_functionDefinition (hblock : FollowsBlock block block') (v : Move)
    {level : Except Cause FunctionPath} (hlevel : Level.Dotless level) (keyword : Token)
    (rest : List Token) :
    Follows (fun _ _ => True) (functionDefinition block level keyword rest)
      (functionDefinition block' level (keyword.moved v) (rest.map (Token.moved v))) := by
  refine (follows_ofExcept (functionHead_moved v level keyword rest).and_ok).bind ?_
  rintro head _ ⟨rfl, hhead⟩
  refine (follows_checkPath v head).bind fun _ _ hpath => ?_
  refine (follows_debug _ _).bind fun _ _ _ => ?_
  refine (follows_body hblock v head.body).bind ?_
  rintro commands _ rfl
  show Follows _ (if head.path = tickPath then _ else _) (if head.path = tickPath then _ else _)
  split
  · -- a tick function goes behind what handlers have put there
    refine follows_modify (fun s => ⟨rfl, rfl, .single (.tick commands)⟩) fun hs => ?_
    have ht := hs.modifyPack (f := (·.extendTick commands))
      (Pack.ahead_extendFunction _ _ tickPath_ne_loadPath commands)
    exact ⟨ht.settings, ht.scope, rfl, ht.sqrtEmitted, ht.pack⟩
  · exact follows_addFunction hpath (functionHead_dotless hlevel hhead) commands _ _

theorem follows_newResource (v : Move) (keyword : Token) (rest : List Token) :
    Follows (fun _ _ => True) (newResource keyword rest)
      (newResource (keyword.moved v) (rest.map (Token.moved v))) := by
  refine (follows_ofExcept (resourceHead_moved v keyword rest).and_ok).bind ?_
  rintro head _ ⟨rfl, hhead⟩
  have hbody : (head.moved v).body.text = head.body.text := rfl
  rw [hbody]
  refine follows_get.bind ?_
  rintro s s' ⟨out, hs⟩
  rw [hs.settings]
  rcases s'.settings.codec.decode head.body.text with r | value
  · exact follows_fail
  refine follows_add (f := (·.addResource head.kind head.path (s'.settings.codec.pretty value)))
    (fun p q hadd => ?_) (fun p out q hadd => ?_) _ _
  · unfold Pack.addResource at hadd
    simp only at hadd
    split at hadd
    · cases hadd
    · next hfree =>
      obtain rfl := Except.ok.inj hadd
      refine .resource _ (fun r hr hkey => hfree ?_) (resourceHead_kind hhead)
      exact List.any_eq_true.mpr ⟨r, hr, decide_eq_true hkey⟩
  · unfold Pack.addResource at hadd ⊢
    simp only at hadd ⊢
    split at hadd
    · cases hadd
    · next hfree =>
      obtain rfl := Except.ok.inj hadd
      exact ⟨_, if_neg hfree, rfl⟩

theorem follows_classFunctions (hblock : FollowsBlock block block') (v : Move) {path : FunctionPath}
    (hpath : path.Dotless) (statements : List Statement) :
    Follows (fun _ _ => True) (classFunctions block path statements)
      (classFunctions block' path (statements.map (Statement.moved v))) := by
  induction statements with
  | nil => exact follows_pure trivial
  | cons s rest ih =>
    rw [List.map_cons, classFunctions, classFunctions, Statement.kind_moved]
    obtain ⟨tokens⟩ := s
    cases tokens with
    | nil => exact ih
    | cons first tokens =>
      refine (follows_ofExcept (Level.check_moved v _ _ first)).bind fun _ _ _ => ?_
      have hlevel : Level.Dotless (.ok path) := fun above h => Except.ok.inj h ▸ hpath
      exact (follows_functionDefinition hblock v hlevel first tokens).bind fun _ _ _ => ih

theorem follows_classDefinition (hblock : FollowsBlock block block') (v : Move) (keyword : Token)
    (rest : List Token) :
    Follows (fun _ _ => True) (classDefinition block keyword rest)
      (classDefinition block' (keyword.moved v) (rest.map (Token.moved v))) := by
  refine (follows_ofExcept (classHead_moved v keyword rest).and_ok).bind ?_
  rintro ⟨path, braces⟩ _ ⟨rfl, hhead⟩
  refine (follows_tokenizeInner v .required braces).bind ?_
  rintro statements _ rfl
  exact follows_classFunctions hblock v.inside (classHead_dotless hhead) statements

/-! ### Blocks -/

theorem follows_statement (hblock : FollowsBlock block block') (v : Move) {level : Level}
    (hlevel : Level.Dotless level.functions) (kind : StatementKind) (first : Token)
    (rest : List Token) :
    Follows Eq (statement block level kind first rest)
      (statement block' level kind (first.moved v) (rest.map (Token.moved v))) := by
  cases kind with
  | function =>
    exact (follows_functionDefinition hblock v hlevel first rest).bind fun _ _ _ => follows_pure rfl
  | classDefinition =>
    exact (follows_classDefinition hblock v first rest).bind fun _ _ _ => follows_pure rfl
  | newResource => exact (follows_newResource v first rest).bind fun _ _ _ => follows_pure rfl
  | ifBranch => exact follows_chain hblock v first rest []
  | whileLoop => exact follows_whileLoop hblock v first rest
  | doLoop => exact follows_doWhile hblock v first rest none
  | forLoop => exact follows_forLoop hblock v first rest
  | switch => exact follows_switch hblock v first rest
  | variableChange => exact follows_variableChange hblock v first rest
  | builtin b => exact follows_builtin hblock v b first rest none
  | call =>
    refine (follows_functionCall v first rest).bind ?_
    rintro command _ rfl
    exact follows_pure rfl
  | vanilla =>
    refine follows_pure ?_
    rw [← List.map_cons, joinTokens_moved]
  | importFile | elseBranch | caseLabel | breakCase => exact follows_failAt

theorem follows_atLevel (v : Move) (level : Level) (s : Statement)
    {compile compile' : Token → List Token → Compile (List Command)}
    (hcompile : ∀ first rest,
      Follows Eq (compile first rest) (compile' (first.moved v) (rest.map (Token.moved v)))) :
    Follows Eq (atLevel level s compile) (atLevel level (s.moved v) compile') := by
  unfold atLevel
  rw [Statement.kind_moved]
  obtain ⟨tokens⟩ := s
  cases tokens with
  | nil => exact follows_pure rfl
  | cons first rest =>
    exact (follows_ofExcept (Level.check_moved v level _ first)).bind fun _ _ _ =>
      hcompile first rest

/-- A construct is compiled further down as it is here. -/
theorem follows_construct (hblock : FollowsBlock block block') (v : Move) {level : Level}
    (hlevel : Level.Dotless level.functions) (c : Construct) :
    Follows Eq (construct block level c) (construct block' level (c.moved v)) := by
  cases c with
  | chain s elses =>
    exact follows_atLevel v level s fun first rest => follows_chain hblock v first rest elses
  | doWhile s tail =>
    exact follows_atLevel v level s fun first rest => follows_doWhile hblock v first rest tail
  | single s =>
    rw [Construct.moved, construct, construct, Statement.kind_moved]
    exact follows_atLevel v level s fun first rest =>
      follows_statement hblock v hlevel s.kind first rest

theorem follows_bodyConstructs (hblock : FollowsBlock block block') (v : Move)
    (cs : List Construct) :
    Follows Eq (bodyConstructs block cs) (bodyConstructs block' (cs.map (Construct.moved v))) := by
  induction cs with
  | nil => exact follows_pure rfl
  | cons c rest ih =>
    refine (follows_construct hblock v Level.dotless_body c).bind ?_
    rintro commands _ rfl
    refine ih.bind ?_
    rintro more _ rfl
    exact follows_pure rfl

/-- Bodies are compiled further down as they are here, also with a greater bound on their depth. -/
theorem follows_block {depth depth' : Nat} (hdepth : depth ≤ depth') :
    FollowsBlock (Compile.block depth) (Compile.block depth') := by
  induction depth generalizing depth' with
  | zero => exact fun v statements => follows_throw
  | succ depth ih =>
    intro v statements
    cases depth' with
    | zero => omega
    | succ depth' =>
      rw [Compile.block, Compile.block, constructs_moved]
      exact follows_bodyConstructs (ih (Nat.le_of_succ_le_succ hdepth)) v (constructs statements)

end Compile

end Packwright
