import Packwright.Proofs.Session.Accounts

/-!
# Compilation mirrors its traced version

What the compiler does with the renamings of its session is what the traced version does with the
loops around each place. Both give the same result and the same session, and the record accounts for
what happened to it. This is shown part by part, along with the way in which the two are built.

## Main definitions

- `Traced.Mirrors` — a traced step shows what a step of the compiler does

## Main results

- `Traced.Mirrors.bind`, `Traced.mirrors_here` — one step after another, and a step in its place
- `Traced.mirrors_forLoop` — a `for`, around whose parts there is one more loop
- `Traced.mirrors_block`, `Task.mirrors` — bodies and tasks
-/

namespace Packwright

namespace Traced

/-- Inside loops, the first step shows what the second one does: it gives the same result and the same
session, and accounts for what happened. -/
structure Mirrors {α : Type} (loops : List ForLoop) (t : Traced α) (m : Compile α) : Prop where
  outcome : ∀ s : Session, m.outcome (s.inside loops) = ((t s).1.1, (t s).1.2.inside loops)
  accounts : ∀ s : Session, s.Accounts (t s).2 (t s).1.2

/-- The compilers of bodies do the same inside any loops. -/
def MirrorsBlock (tblock : Block) (block : Compile.Block) : Prop :=
  ∀ (loops : List ForLoop) (statements : List Statement),
    Mirrors loops (tblock loops statements) (block statements)

variable {α β : Type} {loops : List ForLoop}

/-! ### Steps -/

theorem mirrors_pure (a : α) : Mirrors loops (pure a) (pure a) :=
  ⟨fun _ => rfl, fun s => .refl s⟩

/-- One step after another. -/
theorem Mirrors.bind {t : Traced α} {m : Compile α} {f : α → Traced β} {g : α → Compile β}
    (h : Mirrors loops t m) (hf : ∀ a, Mirrors loops (f a) (g a)) :
    Mirrors loops (t >>= f) (m >>= g) := by
  have hrun : ∀ s, (t >>= f) s = Traced.bind t f s := fun _ => rfl
  constructor
  · intro s
    rw [Compile.outcome_bind, h.outcome, hrun, Traced.bind]
    obtain ⟨⟨result, s'⟩, events⟩ := t s
    cases result with
    | ok a => exact (hf a).outcome s'
    | error e => rfl
  · intro s
    have haccounts := h.accounts s
    rw [hrun, Traced.bind]
    generalize t s = first at haccounts ⊢
    obtain ⟨⟨result, s'⟩, events⟩ := first
    cases result with
    | ok a => exact haccounts.trans ((hf a).accounts s')
    | error e => exact haccounts

/-- A step of the compiler inside loops, with events that account for what it does. -/
theorem mirrors_noting {m : Compile α} {events : List Event}
    (h : ∀ s : Session, s.Accounts (events ++ firstConstant s.pack (m.outcome s).2.pack)
      (m.outcome s).2) : Mirrors loops (noting loops events m) m := by
  constructor
  · intro s
    have hscope := (h (s.inside loops)).scope
    show m.outcome (s.inside loops) = ((m.outcome (s.inside loops)).1,
      { (m.outcome (s.inside loops)).2 with scope := scopeOf loops })
    rw [← show (m.outcome (s.inside loops)).2.scope = scopeOf loops from hscope]
  · exact fun s => (h (s.inside loops)).rescope

theorem mirrors_here {m : Compile α} (h : m.Settled) : Mirrors loops (here loops m) m :=
  mirrors_noting fun s => (h s).accounts

/-- The renamings of the session are those of the loops. -/
theorem mirrors_scope {t : Traced α} {g : Scope → Compile α} (h : Mirrors loops t (g (scopeOf loops))) :
    Mirrors loops t (get >>= fun s => g s.scope) :=
  ⟨h.outcome, h.accounts⟩

variable {tblock : Block} {block : Compile.Block}

theorem mirrors_body (hblock : MirrorsBlock tblock block) (t : Token) :
    Mirrors loops (body tblock loops t) (Compile.body block t) := by
  unfold body Compile.body
  split
  · exact (mirrors_here (Compile.settled_tokenizeInner _ _)).bind fun _ => hblock loops _
  · exact mirrors_here (Compile.settled_failAt _ _)

/-! ### Chains -/

theorem mirrors_ifBranch (hblock : MirrorsBlock tblock block) (keyword : Token) (rest : List Token) :
    Mirrors loops (ifBranch tblock loops keyword rest) (Compile.ifBranch block keyword rest) := by
  refine (mirrors_here (Compile.settled_ofExcept _)).bind fun ⟨head, braces⟩ => ?_
  refine (mirrors_here (Compile.settled_condition head)).bind fun c => ?_
  exact (mirrors_body hblock braces).bind fun _ => mirrors_pure _

theorem mirrors_elseBranch (hblock : MirrorsBlock tblock block) (closed : Bool) (keyword : Token)
    (rest : List Token) : Mirrors loops (elseBranch tblock loops closed keyword rest)
      (Compile.elseBranch block closed keyword rest) := by
  unfold elseBranch Compile.elseBranch
  split
  · exact mirrors_here (Compile.settled_failAt _ _)
  cases rest with
  | nil => exact mirrors_here (Compile.settled_failAt _ _)
  | cons next more =>
    dsimp only
    split
    · exact (mirrors_body hblock _).bind fun _ => mirrors_pure _
    split
    · exact mirrors_ifBranch hblock _ _
    · exact mirrors_here (Compile.settled_failAt _ _)

theorem mirrors_elseBranches (hblock : MirrorsBlock tblock block) (arms : List Branch)
    (statements : List Statement) : Mirrors loops (elseBranches tblock loops arms statements)
      (Compile.elseBranches block arms statements) := by
  induction statements generalizing arms with
  | nil => exact mirrors_pure _
  | cons s rest ih =>
    obtain ⟨tokens⟩ := s
    cases tokens with
    | nil => exact ih arms
    | cons keyword tokens => exact (mirrors_elseBranch hblock _ keyword tokens).bind fun _ => ih _

theorem mirrors_chain (hblock : MirrorsBlock tblock block) (keyword : Token) (rest : List Token)
    (elses : List Statement) : Mirrors loops (chain tblock loops keyword rest elses)
      (Compile.chain block keyword rest elses) := by
  refine (mirrors_ifBranch hblock keyword rest).bind fun first => ?_
  refine (mirrors_elseBranches hblock [first] elses).bind fun arms => ?_
  exact mirrors_here (Compile.settled_chainCommands arms)

/-! ### Loops -/

theorem mirrors_whileLoop (hblock : MirrorsBlock tblock block) (keyword : Token)
    (rest : List Token) : Mirrors loops (whileLoop tblock loops keyword rest)
      (Compile.whileLoop block keyword rest) := by
  refine (mirrors_here (Compile.settled_ofExcept _)).bind fun ⟨head, braces⟩ => ?_
  refine (mirrors_here (Compile.settled_takeId (by decide))).bind fun id => ?_
  refine (mirrors_here (Compile.settled_condition head)).bind fun c => ?_
  refine (mirrors_here (Compile.settled_call _)).bind fun again => ?_
  refine (mirrors_body hblock braces).bind fun commands => ?_
  exact (mirrors_here (Compile.settled_allocate _ _ _)).bind fun _ => mirrors_pure _

theorem mirrors_doWhile (hblock : MirrorsBlock tblock block) (keyword : Token) (rest : List Token)
    (tail : Option Statement) : Mirrors loops (doWhile tblock loops keyword rest tail)
      (Compile.doWhile block keyword rest tail) := by
  match rest with
  | [] | _ :: _ :: _ => exact mirrors_here (Compile.settled_failAt _ _)
  | [braces] =>
    refine (mirrors_here (Compile.settled_takeId (by decide))).bind fun id => ?_
    refine (mirrors_body hblock braces).bind fun commands => ?_
    match tail with
    | none | some ⟨[]⟩ => exact mirrors_here (Compile.settled_failAt _ _)
    | some ⟨whileKeyword :: tokens⟩ =>
      refine (mirrors_here (Compile.settled_ofExcept _)).bind fun head => ?_
      refine (mirrors_here (Compile.settled_condition head)).bind fun c => ?_
      refine (mirrors_here (Compile.settled_call _)).bind fun again => ?_
      exact (mirrors_here (Compile.settled_allocate _ _ _)).bind fun _ => mirrors_pure _

/-- A loop takes the next number of its family. -/
theorem accounts_begin (header : List Token) (s : Session) :
    s.Accounts (begin header s).2 (begin header s).1.2 := by
  unfold begin
  rcases Compile.takeId_cases .forLoop s with ⟨-, hrun⟩ | ⟨n, hn, hrun⟩
  · rw [hrun]
    exact .refl s
  · rw [hrun]
    refine ⟨rfl, rfl, ?_, List.prefix_refl _, id, List.prefix_refl _, by simp, rfl, fun _ => ?_⟩
    · show (s.pack.generated.setCounter Feature.forLoop.name n).peekId Feature.forLoop.name = _
      rw [Registry.peekId_setCounter, if_pos rfl]
      exact hn
    · exact .of_not_mem fun _ _ => by simp

theorem mirrors_begin {f : ForLoop → Traced α} {g : Nat → Compile α} (header : List Token)
    (hf : ∀ id, Mirrors loops (f ⟨id, header⟩) (g id)) :
    Mirrors loops (begin header >>= f) (Compile.takeId .forLoop >>= g) := by
  have hbegin : ∀ s, (Compile.takeId .forLoop).outcome (s.inside loops) =
      ((begin header s).1.1.map ForLoop.id, (begin header s).1.2.inside loops) ∧
      ∀ l, (begin header s).1.1 = .ok l → l.header = header := by
    intro s
    unfold begin
    rcases h : s.pack.generated.isSpent Feature.forLoop.name with _ | _
    · rw [Compile.takeId_left h, Compile.takeId_left (s := s.inside loops) h]
      exact ⟨rfl, fun l hl => (Except.ok.inj hl) ▸ rfl⟩
    · rw [Compile.takeId_spent h, Compile.takeId_spent (s := s.inside loops) h]
      exact ⟨rfl, fun l hl => nomatch hl⟩
  have hbind : ∀ s, (begin header >>= f) s = Traced.bind (begin header) f s := fun _ => rfl
  constructor
  · intro s
    rw [Compile.outcome_bind, (hbegin s).1, hbind, Traced.bind]
    have hheader := (hbegin s).2
    generalize begin header s = outcome at hheader ⊢
    obtain ⟨⟨result, s'⟩, events⟩ := outcome
    cases result with
    | ok l =>
      obtain rfl : l.header = header := hheader l rfl
      exact (hf l.id).outcome s'
    | error e => rfl
  · intro s
    have haccounts := accounts_begin header s
    have hheader := (hbegin s).2
    rw [hbind, Traced.bind]
    generalize begin header s = outcome at haccounts hheader ⊢
    obtain ⟨⟨result, s'⟩, events⟩ := outcome
    cases result with
    | ok l =>
      obtain rfl : l.header = header := hheader l rfl
      exact haccounts.trans ((hf l.id).accounts s')
    | error e => exact haccounts

/-- The compiler says what a loop renames and then does so; inside the loop it is renamed. -/
theorem outcome_bindLoopVariable (l : ForLoop) (s : Session) :
    (Compile.bindLoopVariable l.id l.header).outcome
        { s.inside loops with scope := (s.inside loops).scope.push } =
      (announce l).outcome (s.inside (l :: loops)) := by
  obtain ⟨id, header⟩ := l
  match header with
  | [] | [_] => rfl
  | first :: second :: rest =>
    unfold announce Session.inside
    simp only [Compile.bindLoopVariable, ForLoop.declared?, scopeOf, loopScope]
    by_cases hlet : first.isWord "let" = true
    · simp only [if_pos hlet]
      cases leadingVariable? second.text <;> rfl
    · simp only [if_neg hlet]

/-- What is done inside a loop, after its variable is renamed, is done with one more loop around. -/
theorem mirrors_inScope {t : Traced α} {m : Compile α} (l : ForLoop)
    (h : Mirrors (l :: loops) t m) :
    Mirrors loops (do here (l :: loops) (announce l); t)
      (Compile.inScope (do Compile.bindLoopVariable l.id l.header; m)) := by
  have hannounce : (announce l).Settled := by
    unfold announce
    split
    · exact Compile.settled_debug _
    · exact Compile.settled_pure _
  have hboth : Mirrors (l :: loops) (do here (l :: loops) (announce l); t)
      (do announce l; m) := (mirrors_here hannounce).bind fun _ => h
  refine ⟨fun s => ?_, hboth.accounts⟩
  have hrename : (do Compile.bindLoopVariable l.id l.header; m : Compile α).outcome
      { s.inside loops with scope := (s.inside loops).scope.push } =
        (do announce l; m : Compile α).outcome (s.inside (l :: loops)) := by
    rw [Compile.outcome_bind, Compile.outcome_bind, outcome_bindLoopVariable]
  have hpop : ∀ s' : Session, { s'.inside (l :: loops) with
      scope := (s'.inside (l :: loops)).scope.pop } = s'.inside loops :=
    fun s' => congrArg (fun scope => { s' with scope }) (loopScope_pop ..)
  rw [Compile.outcome_inScope, hrename, hboth.outcome, hpop]

theorem mirrors_forParts (hblock : MirrorsBlock tblock block) (l : ForLoop)
    (init test step : Statement) (hheader : l.header = init.tokens) (head braces : Token) :
    Mirrors loops (forParts tblock loops l init test step head braces)
      (Compile.inScope (Compile.forParts block l.id init test step head braces)) := by
  unfold Compile.forParts
  rw [← hheader]
  refine mirrors_inScope l ?_
  refine (hblock _ [init]).bind fun initCommands => ?_
  refine (mirrors_here (Compile.settled_ofNoting _)).bind fun tree => ?_
  refine (mirrors_here (Compile.settled_render tree)).bind fun c => ?_
  refine (hblock _ [step]).bind fun stepCommands => ?_
  refine (mirrors_here (Compile.settled_call _)).bind fun again => ?_
  refine (mirrors_body hblock braces).bind fun commands => ?_
  exact (mirrors_here (Compile.settled_allocate _ _ _)).bind fun _ => mirrors_pure _

/-- Around the parts of a `for` there is one more loop. -/
theorem mirrors_forLoop (hblock : MirrorsBlock tblock block) (keyword : Token) (rest : List Token) :
    Mirrors loops (forLoop tblock loops keyword rest) (Compile.forLoop block keyword rest) := by
  refine (mirrors_here (Compile.settled_ofExcept _)).bind fun ⟨head, braces⟩ => ?_
  refine (mirrors_here (Compile.settled_tokenizeInner _ head)).bind fun statements => ?_
  match statements with
  | [] | [_] | [_, _] | _ :: _ :: _ :: _ :: _ => exact mirrors_here (Compile.settled_failAt _ _)
  | [init, test, step] =>
    exact mirrors_begin init.tokens fun id =>
      mirrors_forParts hblock ⟨id, init.tokens⟩ init test step rfl head braces

/-! ### Switches -/

-- reading a score computes on characters, which unification must not look into
attribute [local irreducible] Compile.score? Compile.switchScore

theorem mirrors_registerCases (hblock : MirrorsBlock tblock block) (id : Nat) (cases : List Case) :
    Mirrors loops (registerCases tblock loops id cases) (Compile.registerCases block id cases) := by
  induction cases with
  | nil => exact mirrors_pure _
  | cons c rest ih =>
    refine (hblock loops c.statements).bind fun commands => ?_
    exact (mirrors_here (Compile.settled_register _ _ _)).bind fun _ => ih

theorem mirrors_switch (hblock : MirrorsBlock tblock block) (keyword : Token) (rest : List Token) :
    Mirrors loops (switch tblock loops keyword rest) (Compile.switch block keyword rest) := by
  match rest with
  | [] | [_] | _ :: _ :: _ :: _ => exact mirrors_here (Compile.settled_failAt _ _)
  | [head, braces] =>
    unfold switch Compile.switch
    dsimp only
    split
    · exact mirrors_here (Compile.settled_failAt _ _)
    split
    · exact mirrors_here (Compile.settled_failAt _ _)
    refine (mirrors_here (Compile.settled_switchScore head)).bind fun score => ?_
    refine (mirrors_here (Compile.settled_tokenizeInner _ braces)).bind fun statements => ?_
    refine (mirrors_here (Compile.settled_collectCases statements)).bind fun cases => ?_
    match cases.head?, cases.getLast? with
    | none, _ | some _, none => exact mirrors_here (Compile.settled_failAt _ _)
    | some first, some last =>
      refine (mirrors_here (Compile.settled_takeId (by decide))).bind fun id => ?_
      refine (mirrors_here (Compile.settled_debug _)).bind fun _ => ?_
      refine (mirrors_registerCases hblock id cases).bind fun _ => ?_
      exact mirrors_here (Compile.settled_rangeTests id score _)

/-! ### Built-in functions -/

theorem supply_declare (s : Session) (name criteria : String) :
    Session.supply { s with pack := s.pack.declare name criteria } .forLoop = s.supply .forLoop :=
  congrArg (Registry.peekId · Feature.forLoop.name) (s.pack.generated_declare name criteria).1

/-- Where an objective is there already, a new one of its name leads to a warning. -/
theorem mirrors_addObjective (args : Bindings) :
    Mirrors loops (addObjective loops args) (Compile.addObjective args) := by
  refine (mirrors_here (Compile.settled_ofExcept _)).bind fun objective => ?_
  refine (mirrors_here (Compile.settled_ofExcept _)).bind fun criteria => mirrors_noting fun s => ?_
  rw [Compile.outcome_get_bind]
  by_cases hdeclared : s.pack.isDeclared objective = true
  · rw [if_pos hdeclared]
    refine Session.accounts_request (o := ⟨objective, criteria⟩) rfl rfl (by simp) rfl rfl rfl
      (List.prefix_append ..) rfl ?_ fun hsame => ?_
    · rw [declareOne, if_pos (by exact hdeclared)]
      rfl
    · have hwarned : s.warnings ++ [⟨.objectiveDeclared objective,
          some (args.position "objective").location⟩] = s.warnings := hsame
      simp at hwarned
  · rw [if_neg hdeclared]
    refine Session.accounts_request (o := ⟨objective, criteria⟩) rfl rfl (by simp) rfl
      (supply_declare s objective criteria) rfl (List.prefix_refl _)
      (s.pack.constants_declare objective criteria) (s.pack.objectives_declare objective criteria)
      fun _ => .single fun o ho hname => hdeclared ?_
    exact List.any_eq_true.mpr ⟨o, ho, decide_eq_true hname⟩

theorem mirrors_onEvent (hblock : MirrorsBlock tblock block) (args : Bindings) :
    Mirrors loops (onEvent tblock loops args) (Compile.onEvent block args) := by
  refine (mirrors_here (Compile.settled_ofExcept _)).bind fun objective => ?_
  refine (mirrors_here (Compile.settled_ofExcept _)).bind fun criteria => ?_
  refine (mirrors_here (Compile.settled_ofExcept _)).bind fun handler => ?_
  refine Mirrors.bind (mirrors_noting fun s => ?_) fun _ => ?_
  · refine Session.accounts_request (o := ⟨objective, criteria⟩) rfl rfl (by simp) rfl
      (supply_declare s objective criteria) rfl (List.prefix_refl _)
      (s.pack.constants_declare objective criteria) (s.pack.objectives_declare objective criteria)
      fun _ => ?_
    exact .of_not_mem (by simp)
  refine (mirrors_body hblock handler).bind fun commands => ?_
  refine (mirrors_here (Compile.settled_registerNext (by decide) _)).bind fun path => ?_
  refine (mirrors_here (Compile.settled_debug _)).bind fun _ => ?_
  refine (mirrors_here (Compile.settled_call path)).bind fun hook => ?_
  exact (mirrors_here (Compile.settled_extendFunction _ _)).bind fun _ => mirrors_pure _

/-- The expansion of a call whose arguments are bound. -/
theorem mirrors_expand (hblock : MirrorsBlock tblock block) (b : Builtin) (target : Option Score)
    (args : Bindings) :
    Mirrors loops (expand tblock loops b target args) (Compile.expand block b target args) := by
  cases b with
  | mathSqrt =>
    cases target with
    | none => exact mirrors_here (Compile.settled_fail _)
    | some target => exact mirrors_here (Compile.settled_sqrt args target)
  | mathRandom =>
    cases target with
    | none => exact mirrors_here (Compile.settled_fail _)
    | some target => exact mirrors_here (Compile.settled_random args target)
  | scoreboardAdd =>
    cases target with
    | none => exact mirrors_addObjective args
    | some target => exact mirrors_here (Compile.settled_fail _)
  | playerOnEvent =>
    cases target with
    | none => exact mirrors_onEvent hblock args
    | some target => exact mirrors_here (Compile.settled_fail _)
  | particleCircle =>
    cases target with
    | none => exact mirrors_here (Compile.settled_circle args)
    | some target => exact mirrors_here (Compile.settled_fail _)
  | textTellraw =>
    cases target with
    | none => exact mirrors_here (Compile.settled_tellraw args)
    | some target => exact mirrors_here (Compile.settled_fail _)

/-- Arguments are read with the renamings of the loops. -/
theorem mirrors_builtin (hblock : MirrorsBlock tblock block) (b : Builtin) (name : Token)
    (rest : List Token) (target : Option Score) :
    Mirrors loops (builtin tblock loops b name rest target)
      (Compile.builtin block b name rest target) := by
  match rest with
  | [] | _ :: _ :: _ => exact mirrors_here (Compile.settled_failAt _ _)
  | [group] =>
    have hexpand : Mirrors loops (do
          let arguments ← here loops (Compile.ofNoting (Arguments.parse group))
          let args ← here loops (Compile.ofExcept (b.bind (scopeOf loops) arguments))
          here loops (Compile.debug ("expanding " ++ b.name))
          expand tblock loops b target args)
        (do
          let arguments ← Compile.ofNoting (Arguments.parse group)
          let args ← Compile.ofExcept (b.bind (← get).scope arguments)
          Compile.debug ("expanding " ++ b.name)
          Compile.expand block b target args) := by
      refine (mirrors_here (Compile.settled_ofNoting _)).bind fun arguments => ?_
      refine mirrors_scope (g := fun scope => do
        let args ← Compile.ofExcept (b.bind scope arguments)
        Compile.debug ("expanding " ++ b.name)
        Compile.expand block b target args) ?_
      refine (mirrors_here (Compile.settled_ofExcept _)).bind fun args => ?_
      exact (mirrors_here (Compile.settled_debug _)).bind fun _ => mirrors_expand hblock b target args
    unfold builtin Compile.builtin
    dsimp only
    cases b.returnsValue <;> cases target
    · exact hexpand
    · exact mirrors_here (Compile.settled_failAt _ _)
    · exact mirrors_here (Compile.settled_failAt _ _)
    · exact hexpand

/-! ### Variable statements -/

/-- An assignment reads its right side with the renamings of the loops. -/
theorem mirrors_assignment (hblock : MirrorsBlock tblock block) (target : Score)
    (targetToken : Token) (right : List Token) :
    Mirrors loops (assignment tblock loops target targetToken right)
      (Compile.assignment block target targetToken right) := by
  cases right with
  | nil => exact mirrors_here (Compile.settled_failAt _ _)
  | cons first rest =>
    unfold assignment Compile.assignment
    dsimp only
    refine mirrors_scope (g := fun scope => if Compile.isValueToken scope first then _ else _) ?_
    split
    · refine (mirrors_here (Compile.settled_operand _ _ _)).bind fun ⟨t, value⟩ => ?_
      cases value <;> exact mirrors_pure _
    · cases Compile.leadingOperator? first with
      | some o => exact mirrors_here (Compile.settled_fail _)
      | none =>
        dsimp only
        cases (Statement.mk (first :: rest)).kind with
        | builtin b => exact mirrors_builtin hblock b first rest (some target)
        | call =>
          exact (mirrors_here (Compile.settled_functionCall _ _)).bind fun _ => mirrors_pure _
        | _ => exact mirrors_pure _

theorem mirrors_operation (hblock : MirrorsBlock tblock block) (a : Assignment) :
    Mirrors loops (operation tblock loops a) (Compile.operation block a) := by
  refine (mirrors_here (Compile.settled_score _ _)).bind fun target => ?_
  have hoperand : Mirrors loops _ _ :=
    mirrors_here (Compile.settled_operand a.operator a.target a.right)
  obtain ⟨targetToken, o, right⟩ := a
  dsimp only at hoperand ⊢
  cases o with
  | increment | decrement =>
    cases right with
    | nil => exact mirrors_pure _
    | cons extra rest => exact mirrors_here (Compile.settled_failAt _ _)
  | assign => exact mirrors_assignment hblock target targetToken right
  | copyTo | swap =>
    refine hoperand.bind fun ⟨t, value⟩ => ?_
    cases value with
    | int n => exact mirrors_here (Compile.settled_failAt _ _)
    | score s => exact mirrors_pure _
  | add | subtract =>
    refine hoperand.bind fun ⟨t, value⟩ => ?_
    exact (mirrors_here (Compile.settled_addition target _ value)).bind fun _ => mirrors_pure _
  | atMost | atLeast | multiply | divide | modulo | min | max =>
    refine hoperand.bind fun ⟨t, value⟩ => ?_
    exact (mirrors_here (Compile.settled_operandScore value)).bind fun _ => mirrors_pure _

theorem mirrors_plainVariable (hblock : MirrorsBlock tblock block) (first : Token)
    (rest : List Token) : Mirrors loops (plainVariable tblock loops first rest)
      (Compile.plainVariable block first rest) := by
  unfold plainVariable Compile.plainVariable
  extract_lets tother other
  -- a statement that reads no score is an assignment, if anything
  have hother : Mirrors loops tother other := by
    unfold tother other
    cases Assignment.ofTokens? (first :: rest) with
    | none => exact mirrors_here (Compile.settled_failAt _ _)
    | some a => exact mirrors_operation hblock a
  rcases rest with _ | ⟨group, _ | ⟨second, more⟩⟩
  · exact hother
  · dsimp only
    split
    · cases Compile.getHolder? first with
      | some holder => exact mirrors_here (Compile.settled_getStatement holder first group)
      | none => exact hother
    · exact hother
  · exact hother

theorem mirrors_variableChange (hblock : MirrorsBlock tblock block) (first : Token)
    (rest : List Token) : Mirrors loops (variableChange tblock loops first rest)
      (Compile.variableChange block first rest) := by
  unfold variableChange Compile.variableChange
  split
  · cases rest with
    | nil => exact mirrors_here (Compile.settled_failAt _ _)
    | cons name rest => exact mirrors_plainVariable hblock name rest
  · exact mirrors_plainVariable hblock first rest

/-! ### Definitions -/

theorem mirrors_functionDefinition (hblock : MirrorsBlock tblock block)
    (level : Except Cause FunctionPath) (keyword : Token) (rest : List Token) :
    Mirrors loops (functionDefinition tblock loops level keyword rest)
      (Compile.functionDefinition block level keyword rest) := by
  refine (mirrors_here (Compile.settled_ofExcept _)).bind fun head => ?_
  refine (mirrors_here (Compile.settled_checkPath head)).bind fun _ => ?_
  refine (mirrors_here (Compile.settled_debug _)).bind fun _ => ?_
  refine (mirrors_body hblock head.body).bind fun commands => mirrors_here ?_
  split
  · intro s
    have hextended := Compile.settled_extendFunction tickPath commands s
    exact ⟨rfl, hextended.loops, hextended.warnings, hextended.logged, hextended.constants,
      hextended.objectives⟩
  · exact Compile.settled_addFunction head.path commands head.name

theorem mirrors_classFunctions (hblock : MirrorsBlock tblock block) (path : FunctionPath)
    (statements : List Statement) : Mirrors loops (classFunctions tblock loops path statements)
      (Compile.classFunctions block path statements) := by
  induction statements with
  | nil => exact mirrors_pure _
  | cons s rest ih =>
    obtain ⟨tokens⟩ := s
    cases tokens with
    | nil => exact (mirrors_pure ()).bind fun _ => ih
    | cons first tokens =>
      refine (mirrors_here (Compile.settled_ofExcept _)).bind fun _ => ?_
      exact (mirrors_functionDefinition hblock _ first tokens).bind fun _ => ih

theorem mirrors_classDefinition (hblock : MirrorsBlock tblock block) (keyword : Token)
    (rest : List Token) : Mirrors loops (classDefinition tblock loops keyword rest)
      (Compile.classDefinition block keyword rest) := by
  refine (mirrors_here (Compile.settled_ofExcept _)).bind fun ⟨path, braces⟩ => ?_
  refine (mirrors_here (Compile.settled_tokenizeInner _ braces)).bind fun statements => ?_
  exact mirrors_classFunctions hblock path statements

/-! ### Blocks -/

theorem mirrors_statement (hblock : MirrorsBlock tblock block) (level : Level)
    (kind : StatementKind) (first : Token) (rest : List Token) :
    Mirrors loops (statement tblock loops level kind first rest)
      (Compile.statement block level kind first rest) := by
  cases kind with
  | function =>
    exact (mirrors_functionDefinition hblock level.functions first rest).bind fun _ => mirrors_pure _
  | classDefinition =>
    exact (mirrors_classDefinition hblock first rest).bind fun _ => mirrors_pure _
  | newResource =>
    exact (mirrors_here (Compile.settled_newResource first rest)).bind fun _ => mirrors_pure _
  | ifBranch => exact mirrors_chain hblock first rest []
  | whileLoop => exact mirrors_whileLoop hblock first rest
  | doLoop => exact mirrors_doWhile hblock first rest none
  | forLoop => exact mirrors_forLoop hblock first rest
  | switch => exact mirrors_switch hblock first rest
  | variableChange => exact mirrors_variableChange hblock first rest
  | builtin b => exact mirrors_builtin hblock b first rest none
  | call =>
    exact (mirrors_here (Compile.settled_functionCall first rest)).bind fun _ => mirrors_pure _
  | vanilla => exact mirrors_pure _
  | importFile | elseBranch | caseLabel | breakCase => exact mirrors_here (Compile.settled_failAt _ _)

theorem mirrors_construct (hblock : MirrorsBlock tblock block) (level : Level) (c : Construct) :
    Mirrors loops (construct tblock loops level c) (Compile.construct block level c) := by
  have hat : ∀ (s : Statement) {t : Token → List Token → Traced (List Command)}
      {m : Token → List Token → Compile (List Command)},
      (∀ first rest, Mirrors loops (t first rest) (m first rest)) →
      Mirrors loops (atLevel loops level s t) (Compile.atLevel level s m) := by
    rintro ⟨tokens⟩ t m h
    cases tokens with
    | nil => exact mirrors_pure _
    | cons first rest => exact (mirrors_here (Compile.settled_ofExcept _)).bind fun _ => h first rest
  cases c with
  | chain s elses => exact hat s fun first rest => mirrors_chain hblock first rest elses
  | doWhile s tail => exact hat s fun first rest => mirrors_doWhile hblock first rest tail
  | single s => exact hat s (mirrors_statement hblock level s.kind)

theorem mirrors_bodyConstructs (hblock : MirrorsBlock tblock block) (cs : List Construct) :
    Mirrors loops (bodyConstructs tblock loops cs) (Compile.bodyConstructs block cs) := by
  induction cs with
  | nil => exact mirrors_pure _
  | cons c rest ih =>
    exact (mirrors_construct hblock .body c).bind fun _ => ih.bind fun _ => mirrors_pure _

/-- Bodies inside one another are inside the loops of the outer ones as well. -/
theorem mirrors_block (depth : Nat) : MirrorsBlock (Traced.block depth) (Compile.block depth) := by
  induction depth with
  | zero => exact fun loops statements => mirrors_here (Compile.settled_throw _)
  | succ depth ih => exact fun loops statements => mirrors_bodyConstructs ih (constructs statements)

/-! ### Files -/

/-- Imports do the same; there is no loop around them. -/
def MirrorsImporter (timporter : Importer) (importer : Compile.Importer) : Prop :=
  ∀ (path : File.Path) (position : Option Position),
    Mirrors [] (timporter path position) (importer path position)

variable {timporter : Importer} {importer : Compile.Importer}

theorem mirrors_extendLoad (out : List Command) :
    Mirrors [] (here [] (Compile.modifyPack (·.extendLoad out)))
      (Compile.modifyPack (·.extendLoad out)) :=
  mirrors_here (Compile.settled_extendFunction loadPath out)

theorem mirrors_topConstructs (hblock : MirrorsBlock tblock block)
    (himporter : MirrorsImporter timporter importer) (out : List Command) (cs : List Construct) :
    Mirrors [] (topConstructs tblock timporter out cs)
      (Compile.topConstructs block importer out cs) := by
  induction cs generalizing out with
  | nil => exact mirrors_pure _
  | cons c rest ih =>
    unfold topConstructs Compile.topConstructs
    cases c.import? with
    | some found =>
      refine (mirrors_here (Compile.settled_ofExcept _)).bind fun target => ?_
      refine (mirrors_extendLoad out).bind fun _ => ?_
      refine (mirrors_here Compile.settled_get).bind fun s => ?_
      exact (himporter _ _).bind fun _ => ih []
    | none => exact (mirrors_construct hblock .top c).bind fun _ => ih _

theorem mirrors_topLevel (himporter : MirrorsImporter timporter importer) (text : String) :
    Mirrors [] (topLevel timporter text) (Compile.topLevel importer text) := by
  refine (mirrors_here (Compile.settled_tokenize _ _ _)).bind fun statements => ?_
  refine (mirrors_topConstructs (mirrors_block _) himporter [] _).bind fun out => ?_
  exact mirrors_extendLoad out

/-- A file is named in the new warnings, and in those alone. -/
theorem mirrors_source (himporter : MirrorsImporter timporter importer) (name text : String) :
    Mirrors [] (source timporter name text) (Compile.source importer name text) := by
  have htop := mirrors_topLevel himporter text
  constructor
  · intro s
    have houtcome := htop.outcome { s with log := s.log ++ [⟨.debug, "compiling " ++ name⟩] }
    have hrun : (Compile.source importer name text).outcome (s.inside []) =
        let after := (Compile.topLevel importer text).outcome
          (Session.inside { s with log := s.log ++ [⟨.debug, "compiling " ++ name⟩] } [])
        (after.1.mapError (Compile.inFile name text), { after.2 with
          warnings := after.2.warnings.take s.warnings.length ++
            (after.2.warnings.drop s.warnings.length).map (·.inFile name text) }) := rfl
    rw [hrun, houtcome]
    rfl
  · intro s
    have h := htop.accounts { s with log := s.log ++ [⟨.debug, "compiling " ++ name⟩] }
    unfold source
    generalize topLevel timporter text _ = run at h ⊢
    obtain ⟨⟨result, after⟩, events⟩ := run
    obtain ⟨more, hmore⟩ := h.warnings
    have hwarnings : after.warnings.take s.warnings.length ++
        (after.warnings.drop s.warnings.length).map (·.inFile name text) =
          s.warnings ++ more.map (·.inFile name text) := by
      rw [show after.warnings = s.warnings ++ more from hmore.symm, List.take_left, List.drop_left]
    refine ⟨h.scope, h.loops, h.supply, ?_, fun hlogged => ?_, h.constants, h.first, h.objectives,
      fun hsame => ?_⟩
    · exact ⟨_, hwarnings.symm⟩
    · refine (h.logged hlogged).trans (Nat.le_of_eq ?_)
      rw [List.length_append, List.length_map, ← List.length_append, List.take_append_drop]
    · refine h.fresh ?_
      have hnone : more.map (·.inFile name text) = [] := by
        exact List.append_right_eq_self.mp (hwarnings.symm.trans hsame)
      rw [List.map_eq_nil_iff] at hnone
      rw [← hmore, hnone, List.append_nil]

/-- A file that was begun before is left out. -/
theorem mirrors_importWith (files : File.Tree) {tcompile : String → String → Traced Unit}
    {compile : String → String → Compile Unit}
    (h : ∀ name text, Mirrors [] (tcompile name text) (compile name text)) :
    MirrorsImporter (importWith files tcompile) (Compile.importWith files compile) := by
  intro path position
  unfold importWith Compile.importWith
  cases files.read path with
  | error problem => exact mirrors_here (Compile.settled_fail _)
  | ok found =>
    obtain ⟨place, text⟩ := found
    have hbegun : Mirrors [] _ _ :=
      mirrors_here (Compile.settled_debug ("'" ++ path.text ++ "' already compiled, skipping"))
    constructor
    · intro s
      rw [Compile.outcome_get_bind]
      show Compile.outcome (if s.imported.contains place then _ else _) (s.inside []) = _
      dsimp only
      split
      · exact hbegun.outcome s
      · exact (h _ _).outcome { s with imported := s.imported ++ [place] }
    · intro s
      dsimp only
      split
      · exact hbegun.accounts s
      · have h := (h (s.settings.displayName path) text).accounts
          { s with imported := s.imported ++ [place] }
        exact ⟨h.scope, h.loops, h.supply, h.warnings, h.logged, h.constants, h.first, h.objectives,
          h.fresh⟩

theorem mirrors_importWithin (files : File.Tree) (depth : Nat) :
    MirrorsImporter (importWithin files depth) (Compile.importWithin files depth) := by
  induction depth with
  | zero => exact mirrors_importWith files fun _ _ => mirrors_here (Compile.settled_throw _)
  | succ depth ih => exact mirrors_importWith files fun name text => mirrors_source ih name text

theorem mirrors_step {t : Traced Unit} {m : Compile Unit} (h : Mirrors [] t m) :
    Mirrors [] (step t) (Compile.step m) := by
  constructor
  · intro s
    have hspace : (s.inside []).settings.space = s.settings.space := rfl
    rw [Compile.step_outcome, h.outcome, hspace]
    unfold step
    cases validateSpace s.settings.space <;> rfl
  · intro s
    have h := h.accounts s
    unfold step
    cases validateSpace s.settings.space with
    | ok _ =>
      exact ⟨h.scope, h.loops, h.supply, h.warnings, fun _ => le_rfl, h.constants, h.first,
        h.objectives, h.fresh⟩
    | error f => exact .refl s

end Traced

/-- The step of a task is mirrored by its traced version. -/
theorem Task.mirrors (t : Task) : Traced.Mirrors [] t.traced t.compile := by
  cases t with
  | text files name source =>
    exact Traced.mirrors_step (Traced.mirrors_source (Traced.mirrors_importWithin files _) name source)
  | file files path =>
    exact Traced.mirrors_step (Traced.mirrors_importWithin files _ path none)
  | entry files =>
    have hfile : ∀ path, Traced.Mirrors [] _ _ := fun path =>
      Traced.mirrors_step (Traced.mirrors_importWithin files (files.nodes.length + 1) path none)
    refine ⟨fun s => ?_, fun s => (hfile s.settings.entryPath).accounts s⟩
    exact (Compile.outcome_compileEntry files (s.inside [])).trans ((hfile _).outcome s)

/-! ### Sessions -/

namespace Session

variable {s : Session}

theorem inside_nil (h : s.scope = {}) : s.inside [] = s := by
  unfold inside
  rw [show scopeOf [] = s.scope from h.symm]

/-- A task of a session outside of loops does what is traced. -/
theorem outcome_traced (h : s.scope = {}) (t : Task) : t.compile.outcome s = (t.traced s).1 := by
  have hrun := t.mirrors.outcome s
  have hscope := (t.mirrors.accounts s).scope
  rw [inside_nil h, inside_nil (hscope.trans h)] at hrun
  exact hrun

/-- The record of a session accounts for all that happened, whether or not tasks failed. -/
theorem trace_accounts (h : s.scope = {}) (tasks : List Task) :
    s.Accounts (s.trace tasks) (s.after tasks) := by
  induction tasks generalizing s with
  | nil => exact .refl s
  | cons t rest ih =>
    have hfirst : s.Accounts (t.traced s).2 (s.next t) := by
      rw [next, outcome_traced h]
      exact t.mirrors.accounts s
    exact hfirst.trans (ih (hfirst.scope.trans h))

/-- At all times a new session is outside of loops. -/
theorem after_scope (settings : Settings) (tasks : List Task) :
    ((new settings).after tasks).scope = {} :=
  (trace_accounts (s := new settings) rfl tasks).scope

end Session

end Packwright
