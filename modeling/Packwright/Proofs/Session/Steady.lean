import Packwright.Proofs.Binding
import Packwright.Proofs.Session.Ranges

/-!
# Compilation fails only regularly

Every construct takes new numbers for what it registers, and fails only with faults of the text it is
given. The values that a built-in function asks for are bound, and a chain begins with a condition,
so no promise inside the program is broken.

## Main results

- `Compile.steady_chain`, `Compile.steady_whileLoop`, `Compile.steady_forLoop` — control flow
- `Compile.steady_builtin` — calls of built-in functions
- `Compile.steady_functionDefinition` — user functions, which are warned about inside the reserved
  segment
- `Compile.steady_block`, `Compile.steady_importWithin` — bodies and files
- `Compile.steady_step` — whole steps of a session
-/

namespace Packwright

namespace Compile

variable {block : Block}

/-! ### Chains -/

theorem steady_ifBranch (hblock : SteadyBlock block) (keyword : Token) (rest : List Token) :
    (ifBranch block keyword rest).Steady fun arm => arm.condition.isSome = true := by
  refine (steady_ofExcept (headAndBody_regular keyword rest)).bind fun parts _ => ?_
  refine (steady_condition parts.1).bind fun c _ => ?_
  exact (steady_body hblock parts.2).bind fun _ _ => steady_pure rfl

theorem steady_elseBranch (hblock : SteadyBlock block) (closed : Bool) (keyword : Token)
    (rest : List Token) : (elseBranch block closed keyword rest).Steady := by
  unfold elseBranch
  split
  · exact steady_failAt keyword rfl
  · split
    · exact steady_failAt keyword rfl
    · split
      · exact (steady_body hblock _).bind fun _ _ => steady_pure trivial
      · split
        · exact (steady_ifBranch hblock _ _).mono fun _ _ => trivial
        · exact steady_failAt keyword rfl

/-- The arms that were read so far stay in front. -/
theorem steady_elseBranches (hblock : SteadyBlock block) (statements : List Statement)
    (arms : List Branch) : (elseBranches block arms statements).Steady fun all => arms <+: all := by
  induction statements generalizing arms with
  | nil => exact steady_pure (List.prefix_refl arms)
  | cons s rest ih =>
    unfold elseBranches
    split
    · exact ih arms
    · refine (steady_elseBranch hblock _ _ _).bind fun arm _ => ?_
      exact (ih _).mono fun all h => (List.prefix_append ..).trans h

theorem steady_armsCommands (first : Bool) (arms : List Branch) :
    (armsCommands first arms).Steady := by
  induction arms generalizing first with
  | nil => exact steady_pure trivial
  | cons arm rest ih =>
    refine (steady_allocateNext (by decide) _).bind fun path _ => ?_
    refine (steady_call path).bind fun callArm _ => ?_
    exact (ih false).bind fun _ _ => steady_pure trivial

theorem steady_singleArm (c : Rendered) (commands : List Command) :
    (singleArm c commands).Steady := by
  unfold singleArm
  split
  · exact steady_pure trivial
  · exact steady_pure trivial
  · refine (steady_allocateNext (by decide) _).bind fun path _ => ?_
    exact (steady_call path).bind fun _ _ => steady_pure trivial

theorem head?_dropEmptyElse (arms : List Branch) : (dropEmptyElse arms).head? = arms.head? := by
  unfold dropEmptyElse
  split
  · split
    · next hlength =>
      obtain ⟨a, b, rest, rfl⟩ : ∃ a b rest, arms = a :: b :: rest := by
        match arms, hlength with
        | a :: b :: rest, _ => exact ⟨a, b, rest, rfl⟩
      rfl
    · rfl
  · rfl

/-- A chain whose first arm has a condition is never left with an `else` alone. -/
theorem steady_chainCommands {arms : List Branch} {first : Branch} (hfirst : arms.head? = some first)
    (hcondition : first.condition.isSome) : (chainCommands arms).Steady := by
  have hhead := (head?_dropEmptyElse arms).trans hfirst
  unfold chainCommands
  split
  · exact steady_singleArm _ _
  · next heq =>
    rw [heq] at hhead
    obtain rfl := Option.some.inj hhead
    cases hcondition
  · exact (steady_armsCommands _ _).bind fun _ _ => steady_pure trivial

theorem steady_chain (hblock : SteadyBlock block) (keyword : Token) (rest : List Token)
    (elses : List Statement) : (chain block keyword rest elses).Steady := by
  refine (steady_ifBranch hblock keyword rest).bind fun first hcondition => ?_
  refine (steady_elseBranches hblock elses [first]).bind fun arms harms => ?_
  obtain ⟨more, rfl⟩ := harms
  exact steady_chainCommands rfl hcondition

/-! ### Loops -/

theorem steady_whileLoop (hblock : SteadyBlock block) (keyword : Token) (rest : List Token) :
    (whileLoop block keyword rest).Steady := by
  refine (steady_ofExcept (headAndBody_regular keyword rest)).bind fun parts _ s hs => ?_
  refine (takeId_keeps (by decide) (.refl s) hs).bind fun id s₁ hs₁ h₁ => ?_
  obtain ⟨hid, hr₁⟩ := h₁
  refine (steady_condition parts.1).bind_reserving hs₁ hs hr₁ fun c s₂ hs₂ hr₂ _ => ?_
  refine (steady_call _).bind_reserving hs₂ hs hr₂ fun again s₃ hs₃ hr₃ _ => ?_
  refine (steady_body hblock parts.2).bind_reserving hs₃ hs hr₃ fun commands s₄ hs₄ hr₄ _ => ?_
  exact (allocate_keeps (by decide) hs₄ hs hid.le hr₄ _).bind fun _ s₅ hs₅ _ =>
    keeps_pure hs₅ trivial

theorem steady_doWhile (hblock : SteadyBlock block) (keyword : Token) (rest : List Token)
    (tail : Option Statement) : (doWhile block keyword rest tail).Steady := by
  unfold doWhile
  split
  · next braces =>
    intro s hs
    refine (takeId_keeps (by decide) (.refl s) hs).bind fun id s₁ hs₁ h₁ => ?_
    obtain ⟨hid, hr₁⟩ := h₁
    refine (steady_body hblock braces).bind_reserving hs₁ hs hr₁ fun commands s₂ hs₂ hr₂ _ => ?_
    split
    · refine (steady_ofExcept (doWhileHead_regular _ _)).bind_reserving hs₂ hs hr₂
        fun head s₃ hs₃ hr₃ _ => ?_
      refine (steady_condition head).bind_reserving hs₃ hs hr₃ fun c s₄ hs₄ hr₄ _ => ?_
      refine (steady_call _).bind_reserving hs₄ hs hr₄ fun again s₅ hs₅ hr₅ _ => ?_
      exact (allocate_keeps (by decide) hs₅ hs hid.le hr₅ _).bind fun _ s₆ hs₆ _ =>
        keeps_pure hs₆ trivial
    · exact keeps_throw hs₂ rfl
  · exact steady_failAt keyword rfl

theorem steady_bindLoopVariable (id : Nat) (tokens : List Token) :
    (bindLoopVariable id tokens).Steady := by
  unfold bindLoopVariable
  split
  · split
    · split
      · exact (steady_debug _).bind fun _ _ =>
          steady_modify fun _ => .of_same rfl rfl rfl fun h => h
      · exact steady_pure trivial
    · exact steady_pure trivial
  · exact steady_pure trivial

/-- The parts of a `for` end with the function under the number that was taken for it. -/
theorem forParts_keeps {base s : Session} {id : Nat} (hblock : SteadyBlock block)
    (hs : base.Leads s) (hc : base.Counted) (hfrom : base.supply .forLoop ≤ id)
    (hr : s.Reserves .forLoop id ∅) (init test step : Statement) (head braces : Token) :
    (forParts block id init test step head braces).Keeps base s fun _ _ => True := by
  refine (steady_bindLoopVariable id _).bind_reserving hs hc hr fun _ s₁ hs₁ hr₁ _ => ?_
  refine (hblock [init]).bind_reserving hs₁ hc hr₁ fun initCommands s₂ hs₂ hr₂ _ => ?_
  refine (steady_ofNoting (Condition.parseTokens_regular _ _)).bind_reserving hs₂ hc hr₂
    fun tree s₃ hs₃ hr₃ _ => ?_
  refine (steady_render tree).bind_reserving hs₃ hc hr₃ fun c s₄ hs₄ hr₄ _ => ?_
  refine (hblock [step]).bind_reserving hs₄ hc hr₄ fun stepCommands s₅ hs₅ hr₅ _ => ?_
  refine (steady_call _).bind_reserving hs₅ hc hr₅ fun again s₆ hs₆ hr₆ _ => ?_
  refine (steady_body hblock braces).bind_reserving hs₆ hc hr₆ fun commands s₇ hs₇ hr₇ _ => ?_
  exact (allocate_keeps (by decide) hs₇ hc hfrom hr₇ _).bind fun _ s₈ hs₈ _ =>
    keeps_pure hs₈ trivial

theorem steady_forLoop (hblock : SteadyBlock block) (keyword : Token) (rest : List Token) :
    (forLoop block keyword rest).Steady := by
  refine (steady_ofExcept (headAndBody_regular keyword rest)).bind fun parts _ => ?_
  refine (steady_tokenizeInner _ parts.1).bind fun statements _ => ?_
  split
  · next init test step =>
    intro s hs
    refine (takeId_keeps (by decide) (.refl s) hs).bind fun id s₁ hs₁ h₁ => ?_
    obtain ⟨hid, hr₁⟩ := h₁
    have hpush : s₁.Leads { s₁ with scope := s₁.scope.push } := .of_same rfl rfl rfl fun h => h
    exact keeps_inScope (forParts_keeps hblock (hs₁.trans hpush) hs hid.le (hr₁.leads hpush) _ _ _
      parts.1 parts.2)
  · exact steady_failAt parts.1 rfl

/-! ### Built-in functions -/

theorem steady_bound {α : Type} {x : Except Fault α} (hx : ∃ a, x = .ok a) :
    (ofExcept x).Steady := by
  obtain ⟨a, rfl⟩ := hx
  exact steady_pure trivial

/-- The functions of the square root are registered once. -/
theorem steady_emitSqrt (callMain callStep : Command) : (emitSqrt callMain callStep).Steady := by
  intro s hs
  refine keeps_of_meets ?_
  unfold emitSqrt
  rw [meets_bind, meets_get]
  split
  · next hnew =>
    have hsupply : s.supply .mathSqrt = 0 := by simpa [Session.supply] using hnew
    have hfree : ∀ e ∈ s.entries, e.1.1 ≠ Feature.mathSqrt.name := by
      intro e he hname
      obtain ⟨f, n, hname', -, hlt⟩ := hs e he
      obtain rfl := Feature.name_injective (hname'.symm.trans hname)
      omega
    rw [meets_bind, modifyPack, meets_modify]
    have hconstant := s.leads_registerConstant 2
    have hentries : Session.entries { s with pack := s.pack.registerConstant 2 } = s.entries := by
      rw [Session.entries, (s.pack.generated_registerConstant 2).1]
    have hsupply₁ : Session.supply { s with pack := s.pack.registerConstant 2 } .mathSqrt = 0 :=
      hsupply
    generalize ({ s with pack := s.pack.registerConstant 2 } : Session) = s₁
      at hconstant hentries hsupply₁ ⊢
    rw [← hentries] at hfree
    refine (register_succeeds _ fun e he hkey => ?_).bind (fun _ h => h) fun _ s₂ h₂ => ?_
    · exact hfree e he (congrArg Prod.fst hkey)
    subst h₂
    refine (register_succeeds _ fun e he hkey => ?_).bind (fun _ h => h) fun _ s₃ h₃ => ?_
    · rcases List.mem_append.mp he with he | he
      · exact hfree e he (congrArg Prod.fst hkey)
      · rw [List.mem_singleton.mp he] at hkey
        exact absurd (Prod.mk.inj hkey).2 (by decide)
    subst h₃
    rw [meets_bind, meets_modify]
    have hemitted := s₁.leads_sqrt hsupply₁ Sqrt.mainName Sqrt.stepName (Sqrt.mainBody callStep)
      (Sqrt.stepBody callMain)
    exact ⟨(hconstant.trans hemitted).trans (.of_same rfl rfl rfl id), trivial⟩
  · exact ⟨.refl s, trivial⟩

theorem steady_sqrt {args : Bindings} (hargs : args.Complete .mathSqrt) (target : Score) :
    (sqrt args target).Steady := by
  refine (steady_call _).bind fun callMain _ => (steady_call _).bind fun callStep _ => ?_
  refine (steady_emitSqrt callMain callStep).bind fun _ _ => ?_
  rcases hargs.scoreOrInteger (by decide : Builtin.mathSqrt.Declares "value" _) with
    ⟨n, hn⟩ | ⟨score, hscore⟩
  · rw [hn]
    exact steady_pure trivial
  · rw [hscore]
    exact steady_pure trivial

theorem steady_random {args : Bindings} (hargs : args.Complete .mathRandom) (target : Score) :
    (random args target).Steady := by
  refine (steady_bound (hargs.int (by decide))).bind fun min _ => ?_
  refine (steady_bound (hargs.int (by decide))).bind fun max _ => ?_
  split
  · exact steady_fail rfl
  · exact steady_pure trivial

theorem steady_addObjective {args : Bindings} (hargs : args.Complete .scoreboardAdd) :
    (addObjective args).Steady := by
  refine (steady_bound (hargs.text (by decide))).bind fun objective _ => ?_
  refine (steady_bound (hargs.text (by decide))).bind fun criteria _ => ?_
  refine steady_get.bind fun s _ => ?_
  split
  · exact (steady_warn _ _).bind fun _ _ => steady_pure trivial
  · exact (steady_declare _ _).bind fun _ _ => steady_pure trivial

theorem steady_onEvent (hblock : SteadyBlock block) {args : Bindings}
    (hargs : args.Complete .playerOnEvent) : (onEvent block args).Steady := by
  refine (steady_bound (hargs.text (by decide))).bind fun objective _ => ?_
  refine (steady_bound (hargs.text (by decide))).bind fun criteria _ => ?_
  refine (steady_bound (hargs.arrow (by decide))).bind fun handler _ => ?_
  refine (steady_declare _ _).bind fun _ _ => ?_
  refine (steady_body hblock handler).bind fun commands _ => ?_
  refine (steady_registerNext (by decide) _).bind fun path _ => ?_
  refine (steady_debug _).bind fun _ _ => (steady_call path).bind fun hook _ => ?_
  exact (steady_extendFunction (by decide) _).bind fun _ _ => steady_pure trivial

theorem steady_circle {args : Bindings} (hargs : args.Complete .particleCircle) :
    (circle args).Steady := by
  refine (steady_bound (hargs.text (by decide))).bind fun particle _ => ?_
  refine (steady_bound (hargs.number (by decide))).bind fun radius _ => ?_
  refine (steady_bound (hargs.int (by decide))).bind fun spread _ => ?_
  split
  · exact steady_pure trivial
  · exact steady_fail rfl

theorem steady_tellraw {args : Bindings} (hargs : args.Complete .textTellraw) :
    (tellraw args).Steady := by
  refine (steady_bound (hargs.text (by decide))).bind fun selector _ => ?_
  refine (steady_bound (hargs.text (by decide))).bind fun message _ => ?_
  exact steady_get.bind fun _ _ => steady_pure trivial

/-- Bound calls are expanded, if there is a target just for those that return a value. -/
theorem steady_expand (hblock : SteadyBlock block) {b : Builtin} {target : Option Score}
    (htarget : b.returnsValue = target.isSome) {args : Bindings} (hargs : args.Complete b) :
    (expand block b target args).Steady := by
  cases b with
  | mathSqrt =>
    cases target with
    | none => cases htarget
    | some target => exact steady_sqrt hargs target
  | mathRandom =>
    cases target with
    | none => cases htarget
    | some target => exact steady_random hargs target
  | scoreboardAdd =>
    cases target with
    | none => exact steady_addObjective hargs
    | some target => cases htarget
  | playerOnEvent =>
    cases target with
    | none => exact steady_onEvent hblock hargs
    | some target => cases htarget
  | particleCircle =>
    cases target with
    | none => exact steady_circle hargs
    | some target => cases htarget
  | textTellraw =>
    cases target with
    | none => exact steady_tellraw hargs
    | some target => cases htarget

theorem steady_builtin (hblock : SteadyBlock block) (b : Builtin) (name : Token) (rest : List Token)
    (target : Option Score) : (builtin block b name rest target).Steady := by
  unfold builtin
  split
  · split
    · exact steady_failAt name rfl
    · exact steady_failAt name rfl
    · next target _ _ hnone hsome =>
      refine (steady_ofNoting (Arguments.parse_regular _)).bind fun arguments _ => ?_
      refine steady_get.bind fun s _ => ?_
      refine (steady_ofExcept (b.bind_regular s.scope arguments)).bind fun args hargs => ?_
      refine (steady_debug _).bind fun _ _ => ?_
      refine steady_expand hblock ?_ (Builtin.bind_complete hargs)
      cases hvalue : b.returnsValue with
      | true =>
        cases target with
        | none => exact (hnone hvalue rfl).elim
        | some target => rfl
      | false =>
        cases target with
        | none => rfl
        | some target => exact (hsome target hvalue rfl).elim
  · exact steady_failAt name rfl

/-! ### Variable statements -/

-- reading a score computes on characters, which unification must not look into
attribute [local irreducible] score? score

theorem steady_score (text : String) (t : Token) : (score text t).Steady := by
  unfold score
  refine .bind (steady_score? text) fun result _ => ?_
  split
  · exact steady_pure trivial
  · exact steady_failAt t rfl

theorem steady_checkSingle (value : Token) (rest : List Token) :
    (checkSingle value rest).Steady := by
  unfold checkSingle
  split
  · exact steady_fail rfl
  · split
    · exact steady_pure trivial
    · split
      · exact steady_fail rfl
      · exact steady_failAt _ rfl

theorem steady_operand (o : Operator) (target : Token) (right : List Token) :
    (operand o target right).Steady := by
  unfold operand
  split
  · exact steady_failAt target rfl
  · next value rest =>
    refine (steady_checkSingle value rest).bind fun _ _ => ?_
    refine (steady_ofExcept value.scoreValue_regular).bind fun n _ => ?_
    split
    · exact steady_pure trivial
    · refine steady_get.bind fun s _ => ?_
      split
      · exact steady_pure trivial
      · exact steady_failAt value rfl

theorem steady_operandScore (value : Operand) : (operandScore value).Steady := by
  cases value with
  | score s => exact steady_pure trivial
  | int n =>
    refine .bind (steady_modify ?_) fun _ _ => steady_pure trivial
    exact fun s => s.leads_registerConstant n

theorem steady_addition (target : Score) (o : Operator) (value : Operand) :
    (addition target o value).Steady := by
  unfold addition
  split
  · split
    · exact (steady_operandScore _).bind fun _ _ => steady_pure trivial
    · split <;> exact steady_pure trivial
  · exact steady_pure trivial

theorem steady_functionCall (name : Token) (rest : List Token) :
    (functionCall name rest).Steady := by
  unfold functionCall
  split
  · split
    · exact steady_failAt _ rfl
    · exact steady_call _
  · exact steady_failAt name rfl

theorem steady_assignment (hblock : SteadyBlock block) (target : Score) (targetToken : Token)
    (right : List Token) : (assignment block target targetToken right).Steady := by
  unfold assignment
  split
  · exact steady_failAt targetToken rfl
  · next first rest =>
    refine steady_get.bind fun s _ => ?_
    split
    · refine (steady_operand _ _ _).bind fun value _ => ?_
      split <;> exact steady_pure trivial
    · split
      · exact steady_fail rfl
      · split
        · exact steady_builtin hblock _ _ _ _
        · exact (steady_functionCall _ _).bind fun _ _ => steady_pure trivial
        · exact steady_pure trivial

theorem steady_getStatement (holder : String) (name group : Token) :
    (getStatement holder name group).Steady := by
  unfold getStatement
  split
  · exact steady_failAt group rfl
  · exact (steady_score _ _).bind fun _ _ => steady_pure trivial

theorem steady_operation (hblock : SteadyBlock block) (a : Assignment) :
    (operation block a).Steady := by
  unfold operation
  refine (steady_score _ _).bind fun target _ => ?_
  split
  · split
    · exact steady_failAt _ rfl
    · exact steady_pure trivial
  · split
    · exact steady_failAt _ rfl
    · exact steady_pure trivial
  · exact steady_assignment hblock _ _ _
  · refine (steady_operand _ _ _).bind fun value _ => ?_
    split
    · exact steady_pure trivial
    · exact steady_failAt _ rfl
  · refine (steady_operand _ _ _).bind fun value _ => ?_
    split
    · exact steady_pure trivial
    · exact steady_failAt _ rfl
  · exact (steady_operand _ _ _).bind fun value _ =>
      (steady_addition _ _ _).bind fun _ _ => steady_pure trivial
  · exact (steady_operand _ _ _).bind fun value _ =>
      (steady_addition _ _ _).bind fun _ _ => steady_pure trivial
  · exact (steady_operand _ _ _).bind fun value _ =>
      (steady_operandScore _).bind fun _ _ => steady_pure trivial

theorem steady_plainVariable (hblock : SteadyBlock block) (first : Token) (rest : List Token) :
    (plainVariable block first rest).Steady := by
  rcases plainVariable_cases block first rest with ⟨holder, group, h⟩ | ⟨a, -, h⟩ | h
  · rw [h]
    exact steady_getStatement _ _ _
  · rw [h]
    exact steady_operation hblock a
  · rw [h]
    exact steady_failAt first rfl

theorem steady_variableChange (hblock : SteadyBlock block) (first : Token) (rest : List Token) :
    (variableChange block first rest).Steady := by
  unfold variableChange
  split
  · split
    · exact steady_failAt first rfl
    · exact steady_plainVariable hblock _ _
  · exact steady_plainVariable hblock _ _

/-! ### Definitions -/

/-- A function inside the reserved segment is warned about before its body is compiled. -/
theorem checkPath_keeps {base s : Session} (head : FunctionHead) (hs : base.Leads s) :
    (checkPath head).Keeps base s fun _ s' => head.path.isPrivate = true → s'.Warned := by
  refine (keeps_get hs).bind fun s₁ s₂ hs₂ h => ?_
  obtain ⟨rfl, rfl⟩ := h
  split
  · exact keeps_throw hs rfl
  · simp only
    generalize (if head.path = tickPath then s₂.tickDefined else s₂.pack.hasFunction head.path) = taken
    split
    · exact keeps_throw hs rfl
    · split
      · refine ⟨hs.trans (s₂.leads_warnings _), fun _ => ?_⟩
        exact ⟨_, List.mem_append_right _ (List.mem_singleton_self _), _, rfl⟩
      · next hprivate => exact keeps_pure hs fun h => absurd h hprivate

theorem steady_functionDefinition (hblock : SteadyBlock block) (level : Level) (keyword : Token)
    (rest : List Token) : (functionDefinition block level.functions keyword rest).Steady := by
  refine (steady_ofExcept (functionHead_regular level keyword rest)).bind fun head _ s hs => ?_
  refine (checkPath_keeps head (.refl s)).bind fun _ s₁ hs₁ hwarned₁ => ?_
  refine ((steady_debug _).keeps hs₁ (hs₁.counted hs)).bind fun _ s₂ hs₂ h₂ => ?_
  refine ((steady_body hblock head.body).keeps hs₂ (hs₂.counted hs)).bind
    fun commands s₃ hs₃ h₃ => ?_
  have hwarned : head.path.isPrivate = true → s₃.Warned :=
    fun h => h₃.1.warned (h₂.1.warned (hwarned₁ h))
  split
  · have htick := s₃.leads_extendFunction (by decide : tickPath.isPrivate = false) commands
    exact ⟨(hs₃.trans htick).trans (.of_same rfl rfl rfl id), trivial⟩
  · refine (keeps_get hs₃).bind fun s₄ s₅ hs₅ h => ?_
    obtain ⟨rfl, rfl⟩ := h
    unfold Pack.addFunction
    split
    · next hadded =>
      split at hadded
      · cases hadded
      · next htaken =>
        obtain rfl := Except.ok.inj hadded
        refine ⟨hs₃.trans (.of_generated rfl rfl id fun h => ?_), trivial⟩
        refine h.append head.path ?_ (by simp [Session.paths]) id hwarned
        rwa [← Pack.hasFunction_iff]
    · next hadded =>
      split at hadded
      · obtain rfl := Except.error.inj hadded
        exact keeps_throw hs₃ rfl
      · cases hadded

theorem steady_newResource (keyword : Token) (rest : List Token) :
    (newResource keyword rest).Steady := by
  refine (steady_ofExcept (resourceHead_regular keyword rest)).bind fun head _ => ?_
  refine steady_get.bind fun s _ => ?_
  split
  · exact steady_fail rfl
  · intro s hs
    refine (keeps_get (.refl s)).bind fun s₁ s₂ hs₂ h => ?_
    obtain ⟨rfl, rfl⟩ := h
    unfold Pack.addResource
    simp only
    split
    · next hadded =>
      split at hadded
      · cases hadded
      · obtain rfl := Except.ok.inj hadded
        exact ⟨.of_same rfl rfl rfl id, trivial⟩
    · next hadded =>
      split at hadded
      · obtain rfl := Except.error.inj hadded
        exact keeps_throw hs₂ rfl
      · cases hadded

theorem steady_classFunctions (hblock : SteadyBlock block) (path : FunctionPath)
    (statements : List Statement) : (classFunctions block path statements).Steady := by
  induction statements with
  | nil => exact steady_pure trivial
  | cons s rest ih =>
    unfold classFunctions
    split
    · exact ih
    · refine (steady_ofExcept (Level.check_regular _ _ _)).bind fun _ _ => ?_
      exact (steady_functionDefinition hblock (.inClass path) _ _).bind fun _ _ => ih

theorem steady_classDefinition (hblock : SteadyBlock block) (keyword : Token) (rest : List Token) :
    (classDefinition block keyword rest).Steady := by
  refine (steady_ofExcept (classHead_regular keyword rest)).bind fun parts _ => ?_
  exact (steady_tokenizeInner _ parts.2).bind fun statements _ =>
    steady_classFunctions hblock parts.1 statements

/-! ### Blocks -/

theorem steady_statement (hblock : SteadyBlock block) (level : Level) (kind : StatementKind)
    (first : Token) (rest : List Token) : (statement block level kind first rest).Steady := by
  cases kind with
  | function =>
    exact (steady_functionDefinition hblock level _ _).bind fun _ _ => steady_pure trivial
  | classDefinition =>
    exact (steady_classDefinition hblock _ _).bind fun _ _ => steady_pure trivial
  | newResource => exact (steady_newResource _ _).bind fun _ _ => steady_pure trivial
  | ifBranch => exact steady_chain hblock _ _ _
  | whileLoop => exact steady_whileLoop hblock _ _
  | doLoop => exact steady_doWhile hblock first rest none
  | forLoop => exact steady_forLoop hblock _ _
  | switch => exact steady_switch hblock _ _
  | variableChange => exact steady_variableChange hblock _ _
  | builtin b => exact steady_builtin hblock b _ _ _
  | call => exact (steady_functionCall _ _).bind fun _ _ => steady_pure trivial
  | vanilla => exact steady_pure trivial
  | importFile | elseBranch | caseLabel | breakCase => exact steady_failAt first rfl

theorem steady_atLevel (level : Level) (s : Statement)
    {compile : Token → List Token → Compile (List Command)}
    (hcompile : ∀ first rest, (compile first rest).Steady) : (atLevel level s compile).Steady := by
  unfold atLevel
  split
  · exact steady_pure trivial
  · exact (steady_ofExcept (level.check_regular _ _)).bind fun _ _ => hcompile _ _

theorem steady_construct (hblock : SteadyBlock block) (level : Level) (c : Construct) :
    (construct block level c).Steady := by
  cases c with
  | chain s elses => exact steady_atLevel level s fun _ _ => steady_chain hblock _ _ _
  | doWhile s tail => exact steady_atLevel level s fun _ _ => steady_doWhile hblock _ _ _
  | single s => exact steady_atLevel level s (steady_statement hblock level s.kind)

theorem steady_bodyConstructs (hblock : SteadyBlock block) (cs : List Construct) :
    (bodyConstructs block cs).Steady := by
  induction cs with
  | nil => exact steady_pure trivial
  | cons c rest ih =>
    exact (steady_construct hblock .body c).bind fun _ _ => ih.bind fun _ _ => steady_pure trivial

/-- Bodies of any depth fail only regularly. -/
theorem steady_block (depth : Nat) : SteadyBlock (Compile.block depth) := by
  induction depth with
  | zero => exact fun _ => steady_throw rfl
  | succ depth ih => exact fun statements => steady_bodyConstructs ih (constructs statements)

/-! ### Files -/

theorem steady_extendLoad (out : List Command) : (modifyPack (·.extendLoad out)).Steady :=
  steady_extendFunction (by decide) out

/-- Imports fail only regularly. -/
def SteadyImporter (importer : Importer) : Prop := ∀ path place, (importer path place).Steady

variable {importer : Importer}

theorem steady_topConstructs (himporter : SteadyImporter importer) (depth : Nat)
    (cs : List Construct) (out : List Command) :
    (topConstructs (Compile.block depth) importer out cs).Steady := by
  induction cs generalizing out with
  | nil => exact steady_pure trivial
  | cons c rest ih =>
    unfold topConstructs
    split
    · refine (steady_ofExcept (importTarget_regular _ _)).bind fun target _ => ?_
      refine (steady_extendLoad out).bind fun _ _ => steady_get.bind fun s _ => ?_
      exact (himporter _ _).bind fun _ _ => ih []
    · exact (steady_construct (steady_block depth) .top c).bind fun _ _ => ih _

theorem steady_topLevel (himporter : SteadyImporter importer) (text : String) :
    (topLevel importer text).Steady := by
  refine (steady_tokenize _ _ _).bind fun statements _ => ?_
  refine (steady_topConstructs himporter _ _ _).bind fun out _ => ?_
  exact steady_extendLoad out

theorem inFile_isRegular (name text : String) (e : Failure) :
    (inFile name text e).isRegular = e.isRegular := by
  cases e <;> rfl

/-- Naming the file keeps what was warned about. -/
theorem leads_inFile (s : Session) (before : Nat) (name text : String) :
    s.Leads { s with
      warnings := s.warnings.take before ++ (s.warnings.drop before).map (·.inFile name text) } := by
  refine .of_same rfl rfl rfl fun ⟨w, hw, path, hnotice⟩ => ?_
  rw [← List.take_append_drop before s.warnings] at hw
  rcases List.mem_append.mp hw with hw | hw
  · exact ⟨w, List.mem_append_left _ hw, path, hnotice⟩
  · exact ⟨w.inFile name text, List.mem_append_right _ (List.mem_map_of_mem hw), path, hnotice⟩

theorem steady_source (himporter : SteadyImporter importer) (name text : String) :
    (source importer name text).Steady := by
  intro s hs
  generalize hstart : ({ s with log := s.log ++ [⟨.debug, "compiling " ++ name⟩] } : Session) =
    start
  have hleads : s.Leads start := hstart ▸ .of_same rfl rfl rfl id
  have hrun : (source importer name text).outcome s =
      ((((topLevel importer text).outcome start).1).mapError (inFile name text),
        { ((topLevel importer text).outcome start).2 with
          warnings := ((topLevel importer text).outcome start).2.warnings.take s.warnings.length ++
            (((topLevel importer text).outcome start).2.warnings.drop s.warnings.length).map
              (·.inFile name text) }) := by
    rw [← hstart]
    rfl
  have htop := (steady_topLevel himporter text).keeps hleads (hleads.counted hs)
  unfold Keeps at htop ⊢
  rw [hrun]
  generalize (topLevel importer text).outcome start = result at htop ⊢
  obtain ⟨value, s'⟩ := result
  cases value with
  | ok a => exact ⟨htop.1.trans (leads_inFile s' _ name text), trivial⟩
  | error e =>
    refine ⟨htop.1.trans (leads_inFile s' _ name text), ?_⟩
    rw [inFile_isRegular]
    exact htop.2

theorem steady_importWith (files : File.Tree) {compile : String → String → Compile Unit}
    (hcompile : ∀ name text, (compile name text).Steady) :
    SteadyImporter (importWith files compile) := by
  intro path place
  unfold importWith
  split
  · exact steady_fail rfl
  · next place text _ =>
    intro s hs
    refine (keeps_get (.refl s)).bind fun s₁ s₂ hs₂ h => ?_
    obtain ⟨rfl, rfl⟩ := h
    split
    · exact steady_debug _ s₂ hs
    · have hbegun : s₂.Leads { s₂ with imported := s₂.imported ++ [place] } :=
        .of_same rfl rfl rfl id
      exact ((hcompile _ text).keeps hbegun (hbegun.counted hs)).mono fun _ _ _ _ => trivial

theorem steady_importWithin (files : File.Tree) (depth : Nat) :
    SteadyImporter (importWithin files depth) := by
  induction depth with
  | zero => exact steady_importWith files fun _ _ => steady_throw rfl
  | succ depth ih => exact steady_importWith files fun name text => steady_source ih name text

/-- Whole steps of a session fail only regularly. -/
theorem steady_step {m : Compile Unit} (hm : m.Steady) : (step m).Steady := by
  refine steady_get.bind fun s _ => (steady_ofExcept (validateSpace_regular _)).bind fun _ _ => ?_
  intro s hs
  have hrun : outcome (ExceptT.mk do
      let result ← m.run
      modify flushWarnings
      return result) s = ((m.outcome s).1, flushWarnings (m.outcome s).2) := rfl
  have hflush : ∀ s' : Session, s'.Leads (flushWarnings s') := fun s' => .of_same rfl rfl rfl id
  obtain ⟨hleads, -, hregular⟩ := keeps_iff.mp (hm s hs)
  rw [keeps_iff, hrun]
  exact ⟨hleads.trans (hflush _), fun _ _ => trivial, hregular⟩

end Compile

end Packwright
