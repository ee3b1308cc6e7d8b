import Packwright.Proofs.Session.Neat
import Packwright.Proofs.Session.Outcomes

/-!
# Compilation keeps sessions neat

Every statement is compiled to neat commands, and every file leads from a neat session to a neat
session. The texts that the user gives to a built-in function go into names that are checked, into
quoted messages, or into particles and criteria.

## Main results

- `Compile.tidy_builtin`, `Compile.tidy_variableChange`, `Compile.tidy_functionDefinition` —
  statements
- `Compile.tidy_block` — bodies of any depth
- `Compile.tidy_importWithin` — files
-/

namespace Packwright.Compile

variable {block : Block}

/-! ### Built-in functions -/

theorem unbroken_sqrt : Unbroken Sqrt.number.render ∧ Unbroken Sqrt.estimate.render ∧
    Unbroken Sqrt.previous.render := by
  decide

theorem neat_mainBody {callStep : Command} (h : callStep.Neat) :
    NeatCommands (Sqrt.mainBody callStep) :=
  List.forall_mem_cons.mpr ⟨Command.neat_of_scores rfl (by decide), neatCommands_singleton h⟩

theorem neat_stepBody {callMain : Command} (h : callMain.Neat) :
    NeatCommands (Sqrt.stepBody callMain) := by
  have htest : Unbroken (Clause.mk false (.compare Sqrt.estimate .lt Sqrt.previous)).render := by
    decide
  simp only [Sqrt.stepBody, NeatCommands, List.forall_mem_cons]
  refine ⟨Command.neat_of_scores rfl (by decide), Command.neat_of_scores rfl (by decide),
    Command.neat_of_scores rfl (by decide), Command.neat_of_scores rfl ?_, ?_,
    List.forall_mem_nil _⟩
  · simp [unbroken_sqrt]
  · exact h.guarded (List.forall_mem_singleton.mpr htest)

theorem neat_useBody {setNumber callMain : Command} {target : Score} (hset : setNumber.Neat)
    (htarget : Unbroken target.render) (h : callMain.Neat) :
    NeatCommands (Sqrt.useBody setNumber target callMain) := by
  have htest : Unbroken (Clause.mk false (.inRange Sqrt.number (.atLeast 2))).render := by decide
  simp only [Sqrt.useBody, NeatCommands, List.forall_mem_cons]
  refine ⟨hset, Command.neat_of_scores rfl (by decide), Command.neat_of_scores rfl (by decide), ?_,
    Command.neat_of_scores rfl ?_, List.forall_mem_nil _⟩
  · exact h.guarded (List.forall_mem_singleton.mpr htest)
  · simp [htarget, unbroken_sqrt]

theorem tidy_emitSqrt {callMain callStep : Command} (hmain : callMain.Neat)
    (hstep : callStep.Neat) : (emitSqrt callMain callStep).Tidy := by
  refine tidy_get.bind fun s _ => ?_
  split
  · refine (tidy_registerConstant 2).bind fun _ _ => ?_
    refine (tidy_register _ (by decide) (neat_mainBody hstep)).bind fun _ _ => ?_
    refine (tidy_register _ (by decide) (neat_stepBody hmain)).bind fun _ _ => ?_
    refine .bind (tidy_modify ?_) fun _ _ => tidy_debug _
    exact fun s hs => ⟨hs.space, hs.scope, hs.pack⟩
  · exact tidy_pure trivial

theorem tidy_sqrt {args : Bindings} (hargs : args.Shield .mathSqrt) {target : Score}
    (htarget : Unbroken target.render) : (sqrt args target).Tidy NeatCommands := by
  have hname : ∀ {name}, Unbroken name → Unbroken (Feature.mathSqrt.path name).text :=
    (Feature.unbroken_path _).mpr
  refine (tidy_call (hname (by decide))).bind fun callMain hmain => ?_
  refine (tidy_call (hname (by decide))).bind fun callStep hstep => ?_
  refine (tidy_emitSqrt hmain hstep).bind fun _ _ => ?_
  have hvalue := hargs "value" .scoreOrInteger (by decide)
  refine (tidy_ofExcept hvalue).bind fun v hv => ?_
  split
  · exact tidy_pure (neat_useBody (Command.neat_of_scores rfl (by decide)) htarget hmain)
  · next score =>
    have hscore : Unbroken score.render := hv
    refine tidy_pure (neat_useBody (Command.neat_of_scores rfl ?_) htarget hmain)
    simp [unbroken_sqrt, hscore]
  · exact tidy_ofExcept fun _ h => by cases h

theorem tidy_random (args : Bindings) {target : Score} (htarget : Unbroken target.render) :
    (random args target).Tidy NeatCommands := by
  refine (tidy_ofExcept fun _ _ => trivial).bind fun min _ => ?_
  refine (tidy_ofExcept fun _ _ => trivial).bind fun max _ => ?_
  split
  · exact tidy_fail
  · refine tidy_pure (neatCommands_singleton ?_)
    exact (Command.neat_of_scores rfl (List.forall_mem_nil _)).store htarget

theorem tidy_addObjective {args : Bindings} (hargs : args.Shield .scoreboardAdd) :
    (addObjective args).Tidy NeatCommands := by
  refine (tidy_ofExcept fun _ h => hargs.text (by decide) h).bind
    fun objective hobjective => ?_
  refine (tidy_ofExcept fun _ _ => trivial).bind fun criteria _ => ?_
  refine tidy_get.bind fun s _ => ?_
  split
  · exact (tidy_warn _ _).bind fun _ _ => tidy_pure neatCommands_nil
  · exact (tidy_declare hobjective _).bind fun _ _ => tidy_pure neatCommands_nil

theorem tidy_onEvent (hblock : TidyBlock block) {args : Bindings}
    (hargs : args.Shield .playerOnEvent) : (onEvent block args).Tidy NeatCommands := by
  refine (tidy_ofExcept fun _ h => hargs.text (by decide) h).bind
    fun objective hobjective => ?_
  refine (tidy_ofExcept fun _ _ => trivial).bind fun criteria _ => ?_
  refine (tidy_ofExcept fun _ _ => trivial).bind fun handler _ => ?_
  refine (tidy_declare hobjective _).bind fun _ _ => ?_
  refine (tidy_body hblock handler).bind fun commands hcommands => ?_
  have hreset : Command.Neat (.reset ⟨"@s", objective⟩) :=
    Command.neat_of_scores rfl (by simp +decide [Score.unbroken_render, hobjective])
  refine (tidy_registerNext _ (hcommands.append (neatCommands_singleton hreset))).bind
    fun path hpath => ?_
  refine (tidy_debug _).bind fun _ _ => (tidy_call hpath).bind fun hook hhook => ?_
  have htick := neatCommands_singleton (hhook.forPlayers hobjective)
  exact (tidy_extendFunction _ htick).bind fun _ _ => tidy_pure neatCommands_nil

theorem tidy_circle (args : Bindings) : (circle args).Tidy NeatCommands := by
  refine (tidy_ofExcept fun _ _ => trivial).bind fun particle _ => ?_
  refine (tidy_ofExcept fun _ _ => trivial).bind fun radius _ => ?_
  refine (tidy_ofExcept fun _ _ => trivial).bind fun spread _ => ?_
  split
  · refine tidy_pure (List.forall_mem_map.mpr fun place hplace => ?_)
    obtain ⟨index, -, rfl⟩ := List.mem_map.mp hplace
    have hneat := Command.neat_draw particle radius.toFloat spread.toNat index
    generalize Circle.point radius.toFloat spread.toNat index = place at hneat ⊢
    exact hneat
  · exact tidy_fail

theorem tidy_tellraw {args : Bindings} (hargs : args.Shield .textTellraw) :
    (tellraw args).Tidy NeatCommands := by
  refine (tidy_ofExcept fun _ h => hargs.text (by decide) h).bind
    fun selector hselector => ?_
  refine (tidy_ofExcept fun _ _ => trivial).bind fun message _ => tidy_get.bind fun s _ => tidy_pure ?_
  exact neatCommands_singleton (Command.neat_written (by simp +decide [hselector]))

theorem tidy_expand (hblock : TidyBlock block) (b : Builtin) {target : Option Score}
    (htarget : ∀ s ∈ target, Unbroken s.render) {args : Bindings} (hargs : args.Shield b) :
    (expand block b target args).Tidy NeatCommands := by
  unfold expand
  split
  · exact tidy_sqrt hargs (htarget _ rfl)
  · exact tidy_random args (htarget _ rfl)
  · exact tidy_addObjective hargs
  · exact tidy_onEvent hblock hargs
  · exact tidy_circle args
  · exact tidy_tellraw hargs
  · exact tidy_fail

theorem tidy_builtin (hblock : TidyBlock block) (b : Builtin) (name : Token) (rest : List Token)
    {target : Option Score} (htarget : ∀ s ∈ target, Unbroken s.render) :
    (builtin block b name rest target).Tidy NeatCommands := by
  unfold builtin
  split
  · split
    · exact tidy_failAt
    · exact tidy_failAt
    · refine (tidy_ofNoting _).bind fun arguments _ => tidy_get.bind fun s hs => ?_
      refine (tidy_ofExcept fun _ h => Builtin.bind_shields hs.scope h).bind fun args hargs => ?_
      exact (tidy_debug _).bind fun _ _ => tidy_expand hblock b htarget hargs
  · exact tidy_failAt

/-! ### Variable statements -/

theorem tidy_score (text : String) (t : Token) :
    (score text t).Tidy fun s => Unbroken s.render := by
  unfold score
  refine .bind (tidy_score? _) fun result hresult => ?_
  split
  · exact tidy_pure (hresult _ rfl)
  · exact tidy_failAt

/-- The score of an operand is unbroken. -/
def NeatOperand : Operand → Prop
  | .int _ => True
  | .score s => Unbroken s.render

theorem tidy_checkSingle (value : Token) (rest : List Token) : (checkSingle value rest).Tidy := by
  unfold checkSingle
  split
  · exact tidy_fail
  · split
    · exact tidy_pure trivial
    · split
      · exact tidy_fail
      · exact tidy_failAt

theorem tidy_operand (o : Operator) (target : Token) (right : List Token) :
    (operand o target right).Tidy fun value => NeatOperand value.2 := by
  unfold operand
  split
  · exact tidy_failAt
  · next value rest =>
    refine (tidy_checkSingle value rest).bind fun _ _ => ?_
    refine (tidy_ofExcept fun _ _ => trivial).bind fun n _ => ?_
    split
    · exact tidy_pure trivial
    · refine tidy_get.bind fun s hs => ?_
      split
      · next score hscore =>
        obtain ⟨word, -, hscore⟩ := Option.bind_eq_some_iff.mp hscore
        exact tidy_pure (Score.unbroken_parseIn? hs.scope hscore)
      · exact tidy_failAt

theorem tidy_operandScore {value : Operand} (hvalue : NeatOperand value) :
    (operandScore value).Tidy fun s => Unbroken s.render := by
  cases value with
  | score s => exact tidy_pure hvalue
  | int n => exact (tidy_registerConstant n).bind fun _ _ => tidy_pure (Score.unbroken_ofConstant n)

theorem neat_operate {target source : Score} (htarget : Unbroken target.render)
    (hsource : Unbroken source.render) (o : Operation) : (Command.operate target o source).Neat :=
  Command.neat_of_scores rfl (by simp [htarget, hsource])

theorem tidy_addition {target : Score} (htarget : Unbroken target.render) (o : Operator)
    {value : Operand} (hvalue : NeatOperand value) :
    (addition target o value).Tidy Command.Neat := by
  unfold addition
  split
  · split
    · exact (tidy_operandScore hvalue).bind fun s hs => tidy_pure (neat_operate htarget hs _)
    · split
      · exact tidy_pure (Command.neat_of_scores rfl (List.forall_mem_singleton.mpr htarget))
      · exact tidy_pure (Command.neat_of_scores rfl (List.forall_mem_singleton.mpr htarget))
  · exact tidy_pure (neat_operate htarget hvalue _)

/-- A call is spelled from the name of a function. -/
theorem tidy_functionCall {name : Token} {rest : List Token}
    (hshape : isCallShape (name :: rest) = true) : (functionCall name rest).Tidy Command.Neat := by
  unfold functionCall
  split
  · next group =>
    split
    · exact tidy_failAt
    · simp only [isCallShape, Bool.and_eq_true] at hshape
      refine tidy_call (FunctionPath.unbroken_ofName ?_)
      have hname := hshape.2
      unfold Token.word? at hname
      split at hname
      · exact hname
      · cases hname
  · exact tidy_failAt

theorem tidy_assignment (hblock : TidyBlock block) {target : Score}
    (htarget : Unbroken target.render) (targetToken : Token) (right : List Token) :
    (assignment block target targetToken right).Tidy NeatCommands := by
  unfold assignment
  split
  · exact tidy_failAt
  · next first rest =>
    refine tidy_get.bind fun s _ => ?_
    split
    · refine (tidy_operand _ _ _).bind fun value hvalue => ?_
      split
      · refine tidy_pure (neatCommands_singleton ?_)
        exact Command.neat_of_scores rfl (List.forall_mem_singleton.mpr htarget)
      · exact tidy_pure (neatCommands_singleton (neat_operate htarget hvalue _))
    · split
      · exact tidy_fail
      · split
        · refine tidy_builtin hblock _ _ _ fun s hs => ?_
          obtain rfl := Option.some.inj hs
          exact htarget
        · next hkind =>
          refine (tidy_functionCall (Statement.isCallShape_of_kind hkind)).bind fun c hc => ?_
          exact tidy_pure (neatCommands_singleton (hc.store htarget))
        · refine tidy_pure (neatCommands_singleton ?_)
          exact (Command.neat_written (unbroken_joinTokens _)).store htarget

theorem tidy_getStatement (holder : String) (name group : Token) :
    (getStatement holder name group).Tidy NeatCommands := by
  unfold getStatement
  split
  · exact tidy_failAt
  · refine (tidy_score _ _).bind fun s hs => tidy_pure (neatCommands_singleton ?_)
    exact Command.neat_of_scores rfl (List.forall_mem_singleton.mpr hs)

theorem tidy_operation (hblock : TidyBlock block) (a : Assignment) :
    (operation block a).Tidy NeatCommands := by
  unfold operation
  refine (tidy_score _ _).bind fun target htarget => ?_
  have hstep : ∀ o : Operator, Command.Neat
      (if o = .increment then .add target 1 else .remove target 1) := by
    intro o
    split <;> exact Command.neat_of_scores rfl (List.forall_mem_singleton.mpr htarget)
  split
  · split
    · exact tidy_failAt
    · exact tidy_pure (neatCommands_singleton (hstep _))
  · split
    · exact tidy_failAt
    · exact tidy_pure (neatCommands_singleton (hstep _))
  · exact tidy_assignment hblock htarget _ _
  · refine (tidy_operand _ _ _).bind fun value hvalue => ?_
    split
    · exact tidy_pure (neatCommands_singleton (neat_operate hvalue htarget _))
    · exact tidy_failAt
  · refine (tidy_operand _ _ _).bind fun value hvalue => ?_
    split
    · exact tidy_pure (neatCommands_singleton (neat_operate htarget hvalue _))
    · exact tidy_failAt
  · exact (tidy_operand _ _ _).bind fun value hvalue =>
      (tidy_addition htarget _ hvalue).bind fun c hc => tidy_pure (neatCommands_singleton hc)
  · exact (tidy_operand _ _ _).bind fun value hvalue =>
      (tidy_addition htarget _ hvalue).bind fun c hc => tidy_pure (neatCommands_singleton hc)
  · exact (tidy_operand _ _ _).bind fun value hvalue =>
      (tidy_operandScore hvalue).bind fun s hs =>
        tidy_pure (neatCommands_singleton (neat_operate htarget hs _))

theorem tidy_plainVariable (hblock : TidyBlock block) (first : Token) (rest : List Token) :
    (plainVariable block first rest).Tidy NeatCommands := by
  rcases plainVariable_cases block first rest with ⟨holder, group, h⟩ | ⟨a, -, h⟩ | h
  · rw [h]
    exact tidy_getStatement _ _ _
  · rw [h]
    exact tidy_operation hblock a
  · rw [h]
    exact tidy_failAt

theorem tidy_variableChange (hblock : TidyBlock block) (first : Token) (rest : List Token) :
    (variableChange block first rest).Tidy NeatCommands := by
  unfold variableChange
  split
  · split
    · exact tidy_failAt
    · exact tidy_plainVariable hblock _ _
  · exact tidy_plainVariable hblock _ _

/-! ### Definitions -/

theorem tidy_checkPath (head : FunctionHead) : (checkPath head).Tidy := by
  refine tidy_get.bind fun s _ => ?_
  split
  · exact tidy_failAt
  · simp only
    generalize (if head.path = tickPath then s.tickDefined
      else s.pack.hasFunction head.path) = taken
    split
    · exact tidy_failAt
    · split
      · exact tidy_warn _ _
      · exact tidy_pure trivial

theorem tidy_functionDefinition (hblock : TidyBlock block) (level : Except Cause FunctionPath)
    (keyword : Token) (rest : List Token) :
    (functionDefinition block level keyword rest).Tidy := by
  refine (tidy_ofExcept fun _ _ => trivial).bind fun head _ => ?_
  refine (tidy_checkPath head).bind fun _ _ => (tidy_debug _).bind fun _ _ => ?_
  refine (tidy_body hblock head.body).bind fun commands hcommands => ?_
  split
  · refine tidy_modify fun s hs => ?_
    exact ⟨hs.space, hs.scope, hs.pack.extendFunction tickPath hcommands⟩
  · refine tidy_get.bind fun s hs => ?_
    unfold Pack.addFunction
    split
    · next hadded =>
      split at hadded
      · cases hadded
      · obtain rfl := Except.ok.inj hadded
        exact tidy_modify fun s' hs' =>
          ⟨hs'.space, hs'.scope, hs.pack.addFunction head.path hcommands⟩
    · exact tidy_failAt

theorem tidy_newResource (keyword : Token) (rest : List Token) :
    (newResource keyword rest).Tidy := by
  refine (tidy_ofExcept fun _ _ => trivial).bind fun head _ => tidy_get.bind fun s _ => ?_
  split
  · exact tidy_fail
  · refine tidy_get.bind fun s hs => ?_
    unfold Pack.addResource
    simp only
    split
    · next hadded =>
      split at hadded
      · cases hadded
      · obtain rfl := Except.ok.inj hadded
        exact tidy_modify fun s' hs' =>
          ⟨hs'.space, hs'.scope, hs.pack.objectives, hs.pack.functions, hs.pack.generated⟩
    · exact tidy_failAt

theorem tidy_classFunctions (hblock : TidyBlock block) (path : FunctionPath)
    (statements : List Statement) : (classFunctions block path statements).Tidy := by
  induction statements with
  | nil => exact tidy_pure trivial
  | cons s rest ih =>
    unfold classFunctions
    split
    · exact ih
    · refine (tidy_ofExcept fun _ _ => trivial).bind fun _ _ => ?_
      exact (tidy_functionDefinition hblock _ _ _).bind fun _ _ => ih

theorem tidy_classDefinition (hblock : TidyBlock block) (keyword : Token) (rest : List Token) :
    (classDefinition block keyword rest).Tidy := by
  refine (tidy_ofExcept fun _ _ => trivial).bind fun parts _ => ?_
  exact (tidy_tokenizeInner _ parts.2).bind fun statements _ =>
    tidy_classFunctions hblock parts.1 statements

/-! ### Blocks -/

theorem tidy_statement (hblock : TidyBlock block) (level : Level) {first : Token}
    {rest : List Token} {kind : StatementKind} (hkind : (Statement.mk (first :: rest)).kind = kind) :
    (statement block level kind first rest).Tidy NeatCommands := by
  cases kind with
  | function =>
    exact (tidy_functionDefinition hblock _ _ _).bind fun _ _ => tidy_pure neatCommands_nil
  | classDefinition =>
    exact (tidy_classDefinition hblock _ _).bind fun _ _ => tidy_pure neatCommands_nil
  | newResource => exact (tidy_newResource _ _).bind fun _ _ => tidy_pure neatCommands_nil
  | ifBranch => exact tidy_chain hblock _ _ _
  | whileLoop => exact tidy_whileLoop hblock _ _
  | doLoop => exact tidy_doWhile hblock first rest none
  | forLoop => exact tidy_forLoop hblock _ _
  | switch => exact tidy_switch hblock _ _
  | variableChange => exact tidy_variableChange hblock _ _
  | builtin b => exact tidy_builtin hblock b _ _ (by simp)
  | call =>
    exact (tidy_functionCall (Statement.isCallShape_of_kind hkind)).bind fun c hc =>
      tidy_pure (neatCommands_singleton hc)
  | vanilla =>
    exact tidy_pure (neatCommands_singleton (Command.neat_written (unbroken_joinTokens _)))
  | importFile | elseBranch | caseLabel | breakCase => exact tidy_failAt

theorem tidy_atLevel (level : Level) (s : Statement)
    {compile : Token → List Token → Compile (List Command)}
    (hcompile : ∀ first rest, s.tokens = first :: rest → (compile first rest).Tidy NeatCommands) :
    (atLevel level s compile).Tidy NeatCommands := by
  unfold atLevel
  split
  · exact tidy_pure neatCommands_nil
  · next htokens =>
    exact (tidy_ofExcept fun _ _ => trivial).bind fun _ _ => hcompile _ _ htokens

theorem tidy_construct (hblock : TidyBlock block) (level : Level) (c : Construct) :
    (construct block level c).Tidy NeatCommands := by
  cases c with
  | chain s elses => exact tidy_atLevel level s fun _ _ _ => tidy_chain hblock _ _ _
  | doWhile s tail => exact tidy_atLevel level s fun _ _ _ => tidy_doWhile hblock _ _ _
  | single s =>
    refine tidy_atLevel level s fun first rest htokens => tidy_statement hblock level ?_
    rw [← htokens]

theorem tidy_bodyConstructs (hblock : TidyBlock block) (cs : List Construct) :
    (bodyConstructs block cs).Tidy NeatCommands := by
  induction cs with
  | nil => exact tidy_pure neatCommands_nil
  | cons c rest ih =>
    exact (tidy_construct hblock .body c).bind fun commands hcommands =>
      ih.bind fun more hmore => tidy_pure (hcommands.append hmore)

/-- Bodies of any depth give neat commands. -/
theorem tidy_block (depth : Nat) : TidyBlock (Compile.block depth) := by
  induction depth with
  | zero => exact fun _ => tidy_throw
  | succ depth ih => exact fun statements => tidy_bodyConstructs ih (constructs statements)

/-! ### Files -/

/-- Imports keep the session neat. -/
def TidyImporter (importer : Importer) : Prop := ∀ path place, (importer path place).Tidy

variable {importer : Importer}

theorem tidy_topConstructs (himporter : TidyImporter importer) (depth : Nat) (cs : List Construct)
    {out : List Command} (hout : NeatCommands out) :
    (topConstructs (Compile.block depth) importer out cs).Tidy NeatCommands := by
  induction cs generalizing out with
  | nil => exact tidy_pure hout
  | cons c rest ih =>
    unfold topConstructs
    split
    · refine (tidy_ofExcept fun _ _ => trivial).bind fun target _ => ?_
      refine (tidy_extendFunction loadPath hout).bind fun _ _ => tidy_get.bind fun s _ => ?_
      exact (himporter _ _).bind fun _ _ => ih neatCommands_nil
    · exact (tidy_construct (tidy_block depth) .top c).bind fun commands hcommands =>
        ih (hout.append hcommands)

theorem tidy_topLevel (himporter : TidyImporter importer) (text : String) :
    (topLevel importer text).Tidy := by
  refine (tidy_tokenize _ _ _).bind fun statements _ => ?_
  refine (tidy_topConstructs himporter _ _ neatCommands_nil).bind fun out hout => ?_
  exact tidy_extendFunction loadPath hout

theorem tidy_source (himporter : TidyImporter importer) (name text : String) :
    (source importer name text).Tidy := by
  refine tidy_iff_outcome.mpr fun s hs => ?_
  obtain ⟨log, warnings, -, hafter⟩ := source_outcome importer name text s
  rw [hafter]
  have htop := tidy_iff_outcome.mp (tidy_topLevel himporter text) { s with log }
    ⟨hs.space, hs.scope, hs.pack⟩
  exact ⟨htop.space, htop.scope, htop.pack⟩

theorem tidy_importWith (files : File.Tree) {compile : String → String → Compile Unit}
    (hcompile : ∀ name text, (compile name text).Tidy) :
    TidyImporter (importWith files compile) := by
  intro path place
  unfold importWith
  split
  · exact tidy_fail
  · refine tidy_get.bind fun s hs => ?_
    split
    · exact tidy_debug _
    · refine .bind (tidy_set ?_) fun _ _ => hcompile _ _
      exact ⟨hs.space, hs.scope, hs.pack⟩

theorem tidy_importWithin (files : File.Tree) (depth : Nat) :
    TidyImporter (importWithin files depth) := by
  induction depth with
  | zero => exact tidy_importWith files fun _ _ => tidy_throw
  | succ depth ih => exact tidy_importWith files fun name text => tidy_source ih name text

end Packwright.Compile
