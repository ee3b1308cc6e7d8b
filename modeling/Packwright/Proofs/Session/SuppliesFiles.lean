import Packwright.Proofs.Session.Supplies

/-!
# Compilation keeps sessions supplied

Every statement registers the constants that its commands read, and every file leads from a supplied
session to a supplied session. The constants come from integers on the right of an operator and from
the functions of the square root.

## Main results

- `Compile.supplies_builtin`, `Compile.supplies_variableChange`, `Compile.supplies_functionDefinition` —
  statements
- `Compile.supplies_block` — bodies of any depth
- `Compile.supplies_importWithin` — files
-/

namespace Packwright

/-! ### Scores among arguments -/

namespace ParamKind

variable {kind : ParamKind} {s : Score}

theorem convert?_userHeld {scope : Scope} (hscope : scope.UserHeld) {a : Argument}
    (h : kind.convert? scope a = some (.score s)) : s.UserHeld := by
  have hread : (a.word?.bind (Score.parseIn? scope)).map Value.score = some (.score s) →
      s.UserHeld := by
    intro h
    obtain ⟨own, hown, heq⟩ := Option.map_eq_some_iff.mp h
    obtain rfl := Value.score.inj heq
    obtain ⟨word, -, hown⟩ := Option.bind_eq_some_iff.mp hown
    exact Score.parseIn?_userHeld hscope hown
  cases kind with
  | score => exact hread h
  | scoreOrInteger =>
    rcases Option.or_eq_some_iff.mp h with h | ⟨-, h⟩
    · obtain ⟨n, -, hn⟩ := Option.map_eq_some_iff.mp h
      cases hn
    · exact hread h
  | text => cases a <;> cases h
  | integer | number | selector | objective | arrow =>
    obtain ⟨v, -, hv⟩ := Option.map_eq_some_iff.mp h
    cases hv

theorem default?_ne_score {text : String} : kind.default? text ≠ some (.score s) := by
  intro h
  cases kind with
  | integer =>
    simp only [ParamKind.default?] at h
    split at h <;> simp at h
  | _ => simp [ParamKind.default?] at h

end ParamKind

/-- A score among the values of a call is one of the user. -/
theorem Builtin.bind_userHeld {b : Builtin} {scope : Scope} (hscope : scope.UserHeld)
    {args : Arguments} {bound : Bindings} (h : b.bind scope args = .ok bound) {name : String}
    {s : Score} (hs : bound.get name = .ok (.score s)) : s.UserHeld := by
  obtain ⟨p, -, -, ⟨a, -, -, hs⟩ | ⟨d, -, hs⟩⟩ := of_get_bind h hs
  · exact ParamKind.convert?_userHeld hscope hs
  · exact absurd hs ParamKind.default?_ne_score

/-- The constants that an operand reads before it has become a score. -/
def Operand.constants : Operand → Set Int
  | .int _ => ∅
  | .score s => s.constants

namespace Compile

variable {given : Set Int} {block : Block}

/-! ### Built-in functions -/

theorem constants_sqrtScores : Sqrt.number.constants = ∅ ∧ Sqrt.estimate.constants = ∅ ∧
    Sqrt.previous.constants = ∅ := by
  refine ⟨?_, ?_, ?_⟩
  all_goals exact Score.constants_eq_empty (c := '_') (by decide) (by decide) (by decide)

theorem constants_mainBody (callStep : Command) :
    commandConstants (Sqrt.mainBody callStep) = callStep.constants := by
  simp [Sqrt.mainBody, Command.constants, constants_sqrtScores]

/-- A round of the square root divides by two. -/
theorem constants_stepBody (callMain : Command) :
    commandConstants (Sqrt.stepBody callMain) = {2} ∪ callMain.constants := by
  simp [Sqrt.stepBody, Command.constants, Test.constants, constants_sqrtScores,
    Score.constants_ofConstant]

theorem constants_useBody (setNumber : Command) (target : Score) (callMain : Command) :
    commandConstants (Sqrt.useBody setNumber target callMain) =
      setNumber.constants ∪ callMain.constants ∪ target.constants := by
  simp [Sqrt.useBody, Command.constants, Test.constants, constants_sqrtScores, Set.union_assoc]

theorem supplies_emitSqrt {callMain callStep : Command} (hmain : callMain.constants ⊆ given)
    (hstep : callStep.constants ⊆ given) : (emitSqrt callMain callStep).Supplies given := by
  refine supplies_get fun s _ => ?_
  split
  · refine (supplies_registerConstant 2).bind fun _ => ?_
    refine (supplies_register _ _ ?_).next fun _ => (supplies_register _ _ ?_).next fun _ => ?_
    · rw [constants_mainBody]
      exact hstep.trans Set.subset_union_left
    · rw [constants_stepBody]
      exact Set.union_subset Set.subset_union_right (hmain.trans Set.subset_union_left)
    · refine (supplies_modify ?_).next fun _ => supplies_debug _
      exact fun s hs _ => hs.stays rfl rfl rfl (Set.Subset.refl _)
  · exact supplies_pure (Set.empty_subset _)

theorem supplies_sqrt {args : Bindings}
    (hargs : ∀ s, args.get "value" = .ok (.score s) → s.UserHeld) {target : Score}
    (htarget : target.constants ⊆ given) : (sqrt args target).Supplies given commandConstants := by
  refine (supplies_call _).bind fun callMain => (supplies_call _).bind fun callStep => ?_
  refine (supplies_emitSqrt (by grind) (by grind)).next fun _ => supplies_ofExcept fun v hv => ?_
  split
  · refine supplies_pure ?_
    simp only [constants_useBody, Command.constants, constants_sqrtScores]
    grind
  · next score =>
    refine supplies_pure ?_
    simp only [constants_useBody, Command.constants, constants_sqrtScores, (hargs score hv).constants]
    grind
  · exact supplies_throw

theorem supplies_random (args : Bindings) {target : Score} (htarget : target.constants ⊆ given) :
    (random args target).Supplies given commandConstants := by
  refine supplies_ofExcept fun min _ => supplies_ofExcept fun max _ => ?_
  split
  · exact supplies_fail
  · exact supplies_pure (by simpa [Command.constants] using htarget)

theorem supplies_addObjective (args : Bindings) :
    (addObjective args).Supplies given commandConstants := by
  refine supplies_ofExcept fun objective _ => supplies_ofExcept fun criteria _ => ?_
  refine supplies_get fun s _ => ?_
  split
  · exact (supplies_warn _ _).next fun _ => supplies_pure (by simp)
  · exact (supplies_declare _ _).next fun _ => supplies_pure (by simp)

theorem supplies_onEvent (hblock : SuppliesBlock block) (args : Bindings) :
    (onEvent block args).Supplies given commandConstants := by
  refine supplies_ofExcept fun objective _ => supplies_ofExcept fun criteria _ => ?_
  refine supplies_ofExcept fun handler _ => (supplies_declare _ _).next fun _ => ?_
  refine (supplies_body hblock handler).bind fun commands => ?_
  have hreset : Command.constants (.reset ⟨"@s", objective⟩) = ∅ :=
    Score.constants_eq_empty (c := '@') (by simp) (by decide) (by decide)
  refine (supplies_registerNext _ ?_).next fun path => (supplies_debug _).next fun _ => ?_
  · simp only [needAll_append, needAll_cons, needAll_nil, hreset]
    grind
  refine (supplies_call path).bind fun hook => (supplies_extendFunction tickPath ?_).next fun _ =>
    supplies_pure (by simp)
  simp only [needAll_cons, needAll_nil, Command.constants]
  grind

theorem supplies_circle (args : Bindings) : (circle args).Supplies given commandConstants := by
  refine supplies_ofExcept fun particle _ => supplies_ofExcept fun radius _ => ?_
  refine supplies_ofExcept fun spread _ => ?_
  split
  · refine supplies_pure ((needAll_eq_empty ?_).trans_subset (Set.empty_subset _))
    exact List.forall_mem_map.mpr fun place _ => rfl
  · exact supplies_fail

theorem supplies_tellraw (args : Bindings) : (tellraw args).Supplies given commandConstants :=
  supplies_ofExcept fun selector _ => supplies_ofExcept fun message _ => supplies_get fun s _ =>
    supplies_pure (by simp [Command.constants])

theorem supplies_expand (hblock : SuppliesBlock block) (b : Builtin) {target : Option Score}
    (htarget : ∀ s ∈ target, s.constants ⊆ given) {args : Bindings}
    (hargs : ∀ s, args.get "value" = .ok (.score s) → s.UserHeld) :
    (expand block b target args).Supplies given commandConstants := by
  unfold expand
  split
  · exact supplies_sqrt hargs (htarget _ rfl)
  · exact supplies_random args (htarget _ rfl)
  · exact supplies_addObjective args
  · exact supplies_onEvent hblock args
  · exact supplies_circle args
  · exact supplies_tellraw args
  · exact supplies_fail

theorem supplies_builtin (hblock : SuppliesBlock block) (b : Builtin) (name : Token)
    (rest : List Token) {target : Option Score} (htarget : ∀ s ∈ target, s.constants ⊆ given) :
    (builtin block b name rest target).Supplies given commandConstants := by
  unfold builtin
  split
  · split
    · exact supplies_failAt
    · exact supplies_failAt
    · refine (supplies_ofNoting _).next fun arguments => supplies_get fun s hs => ?_
      refine supplies_ofExcept fun args hargs => (supplies_debug _).next fun _ => ?_
      exact supplies_expand hblock b htarget fun score => Builtin.bind_userHeld hs.scope hargs
  · exact supplies_failAt

/-! ### Variable statements -/

theorem supplies_score (text : String) (t : Token) :
    (score text t).Supplies given Score.constants := by
  unfold score
  refine supplies_score? fun found hfound => ?_
  cases found with
  | some s => exact supplies_pure ((hfound s rfl).trans_subset (Set.empty_subset _))
  | none => exact supplies_failAt

theorem supplies_checkSingle (value : Token) (rest : List Token) :
    (checkSingle value rest).Supplies given := by
  unfold checkSingle
  split
  · exact supplies_fail
  · split
    · exact supplies_pure (Set.empty_subset _)
    · split
      · exact supplies_fail
      · exact supplies_failAt

theorem supplies_operand (o : Operator) (target : Token) (right : List Token) :
    (operand o target right).Supplies given fun value => value.2.constants := by
  unfold operand
  split
  · exact supplies_failAt
  · next value rest =>
    refine (supplies_checkSingle value rest).next fun _ => supplies_ofExcept fun n _ => ?_
    split
    · exact supplies_pure (Set.empty_subset _)
    · refine supplies_get fun s hs => ?_
      split
      · next score hscore =>
        obtain ⟨word, -, hscore⟩ := Option.bind_eq_some_iff.mp hscore
        have hnone := (Score.parseIn?_userHeld hs.scope hscore).constants
        exact supplies_pure (hnone.trans_subset (Set.empty_subset _))
      · exact supplies_failAt

/-- An integer is registered before it becomes the score of a constant. -/
theorem supplies_operandScore {value : Operand} (hvalue : value.constants ⊆ given) :
    (operandScore value).Supplies given Score.constants := by
  cases value with
  | score s => exact supplies_pure hvalue
  | int n =>
    refine (supplies_registerConstant n).bind fun _ => supplies_pure ?_
    rw [Score.constants_ofConstant]
    exact Set.subset_union_right

theorem supplies_addition {target : Score} (htarget : target.constants ⊆ given) (o : Operator)
    {value : Operand} (hvalue : value.constants ⊆ given) :
    (addition target o value).Supplies given Command.constants := by
  unfold addition
  split
  · split
    · exact (supplies_operandScore hvalue).bind fun s => supplies_pure
        (Set.union_subset_union_left _ htarget)
    · split
      · exact supplies_pure htarget
      · exact supplies_pure htarget
  · exact supplies_pure (Set.union_subset htarget hvalue)

theorem supplies_functionCall (name : Token) (rest : List Token) :
    (functionCall name rest).Supplies given Command.constants := by
  unfold functionCall
  split
  · split
    · exact supplies_failAt
    · exact supplies_call _
  · exact supplies_failAt

theorem supplies_single {c : Command} (hc : c.constants ⊆ given) :
    (pure [c] : Compile (List Command)).Supplies given commandConstants :=
  supplies_pure (by simpa using hc)

theorem supplies_assignment (hblock : SuppliesBlock block) {target : Score}
    (htarget : target.constants ⊆ given) (targetToken : Token) (right : List Token) :
    (assignment block target targetToken right).Supplies given commandConstants := by
  unfold assignment
  split
  · exact supplies_failAt
  · refine supplies_get fun s _ => ?_
    split
    · refine (supplies_operand _ _ _).bind fun value => ?_
      split
      · exact supplies_single (htarget.trans Set.subset_union_left)
      · exact supplies_single (Set.union_subset_union_left _ htarget)
    · split
      · exact supplies_fail
      · split
        · refine supplies_builtin hblock _ _ _ fun s hs => ?_
          obtain rfl := Option.some.inj hs
          exact htarget
        · exact (supplies_functionCall _ _).bind fun c => supplies_single
            (Set.union_subset_union_left _ htarget)
        · exact supplies_single (Set.union_subset htarget (Set.empty_subset _))

theorem supplies_getStatement (holder : String) (name group : Token) :
    (getStatement holder name group).Supplies given commandConstants := by
  unfold getStatement
  split
  · exact supplies_failAt
  · exact (supplies_score _ _).bind fun s => supplies_single Set.subset_union_right

theorem supplies_operation (hblock : SuppliesBlock block) (a : Assignment) :
    (operation block a).Supplies given commandConstants := by
  refine (supplies_score _ _).bind fun target => ?_
  have htarget : target.constants ⊆ given ∪ target.constants := Set.subset_union_right
  generalize given ∪ target.constants = given at htarget
  have hstep : ∀ o : Operator, Command.constants
      (if o = .increment then .add target 1 else .remove target 1) ⊆ given := by
    intro o
    split <;> exact htarget
  split
  · split
    · exact supplies_failAt
    · exact supplies_single (hstep _)
  · split
    · exact supplies_failAt
    · exact supplies_single (hstep _)
  · exact supplies_assignment hblock htarget _ _
  · refine (supplies_operand _ _ _).bind fun value => ?_
    split
    · refine supplies_single ?_
      simp only [Command.constants, Operand.constants]
      grind
    · exact supplies_failAt
  · refine (supplies_operand _ _ _).bind fun value => ?_
    split
    · exact supplies_single (Set.union_subset_union_left _ htarget)
    · exact supplies_failAt
  · exact (supplies_operand _ _ _).bind fun value =>
      (supplies_addition (by grind) _ Set.subset_union_right).bind fun c =>
        supplies_single Set.subset_union_right
  · exact (supplies_operand _ _ _).bind fun value =>
      (supplies_addition (by grind) _ Set.subset_union_right).bind fun c =>
        supplies_single Set.subset_union_right
  · refine (supplies_operand _ _ _).bind fun value => ?_
    refine (supplies_operandScore Set.subset_union_right).bind fun s => supplies_single ?_
    simp only [Command.constants]
    grind

theorem supplies_plainVariable (hblock : SuppliesBlock block) (first : Token) (rest : List Token) :
    (plainVariable block first rest).Supplies given commandConstants := by
  rcases plainVariable_cases block first rest with ⟨holder, group, h⟩ | ⟨a, -, h⟩ | h
  · rw [h]
    exact supplies_getStatement _ _ _
  · rw [h]
    exact supplies_operation hblock a
  · rw [h]
    exact supplies_failAt

theorem supplies_variableChange (hblock : SuppliesBlock block) (first : Token) (rest : List Token) :
    (variableChange block first rest).Supplies given commandConstants := by
  unfold variableChange
  split
  · split
    · exact supplies_failAt
    · exact supplies_plainVariable hblock _ _
  · exact supplies_plainVariable hblock _ _

/-! ### Definitions -/

theorem supplies_checkPath (head : FunctionHead) : (checkPath head).Supplies given := by
  refine supplies_get fun s _ => ?_
  split
  · exact supplies_failAt
  · simp only
    generalize (if head.path = tickPath then s.tickDefined
      else s.pack.hasFunction head.path) = taken
    split
    · exact supplies_failAt
    · split
      · exact supplies_warn _ _
      · exact supplies_pure (Set.empty_subset _)

/-- What is added to a pack if its key is free. -/
theorem supplies_add {f : Pack → Except Cause Pack}
    (h : ∀ p q : Pack, p.Supplied → given ⊆ p.known → f p = .ok q →
      q.Supplied ∧ q.known = p.known) (t : Token) :
    (get >>= fun s => match f s.pack with
      | .ok pack => modify fun s => { s with pack }
      | .error cause => failAt t cause : Compile PUnit).Supplies given := by
  refine ⟨fun s hs hgiven => ?_⟩
  show Meets (match f s.pack with | .ok pack => _ | .error cause => _) s _ _
  cases hadd : f s.pack with
  | ok pack =>
    obtain ⟨hpack, hknown⟩ := h s.pack pack hs.pack hgiven hadd
    exact ⟨⟨⟨hs.scope, hpack⟩, hknown.ge⟩, Set.empty_subset _⟩
  | error cause => exact .refl hs

theorem supplies_functionDefinition (hblock : SuppliesBlock block) (level : Except Cause FunctionPath)
    (keyword : Token) (rest : List Token) :
    (functionDefinition block level keyword rest).Supplies given := by
  refine supplies_ofExcept fun head _ => (supplies_checkPath head).next fun _ => ?_
  refine (supplies_debug _).next fun _ => (supplies_body hblock head.body).bind fun commands => ?_
  have hcommands : commandConstants commands ⊆ given ∪ commandConstants commands :=
    Set.subset_union_right
  generalize given ∪ commandConstants commands = given at hcommands
  split
  · refine supplies_modify fun s hs hgiven => ?_
    exact ⟨⟨hs.scope, hs.pack.extendFunction tickPath (hcommands.trans hgiven)⟩,
      (s.pack.known_extendFunction tickPath commands).ge⟩
  · refine supplies_add (f := fun p => p.addFunction head.path commands)
      (fun p q hp hgiven hadd => ?_) head.name
    unfold Pack.addFunction at hadd
    split at hadd
    · cases hadd
    · obtain rfl := Except.ok.inj hadd
      exact ⟨hp.addFunction head.path (hcommands.trans hgiven), rfl⟩

theorem supplies_newResource (keyword : Token) (rest : List Token) :
    (newResource keyword rest).Supplies given := by
  refine supplies_ofExcept fun head _ => supplies_get fun s _ => ?_
  split
  · exact supplies_fail
  · next value _ =>
    refine supplies_add (f := fun p => p.addResource head.kind head.path (s.settings.codec.pretty value))
      (fun p q hp _ hadd => ?_) head.pathToken
    unfold Pack.addResource at hadd
    simp only at hadd
    split at hadd
    · cases hadd
    · obtain rfl := Except.ok.inj hadd
      exact ⟨⟨hp.functions, hp.generated⟩, rfl⟩

theorem supplies_classFunctions (hblock : SuppliesBlock block) (path : FunctionPath)
    (statements : List Statement) : (classFunctions block path statements).Supplies given := by
  induction statements with
  | nil => exact supplies_pure (Set.empty_subset _)
  | cons s rest ih =>
    unfold classFunctions
    split
    · exact ih
    · refine supplies_ofExcept fun _ _ => ?_
      exact (supplies_functionDefinition hblock _ _ _).next fun _ => ih

theorem supplies_classDefinition (hblock : SuppliesBlock block) (keyword : Token)
    (rest : List Token) : (classDefinition block keyword rest).Supplies given := by
  refine supplies_ofExcept fun parts _ => ?_
  exact (supplies_tokenizeInner _ parts.2).next fun statements =>
    supplies_classFunctions hblock parts.1 statements

/-! ### Blocks -/

theorem supplies_none {m : Compile Unit} (h : m.Supplies given) :
    (m >>= fun _ => pure [] : Compile (List Command)).Supplies given commandConstants :=
  h.next fun _ => supplies_pure (by simp)

theorem supplies_statement (hblock : SuppliesBlock block) (level : Level) (kind : StatementKind)
    (first : Token) (rest : List Token) :
    (statement block level kind first rest).Supplies given commandConstants := by
  cases kind with
  | function => exact supplies_none (supplies_functionDefinition hblock _ _ _)
  | classDefinition => exact supplies_none (supplies_classDefinition hblock _ _)
  | newResource => exact supplies_none (supplies_newResource _ _)
  | ifBranch => exact supplies_chain hblock _ _ _
  | whileLoop => exact supplies_whileLoop hblock _ _
  | doLoop => exact supplies_doWhile hblock first rest none
  | forLoop => exact supplies_forLoop hblock _ _
  | switch => exact supplies_switch hblock _ _
  | variableChange => exact supplies_variableChange hblock _ _
  | builtin b => exact supplies_builtin hblock b _ _ (by simp)
  | call =>
    exact (supplies_functionCall _ _).bind fun c => supplies_single Set.subset_union_right
  | vanilla => exact supplies_single (Set.empty_subset _)
  | importFile | elseBranch | caseLabel | breakCase => exact supplies_failAt

theorem supplies_atLevel (level : Level) (s : Statement)
    {compile : Token → List Token → Compile (List Command)}
    (hcompile : ∀ first rest, (compile first rest).Supplies given commandConstants) :
    (atLevel level s compile).Supplies given commandConstants := by
  unfold atLevel
  split
  · exact supplies_pure (by simp)
  · exact supplies_ofExcept fun _ _ => hcompile _ _

theorem supplies_construct (hblock : SuppliesBlock block) (level : Level) (c : Construct) :
    (construct block level c).Supplies given commandConstants := by
  cases c with
  | chain s elses => exact supplies_atLevel level s fun _ _ => supplies_chain hblock _ _ _
  | doWhile s tail => exact supplies_atLevel level s fun _ _ => supplies_doWhile hblock _ _ _
  | single s => exact supplies_atLevel level s fun _ _ => supplies_statement hblock level _ _ _

theorem supplies_bodyConstructs (hblock : SuppliesBlock block) (cs : List Construct) :
    (bodyConstructs block cs).Supplies given commandConstants := by
  induction cs generalizing given with
  | nil => exact supplies_pure (by simp)
  | cons c rest ih =>
    refine (supplies_construct hblock .body c).bind fun commands => ih.bind fun more =>
      supplies_pure ?_
    simp only [needAll_append]
    grind

/-- Bodies of any depth register the constants that their commands read. -/
theorem supplies_block (depth : Nat) : SuppliesBlock (Compile.block depth) := by
  induction depth with
  | zero => exact fun _ _ => supplies_throw
  | succ depth ih => exact fun _ statements => supplies_bodyConstructs ih (constructs statements)

/-! ### Files -/

/-- Imports keep the session supplied. -/
def SuppliesImporter (importer : Importer) : Prop :=
  ∀ (given : Set Int) path place, (importer path place).Supplies given

variable {importer : Importer}

theorem supplies_topConstructs (himporter : SuppliesImporter importer) (depth : Nat)
    (cs : List Construct) {out : List Command} (hout : commandConstants out ⊆ given) :
    (topConstructs (Compile.block depth) importer out cs).Supplies given commandConstants := by
  induction cs generalizing out given with
  | nil => exact supplies_pure hout
  | cons c rest ih =>
    unfold topConstructs
    split
    · refine supplies_ofExcept fun target _ => ?_
      refine (supplies_extendFunction loadPath hout).next fun _ => supplies_get fun s _ => ?_
      exact (himporter _ _ _).next fun _ => ih (by simp)
    · refine (supplies_construct (supplies_block depth) .top c).bind fun commands => ih ?_
      simp only [needAll_append]
      exact Set.union_subset_union_left _ hout

theorem supplies_tokenize (text : String) :
    (tokenize .required Position.start text).Supplies given :=
  supplies_quiet (settled_tokenize _ _ text) fun _ _ =>
    (tokenize_meets text).mono (fun _ _ h => ⟨h.1, rfl⟩) fun _ => id

theorem supplies_topLevel (himporter : SuppliesImporter importer) (text : String) :
    (topLevel importer text).Supplies given := by
  refine (supplies_tokenize text).next fun statements => ?_
  refine (supplies_topConstructs himporter _ _ (by simp)).bind fun out => ?_
  exact supplies_extendFunction loadPath Set.subset_union_right

/-- A step without a result keeps the session supplied if every run of it does. -/
theorem supplies_iff_outcome {m : Compile Unit} : (∀ given, m.Supplies given) ↔
    ∀ s : Session, s.Supplied → s.StaysSupplied (m.outcome s).2 := by
  refine ⟨fun h s hs => ?_, fun h given => ⟨fun s hs _ => ?_⟩⟩
  · have hmeets := (h ∅).meets s hs (Set.empty_subset _)
    unfold Meets at hmeets
    split at hmeets
    · next hrun =>
      rw [hrun]
      exact hmeets.1
    · next hrun =>
      rw [hrun]
      exact hmeets
  · have hstays := h s hs
    unfold Meets
    split
    · next hrun =>
      rw [hrun] at hstays
      exact ⟨hstays, Set.empty_subset _⟩
    · next hrun => rwa [hrun] at hstays

theorem supplies_source (himporter : SuppliesImporter importer) (name text : String) :
    ∀ given, (source importer name text).Supplies given := by
  refine supplies_iff_outcome.mpr fun s hs => ?_
  obtain ⟨log, warnings, -, hafter⟩ := source_outcome importer name text s
  rw [hafter]
  have htop := supplies_iff_outcome.mp (fun given => supplies_topLevel himporter text)
    { s with log } ⟨hs.scope, hs.pack⟩
  exact ⟨⟨htop.supplied.scope, htop.supplied.pack⟩, htop.known⟩

theorem supplies_importWith (files : File.Tree) {compile : String → String → Compile Unit}
    (hcompile : ∀ name text given, (compile name text).Supplies given) :
    SuppliesImporter (importWith files compile) := by
  intro given path position
  refine supplies_iff_outcome.mpr (fun s hs => ?_) given
  cases hread : files.read path with
  | error problem =>
    rw [importWith_unreadable hread]
    exact .refl hs
  | ok found =>
    by_cases hbegun : found.1 ∈ s.imported
    · obtain ⟨log, hrun⟩ := importWith_begun hread hbegun compile position
      rw [hrun]
      exact hs.stays rfl rfl rfl (Set.Subset.refl _)
    · rw [importWith_new hread hbegun]
      have hstays := supplies_iff_outcome.mp (hcompile (s.settings.displayName path) found.2)
        { s with imported := s.imported ++ [found.1] } ⟨hs.scope, hs.pack⟩
      exact ⟨hstays.supplied, hstays.known⟩

theorem supplies_importWithin (files : File.Tree) (depth : Nat) :
    SuppliesImporter (importWithin files depth) := by
  induction depth with
  | zero => exact supplies_importWith files fun _ _ _ => supplies_throw
  | succ depth ih => exact supplies_importWith files fun name text => supplies_source ih name text

end Compile

end Packwright
