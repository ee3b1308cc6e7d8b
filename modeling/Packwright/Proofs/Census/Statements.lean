import Packwright.Proofs.Census.Flow

/-!
# Statements and bodies become what is counted

Calls of built-in functions, variable statements and definitions become what their census tells, and so
do whole bodies. The functions of the square root are registered with the first one that is assigned.

## Main results

- `Builtin.bind_scope` — the values of a call without scores do not depend on renamings
- `Compile.gains_emitSqrt`, `Compile.counts_sqrt` — the square root
- `Compile.counts_builtin`, `Compile.counts_variableChange` — calls and variables
- `Compile.gains_functionDefinition`, `Compile.gains_classDefinition` — definitions
- `Compile.counts_construct`, `Compile.counts_block` — constructs, and bodies of any depth
-/

namespace Packwright

/-- Only the square root takes a score. -/
theorem Builtin.bind_scope {b : Builtin} (hb : b ≠ .mathSqrt) (scope : Scope) (args : Arguments) :
    b.bind scope args = b.bind {} args := by
  cases b with
  | mathSqrt => exact absurd rfl hb
  | _ => rfl

/-- The values of a call without scores are those that the census reads. -/
theorem Census.binding_eq {b : Builtin} (hb : b ≠ .mathSqrt) {group : Token} {args : Arguments}
    (hargs : ((Arguments.parse group).run.run []).1 = .ok args) {scope : Scope} {bound : Bindings}
    (hbound : b.bind scope args = .ok bound) (count : Bindings → Census) :
    Census.binding b [group] count = count bound := by
  rw [Census.binding, Census.noting_eq hargs, ← Builtin.bind_scope hb scope args, hbound,
    Census.reading_ok]

namespace Compile

variable {block : Block} {counter : Census.Counter}

/-! ### The square root -/

/-- The functions of the square root are registered by the first one that needs them. -/
theorem gains_emitSqrt (s : Session) :
    (emitSqrt (.call ((Feature.mathSqrt.path Sqrt.mainName).inSpace s.settings.space))
      (.call ((Feature.mathSqrt.path Sqrt.stepName).inSpace s.settings.space))).Meets s
      (fun _ s' => s.Gains [.root] 0 s') fun s' => s.Rooted → s'.Rooted := by
  unfold emitSqrt
  rw [meets_bind, meets_get]
  cases hemitted : s.sqrtEmitted with
  | true => exact .root rfl rfl (by rw [hemitted]; exact (List.append_nil _).symm) hemitted
  | false =>
    show Meets (modifyPack (·.registerConstant 2) >>= fun _ => _) s _ _
    rw [meets_bind, modifyPack, meets_modify]
    have hsame : s.Gains [] 0 { s with pack := s.pack.registerConstant 2 } :=
      .of_same rfl (s.pack.generated_registerConstant 2).1 rfl
    have hgenerated := (s.pack.generated_registerConstant 2).1
    generalize hs₁ : ({ s with pack := s.pack.registerConstant 2 } : Session) = s₁ at hsame ⊢
    have hgenerated₁ : s₁.pack.generated = s.pack.generated := by rw [← hs₁, ← hgenerated]
    have hentries₁ : s₁.entries = s.entries := by rw [Session.entries, hgenerated₁]
    refine (register_meets .mathSqrt Sqrt.mainName _).with_outcome.bind
      (fun s' h => h.1 ▸ hsame.rooted) fun path s₂ h₂ => ?_
    obtain ⟨hrun₂, -, hadds₂⟩ := h₂
    rw [outcome_register _ hadds₂.fresh] at hrun₂
    obtain ⟨-, rfl⟩ := Prod.mk.inj hrun₂
    refine (register_meets .mathSqrt Sqrt.stepName _).with_outcome.bind (fun s' h hs => ?_)
      fun path s₃ h₃ => ?_
    · -- the name of the second function is free where no function of the square root is there
      obtain ⟨-, e, he, hkey⟩ := h
      rw [hadds₂.entries, hentries₁, List.mem_append, List.mem_singleton] at he
      rcases he with he | rfl
      · have hmem : e ∈ s.ofFamily .mathSqrt := List.mem_filter.mpr ⟨he, by rw [hkey]; rfl⟩
        rw [hs, hemitted] at hmem
        cases hmem
      · exact absurd (Prod.mk.inj hkey).2 (by decide)
    · obtain ⟨hrun₃, -, hadds₃⟩ := h₃
      rw [outcome_register _ hadds₃.fresh] at hrun₃
      obtain ⟨-, rfl⟩ := Prod.mk.inj hrun₃
      have hcounters : s₁.pack.generated.counters = s.pack.generated.counters := by rw [hgenerated₁]
      refine .root hsame.settings hcounters ?_ rfl
      have hentries₃ := hadds₃.entries
      rw [hadds₂.entries, hentries₁, List.append_assoc] at hentries₃
      rw [hemitted]
      exact hentries₃

theorem counts_sqrt (args : Bindings) (target : Score) :
    (sqrt args target).Counts ⟨5, [.root]⟩ := by
  refine ⟨fun s => ?_⟩
  refine (gains_emitSqrt s).bind (fun _ => id) fun _ s₁ h₁ => ?_
  cases hvalue : args.get "value" with
  | error f => exact h₁.rooted
  | ok value =>
    cases value with
    | int n => exact ⟨h₁, rfl⟩
    | score x => exact ⟨h₁, rfl⟩
    | _ => exact h₁.rooted

/-! ### Other built-in functions -/

theorem counts_random (args : Bindings) (target : Score) :
    (random args target).Counts ⟨1, []⟩ := by
  refine gains_ofExcept fun min _ => gains_ofExcept fun max _ => ?_
  split
  · exact gains_fail
  · exact gains_pure rfl

theorem counts_addObjective (args : Bindings) : (addObjective args).Counts {} := by
  refine gains_ofExcept fun objective _ => gains_ofExcept fun criteria _ => gains_get fun s => ?_
  split
  · exact (gains_warn _ _).next fun _ _ => gains_pure rfl
  · exact (gains_declare _ _).next fun _ _ => gains_pure rfl

theorem counts_onEvent (hblock : CountsBlock block counter) (args : Bindings) :
    (onEvent block args).Counts (Census.reading (args.arrow "handler") fun handler =>
      ⟨0, (Census.body counter handler).items ++ [Item.handler]⟩) := by
  refine gains_ofExcept fun objective _ => gains_ofExcept fun criteria _ => ?_
  refine gains_ofExcept fun handler hhandler => (gains_declare _ _).next fun _ _ => ?_
  rw [hhandler, Census.reading_ok]
  refine Gains.then (gains_body hblock handler) fun commands _ => ?_
  refine (gains_registerNext .handler rfl rfl (fun _ => rfl) _).last fun path _ => ?_
  refine (gains_debug _).next fun _ _ => (gains_call path).next fun hook _ => ?_
  exact (gains_extendFunction tickPath _).next fun _ _ => gains_pure rfl

theorem counts_circle (args : Bindings) :
    (circle args).Counts (Census.reading (args.int "spread") fun spread => ⟨spread.toNat, []⟩) := by
  refine gains_ofExcept fun particle _ => gains_ofExcept fun radius _ => ?_
  refine gains_ofExcept fun spread hspread => ?_
  rw [hspread, Census.reading_ok]
  split
  · refine gains_pure ?_
    rw [List.length_map, Circle.points, List.length_map, List.length_range]
  · exact gains_fail

theorem counts_tellraw (args : Bindings) : (tellraw args).Counts ⟨1, []⟩ :=
  gains_ofExcept fun _ _ => gains_ofExcept fun _ _ => gains_get fun _ => gains_pure rfl

theorem counts_expand (hblock : CountsBlock block counter) {b : Builtin} {group : Token}
    {args : Arguments} (hargs : ((Arguments.parse group).run.run []).1 = .ok args) {scope : Scope}
    {bound : Bindings} (hbound : b.bind scope args = .ok bound) (target : Option Score) :
    (expand block b target bound).Counts (Census.builtin counter b [group]) := by
  unfold expand
  split
  · exact counts_sqrt bound _
  · exact counts_random bound _
  · exact counts_addObjective bound
  · rw [Census.builtin, Census.binding_eq (by decide) hargs hbound]
    exact counts_onEvent hblock bound
  · rw [Census.builtin, Census.binding_eq (by decide) hargs hbound]
    exact counts_circle bound
  · exact counts_tellraw bound
  · exact gains_fail

theorem counts_builtin (hblock : CountsBlock block counter) (b : Builtin) (name : Token)
    (rest : List Token) (target : Option Score) :
    (builtin block b name rest target).Counts (Census.builtin counter b rest) := by
  unfold builtin
  split
  · split
    · exact gains_failAt
    · exact gains_failAt
    · refine (gains_ofNoting _).next fun args hargs => gains_get fun s => ?_
      refine gains_ofExcept fun bound hbound => (gains_debug _).next fun _ _ => ?_
      exact counts_expand hblock hargs hbound _
  · exact gains_failAt

/-! ### Variable statements -/

-- reading a score computes on characters, which unification must not look into
attribute [local irreducible] score? score

theorem gains_score (text : String) (t : Token) : (score text t).Gains [] := by
  unfold score
  refine gains_score? fun found => ?_
  cases found with
  | some s => exact gains_pure trivial
  | none => exact gains_failAt

theorem gains_checkSingle (value : Token) (rest : List Token) : (checkSingle value rest).Gains [] := by
  unfold checkSingle
  split
  · exact gains_fail
  · split
    · exact gains_pure trivial
    · split
      · exact gains_fail
      · exact gains_failAt

theorem gains_operand (o : Operator) (target : Token) (right : List Token) :
    (operand o target right).Gains [] := by
  unfold operand
  split
  · exact gains_failAt
  · next value rest =>
    refine (gains_checkSingle value rest).next fun _ _ => gains_ofExcept fun n _ => ?_
    split
    · exact gains_pure trivial
    · refine gains_get fun s => ?_
      split
      · exact gains_pure trivial
      · exact gains_failAt

theorem gains_operandScore (value : Operand) : (operandScore value).Gains [] := by
  cases value with
  | score s => exact gains_pure trivial
  | int n => exact (gains_registerConstant n).next fun _ _ => gains_pure trivial

theorem gains_addition (target : Score) (o : Operator) (value : Operand) :
    (addition target o value).Gains [] := by
  unfold addition
  split
  · split
    · exact (gains_operandScore _).next fun s _ => gains_pure trivial
    · split
      · exact gains_pure trivial
      · exact gains_pure trivial
  · exact gains_pure trivial

theorem gains_functionCall (name : Token) (rest : List Token) : (functionCall name rest).Gains [] := by
  unfold functionCall
  split
  · split
    · exact gains_failAt
    · exact gains_call _
  · exact gains_failAt

/-- What begins with a value does so whatever the renamings are. -/
theorem isValueToken_scope (scope : Scope) (t : Token) :
    isValueToken scope t = isValueToken {} t := by
  unfold isValueToken Score.parseIn?
  simp only [Option.isSome_map]

theorem counts_assignment (hblock : CountsBlock block counter) (target : Score) (targetToken : Token)
    (right : List Token) :
    (assignment block target targetToken right).Counts (Census.assignment counter right) := by
  unfold assignment
  cases right with
  | nil => exact gains_failAt
  | cons first rest =>
    refine gains_get fun s => ?_
    rw [isValueToken_scope]
    by_cases hvalue : isValueToken {} first = true
    · simp only [Census.assignment, hvalue, if_true]
      refine (gains_operand _ _ _).next fun value _ => ?_
      split
      · exact gains_pure rfl
      · exact gains_pure rfl
    · simp only [Census.assignment, hvalue]
      cases leadingOperator? first with
      | some o => exact gains_fail
      | none =>
        cases (Statement.mk (first :: rest)).kind with
        | builtin b => exact counts_builtin hblock b first rest _
        | call => exact (gains_functionCall _ _).next fun c _ => gains_pure rfl
        | _ => exact gains_pure rfl

theorem counts_getStatement (holder : String) (name group : Token) :
    (getStatement holder name group).Counts ⟨1, []⟩ := by
  unfold getStatement
  split
  · exact gains_failAt
  · exact (gains_score _ _).next fun s _ => gains_pure rfl

theorem counts_operation (hblock : CountsBlock block counter) (a : Assignment) :
    (operation block a).Counts (Census.operation counter a) := by
  refine (gains_score _ _).next fun target _ => ?_
  unfold Census.operation
  cases a.operator with
  | increment =>
    cases a.right with
    | nil => exact gains_pure rfl
    | cons extra more => exact gains_failAt
  | decrement =>
    cases a.right with
    | nil => exact gains_pure rfl
    | cons extra more => exact gains_failAt
  | assign => exact counts_assignment hblock target a.target a.right
  | copyTo =>
    refine (gains_operand _ _ _).next fun value _ => ?_
    split
    · exact gains_pure rfl
    · exact gains_failAt
  | swap =>
    refine (gains_operand _ _ _).next fun value _ => ?_
    split
    · exact gains_pure rfl
    · exact gains_failAt
  | add | subtract =>
    exact (gains_operand _ _ _).next fun value _ =>
      (gains_addition _ _ _).next fun c _ => gains_pure rfl
  | _ =>
    exact (gains_operand _ _ _).next fun value _ =>
      (gains_operandScore _).next fun s _ => gains_pure rfl

/-- A variable statement without `let` is `score.get()`, or else an operator with its right side. -/
theorem counts_plainVariable (hblock : CountsBlock block counter) (first : Token) (rest : List Token) :
    (plainVariable block first rest).Counts (Census.plainVariable counter first rest) := by
  by_cases hget : Census.isGet first rest = true
  · rw [Census.plainVariable, if_pos hget]
    obtain ⟨group, rfl⟩ : ∃ group, rest = [group] := by
      match rest with
      | [] | _ :: _ :: _ => cases hget
      | [group] => exact ⟨group, rfl⟩
    obtain ⟨hround, hholder⟩ := Bool.and_eq_true_iff.mp hget
    obtain ⟨holder, hholder⟩ := Option.isSome_iff_exists.mp hholder
    simp only [plainVariable, hround, hholder, if_true]
    exact counts_getStatement holder first group
  · unfold plainVariable
    extract_lets other
    have hother : other.Counts (Census.plainVariable counter first rest) := by
      rw [Census.plainVariable, if_neg hget]
      unfold other
      cases Assignment.ofTokens? (first :: rest) with
      | some a => exact counts_operation hblock a
      | none => exact gains_failAt
    split
    · split
      · next hround =>
        split
        · next hholder => exact absurd (by simp [Census.isGet, hround, hholder]) hget
        · exact hother
      · exact hother
    · exact hother

theorem counts_variableChange (hblock : CountsBlock block counter) (first : Token)
    (rest : List Token) :
    (variableChange block first rest).Counts (Census.variableChange counter first rest) := by
  unfold variableChange
  by_cases hlet : first.isWord "let" = true
  · simp only [Census.variableChange, hlet, if_true]
    cases rest with
    | nil => exact gains_failAt
    | cons name rest => exact counts_plainVariable hblock name rest
  · simp only [Census.variableChange, hlet]
    exact counts_plainVariable hblock first rest

/-! ### Definitions -/

theorem gains_checkPath (head : FunctionHead) : (checkPath head).Gains [] := by
  refine gains_get fun s => ?_
  split
  · exact gains_failAt
  · simp only
    generalize (if head.path = tickPath then s.tickDefined
      else s.pack.hasFunction head.path) = taken
    cases taken with
    | true => exact gains_failAt
    | false =>
      simp only [Bool.false_eq_true, if_false]
      split
      · exact gains_warn _ _
      · exact gains_pure trivial

theorem generated_addFunction {p q : Pack} {path : FunctionPath} {commands : List Command}
    (h : p.addFunction path commands = .ok q) : q.generated = p.generated := by
  unfold Pack.addFunction at h
  split at h
  · cases h
  · obtain rfl := Except.ok.inj h
    rfl

theorem generated_addResource {p q : Pack} {kind path json : String}
    (h : p.addResource kind path json = .ok q) : q.generated = p.generated := by
  unfold Pack.addResource at h
  simp only at h
  split at h
  · cases h
  · obtain rfl := Except.ok.inj h
    rfl

theorem gains_functionDefinition (hblock : CountsBlock block counter)
    (level : Except Cause FunctionPath) (keyword : Token) (rest : List Token) :
    (functionDefinition block level keyword rest).Gains
      (Census.functionDefinition counter level keyword rest) := by
  refine gains_ofExcept fun head hhead => (gains_checkPath head).next fun _ _ => ?_
  rw [Census.functionDefinition, hhead, Census.reading_ok]
  refine (gains_debug _).next fun _ _ => (gains_body hblock head.body).last fun commands _ => ?_
  split
  · exact gains_modify fun s => .of_same rfl (generated_extendFunction s.pack tickPath commands) rfl
  · refine ⟨fun s => ?_⟩
    rw [meets_bind, meets_get]
    cases hadded : s.pack.addFunction head.path commands with
    | error cause => exact fun h => h
    | ok pack => exact ⟨.of_same rfl (generated_addFunction hadded) rfl, trivial⟩

theorem gains_newResource (keyword : Token) (rest : List Token) : (newResource keyword rest).Gains [] := by
  refine gains_ofExcept fun head _ => gains_get fun s => ?_
  split
  · exact gains_fail
  · refine ⟨fun s => ?_⟩
    rw [meets_bind, meets_get]
    cases hadded : s.pack.addResource head.kind head.path _ with
    | error cause => exact fun h => h
    | ok pack => exact ⟨.of_same rfl (generated_addResource hadded) rfl, trivial⟩

theorem gains_classFunctions (hblock : CountsBlock block counter) (path : FunctionPath)
    (statements : List Statement) :
    (classFunctions block path statements).Gains
      (Census.classFunctions counter path statements) := by
  induction statements with
  | nil => exact gains_pure trivial
  | cons s rest ih =>
    unfold classFunctions Census.classFunctions
    cases s.tokens with
    | nil => exact ih
    | cons first tokens =>
      refine gains_ofExcept fun _ _ => ?_
      exact (gains_functionDefinition hblock _ first tokens).then fun _ _ => ih

theorem gains_classDefinition (hblock : CountsBlock block counter) (keyword : Token)
    (rest : List Token) :
    (classDefinition block keyword rest).Gains (Census.classDefinition counter keyword rest) := by
  refine gains_ofExcept fun parts hparts => ?_
  rw [Census.classDefinition, hparts, Census.reading_ok]
  refine (gains_tokenizeInner .required parts.2).next fun statements hread => ?_
  obtain ⟨r, hr, rfl⟩ := hread
  rw [hr, Census.reading_ok]
  exact gains_classFunctions hblock parts.1 r.statements

/-! ### Constructs -/

theorem counts_statement (hblock : CountsBlock block counter) (level : Level) (kind : StatementKind)
    (first : Token) (rest : List Token) :
    (statement block level kind first rest).Counts
      (Census.statement counter level kind first rest) := by
  cases kind with
  | function => exact (gains_functionDefinition hblock _ first rest).last fun _ _ => gains_pure rfl
  | classDefinition => exact (gains_classDefinition hblock first rest).last fun _ _ => gains_pure rfl
  | newResource => exact (gains_newResource first rest).next fun _ _ => gains_pure rfl
  | ifBranch => exact counts_chain hblock first rest []
  | whileLoop => exact counts_whileLoop hblock first rest
  | doLoop => exact counts_doWhile hblock first rest none
  | forLoop => exact counts_forLoop hblock first rest
  | switch => exact counts_switch hblock first rest
  | variableChange => exact counts_variableChange hblock first rest
  | builtin b => exact counts_builtin hblock b first rest none
  | call => exact (gains_functionCall first rest).next fun _ _ => gains_pure rfl
  | vanilla => exact gains_pure rfl
  | importFile | elseBranch | caseLabel | breakCase => exact gains_failAt

theorem counts_atLevel (level : Level) (s : Statement)
    {compile : Token → List Token → Compile (List Command)} {count : Token → List Token → Census}
    (h : ∀ first rest, (compile first rest).Counts (count first rest)) :
    (atLevel level s compile).Counts (Census.ofTokens s count) := by
  unfold atLevel Census.ofTokens
  cases s.tokens with
  | nil => exact gains_pure rfl
  | cons first rest => exact gains_ofExcept fun _ _ => h first rest

theorem counts_construct (hblock : CountsBlock block counter) (level : Level) (c : Construct) :
    (construct block level c).Counts (Census.construct counter level c) := by
  cases c with
  | chain s elses => exact counts_atLevel level s fun first rest => counts_chain hblock first rest elses
  | doWhile s tail => exact counts_atLevel level s fun first rest => counts_doWhile hblock first rest tail
  | single s => exact counts_atLevel level s (counts_statement hblock level s.kind)

theorem counts_bodyConstructs (hblock : CountsBlock block counter) (cs : List Construct) :
    (bodyConstructs block cs).Counts (Census.constructs counter cs) := by
  induction cs with
  | nil => exact gains_pure rfl
  | cons c rest ih =>
    refine Gains.then (counts_construct hblock .body c) fun commands hcommands => ?_
    refine ih.last fun more hmore => gains_pure ?_
    rw [List.length_append, hcommands, hmore, Census.constructs]

/-- Bodies of any depth become what is counted. -/
theorem counts_block (depth : Nat) : CountsBlock (Compile.block depth) (Census.block depth) := by
  induction depth with
  | zero => exact fun _ => gains_throw
  | succ depth ih => exact fun statements => counts_bodyConstructs ih (constructs statements)

end Compile

end Packwright
