import Packwright.Proofs.Census.Statements
import Packwright.Proofs.ConstructOrder
import Packwright.Proofs.Scans.Notices

/-!
# Statements and bodies are heard

A session hears of what is read for the groups of every statement, and so of all that is read inside a
body. Chains, loops and switches are heard as long as the bodies inside are. Calls of built-in functions,
assignments and definitions open groups of their own; most other statements open none.

## Main definitions

- `Compile.HearsBlock` — what is read in bodies is heard

## Main results

- `Compile.hears_body` — a body in braces
- `Compile.hears_chain`, `Compile.hears_whileLoop`, `Compile.hears_doWhile`, `Compile.hears_forLoop` —
  chains and loops
- `Compile.hears_switch` — switches
- `Compile.hears_builtin`, `Compile.hears_variableChange` — calls and variables
- `Compile.hears_functionDefinition`, `Compile.hears_classDefinition` — definitions
- `Compile.hears_construct`, `Compile.hears_block` — constructs, and bodies of any depth
-/

namespace Packwright

namespace Compile

open Opening (scans)

variable {block : Block}

/-- What is read in bodies is heard. -/
def HearsBlock (block : Block) : Prop :=
  ∀ statements, (block statements).Hears ((Opening.ofBlock statements).flatMap scans)

theorem hears_body (hblock : HearsBlock block) (t : Token) :
    (body block t).Hears (scans ⟨.body, t⟩) := by
  unfold body
  split
  · exact hears_inner (o := ⟨.body, t⟩) rfl fun r _ => hblock r.statements
  · exact hears_failAt

/-! ### Chains -/

theorem hears_ifBranch (hblock : HearsBlock block) (keyword : Token) (rest : List Token) :
    (ifBranch block keyword rest).Hears ((Opening.ofHead rest).flatMap scans) := by
  refine hears_ofExcept fun parts hparts => ?_
  obtain ⟨head, braces⟩ := parts
  obtain rfl := headAndBody_mem hparts
  rw [Opening.ofHead, List.flatMap_cons, List.flatMap_singleton]
  refine (hears_condition head).bind fun c _ => ?_
  exact (hears_body hblock braces).last fun commands _ => hears_pure trivial

theorem hears_elseBranch (hblock : HearsBlock block) (closed : Bool) (keyword : Token)
    (rest : List Token) :
    (elseBranch block closed keyword rest).Hears ((Opening.ofElse rest).flatMap scans) := by
  unfold elseBranch
  split
  · exact hears_failAt
  cases rest with
  | nil => exact hears_failAt
  | cons next more =>
    dsimp only
    by_cases hfinal : (more.isEmpty && next.isGroup .curly) = true
    · rw [if_pos hfinal]
      obtain rfl := List.isEmpty_iff.mp (Bool.and_eq_true_iff.mp hfinal).1
      rw [Opening.ofElse, List.flatMap_singleton]
      exact (hears_body hblock next).last fun commands _ => hears_pure trivial
    rw [if_neg hfinal]
    by_cases hif : next.isWord "if" = true
    · rw [if_pos hif]
      cases more with
      | nil => exact hears_failAt
      | cons head more => exact hears_ifBranch hblock next (head :: more)
    · rw [if_neg hif]
      exact hears_failAt

theorem hears_elseBranches (hblock : HearsBlock block) (statements : List Statement)
    (arms : List Branch) :
    (elseBranches block arms statements).Hears
      ((statements.flatMap fun e => Opening.ofElse e.tokens.tail).flatMap scans) := by
  induction statements generalizing arms with
  | nil => exact hears_pure trivial
  | cons s rest ih =>
    unfold elseBranches
    rw [List.flatMap_cons, List.flatMap_append]
    cases s.tokens with
    | nil => exact ih arms
    | cons keyword tokens => exact (hears_elseBranch hblock _ keyword tokens).bind fun arm _ => ih _

/-- What the arms become reads nothing more. -/
theorem hears_armsCommands (first : Bool) (arms : List Branch) : (armsCommands first arms).Hears [] := by
  induction arms generalizing first with
  | nil => exact hears_pure trivial
  | cons arm rest ih =>
    refine (hears_allocateNext _ _).next fun path _ => (hears_call path).next fun callArm _ => ?_
    exact (ih false).next fun more _ => hears_pure trivial

theorem hears_singleArm (c : Rendered) (commands : List Command) : (singleArm c commands).Hears [] := by
  unfold singleArm
  split
  · exact hears_pure trivial
  · exact hears_pure trivial
  · exact (hears_allocateNext _ _).next fun path _ => (hears_call path).next fun _ _ => hears_pure trivial

theorem hears_chainCommands (arms : List Branch) : (chainCommands arms).Hears [] := by
  unfold chainCommands
  split
  · exact hears_singleArm _ _
  · exact hears_fail
  · exact (hears_armsCommands true _).next fun _ _ => hears_pure trivial

theorem hears_chain (hblock : HearsBlock block) (keyword : Token) (rest : List Token)
    (elses : List Statement) :
    (chain block keyword rest elses).Hears
      ((Opening.ofHead rest ++ elses.flatMap fun e => Opening.ofElse e.tokens.tail).flatMap scans) := by
  rw [List.flatMap_append]
  refine (hears_ifBranch hblock keyword rest).bind fun first _ => ?_
  exact (hears_elseBranches hblock elses [first]).last fun arms _ => hears_chainCommands arms

/-! ### Loops -/

theorem hears_whileLoop (hblock : HearsBlock block) (keyword : Token) (rest : List Token) :
    (whileLoop block keyword rest).Hears ((Opening.ofHead rest).flatMap scans) := by
  refine hears_ofExcept fun parts hparts => ?_
  obtain ⟨head, braces⟩ := parts
  obtain rfl := headAndBody_mem hparts
  rw [Opening.ofHead, List.flatMap_cons, List.flatMap_singleton]
  refine (hears_takeId _).next fun id _ => (hears_condition head).bind fun c _ => ?_
  refine (hears_call _).next fun again _ => (hears_body hblock braces).last fun commands _ => ?_
  exact (hears_allocate _ _ _).next fun _ _ => hears_pure trivial

theorem hears_doWhile (hblock : HearsBlock block) (keyword : Token) (rest : List Token)
    (tail : Option Statement) :
    (doWhile block keyword rest tail).Hears
      ((Opening.ofDo rest ++ tail.toList.flatMap fun w => Opening.ofTail w.tokens.tail).flatMap
        scans) := by
  unfold doWhile
  split
  · next braces =>
    rw [List.flatMap_append, Opening.ofDo, List.flatMap_singleton]
    refine (hears_takeId _).next fun id _ => (hears_body hblock braces).bind fun commands _ => ?_
    split
    · next whileKeyword tokens htail =>
      obtain ⟨w, rfl, htokens⟩ := Option.map_eq_some_iff.mp htail
      refine hears_ofExcept fun head hhead => ?_
      obtain ⟨rfl, -⟩ := doWhileHead_group hhead
      have htest : (some w).toList.flatMap (fun w => Opening.ofTail w.tokens.tail) =
          [⟨.condition, head⟩] := by
        simp [htokens, Opening.ofTail]
      rw [htest, List.flatMap_singleton]
      refine (hears_condition head).last fun c _ => (hears_call _).next fun again _ => ?_
      exact (hears_allocate _ _ _).next fun _ _ => hears_pure trivial
    · exact hears_failAt
  · exact hears_failAt

theorem hears_bindLoopVariable (id : Nat) (tokens : List Token) :
    (bindLoopVariable id tokens).Hears [] := by
  unfold bindLoopVariable
  split
  · split
    · split
      · exact (hears_debug _).next fun _ _ => hears_modify fun _ => .of_same rfl rfl rfl
      · exact hears_pure trivial
    · exact hears_pure trivial
  · exact hears_pure trivial

theorem hears_forParts (hblock : HearsBlock block) (id : Nat) (init test step : Statement)
    (head braces : Token) :
    (forParts block id init test step head braces).Hears
      ((Opening.ofHeader [init, test, step]).flatMap scans ++ scans ⟨.body, braces⟩) := by
  rw [Opening.ofHeader, List.flatMap_append, List.flatMap_append, List.append_assoc, List.append_assoc]
  refine (hears_bindLoopVariable id _).next fun _ _ => (hblock [init]).bind fun initCommands _ => ?_
  refine (hears_ofNoting (Condition.parseTokens_notes head.position test.tokens)).bind fun tree _ => ?_
  refine (hears_render tree).next fun c _ => (hblock [step]).bind fun stepCommands _ => ?_
  refine (hears_call _).next fun again _ => (hears_body hblock braces).last fun commands _ => ?_
  exact (hears_allocate _ _ _).next fun _ _ => hears_pure trivial

theorem hears_forLoop (hblock : HearsBlock block) (keyword : Token) (rest : List Token) :
    (forLoop block keyword rest).Hears ((Opening.ofStatement .forLoop keyword rest).flatMap scans) := by
  refine hears_ofExcept fun parts hparts => ?_
  obtain ⟨head, braces⟩ := parts
  obtain rfl := headAndBody_mem hparts
  rw [Opening.ofStatement, List.flatMap_cons, List.flatMap_singleton]
  refine hears_inner_behind (o := ⟨.forHeader, head⟩) rfl fun r _ => ?_
  unfold Opening.inside
  generalize r.statements = statements
  rcases statements with _ | ⟨init, _ | ⟨test, _ | ⟨step, _ | ⟨extra, more⟩⟩⟩⟩
  case cons.cons.cons.nil =>
    refine (hears_takeId _).next fun id _ => hears_inScope ?_
    exact hears_forParts hblock id init test step head braces
  all_goals exact hears_failAt

/-! ### Switches -/

theorem hears_dropBreaks (c : Case) :
    (dropBreaks c).Hears [] fun c' => c' = c.withoutBreaks := by
  refine Hears.next (P := fun _ => True) ?_ fun _ _ => hears_pure rfl
  induction (dropFinalBreak c.statements).filter isBreak with
  | nil => exact hears_pure trivial
  | cons s rest ih =>
    rw [List.forM_eq_forM, List.forM_cons]
    exact (hears_warn (by decide) _).next fun _ _ => ih

/-- Each case loses its `break` statements, with warnings that are about nothing else. -/
theorem hears_collectCases (statements : List Statement) :
    (collectCases statements).Hears [] fun cases => ∃ raw,
      statements.foldlM addCaseStatement [] = .ok raw ∧ cases = raw.map Case.withoutBreaks := by
  refine hears_ofExcept fun raw hraw => ?_
  refine Hears.mono (P := fun cases => cases = raw.map Case.withoutBreaks) ?_
    fun cases h => ⟨raw, hraw, h⟩
  clear hraw
  induction raw with
  | nil => exact hears_pure rfl
  | cons c rest ih =>
    rw [List.mapM_cons]
    refine (hears_dropBreaks c).next fun c' hc => ih.next fun rest' hrest => hears_pure ?_
    rw [hc, hrest, List.map_cons]

theorem hears_registerCases (hblock : HearsBlock block) (id : Nat) (cases : List Case) :
    (registerCases block id cases).Hears
      ((cases.flatMap fun c => Opening.ofBlock c.statements).flatMap scans) := by
  induction cases with
  | nil => exact hears_pure trivial
  | cons c rest ih =>
    rw [List.flatMap_cons, List.flatMap_append]
    refine (hblock c.statements).bind fun commands _ => ?_
    exact (hears_register _ _ commands).next fun _ _ => ih

theorem hears_rangeTest (id : Nat) (score : Score) (d : Dispatch) : (rangeTest id score d).Hears [] :=
  (hears_call _).next fun _ _ => hears_pure trivial

theorem hears_rangeTests (id : Nat) (score : Score) (d : Dispatch) :
    (rangeTests id score d).Hears [] ∧ (registerRange id d (rangeTests id score d)).Hears [] := by
  induction d with
  | leaf label =>
    exact ⟨(hears_rangeTest id score _).next fun _ _ => hears_pure trivial, hears_pure trivial⟩
  | node low high left right ihleft ihright =>
    have htests : (rangeTests id score (.node low high left right)).Hears [] := by
      refine ihleft.2.next fun _ _ => (hears_rangeTest _ _ _).next fun testLeft _ => ?_
      refine ihright.2.next fun _ _ => (hears_rangeTest _ _ _).next fun testRight _ => ?_
      exact hears_pure trivial
    exact ⟨htests, htests.next fun tests _ =>
      (hears_register _ _ tests).next fun _ _ => hears_pure trivial⟩

-- reading a score computes on characters, which unification must not look into
attribute [local irreducible] score? switchScore

theorem hears_score? {α : Type} {Q : α → Prop} {text : String} {found : List Scan}
    {f : Option Score → Compile α} (hf : ∀ s, (f s).Hears found Q) :
    (score? text >>= f).Hears found Q := by
  unfold score?
  exact hears_get fun s => hf _

theorem hears_switchScore (head : Token) : (switchScore head).Hears [] := by
  unfold switchScore
  refine hears_score? fun found => ?_
  cases found with
  | some s => exact hears_pure trivial
  | none => exact hears_failAt

theorem hears_switch (hblock : HearsBlock block) (keyword : Token) (rest : List Token) :
    (switch block keyword rest).Hears ((Opening.ofStatement .switch keyword rest).flatMap scans) := by
  unfold switch
  split
  · next head braces =>
    split
    · exact hears_failAt
    split
    · exact hears_failAt
    rw [Opening.ofStatement, List.flatMap_singleton]
    refine (hears_switchScore head).next fun score _ => ?_
    refine hears_inner (o := ⟨.switchBody, braces⟩) rfl fun r _ => ?_
    refine (hears_collectCases r.statements).next fun cases hcases => ?_
    obtain ⟨raw, hraw, rfl⟩ := hcases
    have hinside : Opening.inside ⟨.switchBody, braces⟩ r =
        (raw.map Case.withoutBreaks).flatMap fun c => Opening.ofBlock c.statements := by
      rw [Opening.inside, Opening.ofCases, hraw, Census.reading, List.flatMap_map]
    rw [hinside]
    split
    · refine (hears_takeId _).next fun id _ => (hears_debug _).next fun _ _ => ?_
      exact (hears_registerCases hblock id _).last fun _ _ => (hears_rangeTests id score _).1
    · exact hears_failAt
  · exact hears_failAt

end Compile

namespace Compile

open Opening (scans)

variable {block : Block}

/-! ### Built-in functions -/

theorem hears_emitSqrt (callMain callStep : Command) : (emitSqrt callMain callStep).Hears [] := by
  refine hears_get fun s => ?_
  split
  · refine (hears_modifyPack _).next fun _ _ => (hears_register _ _ _).next fun _ _ => ?_
    refine (hears_register _ _ _).next fun _ _ => ?_
    refine Hears.next (hears_modify ?_) fun _ _ => hears_debug _
    exact fun _ => .of_same rfl rfl rfl
  · exact hears_pure trivial

theorem hears_sqrt (args : Bindings) (target : Score) : (sqrt args target).Hears [] := by
  refine (hears_call _).next fun callMain _ => (hears_call _).next fun callStep _ => ?_
  refine (hears_emitSqrt _ _).next fun _ _ => hears_ofExcept fun value _ => ?_
  cases value with
  | int n => exact hears_pure trivial
  | score s => exact hears_pure trivial
  | _ => exact hears_fail

theorem hears_random (args : Bindings) (target : Score) : (random args target).Hears [] := by
  refine hears_ofExcept fun min _ => hears_ofExcept fun max _ => ?_
  split
  · exact hears_fail
  · exact hears_pure trivial

theorem hears_addObjective (args : Bindings) : (addObjective args).Hears [] := by
  refine hears_ofExcept fun objective _ => hears_ofExcept fun criteria _ => hears_get fun s => ?_
  split
  · exact (hears_warn (by simp) _).next fun _ _ => hears_pure trivial
  · exact (hears_modifyPack _).next fun _ _ => hears_pure trivial

theorem hears_onEvent (hblock : HearsBlock block) (args : Bindings) :
    (onEvent block args).Hears
      ((Census.reading (args.arrow "handler") fun handler =>
        [(⟨.body, handler⟩ : Opening)]).flatMap scans) := by
  refine hears_ofExcept fun objective _ => hears_ofExcept fun criteria _ => ?_
  refine hears_ofExcept fun handler hhandler => (hears_modifyPack _).next fun _ _ => ?_
  rw [hhandler, Census.reading_ok, List.flatMap_singleton]
  refine (hears_body hblock handler).last fun commands _ => (hears_registerNext _ _).next fun path _ => ?_
  refine (hears_debug _).next fun _ _ => (hears_call path).next fun hook _ => ?_
  exact (hears_modifyPack _).next fun _ _ => hears_pure trivial

theorem hears_circle (args : Bindings) : (circle args).Hears [] := by
  refine hears_ofExcept fun particle _ => hears_ofExcept fun radius _ => ?_
  refine hears_ofExcept fun spread _ => ?_
  split
  · exact hears_pure trivial
  · exact hears_fail

theorem hears_tellraw (args : Bindings) : (tellraw args).Hears [] :=
  hears_ofExcept fun _ _ => hears_ofExcept fun _ _ => hears_get fun _ => hears_pure trivial

/-- Of the arguments of a call only a handler is opened. -/
theorem hears_expand (hblock : HearsBlock block) {b : Builtin} {group : Token} {args : Arguments}
    (hargs : ((Arguments.parse group).run.run []).1 = .ok args) {scope : Scope} {bound : Bindings}
    (hbound : b.bind scope args = .ok bound) (target : Option Score) :
    (expand block b target bound).Hears ((Opening.ofArguments b group).flatMap scans) := by
  unfold expand
  split
  · exact hears_sqrt bound _
  · exact hears_random bound _
  · exact hears_addObjective bound
  · rw [Builtin.bind_scope (by decide)] at hbound
    rw [Opening.ofArguments, if_pos rfl, Census.noting_eq hargs, hbound, Census.reading_ok]
    exact hears_onEvent hblock bound
  · exact hears_circle bound
  · exact hears_tellraw bound
  · exact hears_fail

theorem hears_builtin (hblock : HearsBlock block) (b : Builtin) (name : Token) (rest : List Token)
    (target : Option Score) :
    (builtin block b name rest target).Hears ((Opening.ofCall b rest).flatMap scans) := by
  unfold builtin
  split
  · next group =>
    rw [Opening.ofCall, List.flatMap_singleton]
    split
    · exact hears_failAt
    · exact hears_failAt
    · refine hears_arguments fun r args _ hargs => hears_get fun s => ?_
      refine hears_ofExcept fun bound hbound => (hears_debug _).next fun _ _ => ?_
      exact hears_expand hblock hargs hbound _
  · exact hears_failAt

/-! ### Variable statements -/

-- reading a score computes on characters, which unification must not look into
attribute [local irreducible] score? score

theorem hears_score (text : String) (t : Token) : (score text t).Hears [] := by
  unfold score
  refine hears_score? fun found => ?_
  cases found with
  | some s => exact hears_pure trivial
  | none => exact hears_failAt

theorem hears_checkSingle (value : Token) (rest : List Token) : (checkSingle value rest).Hears [] := by
  unfold checkSingle
  split
  · exact hears_fail
  · split
    · exact hears_pure trivial
    · split
      · exact hears_fail
      · exact hears_failAt

theorem hears_operand (o : Operator) (target : Token) (right : List Token) :
    (operand o target right).Hears [] := by
  unfold operand
  split
  · exact hears_failAt
  · next value rest =>
    refine (hears_checkSingle value rest).next fun _ _ => hears_ofExcept fun n _ => ?_
    split
    · exact hears_pure trivial
    · refine hears_get fun s => ?_
      split
      · exact hears_pure trivial
      · exact hears_failAt

theorem hears_operandScore (value : Operand) : (operandScore value).Hears [] := by
  cases value with
  | score s => exact hears_pure trivial
  | int n => exact (hears_modifyPack _).next fun _ _ => hears_pure trivial

theorem hears_addition (target : Score) (o : Operator) (value : Operand) :
    (addition target o value).Hears [] := by
  unfold addition
  split
  · split
    · exact (hears_operandScore _).next fun s _ => hears_pure trivial
    · split
      · exact hears_pure trivial
      · exact hears_pure trivial
  · exact hears_pure trivial

theorem hears_functionCall (name : Token) (rest : List Token) : (functionCall name rest).Hears [] := by
  unfold functionCall
  split
  · split
    · exact hears_failAt
    · exact hears_call _
  · exact hears_failAt

theorem hears_assignment (hblock : HearsBlock block) (target : Score) (targetToken : Token)
    (right : List Token) :
    (assignment block target targetToken right).Hears ((Opening.ofAssigned right).flatMap scans) := by
  unfold assignment
  cases right with
  | nil => exact hears_failAt
  | cons first rest =>
    refine hears_get fun s => ?_
    rw [isValueToken_scope]
    by_cases hvalue : isValueToken {} first = true
    · simp only [Opening.ofAssigned, hvalue, if_true, List.flatMap_nil]
      refine (hears_operand _ _ _).next fun value _ => ?_
      split
      · exact hears_pure trivial
      · exact hears_pure trivial
    · simp only [Opening.ofAssigned, hvalue]
      cases leadingOperator? first with
      | some o => exact hears_fail
      | none =>
        cases (Statement.mk (first :: rest)).kind with
        | builtin b => exact hears_builtin hblock b first rest _
        | call => exact (hears_functionCall _ _).next fun c _ => hears_pure trivial
        | _ => exact hears_pure trivial

theorem hears_getStatement (holder : String) (name group : Token) :
    (getStatement holder name group).Hears [] := by
  unfold getStatement
  split
  · exact hears_failAt
  · exact (hears_score _ _).next fun s _ => hears_pure trivial

/-- Only the right side of an assignment can be a call. -/
theorem hears_operation (hblock : HearsBlock block) (a : Assignment) :
    (operation block a).Hears
      ((if a.operator = .assign then Opening.ofAssigned a.right else []).flatMap scans) := by
  refine (hears_score _ _).next fun target _ => ?_
  cases a.operator with
  | increment =>
    cases a.right with
    | nil => exact hears_pure trivial
    | cons extra more => exact hears_failAt
  | decrement =>
    cases a.right with
    | nil => exact hears_pure trivial
    | cons extra more => exact hears_failAt
  | assign => exact hears_assignment hblock target a.target a.right
  | copyTo | swap =>
    refine (hears_operand _ _ _).next fun value _ => ?_
    split
    · exact hears_pure trivial
    · exact hears_failAt
  | add | subtract =>
    exact (hears_operand _ _ _).next fun value _ =>
      (hears_addition _ _ _).next fun c _ => hears_pure trivial
  | _ =>
    exact (hears_operand _ _ _).next fun value _ =>
      (hears_operandScore _).next fun s _ => hears_pure trivial

/-- A variable statement without `let` is `score.get()`, or else an operator with its right side. -/
theorem hears_plainVariable (hblock : HearsBlock block) (first : Token) (rest : List Token) :
    (plainVariable block first rest).Hears ((Opening.ofPlainVariable first rest).flatMap scans) := by
  by_cases hget : Census.isGet first rest = true
  · rw [Opening.ofPlainVariable, if_pos hget]
    obtain ⟨group, rfl⟩ : ∃ group, rest = [group] := by
      match rest with
      | [] | _ :: _ :: _ => cases hget
      | [group] => exact ⟨group, rfl⟩
    obtain ⟨hround, hholder⟩ := Bool.and_eq_true_iff.mp hget
    obtain ⟨holder, hholder⟩ := Option.isSome_iff_exists.mp hholder
    simp only [plainVariable, hround, hholder, if_true]
    exact hears_getStatement holder first group
  · unfold plainVariable
    extract_lets other
    have hother : other.Hears ((Opening.ofPlainVariable first rest).flatMap scans) := by
      rw [Opening.ofPlainVariable, if_neg hget]
      unfold other
      cases Assignment.ofTokens? (first :: rest) with
      | some a => exact hears_operation hblock a
      | none => exact hears_failAt
    split
    · split
      · next hround =>
        split
        · next hholder => exact absurd (by simp [Census.isGet, hround, hholder]) hget
        · exact hother
      · exact hother
    · exact hother

theorem hears_variableChange (hblock : HearsBlock block) (first : Token) (rest : List Token) :
    (variableChange block first rest).Hears ((Opening.ofVariable first rest).flatMap scans) := by
  unfold variableChange
  by_cases hlet : first.isWord "let" = true
  · simp only [Opening.ofVariable, hlet, if_true]
    cases rest with
    | nil => exact hears_failAt
    | cons name rest => exact hears_plainVariable hblock name rest
  · simp only [Opening.ofVariable, hlet]
    exact hears_plainVariable hblock first rest

/-! ### Definitions -/

theorem hears_checkPath (head : FunctionHead) : (checkPath head).Hears [] := by
  refine hears_get fun s => ?_
  split
  · exact hears_failAt
  · simp only
    generalize (if head.path = tickPath then s.tickDefined
      else s.pack.hasFunction head.path) = taken
    cases taken with
    | true => exact hears_failAt
    | false =>
      simp only [Bool.false_eq_true, if_false]
      split
      · exact hears_warn (by simp) _
      · exact hears_pure trivial

theorem functionHead_tokens {level : Except Cause FunctionPath} {keyword : Token} {rest : List Token}
    {head : FunctionHead} (h : functionHead level keyword rest = .ok head) :
    ∃ name params, rest = [name, params, head.body] := by
  unfold functionHead at h
  split at h
  · next name params body =>
    repeat' split at h
    all_goals cases h
    exact ⟨name, params, rfl⟩
  · cases h

theorem classHead_tokens {keyword : Token} {rest : List Token} {path : FunctionPath} {braces : Token}
    (h : classHead keyword rest = .ok (path, braces)) : ∃ name, rest = [name, braces] := by
  unfold classHead at h
  split at h
  · next name body =>
    repeat' split at h
    all_goals cases h
    exact ⟨name, rfl⟩
  · cases h

theorem hears_functionDefinition (hblock : HearsBlock block) (level : Except Cause FunctionPath)
    (keyword : Token) (rest : List Token) :
    (functionDefinition block level keyword rest).Hears ((Opening.ofFunction rest).flatMap scans) := by
  refine hears_ofExcept fun head hhead => (hears_checkPath head).next fun _ _ => ?_
  obtain ⟨name, params, rfl⟩ := functionHead_tokens hhead
  rw [Opening.ofFunction, List.flatMap_singleton]
  refine (hears_debug _).next fun _ _ => (hears_body hblock head.body).last fun commands _ => ?_
  split
  · exact hears_modify fun _ => .of_same rfl rfl rfl
  · refine hears_get fun s => ?_
    split
    · exact hears_modify fun _ => .of_same rfl rfl rfl
    · exact hears_failAt

theorem hears_newResource (keyword : Token) (rest : List Token) : (newResource keyword rest).Hears [] := by
  refine hears_ofExcept fun head _ => hears_get fun s => ?_
  split
  · exact hears_fail
  · refine hears_get fun s => ?_
    split
    · exact hears_modify fun _ => .of_same rfl rfl rfl
    · exact hears_failAt

theorem hears_classFunctions (hblock : HearsBlock block) (path : FunctionPath)
    (statements : List Statement) :
    (classFunctions block path statements).Hears
      ((statements.flatMap fun s => Opening.ofFunction s.tokens.tail).flatMap scans) := by
  induction statements with
  | nil => exact hears_pure trivial
  | cons s rest ih =>
    unfold classFunctions
    rw [List.flatMap_cons, List.flatMap_append]
    cases s.tokens with
    | nil => exact ih
    | cons first tokens =>
      refine hears_ofExcept fun _ _ => ?_
      exact (hears_functionDefinition hblock _ first tokens).bind fun _ _ => ih

theorem hears_classDefinition (hblock : HearsBlock block) (keyword : Token) (rest : List Token) :
    (classDefinition block keyword rest).Hears
      ((Opening.ofStatement .classDefinition keyword rest).flatMap scans) := by
  refine hears_ofExcept fun parts hparts => ?_
  obtain ⟨path, braces⟩ := parts
  obtain ⟨name, rfl⟩ := classHead_tokens hparts
  rw [Opening.ofStatement, List.flatMap_singleton]
  exact hears_inner (o := ⟨.classBody, braces⟩) rfl fun r _ => hears_classFunctions hblock path r.statements

/-! ### Constructs -/

theorem hears_statement (hblock : HearsBlock block) (level : Level) (kind : StatementKind)
    (first : Token) (rest : List Token) :
    (statement block level kind first rest).Hears
      ((Opening.ofStatement kind first rest).flatMap scans) := by
  cases kind with
  | function => exact (hears_functionDefinition hblock _ first rest).last fun _ _ => hears_pure trivial
  | classDefinition => exact (hears_classDefinition hblock first rest).last fun _ _ => hears_pure trivial
  | newResource => exact (hears_newResource first rest).next fun _ _ => hears_pure trivial
  | ifBranch =>
    have hchain := hears_chain hblock first rest []
    rwa [List.flatMap_nil, List.append_nil] at hchain
  | whileLoop => exact hears_whileLoop hblock first rest
  | doLoop =>
    have hloop := hears_doWhile hblock first rest none
    rwa [Option.toList_none, List.flatMap_nil, List.append_nil] at hloop
  | forLoop => exact hears_forLoop hblock first rest
  | switch => exact hears_switch hblock first rest
  | variableChange => exact hears_variableChange hblock first rest
  | builtin b => exact hears_builtin hblock b first rest none
  | call => exact (hears_functionCall first rest).next fun _ _ => hears_pure trivial
  | vanilla => exact hears_pure trivial
  | importFile | elseBranch | caseLabel | breakCase => exact hears_failAt

theorem hears_atLevel (level : Level) (s : Statement)
    {compile : Token → List Token → Compile (List Command)} {groups : Token → List Token → List Opening}
    (h : ∀ first rest, (compile first rest).Hears ((groups first rest).flatMap scans)) :
    (atLevel level s compile).Hears ((Opening.ofTokens s groups).flatMap scans) := by
  unfold atLevel Opening.ofTokens
  cases s.tokens with
  | nil => exact hears_pure trivial
  | cons first rest => exact hears_ofExcept fun _ _ => h first rest

theorem hears_construct (hblock : HearsBlock block) (level : Level) (c : Construct) :
    (construct block level c).Hears ((Opening.ofConstruct c).flatMap scans) := by
  cases c with
  | chain s elses => exact hears_atLevel level s fun first rest => hears_chain hblock first rest elses
  | doWhile s tail => exact hears_atLevel level s fun first rest => hears_doWhile hblock first rest tail
  | single s => exact hears_atLevel level s (hears_statement hblock level s.kind)

theorem hears_bodyConstructs (hblock : HearsBlock block) (cs : List Construct) :
    (bodyConstructs block cs).Hears ((cs.flatMap Opening.ofConstruct).flatMap scans) := by
  induction cs with
  | nil => exact hears_pure trivial
  | cons c rest ih =>
    rw [List.flatMap_cons, List.flatMap_append]
    refine (hears_construct hblock .body c).bind fun commands _ => ?_
    exact ih.last fun more _ => hears_pure trivial

/-- What is read in bodies of any depth is heard. -/
theorem hears_block (depth : Nat) : HearsBlock (Compile.block depth) := by
  induction depth with
  | zero => exact fun _ => hears_throw
  | succ depth ih => exact fun statements => hears_bodyConstructs ih (constructs statements)

end Compile

end Packwright
