import Packwright.Proofs.Session.Cases
import Packwright.Proofs.Session.Handlers
import Packwright.Proofs.Termination.Conditions

/-!
# Bodies of any depth

A body is read again from the text between its braces, which is shorter than the statement around it.
So a construct is compiled to its end within as many nested bodies as characters stand between the
brackets of its longest group, and a higher bound makes no difference.

## Main definitions

- `Compile.EndsBelow` — compilers of bodies that do the same, and end, for short groups

## Main results

- `Compile.body_ends`, `Compile.construct_ends` — bodies, and constructs with bodies in them
- `Compile.block_ends` — every bound that is not below the number of characters will do
-/

namespace Packwright

/-- Reading an argument list nests nothing. -/
theorem Arguments.parse_ends (group : Token) : Ends (parse group) (parse group) := by
  unfold parse
  split
  · refine (Noting.ends_ofExcept _).bind fun reading _ => (Noting.ends_note _).bind fun _ _ => ?_
    split
    · exact ends_pure trivial
    · exact (Noting.ends_ofExcept _).mono fun _ _ => trivial
    · exact Noting.ends_fail _
  · exact Noting.ends_fail _

namespace Compile

variable {α : Type} {P : α → Prop}

/-! ### Steps -/

theorem ends_fail {f : Fault} : Ends (fail f : Compile α) (fail f) P := ends_throw fun h => nomatch h

theorem ends_failAt {t : Token} {cause : Cause} :
    Ends (failAt t cause : Compile α) (failAt t cause) P :=
  ends_fail

/-- What is read is known of what follows. -/
theorem ends_ofExcept (x : Except Fault α) : Ends (ofExcept x) (ofExcept x) fun a => x = .ok a := by
  cases x with
  | ok a => exact ends_pure rfl
  | error f => exact ends_fail

theorem ends_ofCause (x : Except Cause α) : Ends (ofCause x) (ofCause x) := by
  cases x with
  | ok a => exact ends_pure trivial
  | error cause => exact ends_fail

theorem ends_ofNoting {m : Noting α} (h : Ends m m) :
    Ends (ofNoting m) (ofNoting m) fun a => m.Gives a := by
  unfold ofNoting
  have hlasts := h.lasts []
  rcases hrun : m.run.run [] with ⟨value, warnings⟩
  rw [hrun] at hlasts
  refine (ends_modify _).bind fun _ _ => ?_
  cases value with
  | ok a => exact ends_pure ⟨warnings, hrun⟩
  | error e => exact ends_throw fun hexhausted => hlasts (congrArg Except.error hexhausted)

/-- A step that does not reach a bound ends. -/
theorem ends_of_outcome {m : Compile α} (h : ∀ s, (m.outcome s).1 ≠ .error .exhausted) :
    Ends m m := by
  intro s
  refine ⟨rfl, ?_⟩
  rcases hrun : (m.run.run s).1 with e | a
  · exact fun he => h s (he ▸ hrun)
  · trivial

theorem ends_debug (text : String) : Ends (debug text) (debug text) := ends_modify _

theorem ends_takeId (f : Feature) : Ends (takeId f) (takeId f) := by
  refine ends_of_outcome fun s => ?_
  rcases takeId_cases f s with ⟨-, hrun⟩ | ⟨n, -, hrun⟩ <;> rw [hrun] <;> exact nofun

theorem ends_call (path : FunctionPath) : Ends (call path) (call path) := fun _ => ⟨rfl, trivial⟩

theorem ends_render (c : Condition) : Ends (render c) (render c) := by
  refine ends_of_outcome fun s => ?_
  obtain ⟨result, n, hrun, -, hresult⟩ := render_cases c s
  rw [hrun]
  rintro rfl
  cases hresult.1

theorem ends_condition (group : Token) : Ends (condition group) (condition group) :=
  (ends_ofNoting (Condition.parse_ends group)).bind fun c _ => ends_render c

theorem ends_score? (text : String) : Ends (score? text) (score? text) := fun _ => ⟨rfl, trivial⟩

theorem ends_register (f : Feature) (name : String) (commands : List Command) :
    Ends (register f name commands) (register f name commands) := by
  refine ends_get.bind fun s _ => (ends_ofCause _).bind fun _ _ => ?_
  exact (ends_set _).bind fun _ _ => ends_pure trivial

theorem ends_allocate (f : Feature) (name : String) (commands : List Command) :
    Ends (allocate f name commands) (allocate f name commands) :=
  (ends_register f name commands).bind fun _ _ => (ends_debug _).bind fun _ _ => ends_pure trivial

theorem ends_registerNext (f : Feature) (commands : List Command) :
    Ends (registerNext f commands) (registerNext f commands) :=
  (ends_takeId f).bind fun _ _ => ends_register f _ commands

theorem ends_allocateNext (f : Feature) (commands : List Command) :
    Ends (allocateNext f commands) (allocateNext f commands) :=
  (ends_registerNext f commands).bind fun _ _ => (ends_debug _).bind fun _ _ => ends_pure trivial

theorem ends_inScope {m m' : Compile α} (h : Ends m m' P) : Ends (inScope m) (inScope m') P := by
  intro s
  obtain ⟨hsame, hm⟩ := h { s with scope := s.scope.push }
  refine ⟨?_, hm⟩
  show (inScope m').outcome s = (inScope m).outcome s
  have houtcome : m'.outcome { s with scope := s.scope.push } =
      m.outcome { s with scope := s.scope.push } := hsame
  rw [outcome_inScope, outcome_inScope, houtcome]

theorem ends_tokenize (terminator : Terminator) (start : Position) (source : String) :
    Ends (tokenize terminator start source) (tokenize terminator start source) fun statements =>
      ∃ r, Packwright.tokenize terminator start source = .ok r ∧ statements = r.statements :=
  (ends_ofExcept _).bind fun r hr => (ends_modify _).bind fun _ _ => ends_pure ⟨r, hr, rfl⟩

/-- What is read inside a group has less between brackets. -/
theorem ends_tokenizeInner {n : Nat} {t : Token} (ht : t.Within n) (terminator : Terminator) :
    Ends (tokenizeInner terminator t) (tokenizeInner terminator t) fun statements =>
      ∃ k < n, ∀ st ∈ statements, st.Within k := by
  unfold tokenizeInner
  split
  · next inner hinner =>
    refine (ends_tokenize _ _ _).mono fun statements h => ?_
    obtain ⟨r, hr, rfl⟩ := h
    exact ⟨_, ht inner hinner, tokenize_within hr⟩
  · exact ends_failAt

/-- The second compiler of bodies does what the first one does, which ends, for statements with less
than `n` characters between brackets. -/
def EndsBelow (n : Nat) (block block' : Block) : Prop :=
  ∀ k < n, ∀ statements, (∀ st ∈ statements, st.Within k) → Ends (block statements) (block' statements)

variable {n : Nat} {block block' : Block} {keyword first : Token} {rest : List Token}

theorem body_ends (hblock : EndsBelow n block block') {t : Token} (ht : t.Within n) :
    Ends (body block t) (body block' t) := by
  unfold body
  split
  · refine (ends_tokenizeInner ht _).bind fun statements h => ?_
    obtain ⟨k, hk, hstatements⟩ := h
    exact hblock k hk statements hstatements
  · exact ends_failAt

/-! ### Chains -/

theorem headAndBody_within (hrest : ∀ t ∈ rest, t.Within n) {parts : Token × Token}
    (h : headAndBody keyword rest = .ok parts) : parts.1.Within n ∧ parts.2.Within n := by
  obtain ⟨head, braces⟩ := parts
  obtain rfl := headAndBody_mem h
  exact ⟨hrest head (by simp), hrest braces (by simp)⟩

theorem ifBranch_ends (hblock : EndsBelow n block block') (hrest : ∀ t ∈ rest, t.Within n) :
    Ends (ifBranch block keyword rest) (ifBranch block' keyword rest) := by
  refine (ends_ofExcept _).bind fun parts hparts => ?_
  refine (ends_condition parts.1).bind fun c _ => ?_
  exact (body_ends hblock (headAndBody_within hrest hparts).2).bind fun _ _ => ends_pure trivial

theorem elseBranch_ends (hblock : EndsBelow n block block') (closed : Bool)
    (hrest : ∀ t ∈ rest, t.Within n) :
    Ends (elseBranch block closed keyword rest) (elseBranch block' closed keyword rest) := by
  unfold elseBranch
  split
  · exact ends_failAt
  split
  · exact ends_failAt
  next next more =>
  obtain ⟨hnext, hmore⟩ := List.forall_mem_cons.mp hrest
  split
  · exact (body_ends hblock hnext).bind fun _ _ => ends_pure trivial
  split
  · exact ifBranch_ends hblock hmore
  · exact ends_failAt

theorem elseBranches_ends (hblock : EndsBelow n block block') {statements : List Statement}
    (hstatements : ∀ st ∈ statements, st.Within n) (arms : List Branch) :
    Ends (elseBranches block arms statements) (elseBranches block' arms statements) := by
  induction statements generalizing arms with
  | nil => exact ends_pure trivial
  | cons s rest ih =>
    obtain ⟨hs, hrest⟩ := List.forall_mem_cons.mp hstatements
    unfold elseBranches
    split
    · exact ih hrest arms
    · next keyword tokens htokens =>
      have hall : ∀ t ∈ keyword :: tokens, t.Within n := htokens ▸ hs
      exact (elseBranch_ends hblock _ (List.forall_mem_cons.mp hall).2).bind fun _ _ => ih hrest _

theorem armsCommands_ends (first : Bool) (arms : List Branch) :
    Ends (armsCommands first arms) (armsCommands first arms) := by
  induction arms generalizing first with
  | nil => exact ends_pure trivial
  | cons arm rest ih =>
    refine (ends_allocateNext _ _).bind fun path _ => (ends_call path).bind fun _ _ => ?_
    exact (ih false).bind fun _ _ => ends_pure trivial

theorem chainCommands_ends (arms : List Branch) : Ends (chainCommands arms) (chainCommands arms) := by
  unfold chainCommands
  split
  · unfold singleArm
    split
    · exact ends_pure trivial
    · exact ends_pure trivial
    · exact (ends_allocateNext _ _).bind fun path _ => (ends_call path).bind fun _ _ =>
        ends_pure trivial
  · exact ends_fail
  · exact (armsCommands_ends _ _).bind fun _ _ => ends_pure trivial

theorem chain_ends (hblock : EndsBelow n block block') (hrest : ∀ t ∈ rest, t.Within n)
    {elses : List Statement} (helses : ∀ st ∈ elses, st.Within n) :
    Ends (chain block keyword rest elses) (chain block' keyword rest elses) := by
  refine (ifBranch_ends hblock hrest).bind fun first _ => ?_
  exact (elseBranches_ends hblock helses [first]).bind fun arms _ => chainCommands_ends arms

/-! ### Loops -/

theorem whileLoop_ends (hblock : EndsBelow n block block') (hrest : ∀ t ∈ rest, t.Within n) :
    Ends (whileLoop block keyword rest) (whileLoop block' keyword rest) := by
  refine (ends_ofExcept _).bind fun parts hparts => (ends_takeId _).bind fun id _ => ?_
  refine (ends_condition parts.1).bind fun c _ => (ends_call _).bind fun again _ => ?_
  refine (body_ends hblock (headAndBody_within hrest hparts).2).bind fun commands _ => ?_
  exact (ends_allocate _ _ _).bind fun _ _ => ends_pure trivial

theorem doWhile_ends (hblock : EndsBelow n block block') (hrest : ∀ t ∈ rest, t.Within n)
    (tail : Option Statement) :
    Ends (doWhile block keyword rest tail) (doWhile block' keyword rest tail) := by
  unfold doWhile
  split
  · next braces =>
    refine (ends_takeId _).bind fun id _ => ?_
    refine (body_ends hblock (hrest braces List.mem_cons_self)).bind fun commands _ => ?_
    split
    · refine (ends_ofExcept _).bind fun head _ => (ends_condition head).bind fun c _ => ?_
      refine (ends_call _).bind fun again _ => (ends_allocate _ _ _).bind fun _ _ => ?_
      exact ends_pure trivial
    · exact ends_failAt
  · exact ends_failAt

theorem bindLoopVariable_ends (id : Nat) (tokens : List Token) :
    Ends (bindLoopVariable id tokens) (bindLoopVariable id tokens) := by
  unfold bindLoopVariable
  split
  · split
    · split
      · exact (ends_debug _).bind fun _ _ => ends_modify _
      · exact ends_pure trivial
    · exact ends_pure trivial
  · exact ends_pure trivial

theorem forParts_ends (hblock : EndsBelow n block block') (id : Nat) {init test step : Statement}
    {head braces : Token} {k : Nat} (hk : k < n) (hinit : init.Within k) (hstep : step.Within k)
    (hbraces : braces.Within n) :
    Ends (forParts block id init test step head braces)
      (forParts block' id init test step head braces) := by
  refine (bindLoopVariable_ends id _).bind fun _ _ => ?_
  refine (hblock k hk [init] (List.forall_mem_singleton.mpr hinit)).bind fun _ _ => ?_
  refine (ends_ofNoting (Condition.parseTokens_ends _ _)).bind fun tree _ => ?_
  refine (ends_render tree).bind fun c _ => ?_
  refine (hblock k hk [step] (List.forall_mem_singleton.mpr hstep)).bind fun _ _ => ?_
  refine (ends_call _).bind fun again _ => (body_ends hblock hbraces).bind fun _ _ => ?_
  exact (ends_allocate _ _ _).bind fun _ _ => ends_pure trivial

theorem forLoop_ends (hblock : EndsBelow n block block') (hrest : ∀ t ∈ rest, t.Within n) :
    Ends (forLoop block keyword rest) (forLoop block' keyword rest) := by
  refine (ends_ofExcept _).bind fun parts hparts => ?_
  obtain ⟨hhead, hbraces⟩ := headAndBody_within hrest hparts
  refine (ends_tokenizeInner hhead _).bind fun statements h => ?_
  obtain ⟨k, hk, hstatements⟩ := h
  split
  · next init test step =>
    refine (ends_takeId _).bind fun id _ => ends_inScope ?_
    exact forParts_ends hblock id hk (hstatements init (by simp)) (hstatements step (by simp)) hbraces
  · exact ends_failAt

/-! ### Switches -/

theorem splitCase_within (hrest : ∀ t ∈ rest, t.Within n) {head : CaseHead}
    (h : splitCase keyword rest = .ok head) : ∀ t ∈ head.rest, t.Within n := by
  unfold splitCase at h
  split at h
  · cases h
  next label behind =>
  have hbehind := (List.forall_mem_cons.mp hrest).2
  split at h
  · obtain rfl := Except.ok.inj h
    exact label.within_tailFrom_append _ hbehind
  split at h
  · cases h
  split at h
  · obtain rfl := Except.ok.inj h
    exact Token.within_tailFrom_append _ 1 (List.forall_mem_cons.mp hbehind).2
  · cases h

theorem addCaseStatement_within {cases cases' : List Case} {st : Statement}
    (hcases : StatementsSatisfy (Statement.Within n) cases) (hst : st.Within n)
    (h : addCaseStatement cases st = .ok cases') : StatementsSatisfy (Statement.Within n) cases' := by
  unfold addCaseStatement at h
  split at h
  · obtain rfl := Except.ok.inj h
    exact hcases
  next first rest htokens =>
  have hall : ∀ t ∈ first :: rest, t.Within n := htokens ▸ hst
  split at h
  · obtain ⟨head, hhead, h⟩ := exists_of_bind_ok h
    obtain ⟨label, -, h⟩ := exists_of_bind_ok h
    obtain rfl := Except.ok.inj h
    refine List.forall_mem_append.mpr ⟨hcases, List.forall_mem_singleton.mpr ?_⟩
    intro st hst
    dsimp only at hst
    split at hst
    · cases hst
    · rw [List.mem_singleton.mp hst]
      exact splitCase_within (List.forall_mem_cons.mp hall).2 hhead
  split at h
  · cases h
  · obtain rfl := Except.ok.inj h
    intro c hc st' hst'
    rcases mem_statements_addToLast hc hst' with rfl | ⟨c', hc', hst'⟩
    · exact hst
    · exact hcases c' hc' st' hst'

theorem dropBreaks_ends {c : Case} (hc : ∀ st ∈ c.statements, st.Within n) :
    Ends (dropBreaks c) (dropBreaks c) fun c' => ∀ st ∈ c'.statements, st.Within n := by
  refine (Ends.forM fun s _ => ends_modify _).bind fun _ _ => ends_pure fun st hst => ?_
  exact hc st (mem_dropFinalBreak (List.mem_of_mem_filter hst))

theorem collectCases_ends {statements : List Statement} (hstatements : ∀ st ∈ statements, st.Within n) :
    Ends (collectCases statements) (collectCases statements) fun cases =>
      ∀ c ∈ cases, ∀ st ∈ c.statements, st.Within n := by
  refine (ends_ofExcept _).bind fun cases hcases => ?_
  have hwithin : StatementsSatisfy (Statement.Within n) cases := by
    refine foldlM_keeps (P := StatementsSatisfy (Statement.Within n)) ?_ (List.forall_mem_nil _) hcases
    exact fun cases st cases' hst hcases hadd => addCaseStatement_within hcases (hstatements st hst) hadd
  exact Ends.mapM fun c hc => dropBreaks_ends (hwithin c hc)

theorem rangeTest_ends (id : Nat) (score : Score) (d : Dispatch) :
    Ends (rangeTest id score d) (rangeTest id score d) :=
  (ends_call _).bind fun _ _ => ends_pure trivial

theorem registerRange_ends (id : Nat) (d : Dispatch) {inner : Compile (List Command)}
    (hinner : Ends inner inner) : Ends (registerRange id d inner) (registerRange id d inner) := by
  cases d with
  | leaf label => exact ends_pure trivial
  | node low high left right =>
    exact hinner.bind fun _ _ => (ends_register _ _ _).bind fun _ _ => ends_pure trivial

theorem rangeTests_ends (id : Nat) (score : Score) (d : Dispatch) :
    Ends (rangeTests id score d) (rangeTests id score d) := by
  induction d with
  | leaf label => exact (rangeTest_ends id score _).bind fun _ _ => ends_pure trivial
  | node low high left right ihleft ihright =>
    refine (registerRange_ends id left ihleft).bind fun _ _ => ?_
    refine (rangeTest_ends id score left).bind fun _ _ => ?_
    refine (registerRange_ends id right ihright).bind fun _ _ => ?_
    exact (rangeTest_ends id score right).bind fun _ _ => ends_pure trivial

theorem registerCases_ends (hblock : EndsBelow n block block') (id : Nat) {cases : List Case} {k : Nat}
    (hk : k < n) (hcases : ∀ c ∈ cases, ∀ st ∈ c.statements, st.Within k) :
    Ends (registerCases block id cases) (registerCases block' id cases) := by
  induction cases with
  | nil => exact ends_pure trivial
  | cons c rest ih =>
    obtain ⟨hc, hrest⟩ := List.forall_mem_cons.mp hcases
    exact (hblock k hk c.statements hc).bind fun _ _ =>
      (ends_register _ _ _).bind fun _ _ => ih hrest

-- reading a score computes on characters, which unification must not look into
attribute [local irreducible] score? switchScore score

theorem switchScore_ends (head : Token) : Ends (switchScore head) (switchScore head) := by
  unfold switchScore
  refine Ends.bind (ends_score? _) fun result _ => ?_
  split
  · exact ends_pure trivial
  · exact ends_failAt

theorem switch_ends (hblock : EndsBelow n block block') (hrest : ∀ t ∈ rest, t.Within n) :
    Ends (switch block keyword rest) (switch block' keyword rest) := by
  unfold switch
  split
  · next head braces =>
    split
    · exact ends_failAt
    split
    · exact ends_failAt
    refine (switchScore_ends head).bind fun score _ => ?_
    refine (ends_tokenizeInner (hrest braces (by simp)) _).bind fun statements h => ?_
    obtain ⟨k, hk, hstatements⟩ := h
    refine (collectCases_ends hstatements).bind fun cases hcases => ?_
    split
    · refine (ends_takeId _).bind fun id _ => (ends_debug _).bind fun _ _ => ?_
      exact (registerCases_ends hblock id hk hcases).bind fun _ _ => rangeTests_ends id score _
    · exact ends_failAt
  · exact ends_failAt

/-! ### Built-in functions -/

theorem sqrt_ends (args : Bindings) (target : Score) : Ends (sqrt args target) (sqrt args target) := by
  refine (ends_call _).bind fun callMain _ => (ends_call _).bind fun callStep _ => ?_
  have hemit : Ends (emitSqrt callMain callStep) (emitSqrt callMain callStep) := by
    refine ends_get.bind fun s _ => ?_
    split
    · refine (ends_modify _).bind fun _ _ => (ends_register _ _ _).bind fun _ _ => ?_
      refine (ends_register _ _ _).bind fun _ _ => ?_
      exact (ends_modify _).bind fun _ _ => ends_debug _
    · exact ends_pure trivial
  refine hemit.bind fun _ _ => (ends_ofExcept _).bind fun v _ => ?_
  split
  · exact ends_pure trivial
  · exact ends_pure trivial
  · exact (ends_ofExcept _).mono fun _ _ => trivial

theorem random_ends (args : Bindings) (target : Score) :
    Ends (random args target) (random args target) := by
  refine (ends_ofExcept _).bind fun min _ => (ends_ofExcept _).bind fun max _ => ?_
  split
  · exact ends_fail
  · exact ends_pure trivial

theorem addObjective_ends (args : Bindings) : Ends (addObjective args) (addObjective args) := by
  refine (ends_ofExcept _).bind fun objective _ => (ends_ofExcept _).bind fun criteria _ => ?_
  refine ends_get.bind fun s _ => ?_
  split <;> exact (ends_modify _).bind fun _ _ => ends_pure trivial

theorem onEvent_ends (hblock : EndsBelow n block block') {args : Bindings}
    (hhandler : ∀ handler, args.arrow "handler" = .ok handler → handler.Within n) :
    Ends (onEvent block args) (onEvent block' args) := by
  refine (ends_ofExcept _).bind fun objective _ => (ends_ofExcept _).bind fun criteria _ => ?_
  refine (ends_ofExcept _).bind fun handler h => (ends_modify _).bind fun _ _ => ?_
  refine (body_ends hblock (hhandler handler h)).bind fun commands _ => ?_
  refine (ends_registerNext _ _).bind fun path _ => (ends_debug _).bind fun _ _ => ?_
  exact (ends_call path).bind fun hook _ => (ends_modify _).bind fun _ _ => ends_pure trivial

theorem circle_ends (args : Bindings) : Ends (circle args) (circle args) := by
  refine (ends_ofExcept _).bind fun particle _ => (ends_ofExcept _).bind fun radius _ => ?_
  refine (ends_ofExcept _).bind fun spread _ => ?_
  split
  · exact ends_pure trivial
  · exact ends_fail

theorem tellraw_ends (args : Bindings) : Ends (tellraw args) (tellraw args) :=
  (ends_ofExcept _).bind fun _ _ => (ends_ofExcept _).bind fun _ _ => ends_get.bind fun _ _ => ends_pure trivial

theorem expand_ends (hblock : EndsBelow n block block') (b : Builtin) (target : Option Score)
    {args : Bindings} (hhandler : ∀ handler, args.arrow "handler" = .ok handler → handler.Within n) :
    Ends (expand block b target args) (expand block' b target args) := by
  unfold expand
  split
  · exact sqrt_ends args _
  · exact random_ends args _
  · exact addObjective_ends args
  · exact onEvent_ends hblock hhandler
  · exact circle_ends args
  · exact tellraw_ends args
  · exact ends_fail

/-- The handler in an argument list is inside its brackets. -/
theorem handler_within {group : Token} (hgroup : group.Within n) {arguments : Arguments}
    (hparse : (Arguments.parse group).Gives arguments) {b : Builtin} {scope : Scope} {args : Bindings}
    (hbind : b.bind scope arguments = .ok args) {handler : Token}
    (hhandler : args.arrow "handler" = .ok handler) : handler.Within n := by
  rcases Arguments.parse_arrowsIn hparse with hnone | ⟨r, st, hread, hst, harrows⟩
  · exact absurd (Builtin.bind_arrow hnone hbind hhandler) List.not_mem_nil
  · obtain ⟨k, hk, hstatements⟩ := hgroup.tokenizeInner hread
    exact (hstatements st hst handler (Builtin.bind_arrow harrows hbind hhandler)).mono hk.le

theorem builtin_ends (hblock : EndsBelow n block block') (b : Builtin) (name : Token)
    (hrest : ∀ t ∈ rest, t.Within n) (target : Option Score) :
    Ends (builtin block b name rest target) (builtin block' b name rest target) := by
  unfold builtin
  split
  · next group =>
    split
    · exact ends_failAt
    · exact ends_failAt
    · refine (ends_ofNoting (Arguments.parse_ends group)).bind fun arguments harguments => ?_
      refine ends_get.bind fun s _ => ?_
      refine (ends_ofExcept _).bind fun args hargs => (ends_debug _).bind fun _ _ => ?_
      exact expand_ends hblock b _ fun handler =>
        handler_within (hrest group List.mem_cons_self) harguments hargs
  · exact ends_failAt

/-! ### Variable statements -/

theorem score_ends (name : String) (t : Token) : Ends (score name t) (score name t) := by
  unfold score
  refine Ends.bind (ends_score? name) fun result _ => ?_
  split
  · exact ends_pure trivial
  · exact ends_failAt

theorem checkSingle_ends (value : Token) (rest : List Token) :
    Ends (checkSingle value rest) (checkSingle value rest) := by
  unfold checkSingle
  split
  · exact ends_fail
  split
  · exact ends_pure trivial
  split
  · exact ends_fail
  · exact ends_failAt

theorem operand_ends (o : Operator) (target : Token) (right : List Token) :
    Ends (operand o target right) (operand o target right) := by
  unfold operand
  split
  · exact ends_failAt
  refine (checkSingle_ends _ _).bind fun _ _ => (ends_ofExcept _).bind fun n _ => ?_
  split
  · exact ends_pure trivial
  refine ends_get.bind fun s _ => ?_
  split
  · exact ends_pure trivial
  · exact ends_failAt

theorem operandScore_ends (value : Operand) : Ends (operandScore value) (operandScore value) := by
  cases value with
  | score s => exact ends_pure trivial
  | int n => exact (ends_modify _).bind fun _ _ => ends_pure trivial

theorem addition_ends (target : Score) (o : Operator) (value : Operand) :
    Ends (addition target o value) (addition target o value) := by
  unfold addition
  split
  · split
    · exact (operandScore_ends _).bind fun _ _ => ends_pure trivial
    · split <;> exact ends_pure trivial
  · exact ends_pure trivial

theorem functionCall_ends (name : Token) (rest : List Token) :
    Ends (functionCall name rest) (functionCall name rest) := by
  unfold functionCall
  split
  · split
    · exact ends_failAt
    · exact ends_call _
  · exact ends_failAt

theorem assignment_ends (hblock : EndsBelow n block block') (target : Score) (targetToken : Token)
    {right : List Token} (hright : ∀ t ∈ right, t.Within n) :
    Ends (assignment block target targetToken right) (assignment block' target targetToken right) := by
  unfold assignment
  split
  · exact ends_failAt
  next first rest =>
  refine ends_get.bind fun s _ => ?_
  split
  · refine (operand_ends _ _ _).bind fun value _ => ?_
    split <;> exact ends_pure trivial
  split
  · exact ends_fail
  split
  · exact builtin_ends hblock _ _ (List.forall_mem_cons.mp hright).2 _
  · exact (functionCall_ends _ _).bind fun _ _ => ends_pure trivial
  · exact ends_pure trivial

theorem getStatement_ends (holder : String) (name group : Token) :
    Ends (getStatement holder name group) (getStatement holder name group) := by
  unfold getStatement
  split
  · exact ends_failAt
  · exact (score_ends holder name).bind fun _ _ => ends_pure trivial

theorem operation_ends (hblock : EndsBelow n block block') {a : Assignment}
    (hright : ∀ t ∈ a.right, t.Within n) : Ends (operation block a) (operation block' a) := by
  have hoperand := operand_ends a.operator a.target a.right
  unfold operation
  refine (score_ends _ _).bind fun target _ => ?_
  split
  · split
    · exact ends_failAt
    · exact ends_pure trivial
  · split
    · exact ends_failAt
    · exact ends_pure trivial
  · exact assignment_ends hblock _ _ hright
  · refine hoperand.bind fun value _ => ?_
    split
    · exact ends_pure trivial
    · exact ends_failAt
  · refine hoperand.bind fun value _ => ?_
    split
    · exact ends_pure trivial
    · exact ends_failAt
  · exact hoperand.bind fun value _ => (addition_ends _ _ _).bind fun _ _ => ends_pure trivial
  · exact hoperand.bind fun value _ => (addition_ends _ _ _).bind fun _ _ => ends_pure trivial
  · exact hoperand.bind fun value _ => (operandScore_ends _).bind fun _ _ => ends_pure trivial

theorem ofTokens?_within {tokens : List Token} (htokens : ∀ t ∈ tokens, t.Within n) {a : Assignment}
    (h : Assignment.ofTokens? tokens = some a) : ∀ t ∈ a.right, t.Within n := by
  unfold Assignment.ofTokens? at h
  split at h
  · cases h
  next first rest =>
  have hrest := (List.forall_mem_cons.mp htokens).2
  split at h
  · obtain ⟨⟨target, tail⟩, -, rfl⟩ := Option.map_eq_some_iff.mp h
    exact tail.within_tailFrom_append _ hrest
  split at h
  · cases h
  · obtain ⟨o, -, rfl⟩ := Option.map_eq_some_iff.mp h
    exact Token.within_tailFrom_append _ _ (List.forall_mem_cons.mp hrest).2

theorem plainVariable_ends (hblock : EndsBelow n block block') (first : Token)
    (hfirst : first.Within n) (hrest : ∀ t ∈ rest, t.Within n) :
    Ends (plainVariable block first rest) (plainVariable block' first rest) := by
  unfold plainVariable
  extract_lets other other'
  have hother : Ends other other' := by
    unfold other other'
    split
    · next a ha =>
      exact operation_ends hblock (ofTokens?_within (List.forall_mem_cons.mpr ⟨hfirst, hrest⟩) ha)
    · exact ends_failAt
  clear_value other other'
  split
  · split
    · split
      · exact getStatement_ends _ _ _
      · exact hother
    · exact hother
  · exact hother

theorem variableChange_ends (hblock : EndsBelow n block block') (first : Token)
    (hfirst : first.Within n) (hrest : ∀ t ∈ rest, t.Within n) :
    Ends (variableChange block first rest) (variableChange block' first rest) := by
  unfold variableChange
  split
  · split
    · exact ends_failAt
    · obtain ⟨hname, hrest⟩ := List.forall_mem_cons.mp hrest
      exact plainVariable_ends hblock _ hname hrest
  · exact plainVariable_ends hblock _ hfirst hrest

/-! ### Definitions -/

theorem checkPath_ends (head : FunctionHead) : Ends (checkPath head) (checkPath head) := by
  refine ends_get.bind fun s _ => ?_
  split
  · exact ends_failAt
  dsimp only
  generalize (if head.path = tickPath then s.tickDefined else s.pack.hasFunction head.path) = taken
  split
  · exact ends_failAt
  split
  · exact ends_modify _
  · exact ends_pure trivial

theorem functionHead_within {level : Except Cause FunctionPath} (hrest : ∀ t ∈ rest, t.Within n)
    {head : FunctionHead} (h : functionHead level keyword rest = .ok head) : head.body.Within n := by
  unfold functionHead at h
  split at h
  · next body =>
    repeat' split at h
    all_goals cases h
    exact hrest _ (by simp)
  · cases h

theorem functionDefinition_ends (hblock : EndsBelow n block block') (level : Except Cause FunctionPath)
    (hrest : ∀ t ∈ rest, t.Within n) :
    Ends (functionDefinition block level keyword rest)
      (functionDefinition block' level keyword rest) := by
  refine (ends_ofExcept _).bind fun head hhead => (checkPath_ends head).bind fun _ _ => ?_
  refine (ends_debug _).bind fun _ _ => ?_
  refine (body_ends hblock (functionHead_within hrest hhead)).bind fun commands _ => ?_
  split
  · exact ends_modify _
  refine ends_get.bind fun s _ => ?_
  split
  · exact ends_modify _
  · exact ends_failAt

theorem newResource_ends (keyword : Token) (rest : List Token) :
    Ends (newResource keyword rest) (newResource keyword rest) := by
  refine (ends_ofExcept _).bind fun head _ => ends_get.bind fun s _ => ?_
  split
  · exact ends_fail
  refine ends_get.bind fun s _ => ?_
  split
  · exact ends_modify _
  · exact ends_failAt

theorem classFunctions_ends (hblock : EndsBelow n block block') (path : FunctionPath)
    {statements : List Statement} (hstatements : ∀ st ∈ statements, st.Within n) :
    Ends (classFunctions block path statements) (classFunctions block' path statements) := by
  induction statements with
  | nil => exact ends_pure trivial
  | cons s rest ih =>
    obtain ⟨hs, hrest⟩ := List.forall_mem_cons.mp hstatements
    unfold classFunctions
    split
    · exact ih hrest
    · next first tokens htokens =>
      have hall : ∀ t ∈ first :: tokens, t.Within n := htokens ▸ hs
      refine (ends_ofExcept _).bind fun _ _ => ?_
      exact (functionDefinition_ends hblock _ (List.forall_mem_cons.mp hall).2).bind fun _ _ =>
        ih hrest

theorem classDefinition_ends (hblock : EndsBelow n block block') (hrest : ∀ t ∈ rest, t.Within n) :
    Ends (classDefinition block keyword rest) (classDefinition block' keyword rest) := by
  refine (ends_ofExcept _).bind fun parts hparts => ?_
  have hbraces : parts.2.Within n := by
    unfold classHead at hparts
    split at hparts
    · repeat' split at hparts
      all_goals cases hparts
      exact hrest _ (by simp)
    · cases hparts
  refine (ends_tokenizeInner hbraces _).bind fun statements h => ?_
  obtain ⟨k, hk, hstatements⟩ := h
  exact classFunctions_ends hblock _ fun st hst t ht => (hstatements st hst t ht).mono hk.le

/-! ### Blocks -/

theorem statement_ends (hblock : EndsBelow n block block') (level : Level) (kind : StatementKind)
    (hfirst : first.Within n) (hrest : ∀ t ∈ rest, t.Within n) :
    Ends (statement block level kind first rest) (statement block' level kind first rest) := by
  cases kind with
  | function => exact (functionDefinition_ends hblock _ hrest).bind fun _ _ => ends_pure trivial
  | classDefinition => exact (classDefinition_ends hblock hrest).bind fun _ _ => ends_pure trivial
  | newResource => exact (newResource_ends _ _).bind fun _ _ => ends_pure trivial
  | ifBranch => exact chain_ends hblock hrest (List.forall_mem_nil _)
  | whileLoop => exact whileLoop_ends hblock hrest
  | doLoop => exact doWhile_ends hblock hrest none
  | forLoop => exact forLoop_ends hblock hrest
  | switch => exact switch_ends hblock hrest
  | variableChange => exact variableChange_ends hblock _ hfirst hrest
  | builtin b => exact builtin_ends hblock b _ hrest _
  | call => exact (functionCall_ends _ _).bind fun _ _ => ends_pure trivial
  | vanilla => exact ends_pure trivial
  | importFile | elseBranch | caseLabel | breakCase => exact ends_failAt

theorem atLevel_ends (level : Level) {s : Statement} (hs : s.Within n)
    {compile compile' : Token → List Token → Compile (List Command)}
    (hcompile : ∀ first rest, first.Within n → (∀ t ∈ rest, t.Within n) →
      Ends (compile first rest) (compile' first rest)) :
    Ends (atLevel level s compile) (atLevel level s compile') := by
  unfold atLevel
  split
  · exact ends_pure trivial
  next first rest htokens =>
  have hall : ∀ t ∈ first :: rest, t.Within n := htokens ▸ hs
  obtain ⟨hfirst, hrest⟩ := List.forall_mem_cons.mp hall
  exact (ends_ofExcept _).bind fun _ _ => hcompile _ _ hfirst hrest

theorem construct_ends (hblock : EndsBelow n block block') (level : Level) {c : Construct}
    (hc : ∀ st ∈ c.statements, st.Within n) :
    Ends (construct block level c) (construct block' level c) := by
  cases c with
  | chain s elses =>
    obtain ⟨hs, helses⟩ := List.forall_mem_cons.mp hc
    exact atLevel_ends level hs fun _ _ _ hrest => chain_ends hblock hrest helses
  | doWhile s tail =>
    have hs := (List.forall_mem_cons.mp hc).1
    exact atLevel_ends level hs fun _ _ _ hrest => doWhile_ends hblock hrest tail
  | single s =>
    exact atLevel_ends level (hc s List.mem_cons_self) fun _ _ => statement_ends hblock level _

theorem bodyConstructs_ends (hblock : EndsBelow n block block') {cs : List Construct}
    (hcs : ∀ c ∈ cs, ∀ st ∈ c.statements, st.Within n) :
    Ends (bodyConstructs block cs) (bodyConstructs block' cs) := by
  induction cs with
  | nil => exact ends_pure trivial
  | cons c rest ih =>
    obtain ⟨hc, hrest⟩ := List.forall_mem_cons.mp hcs
    refine (construct_ends hblock .body hc).bind fun _ _ => ?_
    exact (ih hrest).bind fun _ _ => ends_pure trivial

/-- The statements of constructs are those that the constructs were made of. -/
theorem constructs_within {statements : List Statement} (h : ∀ st ∈ statements, st.Within n) :
    ∀ c ∈ constructs statements, ∀ st ∈ c.statements, st.Within n := by
  intro c hc st hst
  refine h st ?_
  rw [← statements_constructs statements]
  exact List.mem_flatMap.mpr ⟨c, hc, hst⟩

/-- Every bound that is not below the number of characters between brackets will do. -/
theorem block_ends {depth depth' : Nat} (h : depth ≤ depth') :
    EndsBelow depth (Compile.block depth) (Compile.block depth') := by
  -- with each body that is entered, both the bound and the characters become fewer
  induction depth generalizing depth' with
  | zero => exact fun k hk => absurd hk (Nat.not_lt_zero k)
  | succ depth ih =>
    obtain ⟨depth', rfl⟩ : ∃ d, depth' = d + 1 := ⟨depth' - 1, by omega⟩
    intro k hk statements hstatements
    refine bodyConstructs_ends (n := k) (fun j hj => ?_) (constructs_within hstatements)
    exact ih (by omega) j (by omega)

end Compile

end Packwright
