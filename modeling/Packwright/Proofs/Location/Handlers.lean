import Packwright.Proofs.Location.Readers
import Packwright.Session.Source

/-!
# Constructs on the lines of a text

Whatever is wrong with a construct is reported on a line of the text that the construct stands in,
at any depth of nested bodies. A fault without a place would tell of a broken promise inside the
program. A construct may also stop the program because a counter of generated functions or of flags is
spent.

## Main definitions

- `Session.Spent` — some counter is spent
- `BlockRuns` — bodies whose faults point into the text that their statements stand in

## Main results

- `Compile.chain_runs`, `Compile.whileLoop_runs`, `Compile.forLoop_runs`, `Compile.switch_runs` —
  control flow
- `Compile.builtin_runs`, `Compile.variableChange_runs` — calls and variables
- `Compile.functionDefinition_runs`, `Compile.newResource_runs` — definitions
- `Compile.construct_runs`, `Compile.block_runs` — whole constructs and bodies
-/

namespace Packwright

/-- The counter of some family is spent. -/
def Session.Spent (s : Session) : Prop :=
  ∃ f : Feature, s.pack.generated.isSpent f.name = true

instance : HasCounters Session := ⟨Session.Spent⟩

namespace Compile

variable {α : Type} {text : List Char} {P : α → Prop}

/-! ### Steps -/

theorem runsIn_fail {f : Fault} (h : Failure.Blames text (.fault f)) :
    RunsIn text (fail f : Compile α) P :=
  runsIn_throw h

theorem runsIn_failAt {t : Token} (h : t.LiesIn text) (cause : Cause) :
    RunsIn text (failAt t cause : Compile α) P :=
  runsIn_throw (h.blames cause)

theorem runsIn_ofExcept {x : Except Fault α} (h : ReadsIn text x P) :
    RunsIn text (ofExcept x) P := by
  cases x with
  | ok a => exact runsIn_pure h
  | error f => exact runsIn_fail h

theorem runsIn_ofNoting {m : Noting α} (h : RunsIn text m P) : RunsIn text (ofNoting m) P := by
  unfold ofNoting
  have hrun := h []
  generalize m.run.run [] = result at hrun ⊢
  obtain ⟨value, warnings⟩ := result
  refine (runsIn_modify _).bind fun _ _ => ?_
  cases value with
  | ok a => exact runsIn_pure hrun
  | error e => exact runsIn_throw (hrun.resolve_right (·.2))

theorem runsIn_tokenize {start : Position} {source : String} (h : Stands text start source.toList)
    (terminator : Terminator) :
    RunsIn text (tokenize terminator start source) fun statements =>
      ∀ s ∈ statements, s.LiesIn text := by
  refine (runsIn_ofExcept (tokenize_lies h terminator)).bind fun reading hreading => ?_
  exact (runsIn_modify _).bind fun _ _ => runsIn_pure hreading

theorem runsIn_tokenizeInner {t : Token} (h : t.LiesIn text) (terminator : Terminator) :
    RunsIn text (tokenizeInner terminator t) fun statements => ∀ s ∈ statements, s.LiesIn text := by
  unfold tokenizeInner
  split
  · next inner hinner => exact runsIn_tokenize (h.inner_stands hinner) terminator
  · exact runsIn_failAt h _

theorem runsIn_of_outcome {m : Compile α} (h : ∀ s, match m.outcome s with
    | (.ok a, _) => P a
    | (.error e, s') => e.Blames text ∨ e = .crash ∧ s'.Spent) : RunsIn text m P := by
  intro s
  have hs := h s
  unfold outcome at hs
  generalize m.run.run s = result at hs ⊢
  obtain ⟨e | a, s'⟩ := result <;> exact hs

theorem runsIn_inScope {m : Compile α} (h : RunsIn text m P) : RunsIn text (inScope m) P := by
  refine runsIn_of_outcome fun s => ?_
  have hm := h { s with scope := s.scope.push }
  rw [outcome_inScope]
  unfold outcome
  generalize m.run.run { s with scope := s.scope.push } = result at hm ⊢
  obtain ⟨e | a, s'⟩ := result <;> exact hm

/-- Taking a number stops the program if the counter is spent. -/
theorem runsIn_takeId (f : Feature) : RunsIn text (takeId f) := by
  refine runsIn_of_outcome fun s => ?_
  rcases takeId_cases f s with ⟨hspent, hrun⟩ | ⟨n, -, hrun⟩
  · rw [hrun]
    exact .inr ⟨rfl, f, hspent⟩
  · rw [hrun]
    trivial

theorem runsIn_call (path : FunctionPath) : RunsIn text (call path) := fun _ => trivial

theorem runsIn_debug (message : String) : RunsIn text (debug message) := fun _ => trivial

/-- A generated function that is there already breaks a promise inside the program. -/
theorem runsIn_register (f : Feature) (name : String) (commands : List Command) :
    RunsIn text (register f name commands) := by
  refine runsIn_get.bind fun s _ => ?_
  have hinsert : RunsIn text (ofCause (s.pack.generated.insert f.name name commands)) := by
    unfold Registry.insert
    split
    · exact runsIn_fail (blames_irregular rfl)
    · exact runsIn_pure trivial
  exact hinsert.bind fun _ _ => (runsIn_set _).bind fun _ _ => runsIn_pure trivial

theorem runsIn_allocate (f : Feature) (name : String) (commands : List Command) :
    RunsIn text (allocate f name commands) :=
  (runsIn_register f name commands).bind fun _ _ =>
    (runsIn_debug _).bind fun _ _ => runsIn_pure trivial

theorem runsIn_registerNext (f : Feature) (commands : List Command) :
    RunsIn text (registerNext f commands) :=
  (runsIn_takeId f).bind fun _ _ => runsIn_register f _ commands

theorem runsIn_allocateNext (f : Feature) (commands : List Command) :
    RunsIn text (allocateNext f commands) :=
  (runsIn_registerNext f commands).bind fun _ _ =>
    (runsIn_debug _).bind fun _ _ => runsIn_pure trivial

/-- Rendering what can be read stops the program only if the counter of flags is spent. -/
theorem runsIn_render {c : Condition} (h : ∀ scope, c.Readable scope) : RunsIn text (render c) := by
  refine runsIn_of_outcome fun s => ?_
  obtain ⟨result, n, hrun, -, hresult⟩ := render_cases c s
  rw [hrun]
  cases result with
  | ok r => trivial
  | error e =>
    refine .inr ⟨hresult.1, .logic, decide_eq_true ?_⟩
    rw [Registry.peekId_setCounter, if_pos rfl]
    exact hresult.2 (h _)

theorem runsIn_condition {group : Token} (h : group.LiesIn text) : RunsIn text (condition group) :=
  (runsIn_ofNoting (Condition.parse_runs h)).bind fun _ hc => runsIn_render hc

theorem runsIn_score? (name : String) : RunsIn text (score? name) := fun _ => trivial

/-- The faults of a body point into the text that its statements stand in. -/
def BlockRuns (text : List Char) (block : Block) : Prop :=
  ∀ statements, (∀ s ∈ statements, s.LiesIn text) → RunsIn text (block statements)

theorem runsIn_body {block : Block} (hblock : BlockRuns text block) {t : Token}
    (h : t.LiesIn text) : RunsIn text (body block t) := by
  unfold body
  split
  · exact (runsIn_tokenizeInner h .required).bind fun statements hstatements =>
      hblock statements hstatements
  · exact runsIn_failAt h _

variable {block : Block} {keyword : Token} {rest : List Token}

/-! ### Chains -/

theorem ifBranch_runs (hblock : BlockRuns text block) (hkeyword : keyword.LiesIn text)
    (hrest : ∀ t ∈ rest, t.LiesIn text) : RunsIn text (ifBranch block keyword rest) := by
  refine (runsIn_ofExcept (headAndBody_reads hkeyword hrest)).bind fun parts hparts => ?_
  refine (runsIn_condition hparts.1).bind fun c _ => ?_
  exact (runsIn_body hblock hparts.2).bind fun _ _ => runsIn_pure trivial

theorem elseBranch_runs (hblock : BlockRuns text block) (closed : Bool)
    (hkeyword : keyword.LiesIn text) (hrest : ∀ t ∈ rest, t.LiesIn text) :
    RunsIn text (elseBranch block closed keyword rest) := by
  unfold elseBranch
  split
  · exact runsIn_failAt hkeyword _
  split
  · exact runsIn_failAt hkeyword _
  next next more =>
  obtain ⟨hnext, hmore⟩ := List.forall_mem_cons.mp hrest
  split
  · exact (runsIn_body hblock hnext).bind fun _ _ => runsIn_pure trivial
  split
  · exact ifBranch_runs hblock hnext hmore
  · exact runsIn_failAt hkeyword _

theorem elseBranches_runs (hblock : BlockRuns text block) {statements : List Statement}
    (hstatements : ∀ s ∈ statements, s.LiesIn text) (arms : List Branch) :
    RunsIn text (elseBranches block arms statements) := by
  induction statements generalizing arms with
  | nil => exact runsIn_pure trivial
  | cons s rest ih =>
    obtain ⟨hs, hrest⟩ := List.forall_mem_cons.mp hstatements
    unfold elseBranches
    split
    · exact ih hrest arms
    · next keyword tokens htokens =>
      have hall : ∀ t ∈ keyword :: tokens, t.LiesIn text := htokens ▸ hs
      obtain ⟨hkeyword, htokens⟩ := List.forall_mem_cons.mp hall
      exact (elseBranch_runs hblock _ hkeyword htokens).bind fun arm _ => ih hrest _

theorem armsCommands_runs (first : Bool) (arms : List Branch) :
    RunsIn text (armsCommands first arms) := by
  induction arms generalizing first with
  | nil => exact runsIn_pure trivial
  | cons arm rest ih =>
    refine (runsIn_allocateNext _ _).bind fun path _ => (runsIn_call path).bind fun _ _ => ?_
    exact (ih false).bind fun _ _ => runsIn_pure trivial

theorem chainCommands_runs (arms : List Branch) : RunsIn text (chainCommands arms) := by
  unfold chainCommands
  split
  · unfold singleArm
    split
    · exact runsIn_pure trivial
    · exact runsIn_pure trivial
    · exact (runsIn_allocateNext _ _).bind fun path _ =>
        (runsIn_call path).bind fun _ _ => runsIn_pure trivial
  · exact runsIn_fail (blames_irregular rfl)
  · exact (armsCommands_runs _ _).bind fun _ _ => runsIn_pure trivial

theorem chain_runs (hblock : BlockRuns text block) (hkeyword : keyword.LiesIn text)
    (hrest : ∀ t ∈ rest, t.LiesIn text) {elses : List Statement}
    (helses : ∀ s ∈ elses, s.LiesIn text) : RunsIn text (chain block keyword rest elses) := by
  refine (ifBranch_runs hblock hkeyword hrest).bind fun first _ => ?_
  exact (elseBranches_runs hblock helses [first]).bind fun arms _ => chainCommands_runs arms

/-! ### Loops -/

theorem whileLoop_runs (hblock : BlockRuns text block) (hkeyword : keyword.LiesIn text)
    (hrest : ∀ t ∈ rest, t.LiesIn text) : RunsIn text (whileLoop block keyword rest) := by
  refine (runsIn_ofExcept (headAndBody_reads hkeyword hrest)).bind fun parts hparts => ?_
  refine (runsIn_takeId .whileLoop).bind fun id _ => ?_
  refine (runsIn_condition hparts.1).bind fun c _ => (runsIn_call _).bind fun again _ => ?_
  refine (runsIn_body hblock hparts.2).bind fun commands _ => ?_
  exact (runsIn_allocate _ _ _).bind fun _ _ => runsIn_pure trivial

theorem doWhile_runs (hblock : BlockRuns text block) (hkeyword : keyword.LiesIn text)
    (hrest : ∀ t ∈ rest, t.LiesIn text) {tail : Option Statement}
    (htail : ∀ s ∈ tail, s.LiesIn text) : RunsIn text (doWhile block keyword rest tail) := by
  unfold doWhile
  split
  · next braces =>
    refine (runsIn_takeId .doWhileLoop).bind fun id _ => ?_
    refine (runsIn_body hblock (hrest braces List.mem_cons_self)).bind fun commands _ => ?_
    split
    · next whileKeyword tokens hfound =>
      obtain ⟨s, hs, htokens⟩ := Option.map_eq_some_iff.mp hfound
      have hall : ∀ t ∈ whileKeyword :: tokens, t.LiesIn text := htokens ▸ htail s hs
      obtain ⟨hwhile, hbehind⟩ := List.forall_mem_cons.mp hall
      refine (runsIn_ofExcept (doWhileHead_reads hwhile hbehind)).bind fun head hhead => ?_
      refine (runsIn_condition hhead).bind fun c _ => (runsIn_call _).bind fun again _ => ?_
      exact (runsIn_allocate _ _ _).bind fun _ _ => runsIn_pure trivial
    · exact runsIn_failAt hkeyword _
  · exact runsIn_failAt hkeyword _

theorem bindLoopVariable_runs (id : Nat) (tokens : List Token) :
    RunsIn text (bindLoopVariable id tokens) := by
  unfold bindLoopVariable
  split
  · split
    · split
      · exact (runsIn_debug _).bind fun _ _ => runsIn_modify _
      · exact runsIn_pure trivial
    · exact runsIn_pure trivial
  · exact runsIn_pure trivial

theorem forParts_runs (hblock : BlockRuns text block) (id : Nat) {init test step : Statement}
    {head braces : Token} (hinit : init.LiesIn text) (htest : test.LiesIn text)
    (hstep : step.LiesIn text) (hhead : head.LiesIn text) (hbraces : braces.LiesIn text) :
    RunsIn text (forParts block id init test step head braces) := by
  refine (bindLoopVariable_runs id _).bind fun _ _ => ?_
  refine (hblock [init] (List.forall_mem_singleton.mpr hinit)).bind fun _ _ => ?_
  refine (runsIn_ofNoting (Condition.parseTokens_runs _ _ hhead.shows htest)).bind
    fun tree htree => ?_
  refine (runsIn_render htree).bind fun c _ => ?_
  refine (hblock [step] (List.forall_mem_singleton.mpr hstep)).bind fun _ _ => ?_
  refine (runsIn_call _).bind fun again _ => (runsIn_body hblock hbraces).bind fun _ _ => ?_
  exact (runsIn_allocate _ _ _).bind fun _ _ => runsIn_pure trivial

theorem forLoop_runs (hblock : BlockRuns text block) (hkeyword : keyword.LiesIn text)
    (hrest : ∀ t ∈ rest, t.LiesIn text) : RunsIn text (forLoop block keyword rest) := by
  refine (runsIn_ofExcept (headAndBody_reads hkeyword hrest)).bind fun parts hparts => ?_
  refine (runsIn_tokenizeInner hparts.1 _).bind fun statements hstatements => ?_
  split
  · next init test step =>
    refine (runsIn_takeId .forLoop).bind fun id _ => runsIn_inScope ?_
    exact forParts_runs hblock id (hstatements init (by simp)) (hstatements test (by simp))
      (hstatements step (by simp)) hparts.1 hparts.2
  · exact runsIn_failAt hparts.1 _

/-! ### Switches -/

theorem dropBreaks_runs {c : Case} (hc : c.LiesIn text) :
    RunsIn text (dropBreaks c) (Case.LiesIn text) := by
  have hkept : ∀ s ∈ dropFinalBreak c.statements, s.LiesIn text := by
    unfold dropFinalBreak
    split
    · split
      · exact fun s hs => hc s (List.mem_of_mem_dropLast hs)
      · exact hc
    · exact hc
  refine (RunsIn.forM fun s _ => runsIn_modify _).bind fun _ _ => runsIn_pure fun s hs => ?_
  exact hkept s (List.mem_of_mem_filter hs)

theorem collectCases_runs {statements : List Statement}
    (hstatements : ∀ s ∈ statements, s.LiesIn text) :
    RunsIn text (collectCases statements) fun cases => ∀ c ∈ cases, c.LiesIn text := by
  have hcases : ReadsIn text (statements.foldlM addCaseStatement []) fun cases =>
      ∀ c ∈ cases, c.LiesIn text :=
    ReadsIn.foldlM (fun _ h s hs => addCaseStatement_reads h (hstatements s hs))
      (List.forall_mem_nil _)
  exact (runsIn_ofExcept hcases).bind fun _ h => RunsIn.mapM fun c hc => dropBreaks_runs (h c hc)

theorem rangeTest_runs (id : Nat) (score : Score) (d : Dispatch) :
    RunsIn text (rangeTest id score d) :=
  (runsIn_call _).bind fun _ _ => runsIn_pure trivial

theorem registerRange_runs (id : Nat) (d : Dispatch) {inner : Compile (List Command)}
    (hinner : RunsIn text inner) : RunsIn text (registerRange id d inner) := by
  cases d with
  | leaf label => exact runsIn_pure trivial
  | node low high left right =>
    exact hinner.bind fun _ _ => (runsIn_register _ _ _).bind fun _ _ => runsIn_pure trivial

theorem rangeTests_runs (id : Nat) (score : Score) (d : Dispatch) :
    RunsIn text (rangeTests id score d) := by
  induction d with
  | leaf label => exact (rangeTest_runs id score _).bind fun _ _ => runsIn_pure trivial
  | node low high left right ihleft ihright =>
    refine (registerRange_runs id left ihleft).bind fun _ _ => ?_
    refine (rangeTest_runs id score left).bind fun _ _ => ?_
    refine (registerRange_runs id right ihright).bind fun _ _ => ?_
    exact (rangeTest_runs id score right).bind fun _ _ => runsIn_pure trivial

theorem registerCases_runs (hblock : BlockRuns text block) (id : Nat) {cases : List Case}
    (hcases : ∀ c ∈ cases, c.LiesIn text) : RunsIn text (registerCases block id cases) := by
  induction cases with
  | nil => exact runsIn_pure trivial
  | cons c rest ih =>
    obtain ⟨hc, hrest⟩ := List.forall_mem_cons.mp hcases
    exact (hblock c.statements hc).bind fun _ _ =>
      (runsIn_register _ _ _).bind fun _ _ => ih hrest

-- reading a score computes on characters, which unification must not look into
attribute [local irreducible] score? switchScore score

theorem switchScore_runs {head : Token} (hhead : head.LiesIn text) :
    RunsIn text (switchScore head) := by
  unfold switchScore
  refine RunsIn.bind (runsIn_score? _) fun result _ => ?_
  split
  · exact runsIn_pure trivial
  · exact runsIn_failAt hhead _

theorem switch_runs (hblock : BlockRuns text block) (hkeyword : keyword.LiesIn text)
    (hrest : ∀ t ∈ rest, t.LiesIn text) : RunsIn text (switch block keyword rest) := by
  unfold switch
  split
  · next head braces =>
    have hhead := hrest head (by simp)
    have hbraces := hrest braces (by simp)
    split
    · exact runsIn_failAt hhead _
    split
    · exact runsIn_failAt hbraces _
    refine (switchScore_runs hhead).bind fun score _ => ?_
    refine (runsIn_tokenizeInner hbraces _).bind fun statements hstatements => ?_
    refine (collectCases_runs hstatements).bind fun cases hcases => ?_
    split
    · refine (runsIn_takeId .switchCase).bind fun id _ => (runsIn_debug _).bind fun _ _ => ?_
      exact (registerCases_runs hblock id hcases).bind fun _ _ => rangeTests_runs id score _
    · exact runsIn_failAt hkeyword _
  · exact runsIn_failAt hkeyword _

/-! ### Built-in functions -/

section

variable {args : Bindings} (hargs : args.LiesIn text)

include hargs

theorem sqrt_runs (target : Score) : RunsIn text (sqrt args target) := by
  refine (runsIn_call _).bind fun callMain _ => (runsIn_call _).bind fun callStep _ => ?_
  have hemit : RunsIn text (emitSqrt callMain callStep) := by
    refine runsIn_get.bind fun s _ => ?_
    split
    · refine (runsIn_modify _).bind fun _ _ => (runsIn_register _ _ _).bind fun _ _ => ?_
      refine (runsIn_register _ _ _).bind fun _ _ => ?_
      exact (runsIn_modify _).bind fun _ _ => runsIn_debug _
    · exact runsIn_pure trivial
  refine hemit.bind fun _ _ => ?_
  refine (runsIn_ofExcept (Bindings.get_reads hargs "value")).bind fun v _ => ?_
  split
  · exact runsIn_pure trivial
  · exact runsIn_pure trivial
  · exact runsIn_ofExcept (blames_irregular rfl)

theorem random_runs (target : Score) : RunsIn text (random args target) := by
  refine (runsIn_ofExcept (Bindings.int_reads hargs "min")).bind fun min hmin => ?_
  refine (runsIn_ofExcept (Bindings.int_reads hargs "max")).bind fun max _ => ?_
  split
  · exact runsIn_fail (blames_located hmin _)
  · exact runsIn_pure trivial

theorem addObjective_runs : RunsIn text (addObjective args) := by
  refine (runsIn_ofExcept (Bindings.text_reads hargs "objective")).bind fun objective _ => ?_
  refine (runsIn_ofExcept (Bindings.text_reads hargs "criteria")).bind fun criteria _ => ?_
  refine runsIn_get.bind fun s _ => ?_
  split
  · exact (runsIn_modify _).bind fun _ _ => runsIn_pure trivial
  · exact (runsIn_modify _).bind fun _ _ => runsIn_pure trivial

theorem onEvent_runs (hblock : BlockRuns text block) : RunsIn text (onEvent block args) := by
  refine (runsIn_ofExcept (Bindings.text_reads hargs "objective")).bind fun objective _ => ?_
  refine (runsIn_ofExcept (Bindings.text_reads hargs "criteria")).bind fun criteria _ => ?_
  refine (runsIn_ofExcept (Bindings.arrow_reads hargs "handler")).bind fun handler hhandler => ?_
  refine (runsIn_modify _).bind fun _ _ => (runsIn_body hblock hhandler).bind fun commands _ => ?_
  refine (runsIn_registerNext _ _).bind fun path _ => (runsIn_debug _).bind fun _ _ => ?_
  refine (runsIn_call path).bind fun hook _ => ?_
  exact (runsIn_modify _).bind fun _ _ => runsIn_pure trivial

theorem circle_runs : RunsIn text (circle args) := by
  refine (runsIn_ofExcept (Bindings.text_reads hargs "particle")).bind fun particle _ => ?_
  refine (runsIn_ofExcept (Bindings.number_reads hargs "radius")).bind fun radius _ => ?_
  refine (runsIn_ofExcept (Bindings.int_reads hargs "spread")).bind fun spread hspread => ?_
  split
  · exact runsIn_pure trivial
  · exact runsIn_fail (blames_located hspread _)

theorem tellraw_runs : RunsIn text (tellraw args) := by
  refine (runsIn_ofExcept (Bindings.text_reads hargs "selector")).bind fun selector _ => ?_
  refine (runsIn_ofExcept (Bindings.text_reads hargs "message")).bind fun message _ => ?_
  exact runsIn_get.bind fun _ _ => runsIn_pure trivial

theorem expand_runs (hblock : BlockRuns text block) (b : Builtin) (target : Option Score) :
    RunsIn text (expand block b target args) := by
  unfold expand
  split
  · exact sqrt_runs hargs _
  · exact random_runs hargs _
  · exact addObjective_runs hargs
  · exact onEvent_runs hargs hblock
  · exact circle_runs hargs
  · exact tellraw_runs hargs
  · exact runsIn_fail (blames_irregular rfl)

end

theorem builtin_runs (hblock : BlockRuns text block) (b : Builtin) {name : Token}
    (hname : name.LiesIn text) (hrest : ∀ t ∈ rest, t.LiesIn text) (target : Option Score) :
    RunsIn text (builtin block b name rest target) := by
  unfold builtin
  split
  · next group =>
    split
    · exact runsIn_failAt hname _
    · exact runsIn_failAt hname _
    · have hgroup := hrest group List.mem_cons_self
      refine (runsIn_ofNoting (Arguments.parse_runs hgroup)).bind fun arguments harguments => ?_
      refine runsIn_get.bind fun s _ => ?_
      refine (runsIn_ofExcept (b.bind_reads s.scope harguments)).bind fun args hargs => ?_
      exact (runsIn_debug _).bind fun _ _ => expand_runs hargs hblock b _
  · exact runsIn_failAt hname _

/-! ### Variable statements -/

theorem score_runs (name : String) {t : Token} (ht : t.LiesIn text) :
    RunsIn text (score name t) := by
  unfold score
  refine RunsIn.bind (runsIn_score? name) fun result _ => ?_
  split
  · exact runsIn_pure trivial
  · exact runsIn_failAt ht _

/-- A second operator is on the line of its token. -/
theorem secondOperator_runs {t : Token} (ht : t.LiesIn text) (before : List Char) (o : Operator) :
    RunsIn text (secondOperator t before o : Compile α) P := by
  have hline : ShowsLine text (t.position.right before.length).line := ht.shows
  exact runsIn_fail (blames_located hline _)

theorem checkSingle_runs {value : Token} (hvalue : value.LiesIn text)
    (hrest : ∀ t ∈ rest, t.LiesIn text) : RunsIn text (checkSingle value rest) := by
  unfold checkSingle
  split
  · exact secondOperator_runs hvalue _ _
  split
  · exact runsIn_pure trivial
  next extra more =>
  have hextra := hrest extra List.mem_cons_self
  split
  · exact secondOperator_runs hextra _ _
  · exact runsIn_failAt hextra _

theorem operand_runs (o : Operator) {target : Token} (htarget : target.LiesIn text)
    {right : List Token} (hright : ∀ t ∈ right, t.LiesIn text) :
    RunsIn text (operand o target right) fun found => found.1.LiesIn text := by
  unfold operand
  split
  · exact runsIn_failAt htarget _
  next value rest =>
  obtain ⟨hvalue, hrest⟩ := List.forall_mem_cons.mp hright
  refine (checkSingle_runs hvalue hrest).bind fun _ _ => ?_
  refine (runsIn_ofExcept hvalue.scoreValue).bind fun n _ => ?_
  split
  · exact runsIn_pure hvalue
  refine runsIn_get.bind fun s _ => ?_
  split
  · exact runsIn_pure hvalue
  · exact runsIn_failAt hvalue _

theorem operandScore_runs (value : Operand) : RunsIn text (operandScore value) := by
  cases value with
  | score s => exact runsIn_pure trivial
  | int n => exact (runsIn_modify _).bind fun _ _ => runsIn_pure trivial

theorem addition_runs (target : Score) (o : Operator) (value : Operand) :
    RunsIn text (addition target o value) := by
  unfold addition
  split
  · split
    · exact (operandScore_runs _).bind fun _ _ => runsIn_pure trivial
    · split <;> exact runsIn_pure trivial
  · exact runsIn_pure trivial

theorem functionCall_runs {name : Token} (hname : name.LiesIn text)
    (hrest : ∀ t ∈ rest, t.LiesIn text) : RunsIn text (functionCall name rest) := by
  unfold functionCall
  split
  · next group =>
    split
    · exact runsIn_failAt (hrest group List.mem_cons_self) _
    · exact runsIn_call _
  · exact runsIn_failAt hname _

theorem assignment_runs (hblock : BlockRuns text block) (target : Score) {targetToken : Token}
    (htarget : targetToken.LiesIn text) {right : List Token}
    (hright : ∀ t ∈ right, t.LiesIn text) :
    RunsIn text (assignment block target targetToken right) := by
  unfold assignment
  split
  · exact runsIn_failAt htarget _
  next first rest =>
  obtain ⟨hfirst, hrest⟩ := List.forall_mem_cons.mp hright
  refine runsIn_get.bind fun s _ => ?_
  split
  · refine (operand_runs _ htarget hright).bind fun value _ => ?_
    split <;> exact runsIn_pure trivial
  split
  · exact secondOperator_runs hfirst _ _
  split
  · exact builtin_runs hblock _ hfirst hrest _
  · exact (functionCall_runs hfirst hrest).bind fun _ _ => runsIn_pure trivial
  · exact runsIn_pure trivial

theorem getStatement_runs (holder : String) {name group : Token} (hname : name.LiesIn text)
    (hgroup : group.LiesIn text) : RunsIn text (getStatement holder name group) := by
  unfold getStatement
  split
  · exact runsIn_failAt hgroup _
  · exact (score_runs holder hname).bind fun _ _ => runsIn_pure trivial

theorem operation_runs (hblock : BlockRuns text block) {a : Assignment}
    (htarget : a.target.LiesIn text) (hright : ∀ t ∈ a.right, t.LiesIn text) :
    RunsIn text (operation block a) := by
  have hoperand := operand_runs a.operator htarget hright
  unfold operation
  refine (score_runs _ htarget).bind fun target _ => ?_
  split
  · split
    · next extra _ heq => exact runsIn_failAt (hright extra (by simp [heq])) _
    · exact runsIn_pure trivial
  · split
    · next extra _ heq => exact runsIn_failAt (hright extra (by simp [heq])) _
    · exact runsIn_pure trivial
  · exact assignment_runs hblock _ htarget hright
  · refine hoperand.bind fun value hvalue => ?_
    split
    · exact runsIn_pure trivial
    · exact runsIn_failAt hvalue _
  · refine hoperand.bind fun value hvalue => ?_
    split
    · exact runsIn_pure trivial
    · exact runsIn_failAt hvalue _
  · exact hoperand.bind fun value _ => (addition_runs _ _ _).bind fun _ _ => runsIn_pure trivial
  · exact hoperand.bind fun value _ => (addition_runs _ _ _).bind fun _ _ => runsIn_pure trivial
  · exact hoperand.bind fun value _ => (operandScore_runs _).bind fun _ _ => runsIn_pure trivial

theorem plainVariable_runs (hblock : BlockRuns text block) {first : Token}
    (hfirst : first.LiesIn text) (hrest : ∀ t ∈ rest, t.LiesIn text) :
    RunsIn text (plainVariable block first rest) := by
  unfold plainVariable
  extract_lets other
  have hother : RunsIn text other := by
    unfold other
    split
    · next a ha =>
      obtain ⟨htarget, hright⟩ :=
        Assignment.ofTokens?_lies (List.forall_mem_cons.mpr ⟨hfirst, hrest⟩) ha
      exact operation_runs hblock htarget hright
    · exact runsIn_failAt hfirst _
  clear_value other
  split
  · next group =>
    split
    · split
      · exact getStatement_runs _ hfirst (hrest group List.mem_cons_self)
      · exact hother
    · exact hother
  · exact hother

theorem variableChange_runs (hblock : BlockRuns text block) {first : Token}
    (hfirst : first.LiesIn text) (hrest : ∀ t ∈ rest, t.LiesIn text) :
    RunsIn text (variableChange block first rest) := by
  unfold variableChange
  split
  · split
    · exact runsIn_failAt hfirst _
    · next name rest =>
      obtain ⟨hname, hrest⟩ := List.forall_mem_cons.mp hrest
      exact plainVariable_runs hblock hname hrest
  · exact plainVariable_runs hblock hfirst hrest

/-! ### Definitions -/

theorem checkPath_runs {head : FunctionHead} (hname : head.name.LiesIn text) :
    RunsIn text (checkPath head) := by
  refine runsIn_get.bind fun s _ => ?_
  split
  · exact runsIn_failAt hname _
  dsimp only
  generalize (if head.path = tickPath then s.tickDefined else s.pack.hasFunction head.path) = taken
  split
  · exact runsIn_failAt hname _
  split
  · exact runsIn_modify _
  · exact runsIn_pure trivial

theorem functionDefinition_runs (hblock : BlockRuns text block) (level : Except Cause FunctionPath)
    (hkeyword : keyword.LiesIn text) (hrest : ∀ t ∈ rest, t.LiesIn text) :
    RunsIn text (functionDefinition block level keyword rest) := by
  refine (runsIn_ofExcept (functionHead_reads level hkeyword hrest)).bind fun head hhead => ?_
  refine (checkPath_runs hhead.1).bind fun _ _ => (runsIn_debug _).bind fun _ _ => ?_
  refine (runsIn_body hblock hhead.2).bind fun commands _ => ?_
  split
  · exact runsIn_modify _
  refine runsIn_get.bind fun s _ => ?_
  split
  · exact runsIn_modify _
  · exact runsIn_failAt hhead.1 _

theorem newResource_runs (hkeyword : keyword.LiesIn text) (hrest : ∀ t ∈ rest, t.LiesIn text) :
    RunsIn text (newResource keyword rest) := by
  refine (runsIn_ofExcept (resourceHead_reads hkeyword hrest)).bind fun head hhead => ?_
  obtain ⟨hpath, hbody, hcurly⟩ := hhead
  refine runsIn_get.bind fun s _ => ?_
  split
  · next r hdecode =>
    exact runsIn_fail fun _ =>
      ⟨_, rfl, hbody.jsonPosition hcurly (s.settings.codec.decode_lies hdecode), fun hempty => nomatch hempty⟩
  refine runsIn_get.bind fun s _ => ?_
  split
  · exact runsIn_modify _
  · exact runsIn_failAt hpath _

theorem classFunctions_runs (hblock : BlockRuns text block) (path : FunctionPath)
    {statements : List Statement} (hstatements : ∀ s ∈ statements, s.LiesIn text) :
    RunsIn text (classFunctions block path statements) := by
  induction statements with
  | nil => exact runsIn_pure trivial
  | cons s rest ih =>
    obtain ⟨hs, hrest⟩ := List.forall_mem_cons.mp hstatements
    unfold classFunctions
    split
    · exact ih hrest
    · next first tokens htokens =>
      have hall : ∀ t ∈ first :: tokens, t.LiesIn text := htokens ▸ hs
      obtain ⟨hfirst, htokens⟩ := List.forall_mem_cons.mp hall
      refine (runsIn_ofExcept (Level.check_reads _ _ hfirst)).bind fun _ _ => ?_
      exact (functionDefinition_runs hblock _ hfirst htokens).bind fun _ _ => ih hrest

theorem classDefinition_runs (hblock : BlockRuns text block) (hkeyword : keyword.LiesIn text)
    (hrest : ∀ t ∈ rest, t.LiesIn text) : RunsIn text (classDefinition block keyword rest) := by
  refine (runsIn_ofExcept (classHead_reads hkeyword hrest)).bind fun parts hparts => ?_
  exact (runsIn_tokenizeInner hparts _).bind fun statements hstatements =>
    classFunctions_runs hblock _ hstatements

/-! ### Blocks -/

theorem statement_runs (hblock : BlockRuns text block) (level : Level) (kind : StatementKind)
    {first : Token} (hfirst : first.LiesIn text) (hrest : ∀ t ∈ rest, t.LiesIn text) :
    RunsIn text (statement block level kind first rest) := by
  cases kind with
  | function =>
    exact (functionDefinition_runs hblock _ hfirst hrest).bind fun _ _ => runsIn_pure trivial
  | classDefinition =>
    exact (classDefinition_runs hblock hfirst hrest).bind fun _ _ => runsIn_pure trivial
  | newResource => exact (newResource_runs hfirst hrest).bind fun _ _ => runsIn_pure trivial
  | ifBranch => exact chain_runs hblock hfirst hrest (List.forall_mem_nil _)
  | whileLoop => exact whileLoop_runs hblock hfirst hrest
  | doLoop =>
    show RunsIn text (doWhile block first rest none)
    exact doWhile_runs hblock hfirst hrest (by simp)
  | forLoop => exact forLoop_runs hblock hfirst hrest
  | switch => exact switch_runs hblock hfirst hrest
  | variableChange => exact variableChange_runs hblock hfirst hrest
  | builtin b => exact builtin_runs hblock b hfirst hrest _
  | call => exact (functionCall_runs hfirst hrest).bind fun _ _ => runsIn_pure trivial
  | vanilla => exact runsIn_pure trivial
  | importFile | elseBranch | caseLabel | breakCase => exact runsIn_failAt hfirst _

theorem atLevel_runs (level : Level) {s : Statement} (hs : s.LiesIn text)
    {compile : Token → List Token → Compile (List Command)}
    (hcompile : ∀ first rest, first.LiesIn text → (∀ t ∈ rest, t.LiesIn text) →
      RunsIn text (compile first rest)) : RunsIn text (atLevel level s compile) := by
  unfold atLevel
  split
  · exact runsIn_pure trivial
  next first rest htokens =>
  have hall : ∀ t ∈ first :: rest, t.LiesIn text := htokens ▸ hs
  obtain ⟨hfirst, hrest⟩ := List.forall_mem_cons.mp hall
  exact (runsIn_ofExcept (level.check_reads _ hfirst)).bind fun _ _ => hcompile _ _ hfirst hrest

theorem construct_runs (hblock : BlockRuns text block) (level : Level) {c : Construct}
    (hc : c.LiesIn text) : RunsIn text (construct block level c) := by
  cases c with
  | chain s elses =>
    obtain ⟨hs, helses⟩ := List.forall_mem_cons.mp hc
    exact atLevel_runs level hs fun _ _ hfirst hrest => chain_runs hblock hfirst hrest helses
  | doWhile s tail =>
    obtain ⟨hs, htail⟩ := List.forall_mem_cons.mp hc
    exact atLevel_runs level hs fun _ _ hfirst hrest => doWhile_runs hblock hfirst hrest
      fun s hs => htail s (Option.mem_toList.mpr hs)
  | single s =>
    exact atLevel_runs level (hc s List.mem_cons_self) fun _ _ => statement_runs hblock level _

theorem bodyConstructs_runs (hblock : BlockRuns text block) {cs : List Construct}
    (hcs : ∀ c ∈ cs, c.LiesIn text) : RunsIn text (bodyConstructs block cs) := by
  induction cs with
  | nil => exact runsIn_pure trivial
  | cons c rest ih =>
    obtain ⟨hc, hrest⟩ := List.forall_mem_cons.mp hcs
    refine (construct_runs hblock .body hc).bind fun _ _ => ?_
    exact (ih hrest).bind fun _ _ => runsIn_pure trivial

/-- The faults of bodies of any depth point into the text. -/
theorem block_runs (depth : Nat) : BlockRuns text (Compile.block depth) := by
  induction depth with
  | zero => exact fun _ _ => runsIn_throw trivial
  | succ depth ih =>
    exact fun statements hstatements => bodyConstructs_runs ih (constructs_lie hstatements)

end Compile

end Packwright
