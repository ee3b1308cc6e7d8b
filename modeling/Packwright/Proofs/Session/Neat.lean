import Packwright.Proofs.NeatCommands
import Packwright.Proofs.Session.Statements

/-!
# Neat sessions

A session is neat if every stored command is neat and all names that go into commands are unbroken.
The steps of a compilation lead from a neat session to a neat session, whether they succeed or fail,
and control flow is compiled to neat commands.

## Main definitions

- `Pack.Neat`, `Session.Neat` — the stored commands are neat, and the names in them unbroken
- `Compile.Tidy` — a step keeps the session neat, and its result has a property

## Main results

- `Compile.Tidy.bind`, `Compile.tidy_inScope` — the steps that others are made of
- `Compile.tidy_chain`, `Compile.tidy_whileLoop`, `Compile.tidy_forLoop`, `Compile.tidy_switch` —
  control flow
-/

namespace Packwright

theorem NeatCommands.append {cs ds : List Command} (hcs : NeatCommands cs) (hds : NeatCommands ds) :
    NeatCommands (cs ++ ds) :=
  List.forall_mem_append.mpr ⟨hcs, hds⟩

theorem neatCommands_nil : NeatCommands [] := List.forall_mem_nil _

theorem neatCommands_singleton {c : Command} (h : c.Neat) : NeatCommands [c] :=
  List.forall_mem_singleton.mpr h

/-! ### Packs -/

/-- The commands of all functions are neat, and the names of objectives are unbroken. -/
structure Pack.Neat (p : Pack) : Prop where
  objectives : ∀ o ∈ p.objectives, Unbroken o.name
  functions : ∀ f ∈ p.functions, NeatCommands f.commands
  generated : ∀ e ∈ p.generated.entries, NeatCommands e.2.commands

namespace Pack

variable {p : Pack}

theorem Neat.addFunction (h : p.Neat) (path : FunctionPath) {cs : List Command}
    (hcs : NeatCommands cs) : Pack.Neat { p with functions := p.functions ++ [⟨path, cs⟩] } :=
  ⟨h.objectives, List.forall_mem_append.mpr ⟨h.functions, List.forall_mem_singleton.mpr hcs⟩,
    h.generated⟩

theorem Neat.extendFunction (h : p.Neat) (path : FunctionPath) {cs : List Command}
    (hcs : NeatCommands cs) : (p.extendFunction path cs).Neat := by
  unfold Pack.extendFunction
  split
  · refine ⟨h.objectives, List.forall_mem_map.mpr fun f hf => ?_, h.generated⟩
    split
    · exact (h.functions f hf).append hcs
    · exact h.functions f hf
  · exact h.addFunction path hcs

theorem Neat.declare (h : p.Neat) {name : String} (hname : Unbroken name) (criteria : String) :
    (p.declare name criteria).Neat := by
  unfold Pack.declare
  split
  · exact h
  · refine ⟨?_, h.functions, h.generated⟩
    exact List.forall_mem_append.mpr ⟨h.objectives, List.forall_mem_singleton.mpr hname⟩

theorem Neat.registerConstant (h : p.Neat) (n : Int) : (p.registerConstant n).Neat := by
  have hdeclared : Pack.Neat
      (if p.constants.isEmpty then p.declare constantObjective "dummy" else p) := by
    split
    · exact h.declare (by decide) "dummy"
    · exact h
  unfold Pack.registerConstant
  simp only
  generalize (if p.constants.isEmpty = true then p.declare constantObjective "dummy" else p) = q
    at hdeclared ⊢
  split
  · exact hdeclared
  · exact ⟨hdeclared.objectives, hdeclared.functions, hdeclared.generated⟩

theorem empty_neat (space : String) : (Pack.empty space).Neat := by
  have hbare : Pack.Neat { space, functions := [⟨loadPath, []⟩] } :=
    ⟨List.forall_mem_nil _, List.forall_mem_singleton.mpr neatCommands_nil, List.forall_mem_nil _⟩
  exact hbare.declare (by decide) "dummy"

end Pack

/-- The pack is neat, and the names that go into commands are unbroken. -/
structure Session.Neat (s : Session) : Prop where
  space : Unbroken s.settings.space
  scope : s.scope.Unbroken
  pack : s.pack.Neat

theorem Dispatch.unbroken_name (d : Dispatch) : Unbroken d.name := by
  unfold Dispatch.name
  split <;> simp +decide

namespace Compile

variable {α β : Type} {m : Compile α} {P Q : α → Prop}

-- This is a structure, so that naming a step for which it holds does not run the step.
/-- From a neat session the step leads to a neat session, and its result has a property. -/
structure Tidy (m : Compile α) (P : α → Prop := fun _ => True) : Prop where
  meets : ∀ s : Session, s.Neat → m.Meets s (fun a s' => s'.Neat ∧ P a) Session.Neat

/-! ### Small steps -/

theorem tidy_pure {a : α} (h : P a) : (pure a : Compile α).Tidy P := ⟨fun _ hs => ⟨hs, h⟩⟩

theorem tidy_throw {e : Failure} : (throw e : Compile α).Tidy P := ⟨fun _ hs => hs⟩

theorem tidy_fail {f : Fault} : (fail f : Compile α).Tidy P := ⟨fun _ hs => hs⟩

theorem tidy_failAt {t : Token} {cause : Cause} : (failAt t cause : Compile α).Tidy P :=
  ⟨fun _ hs => hs⟩

theorem tidy_get : (get : Compile Session).Tidy Session.Neat := ⟨fun _ hs => ⟨hs, hs⟩⟩

theorem tidy_set {s : Session} (h : s.Neat) : (set s : Compile PUnit).Tidy :=
  ⟨fun _ _ => ⟨h, trivial⟩⟩

theorem tidy_modify {f : Session → Session} (hf : ∀ s, s.Neat → (f s).Neat) :
    (modify f : Compile PUnit).Tidy :=
  ⟨fun s hs => ⟨hf s hs, trivial⟩⟩

/-- One step after another. -/
theorem Tidy.bind {f : α → Compile β} {R : β → Prop} (h : m.Tidy P) (hf : ∀ a, P a → (f a).Tidy R) :
    (m >>= f).Tidy R :=
  ⟨fun s hs => (h.meets s hs).bind (fun _ => id) fun a s' ha => (hf a ha.2).meets s' ha.1⟩

theorem Tidy.mono (h : m.Tidy P) (hPQ : ∀ a, P a → Q a) : m.Tidy Q :=
  ⟨fun s hs => (h.meets s hs).mono (fun a _ ha => ⟨ha.1, hPQ a ha.2⟩) fun _ => id⟩

/-- A step without a result keeps the session neat, whether it succeeds or fails. -/
theorem tidy_iff_outcome {m : Compile Unit} :
    m.Tidy ↔ ∀ s : Session, s.Neat → (m.outcome s).2.Neat := by
  refine ⟨fun h s hs => ?_, fun h => ⟨fun s hs => ?_⟩⟩
  · have hmeets := h.meets s hs
    unfold Meets at hmeets
    split at hmeets
    · next hrun => exact hrun ▸ hmeets.1
    · next hrun => exact hrun ▸ hmeets
  · have hneat := h s hs
    unfold Meets
    split
    · next hrun => exact ⟨by rw [hrun] at hneat; exact hneat, trivial⟩
    · next hrun => exact by rw [hrun] at hneat; exact hneat

theorem tidy_ofExcept {x : Except Fault α} (h : ∀ a, x = .ok a → P a) : (ofExcept x).Tidy P :=
  ⟨fun _ hs => meets_ofExcept hs fun a ha => ⟨hs, h a ha⟩⟩

theorem tidy_debug (text : String) : (debug text).Tidy :=
  tidy_modify fun _ hs => ⟨hs.space, hs.scope, hs.pack⟩

theorem tidy_warn (notice : Notice) (p : Position) : (warn notice p).Tidy :=
  tidy_modify fun _ hs => ⟨hs.space, hs.scope, hs.pack⟩

theorem tidy_ofNoting (m : Noting α) : (ofNoting m).Tidy := by
  unfold ofNoting
  rcases m.run.run [] with ⟨result, warnings⟩
  refine (tidy_modify fun s hs => ?_).bind fun _ _ => ?_
  · exact ⟨hs.space, hs.scope, hs.pack⟩
  · cases result with
    | ok a => exact tidy_pure trivial
    | error failure => exact tidy_throw

theorem tidy_tokenize (terminator : Terminator) (start : Position) (source : String) :
    (tokenize terminator start source).Tidy := by
  refine (tidy_ofExcept fun _ _ => trivial).bind fun reading _ => ?_
  refine (tidy_modify fun s hs => ?_).bind fun _ _ => tidy_pure trivial
  exact ⟨hs.space, hs.scope, hs.pack⟩

theorem tidy_tokenizeInner (terminator : Terminator) (t : Token) :
    (tokenizeInner terminator t).Tidy := by
  unfold tokenizeInner
  split
  · exact tidy_tokenize _ _ _
  · exact tidy_failAt

/-- Counters are in no text. -/
theorem neat_setCounter {s : Session} (hs : s.Neat) (f : Feature) (n : UInt32) :
    Session.Neat { s with pack := { s.pack with
      generated := s.pack.generated.setCounter f.name n } } :=
  ⟨hs.space, hs.scope, hs.pack.objectives, hs.pack.functions, hs.pack.generated⟩

theorem tidy_takeId (f : Feature) : (takeId f).Tidy :=
  ⟨fun _ hs => .takeId (fun n _ => ⟨neat_setCounter hs f n, trivial⟩) hs⟩

theorem tidy_ofCause {x : Except Cause α} (h : ∀ a, x = .ok a → P a) : (ofCause x).Tidy P := by
  cases x with
  | ok a => exact tidy_pure (h a rfl)
  | error cause => exact tidy_fail

theorem tidy_register (f : Feature) {name : String} (hname : Unbroken name) {cs : List Command}
    (hcs : NeatCommands cs) : (register f name cs).Tidy fun path => Unbroken path.text := by
  refine tidy_get.bind fun s hs => ?_
  have hinsert : ∀ added, s.pack.generated.insert f.name name cs = .ok added →
      Unbroken added.1.text ∧ ∀ e ∈ added.2.entries, NeatCommands e.2.commands := by
    intro added hadded
    simp only [Registry.insert] at hadded
    split at hadded
    · cases hadded
    · obtain rfl := Except.ok.inj hadded
      exact ⟨f.unbroken_path.mpr hname,
        List.forall_mem_append.mpr ⟨hs.pack.generated, List.forall_mem_singleton.mpr hcs⟩⟩
  refine (tidy_ofCause hinsert).bind fun added hadded => ?_
  refine (tidy_set ?_).bind fun _ _ => tidy_pure hadded.1
  exact ⟨hs.space, hs.scope, hs.pack.objectives, hs.pack.functions, hadded.2⟩

theorem tidy_allocate (f : Feature) {name : String} (hname : Unbroken name) {cs : List Command}
    (hcs : NeatCommands cs) : (allocate f name cs).Tidy fun path => Unbroken path.text :=
  (tidy_register f hname hcs).bind fun _ hpath =>
    (tidy_debug _).bind fun _ _ => tidy_pure hpath

theorem tidy_registerNext (f : Feature) {cs : List Command} (hcs : NeatCommands cs) :
    (registerNext f cs).Tidy fun path => Unbroken path.text :=
  (tidy_takeId f).bind fun id _ => tidy_register f (unbroken_repr id) hcs

theorem tidy_allocateNext (f : Feature) {cs : List Command} (hcs : NeatCommands cs) :
    (allocateNext f cs).Tidy fun path => Unbroken path.text :=
  (tidy_registerNext f hcs).bind fun _ hpath =>
    (tidy_debug _).bind fun _ _ => tidy_pure hpath

theorem tidy_call {path : FunctionPath} (hpath : Unbroken path.text) :
    (call path).Tidy Command.Neat :=
  tidy_get.bind fun _ hs => tidy_pure (Command.neat_call hs.space hpath)

theorem tidy_render (c : Condition) : (render c).Tidy Rendered.Neat := by
  refine ⟨fun s hs => .render (fun r n _ hrender => ⟨neat_setCounter hs .logic n, ?_⟩)
    fun n _ => neat_setCounter hs .logic n⟩
  have hneat := Condition.render_neat hs.scope c (s.pack.generated.peekId Feature.logic.name)
  rw [hrender] at hneat
  exact hneat

theorem tidy_condition (group : Token) : (condition group).Tidy Rendered.Neat :=
  (tidy_ofNoting _).bind fun c _ => tidy_render c

theorem tidy_inScope (h : m.Tidy P) : (inScope m).Tidy P := by
  refine ⟨fun s hs => ?_⟩
  rw [meets_inScope]
  have hpush : Session.Neat { s with scope := s.scope.push } :=
    ⟨hs.space, hs.scope.push, hs.pack⟩
  have hpop : ∀ s' : Session, s'.Neat → Session.Neat { s' with scope := s'.scope.pop } :=
    fun s' hs' => ⟨hs'.space, hs'.scope.pop, hs'.pack⟩
  -- the scope is closed after a failure as well
  exact (h.meets _ hpush).mono (fun a s' ha => ⟨hpop s' ha.1, ha.2⟩) hpop

theorem tidy_rename (name : String) {holder : String} (hholder : Unbroken holder) :
    (rename name holder).Tidy :=
  tidy_modify fun _ hs => ⟨hs.space, hs.scope.bind hholder name, hs.pack⟩

theorem tidy_score? (text : String) :
    (score? text).Tidy fun result => ∀ s ∈ result, Unbroken s.render :=
  tidy_get.bind fun _ hs => tidy_pure fun _ h => Score.unbroken_parseIn? hs.scope h

theorem tidy_extendFunction (path : FunctionPath) {cs : List Command} (hcs : NeatCommands cs) :
    (modifyPack (·.extendFunction path cs)).Tidy :=
  tidy_modify fun _ hs => ⟨hs.space, hs.scope, hs.pack.extendFunction path hcs⟩

theorem tidy_declare {name : String} (hname : Unbroken name) (criteria : String) :
    (modifyPack (·.declare name criteria)).Tidy :=
  tidy_modify fun _ hs => ⟨hs.space, hs.scope, hs.pack.declare hname criteria⟩

theorem tidy_registerConstant (n : Int) : (modifyPack (·.registerConstant n)).Tidy :=
  tidy_modify fun _ hs => ⟨hs.space, hs.scope, hs.pack.registerConstant n⟩

/-- The compiler of bodies gives neat commands. -/
def TidyBlock (block : Block) : Prop := ∀ statements, (block statements).Tidy NeatCommands

variable {block : Block}

theorem tidy_body (hblock : TidyBlock block) (t : Token) : (body block t).Tidy NeatCommands := by
  unfold body
  split
  · exact (tidy_tokenizeInner _ t).bind fun statements _ => hblock statements
  · exact tidy_failAt

/-! ### Chains -/

/-- The condition of an arm, if it has one, and its body are neat. -/
structure NeatArm (arm : Branch) : Prop where
  condition : ∀ c ∈ arm.condition, c.Neat
  body : NeatCommands arm.body

@[simp] theorem unbroken_ifElseFlag : Unbroken ifElseFlag.render := by decide

theorem neat_set_ifElseFlag (value : Int) : (Command.set ifElseFlag value).Neat :=
  Command.neat_of_scores rfl (by simp)

theorem tidy_ifBranch (hblock : TidyBlock block) (keyword : Token) (rest : List Token) :
    (ifBranch block keyword rest).Tidy NeatArm := by
  refine (tidy_ofExcept fun _ _ => trivial).bind fun parts _ => ?_
  refine (tidy_condition parts.1).bind fun c hc => ?_
  refine (tidy_body hblock parts.2).bind fun commands hcommands => tidy_pure ⟨?_, hcommands⟩
  rintro _ ⟨⟩
  exact hc

theorem tidy_elseBranch (hblock : TidyBlock block) (closed : Bool) (keyword : Token)
    (rest : List Token) : (elseBranch block closed keyword rest).Tidy NeatArm := by
  unfold elseBranch
  split
  · exact tidy_failAt
  · split
    · exact tidy_failAt
    · split
      · refine (tidy_body hblock _).bind fun commands hcommands => tidy_pure ⟨?_, hcommands⟩
        rintro _ ⟨⟩
      · split
        · exact tidy_ifBranch hblock _ _
        · exact tidy_failAt

theorem tidy_elseBranches (hblock : TidyBlock block) (statements : List Statement)
    {arms : List Branch} (harms : ∀ arm ∈ arms, NeatArm arm) :
    (elseBranches block arms statements).Tidy fun all => ∀ arm ∈ all, NeatArm arm := by
  induction statements generalizing arms with
  | nil => exact tidy_pure harms
  | cons s rest ih =>
    unfold elseBranches
    split
    · exact ih harms
    · refine (tidy_elseBranch hblock _ _ _).bind fun arm harm => ih ?_
      exact List.forall_mem_append.mpr ⟨harms, List.forall_mem_singleton.mpr harm⟩

theorem neat_armCommands (first : Bool) {condition : Option Rendered}
    (hcondition : ∀ c ∈ condition, c.Neat) {callArm : Command} (hcall : callArm.Neat) :
    NeatCommands (armCommands first condition callArm) := by
  have hnotTaken : Unbroken (Clause.mk false (.inRange ifElseFlag (.exactly 0))).render := by decide
  unfold armCommands
  simp only
  split
  · exact neatCommands_singleton (hcall.guarded (List.forall_mem_singleton.mpr hnotTaken))
  · next c =>
    have hc := hcondition c rfl
    split
    · exact hc.guardedCommands hcall
    · refine hc.before.append (neatCommands_singleton (hcall.guarded ?_))
      exact List.forall_mem_cons.mpr ⟨hnotTaken, hc.clauses⟩

theorem tidy_armsCommands (first : Bool) {arms : List Branch} (harms : ∀ arm ∈ arms, NeatArm arm) :
    (armsCommands first arms).Tidy NeatCommands := by
  induction arms generalizing first with
  | nil => exact tidy_pure neatCommands_nil
  | cons arm rest ih =>
    obtain ⟨harm, hrest⟩ := List.forall_mem_cons.mp harms
    have hraise : NeatCommands (if rest.isEmpty then [] else [.set ifElseFlag 1]) := by
      split
      · exact neatCommands_nil
      · exact neatCommands_singleton (neat_set_ifElseFlag 1)
    refine (tidy_allocateNext _ (harm.body.append hraise)).bind fun path hpath => ?_
    refine (tidy_call hpath).bind fun callArm hcall => ?_
    refine (ih false hrest).bind fun more hmore => tidy_pure ?_
    exact (neat_armCommands first harm.condition hcall).append hmore

theorem tidy_singleArm {c : Rendered} (hc : c.Neat) {commands : List Command}
    (hcommands : NeatCommands commands) : (singleArm c commands).Tidy NeatCommands := by
  unfold singleArm
  split
  · exact tidy_pure neatCommands_nil
  · exact tidy_pure (hc.guardedCommands (hcommands _ (List.mem_singleton_self _)))
  · refine (tidy_allocateNext _ hcommands).bind fun path hpath => ?_
    exact (tidy_call hpath).bind fun callArm hcall => tidy_pure (hc.guardedCommands hcall)

theorem tidy_chainCommands {arms : List Branch} (harms : ∀ arm ∈ arms, NeatArm arm) :
    (chainCommands arms).Tidy NeatCommands := by
  have hkept : ∀ arm ∈ dropEmptyElse arms, NeatArm arm :=
    fun arm harm => harms arm (dropEmptyElse_subset arms harm)
  unfold chainCommands
  split
  · next c commands heq =>
    rw [heq] at hkept
    have harm := hkept _ (List.mem_singleton_self _)
    exact tidy_singleArm (harm.condition c rfl) harm.body
  · exact tidy_fail
  · refine (tidy_armsCommands true hkept).bind fun commands hcommands => tidy_pure ?_
    exact List.forall_mem_cons.mpr ⟨neat_set_ifElseFlag 0, hcommands⟩

theorem tidy_chain (hblock : TidyBlock block) (keyword : Token) (rest : List Token)
    (elses : List Statement) : (chain block keyword rest elses).Tidy NeatCommands := by
  refine (tidy_ifBranch hblock keyword rest).bind fun first hfirst => ?_
  refine (tidy_elseBranches hblock elses (List.forall_mem_singleton.mpr hfirst)).bind
    fun arms harms => ?_
  exact tidy_chainCommands harms

/-! ### Loops -/

theorem tidy_whileLoop (hblock : TidyBlock block) (keyword : Token) (rest : List Token) :
    (whileLoop block keyword rest).Tidy NeatCommands := by
  refine (tidy_ofExcept fun _ _ => trivial).bind fun parts _ => ?_
  refine (tidy_takeId _).bind fun id _ => ?_
  have hname : Unbroken (toString id) := unbroken_repr id
  refine (tidy_condition parts.1).bind fun c hc => ?_
  refine (tidy_call ((Feature.unbroken_path _).mpr hname)).bind fun again hagain => ?_
  refine (tidy_body hblock parts.2).bind fun commands hcommands => ?_
  refine (tidy_allocate _ hname (hcommands.append (hc.guardedCommands hagain))).bind fun _ _ => ?_
  exact tidy_pure (hc.guardedCommands hagain)

theorem tidy_doWhile (hblock : TidyBlock block) (keyword : Token) (rest : List Token)
    (tail : Option Statement) : (doWhile block keyword rest tail).Tidy NeatCommands := by
  unfold doWhile
  split
  · next braces =>
    refine (tidy_takeId _).bind fun id _ => ?_
    have hname : Unbroken (toString id) := unbroken_repr id
    refine (tidy_body hblock braces).bind fun commands hcommands => ?_
    split
    · refine (tidy_ofExcept fun _ _ => trivial).bind fun head _ => ?_
      refine (tidy_condition head).bind fun c hc => ?_
      refine (tidy_call ((Feature.unbroken_path _).mpr hname)).bind fun again hagain => ?_
      refine (tidy_allocate _ hname (hcommands.append (hc.guardedCommands hagain))).bind
        fun _ _ => ?_
      exact tidy_pure (neatCommands_singleton hagain)
    · exact tidy_failAt
  · exact tidy_failAt

/-- The holder of a variable that a `for` declares is spelled from its name. -/
theorem unbroken_leadingVariable? {text name : String} (h : leadingVariable? text = some name) :
    Unbroken name := by
  unfold leadingVariable? at h
  split at h
  · next rest _ =>
    have hname : '\n' ∉ rest.takeWhile isVariableChar :=
      not_mem_of_all (List.all_takeWhile ..) (by decide)
    split at h
    · cases h
    · next hne =>
      obtain rfl := Option.some.inj h
      rw [unbroken_ofList]
      rintro (_ | ⟨_, hmem⟩)
      exact hname hmem
  · cases h

theorem tidy_bindLoopVariable (id : Nat) (tokens : List Token) :
    (bindLoopVariable id tokens).Tidy := by
  unfold bindLoopVariable
  split
  · split
    · split
      · next name hname =>
        refine (tidy_debug _).bind fun _ _ => tidy_rename _ ?_
        have hrest := (unbroken_leadingVariable? hname).of_subset (List.drop_subset 1 _)
        exact unbroken_append.mpr ⟨by simp +decide, hrest⟩
      · exact tidy_pure trivial
    · exact tidy_pure trivial
  · exact tidy_pure trivial

theorem tidy_forParts (hblock : TidyBlock block) (id : Nat) (init test step : Statement)
    (head braces : Token) :
    (forParts block id init test step head braces).Tidy NeatCommands := by
  have hname : Unbroken (toString id) := unbroken_repr id
  refine (tidy_bindLoopVariable id _).bind fun _ _ => ?_
  refine (hblock [init]).bind fun initCommands hinit => ?_
  refine (tidy_ofNoting _).bind fun tree _ => (tidy_render tree).bind fun c hc => ?_
  refine (hblock [step]).bind fun stepCommands hstep => ?_
  refine (tidy_call ((Feature.unbroken_path _).mpr hname)).bind fun again hagain => ?_
  refine (tidy_body hblock braces).bind fun commands hcommands => ?_
  have hbody := (hcommands.append hstep).append (hc.guardedCommands hagain)
  refine (tidy_allocate _ hname hbody).bind fun _ _ => ?_
  exact tidy_pure (hinit.append (hc.guardedCommands hagain))

theorem tidy_forLoop (hblock : TidyBlock block) (keyword : Token) (rest : List Token) :
    (forLoop block keyword rest).Tidy NeatCommands := by
  refine (tidy_ofExcept fun _ _ => trivial).bind fun parts _ => ?_
  refine (tidy_tokenizeInner _ parts.1).bind fun statements _ => ?_
  split
  · refine (tidy_takeId _).bind fun id _ => ?_
    exact tidy_inScope (tidy_forParts hblock id _ _ _ parts.1 parts.2)
  · exact tidy_failAt

/-! ### Switches -/

/-- The name of the function for a part of a switch. -/
theorem unbroken_partName (id : Nat) {name : String} (h : Unbroken name) :
    Unbroken (toString id ++ "/" ++ name) := by
  simp +decide [h]

theorem tidy_rangeTest (id : Nat) {score : Score} (hscore : Unbroken score.render) (d : Dispatch) :
    (rangeTest id score d).Tidy Command.Neat := by
  have hpath := (Feature.unbroken_path .switchCase).mpr (unbroken_partName id d.unbroken_name)
  refine (tidy_call hpath).bind fun hit hhit => tidy_pure (hhit.guarded ?_)
  have hrange := ScoreRange.unbroken_ofBounds d.low d.high
  simp +decide [Test.render, hscore, hrange]

theorem tidy_registerRange (id : Nat) (d : Dispatch) {inner : Compile (List Command)}
    (hinner : inner.Tidy NeatCommands) : (registerRange id d inner).Tidy := by
  unfold registerRange
  split
  · exact tidy_pure trivial
  · refine hinner.bind fun commands hcommands => ?_
    refine (tidy_register _ (unbroken_partName id (Dispatch.unbroken_name _)) hcommands).bind
      fun _ _ => tidy_pure trivial

theorem tidy_rangeTests (id : Nat) {score : Score} (hscore : Unbroken score.render) (d : Dispatch) :
    (rangeTests id score d).Tidy NeatCommands := by
  induction d with
  | leaf label =>
    exact (tidy_rangeTest id hscore _).bind fun c hc => tidy_pure (neatCommands_singleton hc)
  | node low high left right ihleft ihright =>
    refine (tidy_registerRange id left ihleft).bind fun _ _ => ?_
    refine (tidy_rangeTest id hscore left).bind fun testLeft hleft => ?_
    refine (tidy_registerRange id right ihright).bind fun _ _ => ?_
    refine (tidy_rangeTest id hscore right).bind fun testRight hright => tidy_pure ?_
    exact List.forall_mem_cons.mpr ⟨hleft, neatCommands_singleton hright⟩

theorem tidy_registerCases (hblock : TidyBlock block) (id : Nat) (cases : List Case) :
    (registerCases block id cases).Tidy := by
  induction cases with
  | nil => exact tidy_pure trivial
  | cons c rest ih =>
    refine (hblock c.statements).bind fun commands hcommands => ?_
    have hname := unbroken_partName id (unbroken_repr_int c.label)
    exact (tidy_register _ hname hcommands).bind fun _ _ => ih

theorem tidy_mapM {γ : Type} {f : γ → Compile β} (hf : ∀ a, (f a).Tidy) (l : List γ) :
    (l.mapM f).Tidy := by
  induction l with
  | nil => exact tidy_pure trivial
  | cons a l ih =>
    rw [List.mapM_cons]
    exact (hf a).bind fun _ _ => ih.bind fun _ _ => tidy_pure trivial

theorem tidy_forM {γ : Type} {f : γ → Compile PUnit} (hf : ∀ a, (f a).Tidy) (l : List γ) :
    (l.forM f).Tidy := by
  induction l with
  | nil => exact tidy_pure trivial
  | cons a l ih => exact (hf a).bind fun _ _ => ih

theorem tidy_collectCases (statements : List Statement) : (collectCases statements).Tidy := by
  refine (tidy_ofExcept fun _ _ => trivial).bind fun cases _ => tidy_mapM (fun c => ?_) cases
  exact (tidy_forM (fun _ => tidy_warn _ _) _).bind fun _ _ => tidy_pure trivial

theorem tidy_switchScore (head : Token) : (switchScore head).Tidy fun s => Unbroken s.render := by
  refine .bind (tidy_score? _) fun result hresult => ?_
  split
  · exact tidy_pure (hresult _ rfl)
  · exact tidy_failAt

theorem tidy_switch (hblock : TidyBlock block) (keyword : Token) (rest : List Token) :
    (switch block keyword rest).Tidy NeatCommands := by
  unfold switch
  split
  · next head braces =>
    split
    · exact tidy_failAt
    · split
      · exact tidy_failAt
      · refine (tidy_switchScore head).bind fun score hscore => ?_
        refine (tidy_tokenizeInner _ braces).bind fun statements _ => ?_
        refine (tidy_collectCases statements).bind fun cases _ => ?_
        split
        · refine (tidy_takeId _).bind fun id _ => (tidy_debug _).bind fun _ _ => ?_
          refine (tidy_registerCases hblock id cases).bind fun _ _ => ?_
          exact tidy_rangeTests id hscore _
        · exact tidy_failAt
  · exact tidy_failAt

end Compile

end Packwright
