import Packwright.Proofs.ConstantReads
import Packwright.Proofs.Session.Accounts
import Packwright.Proofs.Session.Statements

/-!
# Supplied sessions

A session is supplied if every constant that a stored command reads is registered. The steps of a
compilation lead from a supplied session to a supplied session, whether they succeed or fail, and the
constants that their results read are registered when they are there.

## Main definitions

- `Pack.known`, `Pack.Supplied`, `Session.Supplied` — the registered constants, and that they suffice
- `Compile.Supplies` — a step keeps the session supplied, and registers what its result needs

## Main results

- `Compile.Supplies.bind`, `Compile.Supplies.next` — one step after another
- `Compile.supplies_registerConstant` — a constant is registered before it is used
- `Compile.supplies_chain`, `Compile.supplies_whileLoop`, `Compile.supplies_forLoop`,
  `Compile.supplies_switch` — control flow
-/

namespace Packwright

/-! ### Packs -/

namespace Pack

/-- The registered constants. -/
def known (p : Pack) : Set Int := {n | n ∈ p.constants}

/-- Every constant that a stored command reads is registered. -/
structure Supplied (p : Pack) : Prop where
  functions : ∀ f ∈ p.functions, commandConstants f.commands ⊆ p.known
  generated : ∀ e ∈ p.generated.entries, commandConstants e.2.commands ⊆ p.known

variable {p q : Pack}

theorem known_registerConstant (p : Pack) (n : Int) :
    (p.registerConstant n).known = insert n p.known := by
  ext m
  show m ∈ (p.registerConstant n).constants ↔ m = n ∨ m ∈ p.constants
  rw [constants_registerConstant]
  split
  · next hmem => exact ⟨.inr, fun h => h.elim (fun h => h ▸ hmem) id⟩
  · rw [List.mem_append, List.mem_singleton]
    exact Or.comm

/-- Registering more constants takes none away. -/
theorem Supplied.mono (h : p.Supplied) (hfunctions : q.functions = p.functions)
    (hgenerated : q.generated.entries = p.generated.entries) (hknown : p.known ⊆ q.known) :
    q.Supplied :=
  ⟨fun f hf => (h.functions f (hfunctions ▸ hf)).trans hknown,
    fun e he => (h.generated e (hgenerated ▸ he)).trans hknown⟩

theorem Supplied.addFunction (h : p.Supplied) (path : FunctionPath) {cs : List Command}
    (hcs : commandConstants cs ⊆ p.known) :
    Pack.Supplied { p with functions := p.functions ++ [⟨path, cs⟩] } :=
  ⟨List.forall_mem_append.mpr ⟨h.functions, List.forall_mem_singleton.mpr hcs⟩, h.generated⟩

theorem Supplied.generate (h : p.Supplied) (key : String × String) (path : FunctionPath)
    {cs : List Command} (hcs : commandConstants cs ⊆ p.known) :
    Pack.Supplied { p with generated := { p.generated with
      entries := p.generated.entries ++ [(key, ⟨path, cs⟩)] } } :=
  ⟨h.functions, List.forall_mem_append.mpr ⟨h.generated, List.forall_mem_singleton.mpr hcs⟩⟩

theorem Supplied.extendFunction (h : p.Supplied) (path : FunctionPath) {cs : List Command}
    (hcs : commandConstants cs ⊆ p.known) : (p.extendFunction path cs).Supplied := by
  unfold Pack.extendFunction
  split
  · refine ⟨List.forall_mem_map.mpr fun f hf => ?_, h.generated⟩
    split
    · show commandConstants (f.commands ++ cs) ⊆ p.known
      simp only [needAll_append]
      exact Set.union_subset (h.functions f hf) hcs
    · exact h.functions f hf
  · exact h.addFunction path hcs

theorem known_extendFunction (p : Pack) (path : FunctionPath) (cs : List Command) :
    (p.extendFunction path cs).known = p.known := by
  unfold Pack.extendFunction
  split <;> rfl

end Pack

namespace Session

/-- Every constant that a stored command reads is registered, and variables are renamed to holders
of the user. -/
structure Supplied (s : Session) : Prop where
  scope : s.scope.UserHeld
  pack : s.pack.Supplied

/-- The second session is supplied and knows all constants of the first one. -/
structure StaysSupplied (s s' : Session) : Prop where
  supplied : s'.Supplied
  known : s.pack.known ⊆ s'.pack.known

variable {s s₁ s' : Session}

theorem StaysSupplied.refl (h : s.Supplied) : s.StaysSupplied s := ⟨h, Set.Subset.refl _⟩

theorem StaysSupplied.trans (h : s.StaysSupplied s₁) (h' : s₁.StaysSupplied s') :
    s.StaysSupplied s' :=
  ⟨h'.supplied, h.known.trans h'.known⟩

/-- No function was stored. -/
theorem Supplied.stays (h : s.Supplied) (hscope : s'.scope = s.scope)
    (hfunctions : s'.pack.functions = s.pack.functions)
    (hgenerated : s'.pack.generated.entries = s.pack.generated.entries)
    (hknown : s.pack.known ⊆ s'.pack.known) : s.StaysSupplied s' :=
  ⟨⟨hscope ▸ h.scope, h.pack.mono hfunctions hgenerated hknown⟩, hknown⟩

end Session

/-! ### Steps -/

namespace Compile

variable {α β : Type} {m : Compile α} {given : Set Int} {needs : α → Set Int}

-- This is a structure, so that naming a step for which it holds does not run the step.
/-- From a supplied session in which the given constants are registered, the step leads to a supplied
session, in which those that its result needs are registered as well. -/
structure Supplies (m : Compile α) (given : Set Int) (needs : α → Set Int := fun _ => ∅) : Prop where
  meets : ∀ s : Session, s.Supplied → given ⊆ s.pack.known →
    m.Meets s (fun a s' => s.StaysSupplied s' ∧ needs a ⊆ s'.pack.known) s.StaysSupplied

/-- One step after another, which may use what the first one has registered. -/
theorem Supplies.bind {f : α → Compile β} {needs' : β → Set Int} (h : m.Supplies given needs)
    (hf : ∀ a, (f a).Supplies (given ∪ needs a) needs') : (m >>= f).Supplies given needs' := by
  refine ⟨fun s hs hgiven => (h.meets s hs hgiven).bind (fun _ => id) fun a s₁ h₁ => ?_⟩
  obtain ⟨hstays, hneeds⟩ := h₁
  have hgiven₁ : given ∪ needs a ⊆ s₁.pack.known :=
    Set.union_subset (hgiven.trans hstays.known) hneeds
  exact ((hf a).meets s₁ hstays.supplied hgiven₁).mono
    (fun b s' h' => ⟨hstays.trans h'.1, h'.2⟩) fun s' h' => hstays.trans h'

/-- One step after another that has registered nothing of use. -/
theorem Supplies.next {f : α → Compile β} {needs' : β → Set Int} (h : m.Supplies given)
    (hf : ∀ a, (f a).Supplies given needs') : (m >>= f).Supplies given needs' :=
  h.bind fun a => (Set.union_empty given).symm ▸ hf a

theorem supplies_pure {a : α} (h : needs a ⊆ given) : (pure a : Compile α).Supplies given needs :=
  ⟨fun _ hs hgiven => ⟨.refl hs, h.trans hgiven⟩⟩

theorem supplies_throw {e : Failure} : (throw e : Compile α).Supplies given needs :=
  ⟨fun _ hs _ => .refl hs⟩

theorem supplies_fail {f : Fault} : (fail f : Compile α).Supplies given needs :=
  ⟨fun _ hs _ => .refl hs⟩

theorem supplies_failAt {t : Token} {cause : Cause} :
    (failAt t cause : Compile α).Supplies given needs :=
  ⟨fun _ hs _ => .refl hs⟩

/-- What is read from a supplied session is known of what follows. -/
theorem supplies_get {f : Session → Compile β} {needs : β → Set Int}
    (hf : ∀ s : Session, s.Supplied → (f s).Supplies given needs) :
    (get >>= f).Supplies given needs :=
  ⟨fun s hs hgiven => (hf s hs).meets s hs hgiven⟩

/-- A step that cannot change the session; what it gives is known of what follows. -/
theorem supplies_ofExcept {x : Except Fault α} {f : α → Compile β} {needs : β → Set Int}
    (hf : ∀ a, x = .ok a → (f a).Supplies given needs) : (ofExcept x >>= f).Supplies given needs := by
  cases x with
  | ok a => exact hf a rfl
  | error fault => exact ⟨fun s hs _ => .refl hs⟩

theorem supplies_modify {f : Session → Session}
    (hf : ∀ s : Session, s.Supplied → given ⊆ s.pack.known → s.StaysSupplied (f s)) :
    (modify f : Compile PUnit).Supplies given :=
  ⟨fun s hs hgiven => ⟨hf s hs hgiven, Set.empty_subset _⟩⟩

/-- A step that stores nothing and whose result reads no constants. -/
theorem supplies_quiet {needs : α → Set Int} (hknown : m.Settled)
    (h : ∀ s : Session, s.Supplied → m.Meets s (fun a s' => s.Quiet s' ∧ needs a = ∅) s.Quiet) :
    m.Supplies given needs := by
  have hstays : ∀ {s s' : Session}, s.Supplied → s.Quiet s' → s.pack.constants ⊆ s'.pack.constants →
      s.StaysSupplied s' :=
    fun hs hq hsub => hs.stays hq.scope hq.functions hq.entries fun _ hn => hsub hn
  refine ⟨fun s hs _ => ?_⟩
  have hsub := (hknown s).constants.subset
  rw [meets_iff]
  refine ⟨fun a s' hrun => ?_, fun e s' hrun => ?_⟩
  · obtain ⟨hq, hneeds⟩ := (meets_iff.mp (h s hs)).1 a s' hrun
    rw [hrun] at hsub
    exact ⟨hstays hs hq hsub, hneeds ▸ Set.empty_subset _⟩
  · have hq := (meets_iff.mp (h s hs)).2 e s' hrun
    rw [hrun] at hsub
    exact hstays hs hq hsub

/-! ### Small steps -/

theorem supplies_debug (text : String) : (debug text).Supplies given :=
  supplies_modify fun _ hs _ => hs.stays rfl rfl rfl (Set.Subset.refl _)

theorem supplies_warn (notice : Notice) (p : Position) : (warn notice p).Supplies given :=
  supplies_modify fun _ hs _ => hs.stays rfl rfl rfl (Set.Subset.refl _)

theorem supplies_ofNoting (m : Noting α) : (ofNoting m).Supplies given :=
  supplies_quiet (settled_ofNoting m) fun _ _ => (ofNoting_meets m).mono (fun _ _ h => ⟨h.1, rfl⟩)
    fun _ => id

theorem supplies_tokenizeInner (terminator : Terminator) (t : Token) :
    (tokenizeInner terminator t).Supplies given :=
  supplies_quiet (settled_tokenizeInner terminator t) fun _ _ =>
    (tokenizeInner_meets terminator t).mono (fun _ _ h => ⟨h.1, rfl⟩) fun _ => id

theorem supplies_takeId (f : Feature) : (takeId f).Supplies given :=
  ⟨fun _ hs _ => .takeId
    (fun _ _ => ⟨hs.stays rfl rfl rfl (Set.Subset.refl _), Set.empty_subset _⟩) (.refl hs)⟩

theorem supplies_call (path : FunctionPath) : (call path).Supplies given Command.constants :=
  supplies_get fun _ _ => supplies_pure (Set.empty_subset _)

theorem supplies_render (c : Condition) : (render c).Supplies given Rendered.constants := by
  refine ⟨fun s hs _ => .render (fun r n _ hrender =>
    ⟨hs.stays rfl rfl rfl (Set.Subset.refl _), ?_⟩) fun n _ =>
      hs.stays rfl rfl rfl (Set.Subset.refl _)⟩
  have hnone := c.constants_render hs.scope (s.pack.generated.peekId Feature.logic.name)
  rw [hrender] at hnone
  exact hnone.subset.trans (Set.empty_subset _)

theorem supplies_condition (group : Token) : (condition group).Supplies given Rendered.constants :=
  (supplies_ofNoting _).next fun c => supplies_render c

/-- A function may be stored once the constants that it reads are registered. -/
theorem supplies_register (f : Feature) (name : String) {cs : List Command}
    (hcs : commandConstants cs ⊆ given) : (register f name cs).Supplies given := by
  refine ⟨fun s hs hgiven => (register_meets f name cs).with_outcome.mono (fun path s' h => ?_)
    fun s' h => h.1.symm ▸ .refl hs⟩
  obtain ⟨hrun, -, hadds⟩ := h
  rw [outcome_register cs hadds.fresh] at hrun
  obtain ⟨-, rfl⟩ := Prod.mk.inj hrun
  exact ⟨⟨⟨hs.scope, hs.pack.generate _ _ (hcs.trans hgiven)⟩, Set.Subset.refl _⟩, Set.empty_subset _⟩

theorem supplies_allocate (f : Feature) (name : String) {cs : List Command}
    (hcs : commandConstants cs ⊆ given) : (allocate f name cs).Supplies given :=
  (supplies_register f name hcs).next fun _ =>
    (supplies_debug _).next fun _ => supplies_pure (Set.empty_subset _)

theorem supplies_registerNext (f : Feature) {cs : List Command}
    (hcs : commandConstants cs ⊆ given) : (registerNext f cs).Supplies given :=
  (supplies_takeId f).next fun _ => supplies_register f _ hcs

theorem supplies_allocateNext (f : Feature) {cs : List Command}
    (hcs : commandConstants cs ⊆ given) : (allocateNext f cs).Supplies given :=
  (supplies_registerNext f hcs).next fun _ =>
    (supplies_debug _).next fun _ => supplies_pure (Set.empty_subset _)

theorem supplies_extendFunction (path : FunctionPath) {cs : List Command}
    (hcs : commandConstants cs ⊆ given) :
    (modifyPack (·.extendFunction path cs)).Supplies given :=
  supplies_modify fun s hs hgiven => ⟨⟨hs.scope, hs.pack.extendFunction path (hcs.trans hgiven)⟩,
    (s.pack.known_extendFunction path cs).ge⟩

/-- A constant is registered before it is used. -/
theorem supplies_registerConstant (n : Int) :
    (modifyPack (·.registerConstant n)).Supplies given fun _ => {n} := by
  refine ⟨fun s hs _ => ?_⟩
  have hknown : (s.pack.registerConstant n).known = insert n s.pack.known :=
    s.pack.known_registerConstant n
  have hsame := s.pack.generated_registerConstant n
  refine ⟨hs.stays rfl hsame.2 (congrArg Registry.entries hsame.1) ?_, ?_⟩
  · exact (Set.subset_insert n _).trans hknown.ge
  · exact (Set.singleton_subset_iff.mpr (Set.mem_insert n _)).trans hknown.ge

theorem supplies_declare (name criteria : String) :
    (modifyPack (·.declare name criteria)).Supplies given := by
  refine supplies_modify fun s hs _ => ?_
  have hsame := s.pack.generated_declare name criteria
  refine hs.stays rfl hsame.2 (congrArg Registry.entries hsame.1) ?_
  show s.pack.known ⊆ {n | n ∈ (s.pack.declare name criteria).constants}
  rw [s.pack.constants_declare]
  exact Set.Subset.refl _

theorem supplies_rename (name : String) {holder : String} (hholder : holder.toList.head? = some '$') :
    (rename name holder).Supplies given :=
  supplies_modify fun _ hs _ => ⟨⟨hs.scope.bind name hholder, hs.pack⟩, Set.Subset.refl _⟩

theorem supplies_inScope (h : m.Supplies given needs) : (inScope m).Supplies given needs := by
  refine ⟨fun s hs hgiven => ?_⟩
  have hpush : Session.Supplied { s with scope := s.scope.push } := ⟨hs.scope.push, hs.pack⟩
  have hpop : ∀ s' : Session, Session.StaysSupplied { s with scope := s.scope.push } s' →
      s.StaysSupplied { s' with scope := s'.scope.pop } :=
    fun s' h' => ⟨⟨h'.supplied.scope.pop, h'.supplied.pack⟩, h'.known⟩
  rw [meets_inScope]
  -- the scope is closed after a failure as well
  exact (h.meets _ hpush hgiven).mono (fun a s' h' => ⟨hpop s' h'.1, h'.2⟩) hpop

/-- A step that goes on with a score of the user. -/
theorem supplies_score? {text : String} {f : Option Score → Compile β} {needs : β → Set Int}
    (hf : ∀ found, (∀ s ∈ found, s.constants = ∅) → (f found).Supplies given needs) :
    (score? text >>= f).Supplies given needs :=
  supplies_get fun _ hs => hf _ fun _ hscore => (Score.parseIn?_userHeld hs.scope hscore).constants

/-- The compiler of bodies registers the constants that its commands read. -/
def SuppliesBlock (block : Block) : Prop :=
  ∀ (given : Set Int) (statements : List Statement),
    (block statements).Supplies given commandConstants

variable {block : Block}

theorem supplies_body (hblock : SuppliesBlock block) (t : Token) :
    (body block t).Supplies given commandConstants := by
  unfold body
  split
  · exact (supplies_tokenizeInner _ t).next fun statements => hblock given statements
  · exact supplies_failAt

end Compile

/-! ### Chains -/

/-- The constants that an arm reads. -/
def Branch.constants (arm : Branch) : Set Int :=
  (arm.condition.map Rendered.constants).getD ∅ ∪ commandConstants arm.body

namespace Compile

variable {given : Set Int} {block : Block}

theorem constants_armCommands (first : Bool) (condition : Option Rendered) (callArm : Command) :
    commandConstants (armCommands first condition callArm) =
      (condition.map Rendered.constants).getD ∅ ∪ callArm.constants := by
  have hflag : (Test.inRange ifElseFlag (.exactly 0)).constants = ∅ := Score.constants_ifElseFlag
  unfold armCommands
  cases condition with
  | none => simp [Command.constants, hflag]
  | some c =>
    dsimp only
    split
    · exact c.constants_guardedCommands callArm
    · simp [Command.constants, Rendered.constants, hflag, Set.union_assoc]

theorem supplies_ifBranch (hblock : SuppliesBlock block) (keyword : Token) (rest : List Token) :
    (ifBranch block keyword rest).Supplies given Branch.constants := by
  refine supplies_ofExcept fun parts _ => (supplies_condition parts.1).bind fun c => ?_
  refine (supplies_body hblock parts.2).bind fun commands => supplies_pure ?_
  show c.constants ∪ commandConstants commands ⊆ _
  grind

theorem supplies_elseBranch (hblock : SuppliesBlock block) (closed : Bool) (keyword : Token)
    (rest : List Token) :
    (elseBranch block closed keyword rest).Supplies given Branch.constants := by
  unfold elseBranch
  split
  · exact supplies_failAt
  split
  · exact supplies_failAt
  split
  · refine (supplies_body hblock _).bind fun commands => supplies_pure ?_
    show ∅ ∪ commandConstants commands ⊆ _
    grind
  split
  · exact supplies_ifBranch hblock _ _
  · exact supplies_failAt

theorem supplies_elseBranches (hblock : SuppliesBlock block) (statements : List Statement)
    {arms : List Branch} (harms : needAll Branch.constants arms ⊆ given) :
    (elseBranches block arms statements).Supplies given (needAll Branch.constants) := by
  induction statements generalizing arms given with
  | nil => exact supplies_pure harms
  | cons s rest ih =>
    unfold elseBranches
    split
    · exact ih harms
    · refine (supplies_elseBranch hblock _ _ _).bind fun arm => ih ?_
      simp only [needAll_append, needAll_cons, needAll_nil]
      grind

theorem supplies_armsCommands (first : Bool) {arms : List Branch}
    (harms : needAll Branch.constants arms ⊆ given) :
    (armsCommands first arms).Supplies given commandConstants := by
  induction arms generalizing first given with
  | nil => exact supplies_pure (by simp)
  | cons arm rest ih =>
    rw [needAll_cons, Set.union_subset_iff] at harms
    have hraise : commandConstants (if rest.isEmpty then [] else [.set ifElseFlag 1]) = ∅ := by
      split <;> simp [Command.constants]
    refine (supplies_allocateNext _ ?_).next fun path => (supplies_call path).bind fun callArm => ?_
    · simp only [needAll_append, hraise, Set.union_empty]
      exact Set.subset_union_right.trans harms.1
    refine (ih false (harms.2.trans Set.subset_union_left)).bind fun more => supplies_pure ?_
    simp only [needAll_append, constants_armCommands]
    have hcondition := Set.subset_union_left.trans harms.1
    grind

theorem supplies_singleArm {c : Rendered} (hc : c.constants ⊆ given) {commands : List Command}
    (hcommands : commandConstants commands ⊆ given) :
    (singleArm c commands).Supplies given commandConstants := by
  unfold singleArm
  split
  · exact supplies_pure (by simp)
  · refine supplies_pure ?_
    simp only [needAll_cons, needAll_nil, Set.union_empty] at hcommands
    simp only [Rendered.constants_guardedCommands]
    exact Set.union_subset hc hcommands
  · refine (supplies_allocateNext _ hcommands).next fun path => ?_
    refine (supplies_call path).bind fun callArm => supplies_pure ?_
    simp only [Rendered.constants_guardedCommands]
    grind

theorem supplies_chainCommands {arms : List Branch} (harms : needAll Branch.constants arms ⊆ given) :
    (chainCommands arms).Supplies given commandConstants := by
  have hkept := (needAll_mono (dropEmptyElse_subset arms)).trans harms
  unfold chainCommands
  split
  · next c commands heq =>
    rw [heq, needAll_cons, needAll_nil, Set.union_empty] at hkept
    exact supplies_singleArm (Set.subset_union_left.trans hkept) (Set.subset_union_right.trans hkept)
  · exact supplies_fail
  · refine (supplies_armsCommands true hkept).bind fun commands => supplies_pure ?_
    simp only [needAll_cons, Command.constants, Score.constants_ifElseFlag, Set.empty_union]
    exact Set.subset_union_right

theorem supplies_chain (hblock : SuppliesBlock block) (keyword : Token) (rest : List Token)
    (elses : List Statement) : (chain block keyword rest elses).Supplies given commandConstants := by
  refine (supplies_ifBranch hblock keyword rest).bind fun first => ?_
  refine (supplies_elseBranches hblock elses ?_).bind fun arms => supplies_chainCommands ?_
  · simp
  · exact Set.subset_union_right

/-! ### Loops -/

theorem supplies_whileLoop (hblock : SuppliesBlock block) (keyword : Token) (rest : List Token) :
    (whileLoop block keyword rest).Supplies given commandConstants := by
  refine supplies_ofExcept fun parts _ => (supplies_takeId _).next fun id => ?_
  refine (supplies_condition parts.1).bind fun c => (supplies_call _).bind fun again => ?_
  refine (supplies_body hblock parts.2).bind fun commands => ?_
  refine (supplies_allocate _ _ ?_).next fun _ => supplies_pure ?_
  · simp only [needAll_append, Rendered.constants_guardedCommands]
    grind
  · simp only [Rendered.constants_guardedCommands]
    grind

theorem supplies_doWhile (hblock : SuppliesBlock block) (keyword : Token) (rest : List Token)
    (tail : Option Statement) :
    (doWhile block keyword rest tail).Supplies given commandConstants := by
  unfold doWhile
  split
  · next braces =>
    refine (supplies_takeId _).next fun id => (supplies_body hblock braces).bind fun commands => ?_
    split
    · refine supplies_ofExcept fun head _ => (supplies_condition head).bind fun c => ?_
      refine (supplies_call _).bind fun again => ?_
      refine (supplies_allocate _ _ ?_).next fun _ => supplies_pure ?_
      · simp only [needAll_append, Rendered.constants_guardedCommands]
        grind
      · simp only [needAll_cons, needAll_nil]
        grind
    · exact supplies_failAt
  · exact supplies_failAt

theorem supplies_bindLoopVariable (id : Nat) (tokens : List Token) :
    (bindLoopVariable id tokens).Supplies given := by
  unfold bindLoopVariable
  split
  · split
    · split
      · exact (supplies_debug _).next fun _ => supplies_rename _ (by simp)
      · exact supplies_pure (Set.empty_subset _)
    · exact supplies_pure (Set.empty_subset _)
  · exact supplies_pure (Set.empty_subset _)

theorem supplies_forParts (hblock : SuppliesBlock block) (id : Nat) (init test step : Statement)
    (head braces : Token) :
    (forParts block id init test step head braces).Supplies given commandConstants := by
  refine (supplies_bindLoopVariable id _).next fun _ => ?_
  refine (hblock _ [init]).bind fun initCommands => ?_
  refine (supplies_ofNoting _).next fun tree => (supplies_render tree).bind fun c => ?_
  refine (hblock _ [step]).bind fun stepCommands => (supplies_call _).bind fun again => ?_
  refine (supplies_body hblock braces).bind fun commands => ?_
  refine (supplies_allocate _ _ ?_).next fun _ => supplies_pure ?_
  · simp only [needAll_append, Rendered.constants_guardedCommands]
    grind
  · simp only [needAll_append, Rendered.constants_guardedCommands]
    grind

theorem supplies_forLoop (hblock : SuppliesBlock block) (keyword : Token) (rest : List Token) :
    (forLoop block keyword rest).Supplies given commandConstants := by
  refine supplies_ofExcept fun parts _ => (supplies_tokenizeInner _ parts.1).next fun statements => ?_
  split
  · refine (supplies_takeId _).next fun id => ?_
    exact supplies_inScope (supplies_forParts hblock id _ _ _ parts.1 parts.2)
  · exact supplies_failAt

/-! ### Switches -/

theorem supplies_rangeTest (id : Nat) {score : Score} (hscore : score.constants ⊆ given)
    (d : Dispatch) : (rangeTest id score d).Supplies given Command.constants := by
  refine (supplies_call _).bind fun hit => supplies_pure ?_
  simp only [Command.constants, needAll_cons, needAll_nil, Test.constants]
  grind

theorem supplies_registerRange (id : Nat) (d : Dispatch) {inner : Compile (List Command)}
    (hinner : inner.Supplies given commandConstants) : (registerRange id d inner).Supplies given := by
  unfold registerRange
  split
  · exact supplies_pure (Set.empty_subset _)
  · refine hinner.bind fun commands => ?_
    exact (supplies_register _ _ Set.subset_union_right).next
      fun _ => supplies_pure (Set.empty_subset _)

theorem supplies_rangeTests (id : Nat) {score : Score} (hscore : score.constants ⊆ given)
    (d : Dispatch) : (rangeTests id score d).Supplies given commandConstants := by
  induction d generalizing given with
  | leaf label =>
    exact (supplies_rangeTest id hscore _).bind fun c => supplies_pure (by simp)
  | node low high left right ihleft ihright =>
    refine (supplies_registerRange id left (ihleft hscore)).next fun _ => ?_
    refine (supplies_rangeTest id hscore left).bind fun testLeft => ?_
    refine (supplies_registerRange id right (ihright (by grind))).next fun _ => ?_
    refine (supplies_rangeTest id (by grind) right).bind fun testRight => supplies_pure ?_
    simp only [needAll_cons, needAll_nil]
    grind

theorem supplies_registerCases (hblock : SuppliesBlock block) (id : Nat) (cases : List Case) :
    (registerCases block id cases).Supplies given := by
  induction cases generalizing given with
  | nil => exact supplies_pure (Set.empty_subset _)
  | cons c rest ih =>
    refine (hblock _ c.statements).bind fun commands => ?_
    exact (supplies_register _ _ Set.subset_union_right).next fun _ => ih

theorem supplies_collectCases (statements : List Statement) :
    (collectCases statements).Supplies given :=
  supplies_quiet (settled_collectCases statements) fun s _ =>
    (collectCases_meets fun st _ => anyCalls_includes s st.tokens).mono (fun _ _ h => ⟨h.1, rfl⟩)
      fun _ => id

-- reading a score computes on characters, which unification must not look into
attribute [local irreducible] score? switchScore

theorem supplies_switchScore (head : Token) :
    (switchScore head).Supplies given Score.constants := by
  unfold switchScore
  refine supplies_score? fun found hfound => ?_
  cases found with
  | some s => exact supplies_pure ((hfound s rfl).trans_subset (Set.empty_subset _))
  | none => exact supplies_failAt

theorem supplies_switch (hblock : SuppliesBlock block) (keyword : Token) (rest : List Token) :
    (switch block keyword rest).Supplies given commandConstants := by
  unfold switch
  split
  · next head braces =>
    split
    · exact supplies_failAt
    split
    · exact supplies_failAt
    refine (supplies_switchScore head).bind fun score => ?_
    refine (supplies_tokenizeInner _ braces).next fun statements => ?_
    refine (supplies_collectCases statements).next fun cases => ?_
    split
    · refine (supplies_takeId _).next fun id => (supplies_debug _).next fun _ => ?_
      refine (supplies_registerCases hblock id cases).next fun _ => ?_
      exact supplies_rangeTests id Set.subset_union_right _
    · exact supplies_failAt
  · exact supplies_failAt

end Compile

end Packwright
