import Packwright.Proofs.Session.Numbering
import Packwright.Proofs.Session.Outcomes
import Packwright.Proofs.Session.Traces

/-!
# What records tell

The record of a compilation accounts for what happened to the session. The loops that are recorded
have consecutive numbers, from the one on that was free before. The objectives are what comes of the
recorded requests, of which the first one for each objective counts. Where no warning was recorded,
no objective was added that was there already.

## Main definitions

- `Event.objective?`, `declareAll` — the requests for objectives, of which the first counts
- `Session.Settles` — what steps do that neither begin a loop nor ask for an objective
- `Session.Accounts` — a record that accounts for what happened
- `Compile.Settled` — steps of the first kind

## Main results

- `Session.Accounts.trans` — one record after another
- `Session.Settles.accounts` — a step without events of its own
- `Compile.Settled.bind` — one such step after another
-/

namespace Packwright

/-! ### Requests for objectives -/

/-- The objective that is to be there. -/
def Event.objective? : Event → Option Objective
  | .loop _ => none
  | .added name criteria | .awaited name criteria => some ⟨name, criteria⟩
  | .constants => some ⟨constantObjective, "dummy"⟩

/-- The loop that is begun. -/
def Event.loop? : Event → Option ForLoop
  | .loop l => some l
  | _ => none

/-- The requests for objectives in a record. -/
abbrev requests (events : List Event) : List Objective := events.filterMap Event.objective?

/-- The objectives after a request: a new one is added, unless there is one of its name. -/
def declareOne (known : List Objective) (o : Objective) : List Objective :=
  if known.any (·.name = o.name) then known else known ++ [o]

/-- The objectives after several requests. -/
def declareAll (known : List Objective) (os : List Objective) : List Objective :=
  os.foldl declareOne known

@[simp] theorem declareAll_nil (known : List Objective) : declareAll known [] = known := rfl

@[simp] theorem declareAll_cons (known : List Objective) (o : Objective) (os : List Objective) :
    declareAll known (o :: os) = declareAll (declareOne known o) os := rfl

theorem declareAll_append (known os os' : List Objective) :
    declareAll known (os ++ os') = declareAll (declareAll known os) os' :=
  List.foldl_append

/-- No objective is added by a record of which the name is there already. -/
def AddsFresh (known : List Objective) (events : List Event) : Prop :=
  ∀ before name criteria after, events = before ++ Event.added name criteria :: after →
    ∀ o ∈ declareAll known (requests before), o.name ≠ name

theorem AddsFresh.of_not_mem {known : List Objective} {events : List Event}
    (h : ∀ name criteria, Event.added name criteria ∉ events) : AddsFresh known events := by
  intro before name criteria after heq
  exact absurd (heq ▸ List.mem_append_right _ (List.mem_cons_self ..)) (h name criteria)

theorem AddsFresh.single {known : List Objective} {name criteria : String}
    (h : ∀ o ∈ known, o.name ≠ name) : AddsFresh known [.added name criteria] := by
  intro before name' criteria' after heq
  cases before with
  | nil =>
    obtain ⟨rfl, rfl⟩ := Event.added.inj (List.cons.inj heq).1
    exact h
  | cons e before => simp at heq

theorem AddsFresh.append {known : List Objective} {events events' : List Event}
    (h : AddsFresh known events) (h' : AddsFresh (declareAll known (requests events)) events') :
    AddsFresh known (events ++ events') := by
  intro before name criteria after heq
  rcases List.append_eq_append_iff.mp heq with ⟨between, rfl, hafter⟩ | ⟨between, hbefore, hafter⟩
  · rw [requests, List.filterMap_append, declareAll_append]
    exact h' between name criteria after hafter
  · cases between with
    | nil =>
      rw [List.append_nil] at hbefore
      subst hbefore
      exact h' [] name criteria after hafter.symm
    | cons e between =>
      obtain ⟨rfl, -⟩ := List.cons.inj hafter
      exact h before name criteria between hbefore

namespace Pack

theorem objectives_declare (p : Pack) (name criteria : String) :
    (p.declare name criteria).objectives = declareOne p.objectives ⟨name, criteria⟩ := by
  unfold declare declareOne isDeclared
  split <;> rfl

theorem constants_declare (p : Pack) (name criteria : String) :
    (p.declare name criteria).constants = p.constants := by
  unfold declare
  split <;> rfl

theorem constants_registerConstant (p : Pack) (n : Int) :
    (p.registerConstant n).constants =
      if n ∈ p.constants then p.constants else p.constants ++ [n] := by
  unfold registerConstant
  simp only
  have hsame : (if p.constants.isEmpty = true then p.declare constantObjective "dummy" else p).constants =
      p.constants := by
    split
    · exact p.constants_declare _ _
    · rfl
  rw [hsame]
  simp only [List.contains_iff_mem]
  split
  · exact hsame
  · rfl

theorem objectives_registerConstant (p : Pack) (n : Int) :
    (p.registerConstant n).objectives =
      declareAll p.objectives (requests (Traced.firstConstant p (p.registerConstant n))) := by
  have hafter : (p.registerConstant n).constants ≠ [] := by
    rw [constants_registerConstant]
    split
    · next hmem => exact List.ne_nil_of_mem hmem
    · simp
  have hobjectives : (p.registerConstant n).objectives =
      (if p.constants.isEmpty then p.declare constantObjective "dummy" else p).objectives := by
    unfold registerConstant
    simp only
    split <;> split <;> rfl
  rw [hobjectives, Traced.firstConstant]
  by_cases hnone : p.constants = []
  · rw [if_pos (by simp [hnone]), if_pos ⟨hnone, hafter⟩, p.objectives_declare]
    rfl
  · rw [if_neg (by simpa using hnone), if_neg fun h => hnone h.1]
    rfl

end Pack

/-! ### Sessions -/

theorem Traced.firstConstant_append {p q r : Pack} (h : p.constants <+: q.constants)
    (h' : q.constants <+: r.constants) :
    firstConstant p r = firstConstant p q ++ firstConstant q r := by
  unfold firstConstant
  by_cases hp : p.constants = []
  · by_cases hq : q.constants = []
    · simp [hp, hq]
    · have hr : r.constants ≠ [] := fun hr => hq (List.prefix_nil.mp (hr ▸ h'))
      simp [hp, hq, hr]
  · have hq : q.constants ≠ [] := fun hq => hp (List.prefix_nil.mp (hq ▸ h))
    simp [hp, hq]

namespace Session

/-- What a step does that neither begins a loop nor asks for an objective: it keeps the renamings, and
registers an objective at most for the first constant. -/
structure Settles (s s' : Session) : Prop where
  scope : s'.scope = s.scope
  loops : s'.supply .forLoop = s.supply .forLoop
  warnings : s.warnings <+: s'.warnings
  logged : s.logged ≤ s.warnings.length → s'.logged ≤ s'.warnings.length
  constants : s.pack.constants <+: s'.pack.constants
  objectives : s'.pack.objectives =
    declareAll s.pack.objectives (requests (Traced.firstConstant s.pack s'.pack))

/-- The record accounts for what happened between two sessions. -/
structure Accounts (s : Session) (events : List Event) (s' : Session) : Prop where
  scope : s'.scope = s.scope
  loops : (events.filterMap Event.loop?).map ForLoop.id =
    List.range' (s.supply .forLoop) (events.filterMap Event.loop?).length
  supply : s'.supply .forLoop = s.supply .forLoop + (events.filterMap Event.loop?).length
  warnings : s.warnings <+: s'.warnings
  logged : s.logged ≤ s.warnings.length → s'.logged ≤ s'.warnings.length
  constants : s.pack.constants <+: s'.pack.constants
  first : .constants ∈ events ↔ s.pack.constants = [] ∧ s'.pack.constants ≠ []
  objectives : s'.pack.objectives = declareAll s.pack.objectives (requests events)
  fresh : s'.warnings = s.warnings → AddsFresh s.pack.objectives events

variable {s s₁ s' : Session} {events events' : List Event}

theorem firstConstant_of_eq {p q : Pack} (h : q.constants = p.constants) :
    Traced.firstConstant p q = [] := by
  rw [Traced.firstConstant, h, if_neg fun h => h.2 h.1]

/-- A step that leaves objectives and constants alone. -/
theorem Settles.of_same (hscope : s'.scope = s.scope)
    (hloops : s'.supply .forLoop = s.supply .forLoop) (hlogged : s'.logged = s.logged)
    (hwarnings : s.warnings <+: s'.warnings) (hconstants : s'.pack.constants = s.pack.constants)
    (hobjectives : s'.pack.objectives = s.pack.objectives) : s.Settles s' := by
  refine ⟨hscope, hloops, hwarnings, fun h => hlogged ▸ h.trans hwarnings.length_le,
    hconstants ▸ List.prefix_refl _, ?_⟩
  rw [firstConstant_of_eq hconstants, hobjectives]
  rfl

theorem Settles.refl (s : Session) : s.Settles s := .of_same rfl rfl rfl (List.prefix_refl _) rfl rfl

theorem Settles.trans (h : s.Settles s₁) (h' : s₁.Settles s') : s.Settles s' := by
  refine ⟨h'.scope.trans h.scope, h'.loops.trans h.loops, h.warnings.trans h'.warnings,
    h'.logged ∘ h.logged, h.constants.trans h'.constants, ?_⟩
  rw [Traced.firstConstant_append h.constants h'.constants, requests, List.filterMap_append,
    declareAll_append, h'.objectives, h.objectives]

theorem Accounts.refl (s : Session) : s.Accounts [] s := by
  refine ⟨rfl, rfl, rfl, List.prefix_refl _, id, List.prefix_refl _, ?_, rfl, fun _ => ?_⟩
  · simp
  · exact .of_not_mem fun _ _ => List.not_mem_nil

/-- The record of a step without events of its own. -/
theorem Settles.accounts (h : s.Settles s') :
    s.Accounts (Traced.firstConstant s.pack s'.pack) s' := by
  have hloops : (Traced.firstConstant s.pack s'.pack).filterMap Event.loop? = [] := by
    unfold Traced.firstConstant
    split <;> rfl
  have hadded : ∀ name criteria, Event.added name criteria ∉
      Traced.firstConstant s.pack s'.pack := by
    unfold Traced.firstConstant
    split <;> simp
  refine ⟨h.scope, ?_, ?_, h.warnings, h.logged, h.constants, ?_, h.objectives, fun _ => ?_⟩
  · rw [hloops]
    rfl
  · rw [hloops, h.loops]
    rfl
  · unfold Traced.firstConstant
    split <;> simp_all
  · exact .of_not_mem hadded

/-- A request for an objective. -/
theorem accounts_request {e : Event} {o : Objective} (he : e.objective? = some o)
    (hloop : e.loop? = none) (hconstant : e ≠ .constants) (hscope : s'.scope = s.scope)
    (hsupply : s'.supply .forLoop = s.supply .forLoop) (hlogged : s'.logged = s.logged)
    (hwarnings : s.warnings <+: s'.warnings) (hconstants : s'.pack.constants = s.pack.constants)
    (hobjectives : s'.pack.objectives = declareOne s.pack.objectives o)
    (hfresh : s'.warnings = s.warnings → AddsFresh s.pack.objectives [e]) :
    s.Accounts ([e] ++ Traced.firstConstant s.pack s'.pack) s' := by
  have hloops : [e].filterMap Event.loop? = [] := by simp [hloop]
  have hrequests : requests [e] = [o] := by simp [requests, he]
  rw [firstConstant_of_eq hconstants, List.append_nil]
  refine ⟨hscope, ?_, ?_, hwarnings, fun h => hlogged ▸ h.trans hwarnings.length_le,
    hconstants ▸ List.prefix_refl _, ?_, ?_, hfresh⟩
  · rw [hloops]
    rfl
  · rw [hloops, hsupply]
    rfl
  · rw [List.mem_singleton, hconstants]
    exact ⟨fun h => absurd h.symm hconstant, fun h => absurd h.1 h.2⟩
  · rw [hrequests, hobjectives]
    rfl

/-- One record after another. -/
theorem Accounts.trans (h : s.Accounts events s₁) (h' : s₁.Accounts events' s') :
    s.Accounts (events ++ events') s' := by
  refine ⟨h'.scope.trans h.scope, ?_, ?_, h.warnings.trans h'.warnings, h'.logged ∘ h.logged,
    h.constants.trans h'.constants, ?_, ?_, fun hsame => ?_⟩
  · rw [List.filterMap_append, List.map_append, List.length_append, h.loops, h'.loops, h.supply,
      List.range'_append_1]
  · rw [List.filterMap_append, List.length_append, h'.supply, h.supply, Nat.add_assoc]
  · rw [List.mem_append, h.first, h'.first]
    constructor
    · rintro (⟨hnone, hsome⟩ | ⟨hnone, hsome⟩)
      · exact ⟨hnone, fun hnone' => hsome (List.prefix_nil.mp (hnone' ▸ h'.constants))⟩
      · exact ⟨List.prefix_nil.mp (hnone ▸ h.constants), hsome⟩
    · rintro ⟨hnone, hsome⟩
      by_cases hbetween : s₁.pack.constants = []
      · exact .inr ⟨hbetween, hsome⟩
      · exact .inl ⟨hnone, hbetween⟩
  · rw [requests, List.filterMap_append, declareAll_append, h'.objectives, h.objectives]
  · -- no step in between can have taken a warning back
    have hbetween : s₁.warnings = s.warnings :=
      (h.warnings.eq_of_length_le (hsame ▸ h'.warnings.length_le)).symm
    refine (h.fresh hbetween).append ?_
    rw [← h.objectives]
    exact h'.fresh (hsame.trans hbetween.symm)

/-- Which renamings there are makes no difference. -/
theorem Accounts.rescope {scope : Scope} (h : Accounts { s with scope } events s') :
    s.Accounts events { s' with scope := s.scope } :=
  ⟨rfl, h.loops, h.supply, h.warnings, h.logged, h.constants, h.first, h.objectives, h.fresh⟩

end Session

/-! ### Steps -/

namespace Compile

variable {α β : Type} {m : Compile α}

/-- Whether it succeeds or fails, the step neither begins a loop nor asks for an objective. -/
def Settled (m : Compile α) : Prop := ∀ s : Session, s.Settles (m.outcome s).2

/-- One step after another. -/
theorem Settled.bind {f : α → Compile β} (h : m.Settled) (hf : ∀ a, (f a).Settled) :
    (m >>= f).Settled := by
  intro s
  have hm := h s
  rw [outcome_bind]
  generalize m.outcome s = result at hm ⊢
  obtain ⟨value, s'⟩ := result
  cases value with
  | ok a => exact hm.trans (hf a s')
  | error e => exact hm

theorem settled_pure (a : α) : (pure a : Compile α).Settled := .refl

theorem settled_throw (e : Failure) : (throw e : Compile α).Settled := .refl

theorem settled_fail (f : Fault) : (fail f : Compile α).Settled := .refl

theorem settled_failAt (t : Token) (cause : Cause) : (failAt t cause : Compile α).Settled := .refl

theorem settled_ofExcept (x : Except Fault α) : (ofExcept x).Settled := by
  cases x <;> exact .refl

theorem settled_get : (get : Compile Session).Settled := .refl

theorem settled_modify {f : Session → Session} (h : ∀ s : Session, s.Settles (f s)) :
    (modify f : Compile PUnit).Settled := h

theorem settled_debug (text : String) : (debug text).Settled :=
  fun _ => .of_same rfl rfl rfl (List.prefix_refl _) rfl rfl

theorem settled_warn (notice : Notice) (p : Position) : (warn notice p).Settled :=
  fun _ => .of_same rfl rfl rfl (List.prefix_append ..) rfl rfl

theorem settled_ofNoting (m : Noting α) : (ofNoting m).Settled := by
  unfold ofNoting
  obtain ⟨result, warnings⟩ := m.run.run []
  refine Settled.bind ?_ fun _ => ?_
  · exact fun s => .of_same rfl rfl rfl (List.prefix_refl _) rfl rfl
  cases result with
  | ok a => exact settled_pure a
  | error failure => exact settled_throw failure

theorem settled_tokenize (terminator : Terminator) (start : Position) (text : String) :
    (tokenize terminator start text).Settled := by
  refine (settled_ofExcept _).bind fun reading => ?_
  refine (settled_modify fun s => ?_).bind fun _ => settled_pure _
  exact .of_same rfl rfl rfl (List.prefix_append ..) rfl rfl

theorem settled_tokenizeInner (terminator : Terminator) (t : Token) :
    (tokenizeInner terminator t).Settled := by
  unfold tokenizeInner
  split
  · exact settled_tokenize _ _ _
  · exact settled_failAt _ _

/-- Only the counter of loops is counted. -/
theorem settles_setCounter (s : Session) {f : Feature} (hf : f ≠ .forLoop) (n : UInt32) :
    s.Settles { s with
      pack := { s.pack with generated := s.pack.generated.setCounter f.name n } } := by
  refine .of_same rfl ?_ rfl (List.prefix_refl _) rfl rfl
  show Registry.peekId _ _ = Registry.peekId _ _
  rw [Registry.peekId_setCounter, if_neg fun h => hf (Feature.name_injective h).symm]

theorem settled_takeId {f : Feature} (hf : f ≠ .forLoop) : (takeId f).Settled := by
  intro s
  rcases takeId_cases f s with ⟨-, hrun⟩ | ⟨n, -, hrun⟩
  · rw [hrun]
    exact .refl s
  · rw [hrun]
    exact settles_setCounter s hf n

theorem settled_render (c : Condition) : (render c).Settled := by
  intro s
  obtain ⟨result, n, hrun, -⟩ := render_cases c s
  rw [hrun]
  exact settles_setCounter s (f := .logic) (by decide) n

theorem settled_condition (group : Token) : (condition group).Settled :=
  (settled_ofNoting _).bind fun _ => settled_render _

theorem settled_call (path : FunctionPath) : (call path).Settled :=
  settled_get.bind fun _ => settled_pure _

theorem settled_score? (text : String) : (score? text).Settled :=
  settled_get.bind fun _ => settled_pure _

theorem settled_register (f : Feature) (name : String) (commands : List Command) :
    (register f name commands).Settled := by
  intro s
  rcases hrun : (register f name commands).outcome s with ⟨e | path, s'⟩
  · rw [((meets_iff.mp (register_meets f name commands)).2 e s' hrun).1]
    exact .refl s
  · have hadds := ((register_meets f name commands).of_ok hrun).2
    rw [outcome_register commands hadds.fresh] at hrun
    obtain ⟨-, rfl⟩ := Prod.mk.inj hrun
    exact .of_same rfl rfl rfl (List.prefix_refl _) rfl rfl

theorem settled_allocate (f : Feature) (name : String) (commands : List Command) :
    (allocate f name commands).Settled :=
  (settled_register f name commands).bind fun _ => (settled_debug _).bind fun _ => settled_pure _

theorem settled_registerNext {f : Feature} (hf : f ≠ .forLoop) (commands : List Command) :
    (registerNext f commands).Settled :=
  (settled_takeId hf).bind fun _ => settled_register _ _ _

theorem settled_allocateNext {f : Feature} (hf : f ≠ .forLoop) (commands : List Command) :
    (allocateNext f commands).Settled :=
  (settled_registerNext hf commands).bind fun _ => (settled_debug _).bind fun _ => settled_pure _

theorem settled_mapM {f : α → Compile β} (h : ∀ a, (f a).Settled) (l : List α) :
    (l.mapM f).Settled := by
  induction l with
  | nil => exact settled_pure _
  | cons a l ih =>
    rw [List.mapM_cons]
    exact (h a).bind fun _ => ih.bind fun _ => settled_pure _

theorem settled_forM {f : α → Compile PUnit} (h : ∀ a, (f a).Settled) (l : List α) :
    (l.forM f).Settled := by
  induction l with
  | nil => exact settled_pure _
  | cons a l ih =>
    rw [List.forM_eq_forM, List.forM_cons]
    exact (h a).bind fun _ => ih

/-! ### Control flow -/

theorem settled_armsCommands (first : Bool) (arms : List Branch) :
    (armsCommands first arms).Settled := by
  induction arms generalizing first with
  | nil => exact settled_pure _
  | cons arm rest ih =>
    refine (settled_allocateNext (by decide) _).bind fun path => (settled_call path).bind fun _ => ?_
    exact (ih false).bind fun _ => settled_pure _

theorem settled_chainCommands (arms : List Branch) : (chainCommands arms).Settled := by
  unfold chainCommands
  split
  · unfold singleArm
    split
    · exact settled_pure _
    · exact settled_pure _
    · refine (settled_allocateNext (by decide) _).bind fun path => ?_
      exact (settled_call path).bind fun _ => settled_pure _
  · exact settled_fail _
  · exact (settled_armsCommands _ _).bind fun _ => settled_pure _

theorem settled_collectCases (statements : List Statement) : (collectCases statements).Settled := by
  refine (settled_ofExcept _).bind fun cases => settled_mapM (fun c => ?_) cases
  exact (settled_forM (fun _ => settled_warn _ _) _).bind fun _ => settled_pure _

theorem settled_rangeTests (id : Nat) (score : Score) (d : Dispatch) :
    (rangeTests id score d).Settled := by
  have htest : ∀ d : Dispatch, (rangeTest id score d).Settled :=
    fun d => (settled_call _).bind fun _ => settled_pure _
  have hrange : ∀ (d : Dispatch) {inner : Compile (List Command)}, inner.Settled →
      (registerRange id d inner).Settled := by
    intro d inner hinner
    cases d with
    | leaf label => exact settled_pure _
    | node low high left right =>
      exact hinner.bind fun _ => (settled_register _ _ _).bind fun _ => settled_pure _
  induction d with
  | leaf label => exact (htest _).bind fun _ => settled_pure _
  | node low high left right ihleft ihright =>
    refine (hrange left ihleft).bind fun _ => (htest left).bind fun _ => ?_
    exact (hrange right ihright).bind fun _ => (htest right).bind fun _ => settled_pure _

theorem settled_switchScore (head : Token) : (switchScore head).Settled := by
  unfold switchScore
  refine (settled_score? _).bind fun score => ?_
  cases score with
  | none => exact settled_failAt _ _
  | some score => exact settled_pure _

/-! ### Built-in functions and variables -/

theorem settled_registerConstant (n : Int) : (modifyPack (·.registerConstant n)).Settled := by
  intro s
  refine ⟨rfl, ?_, List.prefix_refl _, id, ?_, s.pack.objectives_registerConstant n⟩
  · show Registry.peekId (s.pack.registerConstant n).generated _ = Registry.peekId _ _
    rw [(s.pack.generated_registerConstant n).1]
  · show s.pack.constants <+: (s.pack.registerConstant n).constants
    rw [s.pack.constants_registerConstant]
    split
    · exact List.prefix_refl _
    · exact List.prefix_append ..

theorem settled_extendFunction (path : FunctionPath) (commands : List Command) :
    (modifyPack (·.extendFunction path commands)).Settled := by
  intro s
  show s.Settles { s with pack := s.pack.extendFunction path commands }
  unfold Pack.extendFunction
  split <;> exact .of_same rfl rfl rfl (List.prefix_refl _) rfl rfl

theorem settled_emitSqrt (callMain callStep : Command) : (emitSqrt callMain callStep).Settled := by
  refine settled_get.bind fun s => ?_
  split
  · refine (settled_registerConstant 2).bind fun _ => (settled_register _ _ _).bind fun _ => ?_
    refine (settled_register _ _ _).bind fun _ => Settled.bind ?_ fun _ => settled_debug _
    exact settled_modify fun _ => .of_same rfl rfl rfl (List.prefix_refl _) rfl rfl
  · exact settled_pure _

theorem settled_sqrt (args : Bindings) (target : Score) : (sqrt args target).Settled := by
  refine (settled_call _).bind fun callMain => (settled_call _).bind fun callStep => ?_
  refine (settled_emitSqrt callMain callStep).bind fun _ => (settled_ofExcept _).bind fun value => ?_
  cases value with
  | int n => exact settled_pure _
  | score s => exact settled_pure _
  | number | text | arrow => exact settled_ofExcept _

theorem settled_random (args : Bindings) (target : Score) : (random args target).Settled := by
  refine (settled_ofExcept _).bind fun min => (settled_ofExcept _).bind fun max => ?_
  split
  · exact settled_fail _
  · exact settled_pure _

theorem settled_circle (args : Bindings) : (circle args).Settled := by
  refine (settled_ofExcept _).bind fun _ => (settled_ofExcept _).bind fun _ => ?_
  refine (settled_ofExcept _).bind fun spread => ?_
  split
  · exact settled_pure _
  · exact settled_fail _

theorem settled_tellraw (args : Bindings) : (tellraw args).Settled :=
  (settled_ofExcept _).bind fun _ => (settled_ofExcept _).bind fun _ => settled_get.bind fun _ => settled_pure _

theorem settled_score (text : String) (t : Token) : (score text t).Settled := by
  unfold score
  refine (settled_score? text).bind fun found => ?_
  cases found with
  | none => exact settled_failAt _ _
  | some score => exact settled_pure _

theorem settled_checkSingle (value : Token) (rest : List Token) :
    (checkSingle value rest).Settled := by
  unfold checkSingle
  split
  · exact settled_fail _
  split
  · exact settled_pure _
  split
  · exact settled_fail _
  · exact settled_failAt _ _

theorem settled_operand (o : Operator) (target : Token) (right : List Token) :
    (operand o target right).Settled := by
  cases right with
  | nil => exact settled_failAt _ _
  | cons value rest =>
    refine (settled_checkSingle value rest).bind fun _ => (settled_ofExcept _).bind fun n => ?_
    cases n with
    | some n => exact settled_pure _
    | none =>
      refine settled_get.bind fun s => ?_
      split
      · exact settled_pure _
      · exact settled_failAt _ _

theorem settled_operandScore (value : Operand) : (operandScore value).Settled := by
  cases value with
  | score s => exact settled_pure _
  | int n => exact (settled_registerConstant n).bind fun _ => settled_pure _

theorem settled_addition (target : Score) (o : Operator) (value : Operand) :
    (addition target o value).Settled := by
  unfold addition
  split
  · split
    · exact (settled_operandScore _).bind fun _ => settled_pure _
    split
    · exact settled_pure _
    · exact settled_pure _
  · exact settled_pure _

theorem settled_functionCall (name : Token) (rest : List Token) : (functionCall name rest).Settled := by
  unfold functionCall
  split
  · split
    · exact settled_failAt _ _
    · exact settled_call _
  · exact settled_failAt _ _

theorem settled_getStatement (holder : String) (name group : Token) :
    (getStatement holder name group).Settled := by
  unfold getStatement
  split
  · exact settled_failAt _ _
  · exact (settled_score _ _).bind fun _ => settled_pure _

/-! ### Definitions -/

theorem settled_checkPath (head : FunctionHead) : (checkPath head).Settled := by
  refine settled_get.bind fun s => ?_
  split
  · exact settled_failAt _ _
  dsimp only
  generalize (if head.path = tickPath then s.tickDefined else s.pack.hasFunction head.path) = taken
  cases taken with
  | true => exact settled_failAt _ _
  | false =>
    rw [if_neg Bool.false_ne_true]
    split
    · exact settled_warn _ _
    · exact settled_pure _

/-- What is added to a pack if its key is free. -/
theorem settled_add {f : Pack → Except Cause Pack}
    (h : ∀ (s : Session) (pack : Pack), f s.pack = .ok pack → s.Settles { s with pack }) (t : Token) :
    (get >>= fun s => match f s.pack with
      | .ok pack => modify fun s => { s with pack }
      | .error cause => failAt t cause : Compile PUnit).Settled := by
  intro s
  rw [outcome_get_bind]
  cases hadd : f s.pack with
  | ok pack => exact h s pack hadd
  | error cause => exact .refl s

theorem settled_addFunction (path : FunctionPath) (commands : List Command) (t : Token) :
    (get >>= fun s => match s.pack.addFunction path commands with
      | .ok pack => modify fun s => { s with pack }
      | .error cause => failAt t cause : Compile PUnit).Settled := by
  refine settled_add (f := fun p => p.addFunction path commands) (fun s pack hadd => ?_) t
  unfold Pack.addFunction at hadd
  split at hadd
  · cases hadd
  · cases hadd
    exact .of_same rfl rfl rfl (List.prefix_refl _) rfl rfl

theorem settled_newResource (keyword : Token) (rest : List Token) :
    (newResource keyword rest).Settled := by
  refine (settled_ofExcept _).bind fun head => settled_get.bind fun s => ?_
  split
  · exact settled_fail _
  · next value _ =>
    refine settled_add (f := fun p => p.addResource head.kind head.path (s.settings.codec.pretty value))
      (fun s pack hadd => ?_) head.pathToken
    unfold Pack.addResource at hadd
    simp only at hadd
    split at hadd
    · cases hadd
    · cases hadd
      exact .of_same rfl rfl rfl (List.prefix_refl _) rfl rfl

end Compile

end Packwright
