import Packwright.Proofs.Session.Cases
import Packwright.Proofs.Session.Chains
import Packwright.Proofs.Session.Handlers

/-!
# Other compiled statements

Statements that are no control flow mean the commands that they are compiled to. Most of them change
the session quietly; a square root and an event handler add functions, and definitions add to the
functions of the user.

## Main results

- `Compile.variableChange_meets` — variable statements
- `Compile.builtin_meets` — calls of built-in functions
- `Compile.functionDefinition_meets`, `Compile.classDefinition_meets` — definitions
-/

namespace Packwright

variable {U : UserCalls}

/-- A single command that tests nothing and calls nothing. -/
theorem Emitted.single {s s' : Session} {c : Command} (h : s.Sound U) (hq : s.Quiet s')
    (hplain : c.Plain) (hcalls : c.calls = []) : Emitted U s (.commands [c]) [c] s' := by
  refine .plain h hq ?_ ?_
  · rw [List.forall_mem_singleton]
    exact hplain
  · rw [List.forall_mem_singleton]
    exact resolves_of_calls hcalls

theorem Emitted.nil {s s' : Session} (h : s.Sound U) (hq : s.Quiet s') :
    Emitted U s (.commands []) [] s' :=
  .plain h hq (by simp) (by simp)

namespace Compile

variable {block : Block} {s : Session} {E : Session → Prop}

/-! ### Variable statements -/

theorem quiet_declare (s : Session) (name criteria : String) :
    s.Quiet { s with pack := s.pack.declare name criteria } := by
  unfold Pack.declare
  split
  · exact .refl s
  · exact ⟨rfl, rfl, rfl, rfl, rfl, rfl, fun _ h => h⟩

theorem quiet_registerConstant (s : Session) (n : Int) :
    s.Quiet { s with pack := s.pack.registerConstant n } := by
  unfold Pack.registerConstant
  generalize hp : (if s.pack.constants.isEmpty then s.pack.declare constantObjective "dummy"
    else s.pack) = p
  have hobjective : s.Quiet { s with pack := p } := by
    rw [← hp]
    split
    · exact quiet_declare s _ _
    · exact .refl s
  simp only
  split
  · exact hobjective
  · exact hobjective.trans ⟨rfl, rfl, rfl, rfl, rfl, rfl, fun _ h => h⟩

theorem score_meets (text : String) (t : Token) :
    (score text t).Meets s (fun _ s' => s.Quiet s') s.Quiet := by
  unfold score score?
  simp only [bind_assoc, pure_bind, meets_bind, meets_get]
  split
  · exact .refl s
  · exact .refl s

theorem checkSingle_meets (value : Token) (rest : List Token) :
    (checkSingle value rest).Meets s (fun _ s' => s.Quiet s') s.Quiet := by
  unfold checkSingle
  split
  · exact .refl s
  · split
    · exact .refl s
    · split
      · exact .refl s
      · exact .refl s

theorem operand_meets (o : Operator) (target : Token) (right : List Token) :
    (operand o target right).Meets s (fun _ s' => s.Quiet s') s.Quiet := by
  unfold operand
  split
  · exact .refl s
  · refine (checkSingle_meets _ _).bind (fun _ h => h) fun _ s₁ h₁ => ?_
    rw [meets_bind]
    refine meets_ofExcept h₁ fun n _ => ?_
    split
    · exact h₁
    · rw [meets_bind, meets_get]
      split
      · exact h₁
      · exact h₁

theorem operandScore_meets (value : Operand) :
    (operandScore value).Meets s (fun _ s' => s.Quiet s') E := by
  cases value with
  | score score => exact .refl s
  | int n => exact quiet_registerConstant s n

theorem addition_meets (target : Score) (o : Operator) (value : Operand) :
    (addition target o value).Meets s
      (fun c s' => s.Quiet s' ∧ c.Plain ∧ c.calls = []) s.Quiet := by
  unfold addition
  cases value with
  | score score => exact ⟨.refl s, trivial, rfl⟩
  | int n =>
    simp only
    split
    · exact (operandScore_meets _).bind (fun _ h => h) fun _ s₁ h₁ => ⟨h₁, trivial, rfl⟩
    · split
      · exact ⟨.refl s, trivial, rfl⟩
      · exact ⟨.refl s, trivial, rfl⟩

/-- A call of a function of the user. -/
theorem functionCall_meets {name : Token} {rest : List Token} (hin : U.Includes s (name :: rest))
    (hcall : isCallShape (name :: rest) = true) :
    (functionCall name rest).Meets s
      (fun c s' => s.Quiet s' ∧ c.Plain ∧ s'.Resolves U c) s.Quiet := by
  unfold functionCall
  split
  · next group =>
    split
    · exact .refl s
    · refine ⟨.refl s, trivial, fun target htarget => ?_⟩
      rw [List.mem_singleton.mp htarget]
      exact ⟨_, rfl, .inr (hin name group (.here _) hcall)⟩
  · exact .refl s

/-! ### Built-in functions -/

theorem sqrt_flagFree : ¬ isFlag Sqrt.number ∧ ¬ isFlag Sqrt.estimate ∧ ¬ isFlag Sqrt.previous := by
  have hfree : ∀ name, name.toList.take 4 = "__ma".toList → ¬ isFlag (.ofVariable name) := by
    rintro name hname (heq | ⟨k, heq⟩)
    · have htext : name = "__if_else__" := congrArg Score.holder heq
      rw [htext] at hname
      revert hname
      decide
    · have htext : name = "__logic__" ++ toString k := congrArg Score.holder heq
      rw [htext] at hname
      simp at hname
  exact ⟨hfree _ (by decide), hfree _ (by decide), hfree _ (by decide)⟩

/-- The paths of the square root. -/
abbrev sqrtMain : FunctionPath := Feature.mathSqrt.path Sqrt.mainName

abbrev sqrtStep : FunctionPath := Feature.mathSqrt.path Sqrt.stepName

/-- Calls of the user, and those of the function that is registered second. -/
def withSqrtStep (U : UserCalls) : UserCalls where
  called s path := U.called s path ∨ path = sqrtStep
  mono hg := Or.imp_left (U.mono hg)

theorem registered_of_key (hs : s.Sound U) {f : Feature} {name : String}
    (h : ∃ e ∈ s.entries, e.1 = (f.name, name)) : s.Registered (f.path name) := by
  obtain ⟨e, he, hkey⟩ := h
  obtain ⟨f', hname, hpath⟩ := hs.paths e he
  refine ⟨e, he, ?_⟩
  rw [hkey] at hname hpath
  rw [hpath, Feature.path, Feature.path, ← hname]

end Compile

/-- Once the second function is there, no call of it is left open. -/
theorem Session.Sound.discharge {s : Session} (hs : s.Sound (Compile.withSqrtStep U))
    (hfound : s.Registered Compile.sqrtStep) : s.Sound U := by
  refine hs.recall fun path hpath => ?_
  rcases hpath with hpath | rfl
  · exact .inr hpath
  · exact .inl hfound

namespace Compile

variable {block : Block} {s : Session} {E : Session → Prop}

theorem plain_stepBody (callMain : Command) (hcall : callMain.Plain) :
    ∀ c ∈ Sqrt.stepBody callMain, c.Plain := by
  intro c hc
  simp only [Sqrt.stepBody, List.mem_cons, List.not_mem_nil, or_false] at hc
  rcases hc with rfl | rfl | rfl | rfl | rfl
  case inr.inr.inr.inr =>
    exact ⟨by simpa [Test.FlagFree] using sqrt_flagFree.2, hcall⟩
  all_goals trivial

/-- The first function of the square root calls the second, which is not there yet. -/
theorem sound_sqrtMain {s₁ : Session} {callStep : Command} (hs : s.Sound U)
    (hstep : callStep = .call (sqrtStep.inSpace s.settings.space))
    (hadds : s.Adds .mathSqrt Sqrt.mainName (Sqrt.mainBody callStep) s₁) :
    s₁.Sound (withSqrtStep U) := by
  have hs' : s.Sound (withSqrtStep U) := hs.recall fun path hpath => .inr (.inl hpath)
  subst hstep
  refine hs'.adds hadds ⟨⟨_, .commands (by simp [Sqrt.mainBody, Command.Plain])⟩, ?_⟩
  intro c hc
  simp only [Sqrt.mainBody, List.mem_cons, List.not_mem_nil, or_false] at hc
  rcases hc with rfl | rfl
  · exact resolves_of_calls rfl
  · intro target htarget
    rw [List.mem_singleton.mp htarget]
    exact ⟨sqrtStep, by rw [hadds.settings], .inr (.inr rfl)⟩

/-- With both functions of the square root nothing is missing. -/
theorem sound_sqrtStep {s₁ : Session} {callMain : Command} (hs : s.Sound (withSqrtStep U))
    (hmain : callMain = .call (sqrtMain.inSpace s.settings.space))
    (hfound : s.Registered sqrtMain)
    (hadds : s.Adds .mathSqrt Sqrt.stepName (Sqrt.stepBody callMain) s₁) : s₁.Sound U := by
  subst hmain
  have hs₁ : s₁.Sound (withSqrtStep U) := by
    refine hs.adds hadds ⟨⟨_, .commands (plain_stepBody _ trivial)⟩, ?_⟩
    intro c hc
    simp only [Sqrt.stepBody, List.mem_cons, List.not_mem_nil, or_false] at hc
    rcases hc with rfl | rfl | rfl | rfl | rfl
    case inr.inr.inr.inr =>
      intro target htarget
      rw [List.mem_singleton.mp htarget]
      exact ⟨sqrtMain, by rw [hadds.settings], .inl (hadds.grows.registered hfound)⟩
    all_goals exact resolves_of_calls rfl
  exact hs₁.discharge hadds.has.registered

/-- The two functions of the square root are called by one another. -/
theorem covers_sqrt {s₁ s₂ : Session} {callMain callStep : Command}
    (hmain : callMain = .call (sqrtMain.inSpace s.settings.space))
    (hstep : callStep = .call (sqrtStep.inSpace s.settings.space))
    (hadds₁ : s.Adds .mathSqrt Sqrt.mainName (Sqrt.mainBody callStep) s₁)
    (hadds₂ : s₁.Adds .mathSqrt Sqrt.stepName (Sqrt.stepBody callMain) s₂) :
    s.Covers s₂ [] := by
  have hspace : s₂.settings.space = s.settings.space := by rw [hadds₂.settings, hadds₁.settings]
  have hentries := hadds₂.entries
  rw [hadds₁.entries, List.append_assoc] at hentries
  intro e he
  rw [hentries] at he
  rcases List.mem_append.mp he with hold | hnew
  · exact .inl hold
  refine .inr (.inr (.inr ?_))
  simp only [List.singleton_append, List.mem_cons, List.not_mem_nil, or_false] at hnew
  rcases hnew with rfl | rfl
  · refine ⟨_, hentries ▸ List.mem_append_right _ (List.mem_cons_of_mem _ (List.mem_singleton_self _)),
      by simp [Sqrt.mainName, Sqrt.stepName],
      .guarded [⟨false, .compare Sqrt.estimate .lt Sqrt.previous⟩] callMain,
      by simp [Sqrt.stepBody], ?_⟩
    rw [hmain, Session.locate, hspace]
    exact List.mem_singleton_self _
  · refine ⟨_, hentries ▸ List.mem_append_right _ (List.mem_cons_self ..),
      by simp [Sqrt.mainName, Sqrt.stepName], callStep, by simp [Sqrt.mainBody], ?_⟩
    rw [hstep, Session.locate, hspace]
    exact List.mem_singleton_self _

theorem emitSqrt_meets {callMain callStep : Command} (hs : s.Sound U)
    (hmain : callMain = .call (sqrtMain.inSpace s.settings.space))
    (hstep : callStep = .call (sqrtStep.inSpace s.settings.space)) :
    (emitSqrt callMain callStep).Meets s
      (fun _ s' => Advanced U s s [] s' ∧ s'.Registered sqrtMain) (Broken U s) := by
  unfold emitSqrt
  rw [meets_bind, meets_get]
  split
  · have hq₁ : s.Quiet { s with pack := s.pack.registerConstant 2 } := quiet_registerConstant s 2
    rw [meets_bind, modifyPack, meets_modify]
    refine (register_meets _ _ _).bind (fun s' h => h.1 ▸ .quiet hs hq₁) fun _ s₂ h₂ => ?_
    have hadds₂ := Session.Adds.quiet_left hq₁ h₂.2
    have hsound₂ := sound_sqrtMain hs hstep hadds₂
    refine (register_meets _ _ _).bind (fun s' h => ?_) fun _ s₃ h₃ => ?_
    · obtain ⟨rfl, hkey⟩ := h
      exact ⟨hadds₂.grows, hsound₂.discharge (registered_of_key hsound₂ hkey)⟩
    · have hadds₃ := h₃.2
      have hfound : s₂.Registered sqrtMain := hadds₂.has.registered
      have hsound : s₃.Sound U :=
        sound_sqrtStep hsound₂ (by rw [hmain, hadds₂.settings]) hfound hadds₃
      have hregistered : s₃.Registered sqrtMain ∧ s₃.Registered sqrtStep :=
        ⟨hadds₃.grows.registered hfound, hadds₃.has.registered⟩
      have hgrows : s₃.Grows { s₃ with sqrtEmitted := true } :=
        ⟨rfl, fun _ h => h, fun f hf => ⟨f, hf, rfl, fun _ h => h⟩, fun _ h => h⟩
      have hsound' : ({ s₃ with sqrtEmitted := true } : Session).Sound U :=
        ⟨hsound.space, hsound.scope, hsound.keys, hsound.paths,
          fun e he => (hsound.entries e he).grows hgrows,
          fun f hf => (hsound.functions f hf).grows hgrows, fun _ => hregistered⟩
      rw [meets_bind, meets_modify]
      refine (debug_meets _).mono (fun _ s' hq => ⟨⟨?_, hsound'.quiet hq, ?_, ?_, ?_⟩, ?_⟩) fun _ h => h
      · exact (hadds₂.grows.trans hadds₃.grows).trans (hgrows.trans hq.grows)
      · exact hq.scope.trans (hadds₃.scope.trans hadds₂.scope)
      · exact hq.userLoad.trans (hadds₃.userLoad.trans hadds₂.userLoad)
      · intro e he
        rcases covers_sqrt hmain hstep hadds₂ hadds₃ e (hq.entries ▸ he) with hold | hnone | hcalled
        · exact .inl hold
        · exact absurd hnone List.not_mem_nil
        · exact .inr (.inr (hcalled.grows (hgrows.trans hq.grows)))
      · exact hq.grows.registered hregistered.1
  · next hemitted =>
    have hregistered := hs.sqrt (by simpa using hemitted)
    exact ⟨.refl hs (.refl s []), hregistered.1⟩

theorem useBody_emits {s' : Session} {setNumber : Command} {target : Score}
    (h : Advanced U s s [] s') (hfound : s'.Registered sqrtMain) (hplain : setNumber.Plain)
    (hcalls : setNumber.calls = []) :
    Emitted U s
      (.commands (Sqrt.useBody setNumber target (.call (sqrtMain.inSpace s.settings.space))))
      (Sqrt.useBody setNumber target (.call (sqrtMain.inSpace s.settings.space))) s' := by
  refine h.emits ?_ ?_ (by simp)
  · intro c hc
    simp only [Sqrt.useBody, List.mem_cons, List.not_mem_nil, or_false] at hc
    rcases hc with rfl | rfl | rfl | rfl | rfl
    case inl => exact hplain
    case inr.inr.inr.inl => exact ⟨by simpa [Test.FlagFree] using sqrt_flagFree.1, trivial⟩
    all_goals trivial
  · intro c hc
    simp only [Sqrt.useBody, List.mem_cons, List.not_mem_nil, or_false] at hc
    rcases hc with rfl | rfl | rfl | rfl | rfl
    case inl => exact resolves_of_calls hcalls
    case inr.inr.inr.inl =>
      intro target htarget
      rw [List.mem_singleton.mp htarget]
      exact ⟨sqrtMain, by rw [h.grows.settings], .inl hfound⟩
    all_goals exact resolves_of_calls rfl

theorem sqrt_meets (hs : s.Sound U) (args : Bindings) (target : Score) :
    (sqrt args target).Meets s (fun cs s' => Emitted U s (.commands cs) cs s') (Broken U s) := by
  unfold sqrt
  rw [meets_bind, meets_call, meets_bind, meets_call]
  refine (emitSqrt_meets hs rfl rfl).bind (fun _ h => h) fun _ s₁ h₁ => ?_
  obtain ⟨hadvanced, hfound⟩ := h₁
  rw [meets_bind]
  refine meets_ofExcept ⟨hadvanced.grows, hadvanced.sound⟩ fun value _ => ?_
  split
  · exact useBody_emits hadvanced hfound trivial rfl
  · exact useBody_emits hadvanced hfound trivial rfl
  · exact meets_ofExcept ⟨hadvanced.grows, hadvanced.sound⟩ fun _ h => by cases h

theorem random_meets (hs : s.Sound U) (args : Bindings) (target : Score) :
    (random args target).Meets s (fun cs s' => Emitted U s (.commands cs) cs s') (Broken U s) := by
  unfold random
  rw [meets_bind]
  refine meets_ofExcept (.refl hs) fun low _ => ?_
  rw [meets_bind]
  refine meets_ofExcept (.refl hs) fun high _ => ?_
  split
  · exact .refl hs
  · exact .single hs (.refl s) trivial rfl

theorem addObjective_meets (hs : s.Sound U) (args : Bindings) :
    (addObjective args).Meets s (fun cs s' => Emitted U s (.commands cs) cs s') (Broken U s) := by
  unfold addObjective
  rw [meets_bind]
  refine meets_ofExcept (.refl hs) fun objective _ => ?_
  rw [meets_bind]
  refine meets_ofExcept (.refl hs) fun criteria _ => ?_
  rw [meets_bind, meets_get]
  split
  · exact .nil hs (quiet_warnings s _)
  · exact .nil hs (quiet_declare s _ _)

theorem circle_meets (hs : s.Sound U) (args : Bindings) :
    (circle args).Meets s (fun cs s' => Emitted U s (.commands cs) cs s') (Broken U s) := by
  unfold circle
  rw [meets_bind]
  refine meets_ofExcept (.refl hs) fun particle _ => ?_
  rw [meets_bind]
  refine meets_ofExcept (.refl hs) fun radius _ => ?_
  rw [meets_bind]
  refine meets_ofExcept (.refl hs) fun spread _ => ?_
  split
  · refine .plain hs (.refl s) (fun c hc => ?_) fun c hc => ?_
    · obtain ⟨point, -, rfl⟩ := List.mem_map.mp hc
      trivial
    · obtain ⟨point, -, rfl⟩ := List.mem_map.mp hc
      exact resolves_of_calls rfl
  · exact .refl hs

theorem tellraw_meets (hs : s.Sound U) (args : Bindings) :
    (tellraw args).Meets s (fun cs s' => Emitted U s (.commands cs) cs s') (Broken U s) := by
  unfold tellraw
  rw [meets_bind]
  refine meets_ofExcept (.refl hs) fun selector _ => ?_
  rw [meets_bind]
  refine meets_ofExcept (.refl hs) fun message _ => ?_
  rw [meets_bind, meets_get]
  exact .single hs (.refl s) trivial rfl

/-- The function of a handler is called from the tick function. -/
theorem onEvent_meets (hblock : BlockEmits U block) (hs : s.Sound U) (args : Bindings)
    (hin : ∀ name body, args.arrow name = .ok body →
      ∃ tokens, U.Includes s tokens ∧ body ∈ tokens) :
    (onEvent block args).Meets s (fun cs s' => Emitted U s (.commands cs) cs s') (Broken U s) := by
  unfold onEvent
  rw [meets_bind]
  refine meets_ofExcept (.refl hs) fun objective _ => ?_
  rw [meets_bind]
  refine meets_ofExcept (.refl hs) fun criteria _ => ?_
  rw [meets_bind]
  refine meets_ofExcept (.refl hs) fun handler hhandler => ?_
  obtain ⟨tokens, htokens, hmem⟩ := hin _ handler hhandler
  have hq₁ : s.Quiet { s with pack := s.pack.declare objective criteria } := quiet_declare s _ _
  rw [meets_bind, modifyPack, meets_modify]
  refine (body_meets hblock (hs.quiet hq₁) (htokens.grows hq₁.grows) hmem).bind
    (fun s' h => h.after hq₁.grows) fun commands s₂ h₂ => ?_
  obtain ⟨p, -, hbody⟩ := h₂
  have hemitted : Emitted U s p commands s₂ := hbody.quiet_left hq₁
  refine (registerNext_meets _ _).bind (fun s' hq => hemitted.broken.quiet_right hq)
    fun path s₃ h₃ => ?_
  obtain ⟨name, rfl, hadds⟩ := h₃
  have hsafe : s₃.Safe U (commands ++ [Command.reset ⟨"@s", objective⟩]) :=
    (hemitted.safe.grows hadds.grows).append
      ⟨⟨_, .commands (by simp [Command.Plain])⟩, by simpa using resolves_of_calls rfl⟩
  obtain ⟨hook, hhookeq⟩ : ∃ hook : Command, hook =
      .forPlayers objective (.call ((Feature.onEvent.path name).inSpace s₃.settings.space)) :=
    ⟨_, rfl⟩
  have hhook : Emitted U s (.commands [hook]) [hook] s₃ := by
    refine hemitted.wrap hadds hsafe (fun target htarget => ?_)
      (.commands (by simp [hhookeq, Command.Plain])) ?_ (by simp [hhookeq, Command.calls])
    · rw [List.flatMap_append]
      exact List.mem_append_left _ htarget
    · rw [List.forall_mem_singleton, hhookeq]
      exact hadds.resolves_call
  refine (debug_meets _).bind (fun s' hq => hhook.broken.quiet_right hq) fun _ s₄ h₄ => ?_
  rw [meets_bind, meets_call, h₄.settings, ← hhookeq]
  exact (hhook.quiet_right h₄).extends (s₄.extends_extendFunction _ _) (by decide)

theorem expand_meets (hblock : BlockEmits U block) (hs : s.Sound U) (b : Builtin)
    (target : Option Score) (args : Bindings)
    (hin : ∀ name body, args.arrow name = .ok body →
      ∃ tokens, U.Includes s tokens ∧ body ∈ tokens) :
    (expand block b target args).Meets s
      (fun cs s' => Emitted U s (.commands cs) cs s') (Broken U s) := by
  unfold expand
  split
  · exact sqrt_meets hs args _
  · exact random_meets hs args _
  · exact addObjective_meets hs args
  · exact onEvent_meets hblock hs args hin
  · exact circle_meets hs args
  · exact tellraw_meets hs args
  · exact .refl hs

/-- A call of a built-in function. -/
theorem builtin_meets (hblock : BlockEmits U block) (hs : s.Sound U) (b : Builtin) {name : Token}
    {rest : List Token} (hin : U.Includes s (name :: rest)) (target : Option Score) :
    (builtin block b name rest target).Meets s
      (fun cs s' => Emitted U s (.commands cs) cs s') (Broken U s) := by
  unfold builtin
  split
  · next group =>
    split
    · exact .refl hs
    · exact .refl hs
    · refine (ofNoting_meets _).bind (fun s' hq => .quiet hs hq) fun arguments s₁ h₁ => ?_
      obtain ⟨hq₁, hparse⟩ := h₁
      rw [meets_bind, meets_get, meets_bind]
      refine meets_ofExcept (.quiet hs hq₁) fun args hbind => ?_
      refine (debug_meets _).bind (fun s' hq => .quiet hs (hq₁.trans hq)) fun _ s₂ h₂ => ?_
      have hq₂ : s.Quiet s₂ := hq₁.trans h₂
      refine (expand_meets hblock (hs.quiet hq₂) b _ args fun key body hbody => ?_).mono
        (fun cs s' h => h.quiet_left hq₂) fun s' h => h.after hq₂.grows
      exact (hin.grows hq₂.grows).handler (by simp) hparse hbind hbody
  · exact .refl hs

/-! ### Assignments -/

theorem Statement.isCallShape_of_kind {st : Statement} (h : st.kind = .call) :
    isCallShape st.tokens = true := by
  unfold Statement.kind at h
  split at h
  · cases h
  · next w _ =>
    split at h
    · next k hk =>
      subst h
      unfold StatementKind.ofWord? at hk
      split at hk <;> cases hk
    · split at h
      · cases h
      · split at h
        · next hshape => exact hshape
        · cases h

/-- A command behind a score that gets its result. -/
theorem store_emits {s' : Session} {c : Command} (target : Score) (hs : s.Sound U)
    (hq : s.Quiet s') (hc : s'.Resolves U c) :
    Emitted U s (.commands [.store target c]) [.store target c] s' := by
  refine .plain hs hq (by simp [Command.Plain]) ?_
  rw [List.forall_mem_singleton]
  exact hc

theorem assignment_meets (hblock : BlockEmits U block) (hs : s.Sound U) (target : Score)
    (targetToken : Token) {right : List Token} (hin : U.Includes s right) :
    (assignment block target targetToken right).Meets s
      (fun cs s' => Emitted U s (.commands cs) cs s') (Broken U s) := by
  unfold assignment
  split
  · exact .refl hs
  · next first rest =>
    rw [meets_bind, meets_get]
    split
    · refine (operand_meets _ _ _).bind (fun s' hq => .quiet hs hq) fun value s₁ h₁ => ?_
      obtain ⟨t, value⟩ := value
      cases value with
      | int n => exact .single hs h₁ trivial rfl
      | score score => exact .single hs h₁ trivial rfl
    · split
      · exact .refl hs
      · split
        · exact builtin_meets hblock hs _ hin _
        · next hkind =>
          refine (functionCall_meets hin (Statement.isCallShape_of_kind hkind)).bind
            (fun s' hq => .quiet hs hq) fun c s₁ h₁ => ?_
          exact store_emits target hs h₁.1 h₁.2.2
        · exact store_emits target hs (.refl s) (resolves_of_calls rfl)

/-- What stands on the right of an operator is a part of the statement. -/
theorem includes_right {tokens : List Token} (hin : U.Includes s tokens) {a : Assignment}
    (h : Assignment.ofTokens? tokens = some a) : U.Includes s a.right := by
  unfold Assignment.ofTokens? at h
  split at h
  · cases h
  · next first rest =>
    split at h
    · next before operator _ =>
      obtain ⟨⟨target, tail⟩, hcut, rfl⟩ := Option.map_eq_some_iff.mp h
      have htail : U.Includes s (tail :: rest) :=
        fun name group hinside => hin name group (.cut hcut hinside)
      exact htail.tailFrom _
    · split at h
      · cases h
      · next second rest =>
        obtain ⟨operator, -, rfl⟩ := Option.map_eq_some_iff.mp h
        exact hin.tail.tailFrom _

theorem getStatement_meets (hs : s.Sound U) (holder : String) (name group : Token) :
    (getStatement holder name group).Meets s
      (fun cs s' => Emitted U s (.commands cs) cs s') (Broken U s) := by
  unfold getStatement
  split
  · exact .refl hs
  · exact (score_meets _ _).bind (fun s' hq => .quiet hs hq) fun score s₁ h₁ =>
      .single hs h₁ trivial rfl

theorem operation_meets (hblock : BlockEmits U block) (hs : s.Sound U) {a : Assignment}
    (hin : U.Includes s a.right) :
    (operation block a).Meets s (fun cs s' => Emitted U s (.commands cs) cs s') (Broken U s) := by
  unfold operation
  refine (score_meets _ _).bind (fun s' hq => .quiet hs hq) fun target s₁ h₁ => ?_
  have hoperand : ∀ {f : Token × Operand → Compile (List Command)},
      (∀ value s₂, s.Quiet s₂ → (f value).Meets s₂
        (fun cs s' => Emitted U s (.commands cs) cs s') (Broken U s)) →
      (operand a.operator a.target a.right >>= f).Meets s₁
        (fun cs s' => Emitted U s (.commands cs) cs s') (Broken U s) := by
    intro f hf
    exact (operand_meets _ _ _).bind (fun s' hq => .quiet hs (h₁.trans hq))
      fun value s₂ h₂ => hf value s₂ (h₁.trans h₂)
  split
  · split
    · exact .quiet hs h₁
    · exact .single hs h₁ (by split <;> trivial) (by split <;> rfl)
  · split
    · exact .quiet hs h₁
    · exact .single hs h₁ (by split <;> trivial) (by split <;> rfl)
  · exact (assignment_meets hblock (hs.quiet h₁) target a.target (hin.grows h₁.grows)).mono
      (fun cs s' h => h.quiet_left h₁) fun s' h => h.after h₁.grows
  · refine hoperand fun value s₂ hq₂ => ?_
    split
    · exact .single hs hq₂ trivial rfl
    · exact .quiet hs hq₂
  · refine hoperand fun value s₂ hq₂ => ?_
    split
    · exact .single hs hq₂ trivial rfl
    · exact .quiet hs hq₂
  · refine hoperand fun value s₂ hq₂ => ?_
    exact (addition_meets _ _ _).bind (fun s' hq => .quiet hs (hq₂.trans hq))
      fun c s₃ h₃ => .single hs (hq₂.trans h₃.1) h₃.2.1 h₃.2.2
  · refine hoperand fun value s₂ hq₂ => ?_
    exact (addition_meets _ _ _).bind (fun s' hq => .quiet hs (hq₂.trans hq))
      fun c s₃ h₃ => .single hs (hq₂.trans h₃.1) h₃.2.1 h₃.2.2
  · refine hoperand fun value s₂ hq₂ => ?_
    exact (operandScore_meets _).bind (fun s' hq => .quiet hs (hq₂.trans hq))
      fun c s₃ h₃ => .single hs (hq₂.trans h₃) trivial rfl

/-- A statement without `let` reads a score, changes one, or fails. -/
theorem plainVariable_cases (block : Block) (first : Token) (rest : List Token) :
    (∃ holder group, plainVariable block first rest = getStatement holder first group) ∨
      (∃ a, Assignment.ofTokens? (first :: rest) = some a ∧
        plainVariable block first rest = operation block a) ∨
      plainVariable block first rest = failAt first (.expectedOperator first.text) := by
  cases ha : Assignment.ofTokens? (first :: rest) with
  | none =>
    simp only [plainVariable, ha]
    split
    · split
      · split
        · exact .inl ⟨_, _, rfl⟩
        · exact .inr (.inr rfl)
      · exact .inr (.inr rfl)
    · exact .inr (.inr rfl)
  | some a =>
    simp only [plainVariable, ha]
    split
    · split
      · split
        · exact .inl ⟨_, _, rfl⟩
        · exact .inr (.inl ⟨a, rfl, rfl⟩)
      · exact .inr (.inl ⟨a, rfl, rfl⟩)
    · exact .inr (.inl ⟨a, rfl, rfl⟩)

theorem plainVariable_meets (hblock : BlockEmits U block) (hs : s.Sound U) {first : Token}
    {rest : List Token} (hin : U.Includes s (first :: rest)) :
    (plainVariable block first rest).Meets s
      (fun cs s' => Emitted U s (.commands cs) cs s') (Broken U s) := by
  rcases plainVariable_cases block first rest with ⟨holder, group, h⟩ | ⟨a, ha, h⟩ | h
  · rw [h]
    exact getStatement_meets hs _ _ _
  · rw [h]
    exact operation_meets hblock hs (includes_right hin ha)
  · rw [h]
    exact .refl hs

/-- A variable statement. -/
theorem variableChange_meets (hblock : BlockEmits U block) (hs : s.Sound U) {first : Token}
    {rest : List Token} (hin : U.Includes s (first :: rest)) :
    (variableChange block first rest).Meets s
      (fun cs s' => Emitted U s (.commands cs) cs s') (Broken U s) := by
  unfold variableChange
  split
  · split
    · exact .refl hs
    · exact plainVariable_meets hblock hs hin.tail
  · exact plainVariable_meets hblock hs hin

/-! ### Definitions -/

theorem functionHead_mem {level : Except Cause FunctionPath} {keyword : Token} {rest : List Token}
    {head : FunctionHead} (h : functionHead level keyword rest = .ok head) :
    head.body ∈ keyword :: rest := by
  unfold functionHead at h
  split at h
  · split at h
    · cases h
    · split at h
      · cases h
      · split at h
        · cases h
        · split at h
          · cases h
          · split at h
            · cases h
            · obtain rfl := Except.ok.inj h
              simp
  · cases h

theorem checkPath_meets (head : FunctionHead) :
    (checkPath head).Meets s (fun _ s' => s.Quiet s' ∧ head.path ≠ loadPath) s.Quiet := by
  unfold checkPath
  rw [meets_bind, meets_get]
  split
  · exact .refl s
  · next hload =>
    simp only
    generalize (if head.path = tickPath then s.tickDefined else s.pack.hasFunction head.path) = taken
    split
    · exact .refl s
    · split
      · exact ⟨quiet_warnings s _, hload⟩
      · exact ⟨.refl s, hload⟩

theorem extends_addFunction {path : FunctionPath} {commands : List Command} {pack : Pack}
    (h : s.pack.addFunction path commands = .ok pack) :
    s.Extends path commands { s with pack } := by
  have hpack : pack = s.pack.extendFunction path commands := by
    unfold Pack.addFunction at h
    split at h
    · cases h
    · next hnew =>
      rw [Pack.extendFunction, if_neg hnew]
      exact (Except.ok.inj h).symm
  rw [hpack]
  exact s.extends_extendFunction path commands

/-- The commands of a function are stored in the pack. -/
theorem functionDefinition_meets (hblock : BlockEmits U block) (hs : s.Sound U)
    (level : Except Cause FunctionPath) {keyword : Token} {rest : List Token}
    (hin : U.Includes s (keyword :: rest)) :
    (functionDefinition block level keyword rest).Meets s
      (fun _ s' => Emitted U s (.commands []) [] s') (Broken U s) := by
  unfold functionDefinition
  rw [meets_bind]
  refine meets_ofExcept (.refl hs) fun head hhead => ?_
  refine (checkPath_meets head).bind (fun s' hq => .quiet hs hq) fun _ s₁ h₁ => ?_
  obtain ⟨hq₁, hload⟩ := h₁
  refine (debug_meets _).bind (fun s' hq => .quiet hs (hq₁.trans hq)) fun _ s₂ h₂ => ?_
  have hq : s.Quiet s₂ := hq₁.trans h₂
  refine (body_meets hblock (hs.quiet hq) (hin.grows hq.grows) (functionHead_mem hhead)).bind
    (fun s' h => h.after hq.grows) fun commands s₃ h₃ => ?_
  obtain ⟨p, -, hbody⟩ := h₃
  have hemitted : Emitted U s p commands s₃ := hbody.quiet_left hq
  split
  · have hext := s₃.extends_extendFunction tickPath commands
    have htick : s₃.Extends tickPath commands
        { s₃ with tickDefined := true, pack := s₃.pack.extendTick commands } :=
      ⟨hext.settings, hext.space, hext.entries, hext.scope, hext.sqrtEmitted, hext.imported,
        hext.kept, hext.origin, hext.stored, hext.load⟩
    exact hemitted.extends htick (by decide)
  · rw [meets_bind, meets_get]
    split
    · next pack hpack => exact hemitted.extends (extends_addFunction hpack) hload
    · exact hemitted.broken

theorem classFunctions_meets (hblock : BlockEmits U block) (path : FunctionPath)
    (statements : List Statement) (hs : s.Sound U)
    (hin : ∀ st ∈ statements, U.Includes s st.tokens) :
    (classFunctions block path statements).Meets s
      (fun _ s' => Emitted U s (.commands []) [] s') (Broken U s) := by
  induction statements generalizing s with
  | nil => exact .nil hs (.refl s)
  | cons st rest ih =>
    obtain ⟨hst, hrest⟩ := List.forall_mem_cons.mp hin
    unfold classFunctions
    split
    · exact ih hs hrest
    · next first tokens htokens =>
      rw [htokens] at hst
      rw [meets_bind]
      refine meets_ofExcept (.refl hs) fun _ _ => ?_
      refine (functionDefinition_meets hblock hs _ hst).bind (fun _ h => h) fun _ s₁ h₁ => ?_
      exact (ih h₁.sound fun st hst => (hrest st hst).grows h₁.grows).mono
        (fun _ s' h => h₁.trans_nil h) fun s' h => h.after h₁.grows

theorem classHead_mem {keyword : Token} {rest : List Token} {path : FunctionPath} {braces : Token}
    (h : classHead keyword rest = .ok (path, braces)) : braces ∈ keyword :: rest := by
  unfold classHead at h
  split at h
  · split at h
    · cases h
    · split at h
      · cases h
      · obtain ⟨-, rfl⟩ := Prod.mk.inj (Except.ok.inj h)
        simp
  · cases h

/-- The functions of a class are stored in the pack. -/
theorem classDefinition_meets (hblock : BlockEmits U block) (hs : s.Sound U) {keyword : Token}
    {rest : List Token} (hin : U.Includes s (keyword :: rest)) :
    (classDefinition block keyword rest).Meets s
      (fun _ s' => Emitted U s (.commands []) [] s') (Broken U s) := by
  unfold classDefinition
  rw [meets_bind]
  refine meets_ofExcept (.refl hs) fun ⟨path, braces⟩ hhead => ?_
  refine (tokenizeInner_meets _ braces).bind (fun s' hq => .quiet hs hq) fun statements s₁ h₁ => ?_
  obtain ⟨hq, r, hread, rfl⟩ := h₁
  refine (classFunctions_meets hblock path r.statements (hs.quiet hq) fun st hst => ?_).mono
    (fun _ s' h => h.quiet_left hq) fun s' h => h.after hq.grows
  exact ((hin.group (classHead_mem hhead) hread) st hst).grows hq.grows

theorem newResource_meets (hs : s.Sound U) (keyword : Token) (rest : List Token) :
    (newResource keyword rest).Meets s
      (fun _ s' => Emitted U s (.commands []) [] s') (Broken U s) := by
  unfold newResource
  rw [meets_bind]
  refine meets_ofExcept (.refl hs) fun head _ => ?_
  rw [meets_bind, meets_get]
  split
  · exact .refl hs
  · rw [meets_bind, meets_get]
    split
    · next pack hpack =>
      refine .nil hs ?_
      unfold Pack.addResource at hpack
      simp only at hpack
      split at hpack
      · cases hpack
      · obtain rfl := Except.ok.inj hpack
        exact ⟨rfl, rfl, rfl, rfl, rfl, rfl, fun _ h => h⟩
    · exact .refl hs

end Compile

end Packwright
