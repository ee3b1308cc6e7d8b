import Packwright.Proofs.Condition.Rendering
import Packwright.Proofs.Session.Growth

/-!
# What compiled constructs emit

The small steps of a compilation change the session quietly or add one function. A compiled construct
emits commands that are lowered from a program and whose calls resolve; every function that it has
added is called by them or from elsewhere. A construct that fails leaves a sound session that has
grown.

## Main definitions

- `Emitted` — what holds after a construct was compiled
- `Broken` — what holds after a construct has failed
- `Noting.Gives` — what a reader gives, whatever it warns about

## Main results

- `Compile.allocate_meets`, `Compile.allocateNext_meets`, `Compile.guard_meets` — small steps
- `Emitted.seq`, `Emitted.wrap` — constructs one after the other, and inside a function
-/

namespace Packwright

variable {α : Type}

/-- The reader gives a value, whatever it warns about. -/
def Noting.Gives (m : Noting α) (a : α) : Prop := ∃ warnings, m.run.run [] = (.ok a, warnings)

namespace Compile

variable {s : Session} {Q : α → Session → Prop} {E : Session → Prop}

/-! ### Small steps -/

theorem meets_ofExcept {x : Except Fault α} (hE : E s) (hQ : ∀ a, x = .ok a → Q a s) :
    (ofExcept x).Meets s Q E := by
  cases x with
  | ok a => exact hQ a rfl
  | error f => exact hE

theorem quiet_log (s : Session) (log : List LogRecord) : s.Quiet { s with log } :=
  ⟨rfl, rfl, rfl, rfl, rfl, rfl, fun _ h => h⟩

theorem quiet_warnings (s : Session) (warnings : List Warning) : s.Quiet { s with warnings } :=
  ⟨rfl, rfl, rfl, rfl, rfl, rfl, fun _ h => h⟩

theorem debug_meets (text : String) : (debug text).Meets s (fun _ s' => s.Quiet s') E :=
  quiet_log s _

theorem ofNoting_meets (m : Noting α) :
    (ofNoting m).Meets s (fun a s' => s.Quiet s' ∧ m.Gives a) s.Quiet := by
  unfold ofNoting
  rcases hrun : m.run.run [] with ⟨result, warnings⟩
  simp only [meets_bind, meets_modify]
  cases result with
  | ok a => exact ⟨quiet_log s _, warnings, hrun⟩
  | error failure => exact quiet_log s _

theorem tokenizeInner_meets (terminator : Terminator) (t : Token) :
    (tokenizeInner terminator t).Meets s (fun statements s' => s.Quiet s' ∧
      ∃ r, t.tokenizeInner terminator = .ok r ∧ statements = r.statements) s.Quiet := by
  unfold tokenizeInner
  split
  · next inner hinner =>
    unfold tokenize
    rw [meets_bind]
    refine meets_ofExcept (.refl s) fun r hr => ?_
    simp only [meets_bind, meets_modify, meets_pure]
    exact ⟨quiet_warnings s _, r, by rw [Token.tokenizeInner, hinner]; exact hr, rfl⟩
  · exact .refl s

/-- Counters are no part of what a session says and calls. -/
theorem quiet_setCounter (s : Session) (f : Feature) (n : UInt32) :
    s.Quiet { s with pack := { s.pack with
      generated := s.pack.generated.setCounter f.name n } } :=
  ⟨rfl, rfl, rfl, rfl, rfl, rfl, fun _ h => h⟩

theorem takeId_meets (f : Feature) :
    (takeId f).Meets s (fun id s' => s.Quiet s' ∧ id = s.pack.generated.peekId f.name) s.Quiet :=
  .takeId (fun n _ => ⟨quiet_setCounter s f n, rfl⟩) (.refl s)

theorem register_meets (f : Feature) (name : String) (commands : List Command) :
    (register f name commands).Meets s
      (fun path s' => path = f.path name ∧ s.Adds f name commands s')
      (fun s' => s' = s ∧ ∃ e ∈ s.entries, e.1 = (f.name, name)) := by
  have hlookup : s.pack.generated.contains f.name name = true ↔
      ∃ e ∈ s.entries, e.1 = (f.name, name) := by
    rw [Registry.contains, Registry.get?, List.lookup_isSome_iff]
    simp only [beq_iff_eq, @eq_comm _ (f.name, name)]
  unfold register
  simp only [meets_bind, meets_get]
  by_cases htaken : s.pack.generated.contains f.name name = true
  · have herror : s.pack.generated.insert f.name name commands =
        .error (.privateDefined (FunctionPath.generated f.name name).text) := by
      simp [Registry.insert, htaken]
    rw [herror]
    exact ⟨rfl, hlookup.mp htaken⟩
  · have hok : s.pack.generated.insert f.name name commands =
        .ok (f.path name, { s.pack.generated with
          entries := s.entries ++ [((f.name, name), ⟨f.path name, commands⟩)] }) := by
      simp [Registry.insert, htaken, Feature.path]
    rw [hok]
    refine ⟨rfl, rfl, rfl, fun e he heq => htaken (hlookup.mpr ⟨e, he, heq⟩), rfl, rfl, rfl, rfl,
      fun _ h => h⟩

theorem allocate_meets (f : Feature) (name : String) (commands : List Command) :
    (allocate f name commands).Meets s
      (fun path s' => path = f.path name ∧ s.Adds f name commands s') s.Quiet := by
  unfold allocate
  refine (register_meets f name commands).bind (fun s' h => h.1 ▸ .refl s) fun path s₁ h => ?_
  rw [meets_bind]
  exact (debug_meets _).mono (fun _ s' hq => ⟨h.1, h.2.quiet_right hq⟩) fun _ => id

theorem registerNext_meets (f : Feature) (commands : List Command) :
    (registerNext f commands).Meets s
      (fun path s' => ∃ name, path = f.path name ∧ s.Adds f name commands s') s.Quiet := by
  unfold registerNext
  refine (takeId_meets f).bind (fun _ => id) fun id s₁ ⟨h₁, _⟩ => ?_
  exact (register_meets f (toString id) commands).mono
    (fun path s' h => ⟨toString id, h.1, h.2.quiet_left h₁⟩) fun s' h => h.1 ▸ h₁

theorem allocateNext_meets (f : Feature) (commands : List Command) :
    (allocateNext f commands).Meets s
      (fun path s' => ∃ name, path = f.path name ∧ s.Adds f name commands s') s.Quiet := by
  unfold allocateNext
  refine (registerNext_meets f commands).bind (fun _ => id) fun path s₁ h => ?_
  obtain ⟨name, hpath, hadds⟩ := h
  rw [meets_bind]
  exact (debug_meets _).mono (fun _ s' hq => ⟨name, hpath, hadds.quiet_right hq⟩) fun _ => id

@[simp] theorem meets_call {path : FunctionPath} {Q : Command → Session → Prop} :
    (call path).Meets s Q E ↔ Q (.call (path.inSpace s.settings.space)) s := Iff.rfl

theorem render_meets (held : s.scope.UserHeld) (c : Condition) :
    (render c).Meets s (fun r s' => s.Quiet s' ∧
      ∃ (g : Guard) (n : Nat), g.scope = s.scope ∧ g.condition = c ∧ r = g.rendered n) s.Quiet := by
  refine .render (fun r n _ hrender => ?_) fun n _ => quiet_setCounter s .logic n
  exact ⟨quiet_setCounter s .logic n, ⟨s.scope, c, held⟩, _, rfl, rfl,
    (congrArg Prod.fst hrender).symm⟩

/-- A condition is read and rendered in the scope of the session. -/
theorem guard_meets (held : s.scope.UserHeld) (m : Noting Condition) :
    (do render (← ofNoting m) : Compile Rendered).Meets s
      (fun r s' => s.Quiet s' ∧ ∃ (g : Guard) (n : Nat), g.scope = s.scope ∧
        m.Gives g.condition ∧ r = g.rendered n) s.Quiet := by
  refine (ofNoting_meets m).bind (fun _ => id) fun c s₁ h₁ => ?_
  obtain ⟨hq, hgives⟩ := h₁
  refine (render_meets (hq.scope.symm ▸ held) c).mono (fun r s' h => ?_) fun _ => hq.trans
  obtain ⟨hq', g, n, hscope, rfl, hr⟩ := h
  exact ⟨hq.trans hq', g, n, hscope.trans hq.scope, hgives, hr⟩

end Compile

/-! ### Compiled constructs -/

/-- The session has grown and is sound. -/
structure Broken (U : UserCalls) (s s' : Session) : Prop where
  grows : s.Grows s'
  sound : s'.Sound U

/-- Compilation from `s` to `s'` has emitted commands for a program: they are lowered from it, their
calls resolve, and every function that was added is called. -/
structure Emitted (U : UserCalls) (s : Session) (p : Program) (cs : List Command)
    (s' : Session) : Prop where
  grows : s.Grows s'
  sound : s'.Sound U
  scope : s'.scope = s.scope
  load : s'.pack.userLoad = s.pack.userLoad
  lowered : Lowered s'.Has .own p cs
  resolved : ∀ c ∈ cs, s'.Resolves U c
  covered : s.Covers s' (cs.flatMap Command.calls)

/-- Compilation has gone on from `s` to `s'`: the session is sound, and every function that was added
since `base` is called or among the targets, which are still to be called. -/
structure Advanced (U : UserCalls) (base s : Session) (targets : List ResourceLocation)
    (s' : Session) : Prop where
  grows : s.Grows s'
  sound : s'.Sound U
  scope : s'.scope = s.scope
  load : s'.pack.userLoad = s.pack.userLoad
  covered : base.Covers s' targets

section

variable {U : UserCalls} {base s s₁ s₂ s' : Session} {p q : Program} {cs ds : List Command}
  {targets : List ResourceLocation}

theorem Broken.refl (h : s.Sound U) : Broken U s s := ⟨.refl s, h⟩

theorem Broken.quiet (h : s.Sound U) (hq : s.Quiet s') : Broken U s s' := ⟨hq.grows, h.quiet hq⟩

theorem Broken.after (hg : s.Grows s₁) (h : Broken U s₁ s') : Broken U s s' :=
  ⟨hg.trans h.grows, h.sound⟩

theorem Broken.quiet_right (h : Broken U s s₁) (hq : s₁.Quiet s') : Broken U s s' :=
  ⟨h.grows.trans hq.grows, h.sound.quiet hq⟩

theorem Emitted.broken (h : Emitted U s p cs s') : Broken U s s' := ⟨h.grows, h.sound⟩

theorem Session.Quiet.userLoad (h : s.Quiet s') : s'.pack.userLoad = s.pack.userLoad := by
  rw [Pack.userLoad, Pack.userLoad, Pack.function?, Pack.function?, h.functions]

theorem Session.Adds.userLoad {f : Feature} {name : String} (h : s.Adds f name cs s') :
    s'.pack.userLoad = s.pack.userLoad := by
  rw [Pack.userLoad, Pack.userLoad, Pack.function?, Pack.function?, h.functions]

theorem Advanced.refl (h : s.Sound U) (hcovered : base.Covers s targets) :
    Advanced U base s targets s :=
  ⟨.refl s, h, rfl, rfl, hcovered⟩

theorem Advanced.after (h : Advanced U base s₁ targets s') (hg : s.Grows s₁)
    (hscope : s₁.scope = s.scope) (hload : s₁.pack.userLoad = s.pack.userLoad) :
    Advanced U base s targets s' :=
  ⟨hg.trans h.grows, h.sound, h.scope.trans hscope, h.load.trans hload, h.covered⟩

theorem Advanced.mono (h : Advanced U base s targets s') {targets' : List ResourceLocation}
    (hsub : ∀ target ∈ targets, target ∈ targets') : Advanced U base s targets' s' :=
  { h with covered := h.covered.mono hsub }

/-- A function is stored and has to be called itself. -/
theorem Advanced.adds {f : Feature} {name : String} {others : List ResourceLocation}
    (h : Advanced U base s (cs.flatMap Command.calls ++ others) s₁)
    (hadds : s₁.Adds f name cs s₂) (hsafe : s₂.Safe U cs) :
    Advanced U base s ((f.path name).inSpace s₂.settings.space :: others) s₂ where
  grows := h.grows.trans hadds.grows
  sound := h.sound.adds hadds hsafe
  scope := hadds.scope.trans h.scope
  load := hadds.userLoad.trans h.load
  covered := h.covered.adds hadds fun _ htarget => htarget

/-- Commands that test no flag and call what is still to be called. -/
theorem Advanced.emits (h : Advanced U s s targets s') (hplain : ∀ c ∈ cs, c.Plain)
    (hresolved : ∀ c ∈ cs, s'.Resolves U c)
    (hsub : ∀ target ∈ targets, target ∈ cs.flatMap Command.calls) :
    Emitted U s (.commands cs) cs s' where
  grows := h.grows
  sound := h.sound
  scope := h.scope
  load := h.load
  lowered := .commands hplain
  resolved := hresolved
  covered := h.covered.mono hsub

/-- What a construct adds has to be called by its commands. -/
theorem Advanced.emitted (h : Advanced U base s targets s₁) (h' : Emitted U s₁ p cs s₂) :
    Advanced U base s (cs.flatMap Command.calls ++ targets) s₂ where
  grows := h.grows.trans h'.grows
  sound := h'.sound
  scope := h'.scope.trans h.scope
  load := h'.load.trans h.load
  covered := (h.covered.trans h'.grows h'.covered).mono fun _ htarget =>
    List.mem_append.mpr (List.mem_append.mp htarget).symm

/-- Commands that test no flag and add no function. -/
theorem Emitted.plain (h : s.Sound U) (hq : s.Quiet s') (hplain : ∀ c ∈ cs, c.Plain)
    (hresolved : ∀ c ∈ cs, s'.Resolves U c) : Emitted U s (.commands cs) cs s' where
  grows := hq.grows
  sound := h.quiet hq
  scope := hq.scope
  load := hq.userLoad
  lowered := .commands hplain
  resolved := hresolved
  covered _ he := .inl (hq.entries ▸ he)

theorem Emitted.quiet_left (hq : s.Quiet s₁) (h : Emitted U s₁ p cs s') :
    Emitted U s p cs s' where
  grows := hq.grows.trans h.grows
  sound := h.sound
  scope := h.scope.trans hq.scope
  load := h.load.trans hq.userLoad
  lowered := h.lowered
  resolved := h.resolved
  covered e he := (h.covered e he).imp_left fun he => hq.entries ▸ he

theorem Emitted.quiet_right (h : Emitted U s p cs s₁) (hq : s₁.Quiet s') :
    Emitted U s p cs s' where
  grows := h.grows.trans hq.grows
  sound := h.sound.quiet hq
  scope := hq.scope.trans h.scope
  load := hq.userLoad.trans h.load
  lowered := h.lowered.mono fun _ _ => hq.grows.has
  resolved c hc := (h.resolved c hc).grows hq.grows
  covered := by
    have h' : s.Covers s' (cs.flatMap Command.calls ++ []) :=
      h.covered.trans hq.grows fun e he => .inl (hq.entries ▸ he)
    rwa [List.append_nil] at h'

/-- One construct after another. -/
theorem Emitted.seq (h : Emitted U s p cs s₁) (h' : Emitted U s₁ q ds s₂) :
    Emitted U s (.seq p q) (cs ++ ds) s₂ where
  grows := h.grows.trans h'.grows
  sound := h'.sound
  scope := h'.scope.trans h.scope
  load := h'.load.trans h.load
  lowered := .seq (h.lowered.mono fun _ _ => h'.grows.has) h'.lowered
  resolved c hc := by
    rcases List.mem_append.mp hc with hc | hc
    · exact (h.resolved c hc).grows h'.grows
    · exact h'.resolved c hc
  covered := by
    rw [List.flatMap_append]
    exact h.covered.trans h'.grows h'.covered

/-- Commands are put into a new function, and others that call it are emitted in their place. -/
theorem Emitted.wrap {f : Feature} {name : String} {commands : List Command}
    (h : Emitted U s p cs s₁) (hadds : s₁.Adds f name commands s₂)
    (hsafe : s₂.Safe U commands)
    (hsub : ∀ target ∈ cs.flatMap Command.calls, target ∈ commands.flatMap Command.calls)
    (hlowered : Lowered s₂.Has .own q ds) (hresolved : ∀ c ∈ ds, s₂.Resolves U c)
    (hcall : (f.path name).inSpace s₂.settings.space ∈ ds.flatMap Command.calls) :
    Emitted U s q ds s₂ where
  grows := h.grows.trans hadds.grows
  sound := h.sound.adds hadds hsafe
  scope := hadds.scope.trans h.scope
  load := hadds.userLoad.trans h.load
  lowered := hlowered
  resolved := hresolved
  covered := by
    have h' : s.Covers s₁ (cs.flatMap Command.calls ++ []) := by
      rw [List.append_nil]
      exact h.covered
    refine (h'.adds hadds hsub).mono fun target htarget => ?_
    rw [List.mem_singleton.mp htarget]
    exact hcall

/-- Two constructs whose commands are put together the other way round. -/
theorem Emitted.seq_swap (h : Emitted U s p cs s₁) (h' : Emitted U s₁ q ds s₂) :
    Emitted U s (.seq q p) (ds ++ cs) s₂ where
  grows := h.grows.trans h'.grows
  sound := h'.sound
  scope := h'.scope.trans h.scope
  load := h'.load.trans h.load
  lowered := .seq h'.lowered (h.lowered.mono fun _ _ => h'.grows.has)
  resolved c hc := by
    rcases List.mem_append.mp hc with hc | hc
    · exact h'.resolved c hc
    · exact (h.resolved c hc).grows h'.grows
  covered := by
    refine (h.covered.trans h'.grows h'.covered).mono fun target htarget => ?_
    rw [List.flatMap_append, List.mem_append]
    exact (List.mem_append.mp htarget).symm

/-- A second construct whose commands are dropped, since they call nothing. -/
theorem Emitted.drop_right (h : Emitted U s p cs s₁) (h' : Emitted U s₁ q ds s₂)
    (hds : ds.flatMap Command.calls = []) : Emitted U s p cs s₂ where
  grows := h.grows.trans h'.grows
  sound := h'.sound
  scope := h'.scope.trans h.scope
  load := h'.load.trans h.load
  lowered := h.lowered.mono fun _ _ => h'.grows.has
  resolved c hc := (h.resolved c hc).grows h'.grows
  covered := by
    have hcovered := h.covered.trans h'.grows h'.covered
    rwa [hds, List.append_nil] at hcovered

/-- Commands are put at the end of a user function, and none is left. -/
theorem Emitted.extends {path : FunctionPath} (h : Emitted U s p cs s₁)
    (hext : s₁.Extends path cs s₂) (hpath : path ≠ loadPath) :
    Emitted U s (.commands []) [] s₂ where
  grows := h.grows.trans hext.grows
  sound := h.sound.extends hext ⟨⟨p, h.lowered⟩, h.resolved⟩
  scope := hext.scope.trans h.scope
  load := by rw [hext.load, if_neg hpath, h.load]
  lowered := .commands (by simp)
  resolved := by simp
  covered := by
    have h' : s.Covers s₁ (cs.flatMap Command.calls ++ []) := by
      rw [List.append_nil]
      exact h.covered
    exact h'.extends hext fun _ htarget => htarget

/-- One construct that leaves no commands after another. -/
theorem Emitted.trans_nil (h : Emitted U s (.commands []) [] s₁)
    (h' : Emitted U s₁ (.commands []) [] s₂) : Emitted U s (.commands []) [] s₂ :=
  { h.seq h' with lowered := .commands (by simp) }

theorem Emitted.safe (h : Emitted U s p cs s') : s'.Safe U cs := ⟨⟨p, h.lowered⟩, h.resolved⟩

theorem Session.grows_rescope (s : Session) (scope : Scope) : s.Grows { s with scope } :=
  ⟨rfl, fun _ he => he, fun f hf => ⟨f, hf, rfl, fun _ h => h⟩, fun _ h => h⟩

/-- Renamings do not matter for what is stored. -/
theorem Session.Sound.rescope (h : s.Sound U) {scope : Scope} (hscope : scope.UserHeld) :
    ({ s with scope } : Session).Sound U where
  space := h.space
  scope := hscope
  keys := h.keys
  paths := h.paths
  entries e he := (h.entries e he).grows (s.grows_rescope scope)
  functions f hf := (h.functions f hf).grows (s.grows_rescope scope)
  sqrt := h.sqrt

/-- Renamings that are dropped at the end do not matter for what was emitted. -/
theorem Emitted.rescope {scope : Scope} (h : Emitted U { s with scope } p cs s')
    (hscope : s.scope.UserHeld) : Emitted U s p cs { s' with scope := s.scope } where
  grows := (s.grows_rescope scope).trans (h.grows.trans (s'.grows_rescope s.scope))
  sound := h.sound.rescope hscope
  scope := rfl
  load := h.load
  lowered := h.lowered.mono fun _ _ => (s'.grows_rescope s.scope).has
  resolved c hc := (h.resolved c hc).grows (s'.grows_rescope s.scope)
  covered e he := (h.covered e he).imp_right
    (Or.imp_right fun hcalled => hcalled.grows (s'.grows_rescope s.scope))

/-! ### Guarded calls -/

theorem Session.Adds.resolves_call {f : Feature} {name : String} (h : s.Adds f name cs s') :
    s'.Resolves U (.call ((f.path name).inSpace s'.settings.space)) := by
  intro target htarget
  obtain rfl := List.mem_singleton.mp htarget
  exact ⟨f.path name, rfl, .inl h.has.registered⟩

/-- A command behind a guard calls what the command calls. -/
theorem Guard.calls_guardedCommands (g : Guard) (n : Nat) (only : Command) :
    ((g.rendered n).guardedCommands only).flatMap Command.calls = only.calls := by
  simp [Rendered.guardedCommands, Guard.rendered, Condition.calls_render_before, Rendered.guard,
    Command.calls]

theorem resolves_of_calls {c : Command} (h : c.calls = []) : s.Resolves U c := by
  intro target htarget
  rw [h] at htarget
  exact absurd htarget List.not_mem_nil

theorem Guard.resolves_before (g : Guard) (n : Nat) :
    ∀ c ∈ (g.rendered n).before, s.Resolves U c := by
  intro c hc target htarget
  have hmem : target ∈ (g.rendered n).before.flatMap Command.calls :=
    List.mem_flatMap.mpr ⟨c, hc, htarget⟩
  rw [Guard.rendered, Condition.calls_render_before] at hmem
  exact absurd hmem List.not_mem_nil

theorem Guard.resolves_guarded (g : Guard) (n : Nat) {clauses : List Clause} {only : Command}
    (honly : s.Resolves U only) :
    ∀ c ∈ (g.rendered n).before ++ [Command.guarded clauses only], s.Resolves U c := by
  intro c hc
  rcases List.mem_append.mp hc with hc | hc
  · exact g.resolves_before n c hc
  · rw [List.mem_singleton.mp hc]
    exact honly

/-- The body of a loop goes into a function that ends with a guarded call of itself. -/
theorem Emitted.loop {f : Feature} {name : String} {target : ResourceLocation} (g : Guard) (n : Nat)
    (h : Emitted U s p cs s₁)
    (hadds : s₁.Adds f name (cs ++ (g.rendered n).guardedCommands (.call target)) s₂)
    (htarget : target = (f.path name).inSpace s₂.settings.space) :
    Emitted U s (.repeatWhile g p) ((g.rendered n).guardedCommands (.call target)) s₂ ∧
      Emitted U s (.doWhile p g) [.call target] s₂ := by
  subst htarget
  have hp : Lowered s₂.Has .own p cs := h.lowered.mono fun _ _ => hadds.grows.has
  have hloop : Lowered s₂.Has .own (.repeatWhile g p) ((g.rendered n).guardedCommands _) :=
    .loop n hadds.has hp
  have hcall : s₂.Resolves U (.call ((f.path name).inSpace s₂.settings.space)) :=
    hadds.resolves_call
  have hguarded : ∀ c ∈ (g.rendered n).guardedCommands
      (.call ((f.path name).inSpace s₂.settings.space)), s₂.Resolves U c :=
    g.resolves_guarded n hcall
  have hsafe : s₂.Safe U (cs ++ (g.rendered n).guardedCommands _) :=
    (h.safe.grows hadds.grows).append ⟨⟨_, hloop⟩, hguarded⟩
  have hsub : ∀ target ∈ cs.flatMap Command.calls, target ∈
      (cs ++ (g.rendered n).guardedCommands
        (.call ((f.path name).inSpace s₂.settings.space))).flatMap Command.calls := by
    intro target htarget
    rw [List.flatMap_append]
    exact List.mem_append_left _ htarget
  constructor
  · refine h.wrap hadds hsafe hsub hloop hguarded ?_
    rw [g.calls_guardedCommands]
    exact List.mem_singleton_self _
  · refine h.wrap hadds hsafe hsub (.call hadds.has (.seq hp hloop)) ?_ ?_
    · intro c hc
      rw [List.mem_singleton.mp hc]
      exact hcall
    · exact List.mem_singleton_self _

end

end Packwright
