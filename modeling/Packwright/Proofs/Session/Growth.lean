import Packwright.Proofs.Semantics.Lowering
import Packwright.Proofs.Session.Outcomes

/-!
# How sessions grow

Compilation only adds to a session: functions are registered under keys that are free, user
functions get more commands, files are marked as begun. What is stored stays sound: stored commands
are lowered from some program, and the functions they call are registered, unless the user calls
them.

## Main definitions

- `Session.Grows`, `Session.Quiet`, `Session.Adds`, `Session.Extends` — how a step may change the
  session
- `UserCalls` — the paths that the user calls
- `Session.Resolves`, `Session.Safe` — calls that find a function, commands that may be stored
- `Session.Sound` — everything stored is safe
- `Session.Covers` — every function that was added is called
- `Inside` — the runs of tokens that can be reached from a run
- `UserCalls.Includes` — all calls inside a run of tokens are calls of the user

## Main results

- `Session.Sound.quiet`, `Session.Sound.adds`, `Session.Sound.extends` — soundness is kept
- `Session.Covers.adds` — a function takes over the calls of its commands
- `foldlM_keeps` — invariants of folds that may fail
- `UserCalls.Includes.group`, `UserCalls.Includes.tailFrom` — the parts of a run
-/

namespace Packwright

/-- A generated function with its key. -/
abbrev Entry := (String × String) × PackFunction

namespace Session

/-- The generated functions. -/
abbrev entries (s : Session) : List Entry := s.pack.generated.entries

/-- The location of a generated function. -/
def locate (s : Session) (e : Entry) : ResourceLocation := e.2.path.inSpace s.settings.space

/-- A generated function stands at a path. -/
def Registered (s : Session) (path : FunctionPath) : Prop := ∃ e ∈ s.entries, e.2.path = path

/-- A generated function with the given commands stands at a location. -/
def Has (s : Session) (target : ResourceLocation) (body : List Command) : Prop :=
  ∃ e ∈ s.entries, target = s.locate e ∧ body = e.2.commands

/-- The second session has all that the first one has. -/
structure Grows (s s' : Session) : Prop where
  settings : s'.settings = s.settings
  entries : ∀ e ∈ s.entries, e ∈ s'.entries
  functions : ∀ f ∈ s.pack.functions, ∃ f' ∈ s'.pack.functions,
    f'.path = f.path ∧ ∀ c ∈ f.commands, c ∈ f'.commands
  imported : ∀ place ∈ s.imported, place ∈ s'.imported

/-- The second session differs at most in numbers, messages, objectives, constants, resources and
the files that were begun. -/
structure Quiet (s s' : Session) : Prop where
  settings : s'.settings = s.settings
  space : s'.pack.space = s.pack.space
  entries : s'.entries = s.entries
  functions : s'.pack.functions = s.pack.functions
  scope : s'.scope = s.scope
  sqrtEmitted : s'.sqrtEmitted = s.sqrtEmitted
  imported : ∀ place ∈ s.imported, place ∈ s'.imported

/-- The second session has one more generated function, and else differs quietly. -/
structure Adds (s : Session) (f : Feature) (name : String) (commands : List Command)
    (s' : Session) : Prop where
  settings : s'.settings = s.settings
  space : s'.pack.space = s.pack.space
  fresh : ∀ e ∈ s.entries, e.1 ≠ (f.name, name)
  entries : s'.entries = s.entries ++ [((f.name, name), ⟨f.path name, commands⟩)]
  functions : s'.pack.functions = s.pack.functions
  scope : s'.scope = s.scope
  sqrtEmitted : s'.sqrtEmitted = s.sqrtEmitted
  imported : ∀ place ∈ s.imported, place ∈ s'.imported

theorem Grows.refl (s : Session) : s.Grows s :=
  ⟨rfl, fun _ h => h, fun f hf => ⟨f, hf, rfl, fun _ h => h⟩, fun _ h => h⟩

theorem Grows.trans {s s₁ s₂ : Session} (h : s.Grows s₁) (h' : s₁.Grows s₂) : s.Grows s₂ := by
  refine ⟨h'.settings.trans h.settings, fun e he => h'.entries e (h.entries e he), ?_,
    fun place hplace => h'.imported place (h.imported place hplace)⟩
  intro f hf
  obtain ⟨f₁, hf₁, hpath₁, hsub₁⟩ := h.functions f hf
  obtain ⟨f₂, hf₂, hpath₂, hsub₂⟩ := h'.functions f₁ hf₁
  exact ⟨f₂, hf₂, hpath₂.trans hpath₁, fun c hc => hsub₂ c (hsub₁ c hc)⟩

theorem Quiet.refl (s : Session) : s.Quiet s := ⟨rfl, rfl, rfl, rfl, rfl, rfl, fun _ h => h⟩

theorem Quiet.trans {s s₁ s₂ : Session} (h : s.Quiet s₁) (h' : s₁.Quiet s₂) : s.Quiet s₂ :=
  ⟨h'.settings.trans h.settings, h'.space.trans h.space, h'.entries.trans h.entries,
    h'.functions.trans h.functions, h'.scope.trans h.scope, h'.sqrtEmitted.trans h.sqrtEmitted,
    fun place hplace => h'.imported place (h.imported place hplace)⟩

theorem Quiet.grows {s s' : Session} (h : s.Quiet s') : s.Grows s' :=
  ⟨h.settings, fun _ he => h.entries ▸ he, fun f hf => ⟨f, h.functions ▸ hf, rfl, fun _ h => h⟩,
    h.imported⟩

theorem Adds.grows {s s' : Session} {f : Feature} {name : String} {commands : List Command}
    (h : s.Adds f name commands s') : s.Grows s' := by
  refine ⟨h.settings, fun e he => ?_, fun f hf => ⟨f, h.functions ▸ hf, rfl, fun _ h => h⟩,
    h.imported⟩
  rw [h.entries]
  exact List.mem_append_left _ he

theorem Adds.quiet_left {s s₁ s' : Session} {f : Feature} {name : String}
    {commands : List Command} (hq : s.Quiet s₁) (h : s₁.Adds f name commands s') :
    s.Adds f name commands s' :=
  ⟨h.settings.trans hq.settings, h.space.trans hq.space, fun e he => h.fresh e (hq.entries ▸ he),
    hq.entries ▸ h.entries, h.functions.trans hq.functions, h.scope.trans hq.scope,
    h.sqrtEmitted.trans hq.sqrtEmitted,
    fun place hplace => h.imported place (hq.imported place hplace)⟩

theorem Adds.quiet_right {s s₁ s' : Session} {f : Feature} {name : String}
    {commands : List Command} (h : s.Adds f name commands s₁) (hq : s₁.Quiet s') :
    s.Adds f name commands s' :=
  ⟨hq.settings.trans h.settings, hq.space.trans h.space, h.fresh, hq.entries.trans h.entries,
    hq.functions.trans h.functions, hq.scope.trans h.scope, hq.sqrtEmitted.trans h.sqrtEmitted,
    fun place hplace => hq.imported place (h.imported place hplace)⟩

/-! ### Functions that are found -/

section

variable {s s' : Session}

theorem Grows.locate (h : s.Grows s') (e : Entry) : s'.locate e = s.locate e := by
  rw [Session.locate, Session.locate, h.settings]

theorem Grows.registered (h : s.Grows s') {path : FunctionPath} (hpath : s.Registered path) :
    s'.Registered path := by
  obtain ⟨e, he, hpath⟩ := hpath
  exact ⟨e, h.entries e he, hpath⟩

theorem Grows.has (h : s.Grows s') {target : ResourceLocation} {body : List Command}
    (hbody : s.Has target body) : s'.Has target body := by
  obtain ⟨e, he, htarget, hbody⟩ := hbody
  exact ⟨e, h.entries e he, (h.locate e).symm ▸ htarget, hbody⟩

theorem Adds.has {f : Feature} {name : String} {commands : List Command}
    (h : s.Adds f name commands s') :
    s'.Has ((f.path name).inSpace s'.settings.space) commands := by
  refine ⟨((f.name, name), ⟨f.path name, commands⟩), ?_, rfl, rfl⟩
  rw [h.entries]
  exact List.mem_append_right _ (List.mem_singleton_self _)

theorem Has.registered {path : FunctionPath} {body : List Command}
    (h : s.Has (path.inSpace s.settings.space) body) : s.Registered path := by
  obtain ⟨e, he, htarget, -⟩ := h
  exact ⟨e, he, (congrArg ResourceLocation.path htarget).symm⟩

end

/-! ### Calls -/

end Session

/-- The paths that the user calls in the sources of a session; later sessions have more. -/
structure UserCalls where
  called : Session → FunctionPath → Prop
  mono : ∀ {s s' : Session}, s.Grows s' → ∀ {path : FunctionPath}, called s path → called s' path

namespace Session

variable (U : UserCalls)

/-- Every function that the command calls is registered, or one that the user calls. -/
def Resolves (s : Session) (c : Command) : Prop :=
  ∀ target ∈ c.calls, ∃ path : FunctionPath, target = path.inSpace s.settings.space ∧
    (s.Registered path ∨ U.called s path)

/-- Commands that may be stored: they are lowered from some program, and their calls resolve. -/
structure Safe (s : Session) (cs : List Command) : Prop where
  lowered : ∃ p, Lowered s.Has .own p cs
  resolved : ∀ c ∈ cs, s.Resolves U c

/-- Everything that is stored is safe, and the keys of generated functions are in order. -/
structure Sound (s : Session) : Prop where
  space : s.pack.space = s.settings.space
  scope : s.scope.UserHeld
  keys : (s.entries.map Prod.fst).Nodup
  paths : ∀ e ∈ s.entries, ∃ f : Feature, e.1.1 = f.name ∧ e.2.path = f.path e.1.2
  entries : ∀ e ∈ s.entries, s.Safe U e.2.commands
  functions : ∀ f ∈ s.pack.functions, s.Safe U f.commands
  sqrt : s.sqrtEmitted = true → s.Registered (Feature.mathSqrt.path Sqrt.mainName) ∧
    s.Registered (Feature.mathSqrt.path Sqrt.stepName)

/-- The generated function is called by a command that is stored in another function. -/
def CalledElsewhere (s : Session) (e : Entry) : Prop :=
  (∃ f ∈ s.pack.functions, ∃ c ∈ f.commands, s.locate e ∈ c.calls) ∨
    ∃ e' ∈ s.entries, e'.1 ≠ e.1 ∧ ∃ c ∈ e'.2.commands, s.locate e ∈ c.calls

/-- Each generated function of the second session is one of the first, is among the targets, or is
called elsewhere. -/
def Covers (s s' : Session) (targets : List ResourceLocation) : Prop :=
  ∀ e ∈ s'.entries, e ∈ s.entries ∨ s'.locate e ∈ targets ∨ s'.CalledElsewhere e

variable {U} {s s₁ s₂ s' : Session}

theorem Resolves.grows {c : Command} (h : s.Resolves U c) (hg : s.Grows s') :
    s'.Resolves U c := by
  intro target htarget
  obtain ⟨path, hpath, hknown⟩ := h target htarget
  refine ⟨path, hg.settings.symm ▸ hpath, ?_⟩
  rcases hknown with hknown | hknown
  · exact .inl (hg.registered hknown)
  · exact .inr (U.mono hg hknown)

theorem Safe.grows {cs : List Command} (h : s.Safe U cs) (hg : s.Grows s') : s'.Safe U cs := by
  obtain ⟨p, hp⟩ := h.lowered
  exact ⟨⟨p, hp.mono fun _ _ => hg.has⟩, fun c hc => (h.resolved c hc).grows hg⟩

theorem Safe.append {cs ds : List Command} (h : s.Safe U cs) (h' : s.Safe U ds) :
    s.Safe U (cs ++ ds) := by
  obtain ⟨p, hp⟩ := h.lowered
  obtain ⟨q, hq⟩ := h'.lowered
  refine ⟨⟨_, .seq hp hq⟩, fun c hc => ?_⟩
  rcases List.mem_append.mp hc with hc | hc
  · exact h.resolved c hc
  · exact h'.resolved c hc

theorem CalledElsewhere.grows {e : Entry} (h : s.CalledElsewhere e) (hg : s.Grows s') :
    s'.CalledElsewhere e := by
  unfold CalledElsewhere
  rw [hg.locate]
  rcases h with ⟨f, hf, c, hc, hcall⟩ | ⟨e', he', hne, c, hc, hcall⟩
  · obtain ⟨f', hf', -, hsub⟩ := hg.functions f hf
    exact .inl ⟨f', hf', c, hsub c hc, hcall⟩
  · exact .inr ⟨e', hg.entries e' he', hne, c, hc, hcall⟩

theorem Covers.refl (s : Session) (targets : List ResourceLocation) : s.Covers s targets :=
  fun _ he => .inl he

theorem Covers.mono {targets targets' : List ResourceLocation} (h : s.Covers s' targets)
    (hsub : ∀ target ∈ targets, target ∈ targets') : s.Covers s' targets' := by
  intro e he
  rcases h e he with hold | htarget | helse
  · exact .inl hold
  · exact .inr (.inl (hsub _ htarget))
  · exact .inr (.inr helse)

theorem Covers.trans {targets targets' : List ResourceLocation} (h : s.Covers s₁ targets)
    (hg : s₁.Grows s₂) (h' : s₁.Covers s₂ targets') : s.Covers s₂ (targets ++ targets') := by
  intro e he
  rcases h' e he with hold | htarget | helse
  · rcases h e hold with hold | htarget | helse
    · exact .inl hold
    · exact .inr (.inl (hg.locate e ▸ List.mem_append_left _ htarget))
    · exact .inr (.inr (helse.grows hg))
  · exact .inr (.inl (List.mem_append_right _ htarget))
  · exact .inr (.inr helse)

/-- A new function takes over the calls of its commands and has to be called itself. -/
theorem Covers.adds {f : Feature} {name : String} {commands : List Command}
    {targets others : List ResourceLocation} (h : s.Covers s₁ (targets ++ others))
    (hadds : s₁.Adds f name commands s₂)
    (hsub : ∀ target ∈ targets, target ∈ commands.flatMap Command.calls) :
    s.Covers s₂ ((f.path name).inSpace s₂.settings.space :: others) := by
  have hnew : ((f.name, name), ⟨f.path name, commands⟩) ∈ s₂.entries := by
    rw [hadds.entries]
    exact List.mem_append_right _ (List.mem_singleton_self _)
  intro e he
  rw [hadds.entries, List.mem_append, List.mem_singleton] at he
  rcases he with he | rfl
  · rcases h e he with hold | htarget | helse
    · exact .inl hold
    · rcases List.mem_append.mp htarget with htarget | htarget
      · -- called by the commands that are now stored in the new function
        obtain ⟨c, hc, hcall⟩ := List.mem_flatMap.mp (hsub _ htarget)
        refine .inr (.inr (.inr ⟨_, hnew, (hadds.fresh e he).symm, c, hc, ?_⟩))
        rw [hadds.grows.locate]
        exact hcall
      · exact .inr (.inl (hadds.grows.locate e ▸ List.mem_cons_of_mem _ htarget))
    · exact .inr (.inr (helse.grows hadds.grows))
  · exact .inr (.inl (List.mem_cons_self ..))

theorem Sound.quiet (h : s.Sound U) (hq : s.Quiet s') : s'.Sound U where
  space := by rw [hq.space, hq.settings, h.space]
  scope := hq.scope ▸ h.scope
  keys := hq.entries ▸ h.keys
  paths := hq.entries ▸ h.paths
  entries e he := (h.entries e (hq.entries ▸ he)).grows hq.grows
  functions f hf := (h.functions f (hq.functions ▸ hf)).grows hq.grows
  sqrt hs :=
    have h' := h.sqrt (hq.sqrtEmitted ▸ hs)
    ⟨hq.grows.registered h'.1, hq.grows.registered h'.2⟩

/-- Storing a function keeps soundness if its commands are safe once it is there. -/
theorem Sound.adds {f : Feature} {name : String} {commands : List Command} (h : s.Sound U)
    (hadds : s.Adds f name commands s') (hsafe : s'.Safe U commands) : s'.Sound U where
  space := by rw [hadds.space, hadds.settings, h.space]
  scope := hadds.scope ▸ h.scope
  keys := by
    rw [hadds.entries, List.map_append, List.map_singleton, List.nodup_append]
    refine ⟨h.keys, List.nodup_singleton _, fun key hkey key' hkey' => ?_⟩
    obtain ⟨e, he, rfl⟩ := List.mem_map.mp hkey
    rw [List.mem_singleton.mp hkey']
    exact hadds.fresh e he
  paths e he := by
    rw [hadds.entries, List.mem_append, List.mem_singleton] at he
    rcases he with he | rfl
    · exact h.paths e he
    · exact ⟨f, rfl, rfl⟩
  entries e he := by
    rw [hadds.entries, List.mem_append, List.mem_singleton] at he
    rcases he with he | rfl
    · exact (h.entries e he).grows hadds.grows
    · exact hsafe
  functions g hg := (h.functions g (hadds.functions ▸ hg)).grows hadds.grows
  sqrt hs :=
    have h' := h.sqrt (hadds.sqrtEmitted ▸ hs)
    ⟨hadds.grows.registered h'.1, hadds.grows.registered h'.2⟩

/-- Soundness does not depend on which calls are left to the user, as long as the others find a
function. -/
theorem Sound.recall {U' : UserCalls} (h : s.Sound U)
    (hle : ∀ path, U.called s path → s.Registered path ∨ U'.called s path) : s.Sound U' := by
  have hresolves : ∀ c, s.Resolves U c → s.Resolves U' c := by
    intro c hc target htarget
    obtain ⟨path, hpath, hknown⟩ := hc target htarget
    exact ⟨path, hpath, hknown.elim .inl (hle path)⟩
  have hsafe : ∀ cs, s.Safe U cs → s.Safe U' cs :=
    fun cs hcs => ⟨hcs.lowered, fun c hc => hresolves c (hcs.resolved c hc)⟩
  exact ⟨h.space, h.scope, h.keys, h.paths, fun e he => hsafe _ (h.entries e he),
    fun f hf => hsafe _ (h.functions f hf), h.sqrt⟩

/-! ### User functions -/

/-- The second session has commands at the end of a user function, which may be new. -/
structure Extends (s : Session) (path : FunctionPath) (commands : List Command)
    (s' : Session) : Prop where
  settings : s'.settings = s.settings
  space : s'.pack.space = s.pack.space
  entries : s'.entries = s.entries
  scope : s'.scope = s.scope
  sqrtEmitted : s'.sqrtEmitted = s.sqrtEmitted
  imported : ∀ place ∈ s.imported, place ∈ s'.imported
  kept : ∀ f ∈ s.pack.functions, ∃ f' ∈ s'.pack.functions,
    f'.path = f.path ∧ ∀ c ∈ f.commands, c ∈ f'.commands
  origin : ∀ f' ∈ s'.pack.functions, f' ∈ s.pack.functions ∨ f'.commands = commands ∨
    ∃ f ∈ s.pack.functions, f'.commands = f.commands ++ commands
  stored : ∃ f' ∈ s'.pack.functions, ∀ c ∈ commands, c ∈ f'.commands
  load : s'.pack.userLoad = if path = loadPath then s.pack.userLoad ++ commands else s.pack.userLoad

theorem Extends.grows {path : FunctionPath} {commands : List Command}
    (h : s.Extends path commands s') : s.Grows s' :=
  ⟨h.settings, fun _ he => h.entries ▸ he, h.kept, h.imported⟩

theorem Sound.extends {path : FunctionPath} {commands : List Command} (h : s.Sound U)
    (hext : s.Extends path commands s') (hsafe : s.Safe U commands) : s'.Sound U where
  space := by rw [hext.space, hext.settings, h.space]
  scope := hext.scope ▸ h.scope
  keys := hext.entries ▸ h.keys
  paths := hext.entries ▸ h.paths
  entries e he := (h.entries e (hext.entries ▸ he)).grows hext.grows
  functions f' hf' := by
    rcases hext.origin f' hf' with hold | hnew | ⟨f, hf, hboth⟩
    · exact (h.functions f' hold).grows hext.grows
    · exact hnew ▸ hsafe.grows hext.grows
    · exact hboth ▸ ((h.functions f hf).append hsafe).grows hext.grows
  sqrt hs :=
    have h' := h.sqrt (hext.sqrtEmitted ▸ hs)
    ⟨hext.grows.registered h'.1, hext.grows.registered h'.2⟩

/-- A user function takes over the calls of its commands. -/
theorem Covers.extends {path : FunctionPath} {commands : List Command}
    {targets others : List ResourceLocation} (h : s.Covers s₁ (targets ++ others))
    (hext : s₁.Extends path commands s₂)
    (hsub : ∀ target ∈ targets, target ∈ commands.flatMap Command.calls) :
    s.Covers s₂ others := by
  intro e he
  rcases h e (hext.entries ▸ he) with hold | htarget | helse
  · exact .inl hold
  · rcases List.mem_append.mp htarget with htarget | htarget
    · obtain ⟨c, hc, hcall⟩ := List.mem_flatMap.mp (hsub _ htarget)
      obtain ⟨f', hf', hstored⟩ := hext.stored
      refine .inr (.inr (.inl ⟨f', hf', c, hstored c hc, ?_⟩))
      rw [hext.grows.locate]
      exact hcall
    · exact .inr (.inl (hext.grows.locate e ▸ htarget))
  · exact .inr (.inr (helse.grows hext.grows))

theorem find?_map_extend (functions : List PackFunction) (path other : FunctionPath)
    (commands : List Command) :
    (functions.map fun f => if f.path = path then f.extend commands else f).find?
        (·.path = other) =
      (functions.find? (·.path = other)).map
        fun f => if f.path = path then f.extend commands else f := by
  rw [List.find?_map]
  congr 2
  funext f
  simp only [Function.comp_apply]
  split <;> rfl

/-- Commands are put at the end of a function, or become one. -/
theorem extends_extendFunction (s : Session) (path : FunctionPath) (commands : List Command) :
    s.Extends path commands { s with pack := s.pack.extendFunction path commands } := by
  rcases hfound : s.pack.function? path with _ | f₀
  · have hnew : s.pack.extendFunction path commands =
        { s.pack with functions := s.pack.functions ++ [⟨path, commands⟩] } := by
      simp [Pack.extendFunction, Pack.hasFunction, hfound]
    rw [hnew]
    refine ⟨rfl, rfl, rfl, rfl, rfl, fun _ h => h,
      fun f hf => ⟨f, List.mem_append_left _ hf, rfl, fun _ h => h⟩, fun f' hf' => ?_,
      ⟨_, List.mem_append_right _ (List.mem_singleton_self _), fun _ h => h⟩, ?_⟩
    · rcases List.mem_append.mp hf' with hold | hnew
      · exact .inl hold
      · exact .inr (.inl (by rw [List.mem_singleton.mp hnew]))
    · rw [Pack.function?] at hfound
      rw [Pack.userLoad, Pack.userLoad, Pack.function?, Pack.function?, List.find?_append]
      split
      · next hpath =>
        subst hpath
        simp [hfound]
      · next hpath =>
        simp [hpath]
  · have hmem : f₀ ∈ s.pack.functions := List.mem_of_find?_eq_some hfound
    have hpath₀ : f₀.path = path := by simpa using List.find?_some hfound
    have hold : s.pack.extendFunction path commands =
        { s.pack with functions := s.pack.functions.map fun f =>
            if f.path = path then f.extend commands else f } := by
      simp [Pack.extendFunction, Pack.hasFunction, hfound, Pack.updateFunction]
    rw [hold]
    refine ⟨rfl, rfl, rfl, rfl, rfl, fun _ h => h,
      fun f hf => ⟨_, List.mem_map_of_mem hf, ?_, fun c hc => ?_⟩, fun f' hf' => ?_,
      ⟨_, List.mem_map_of_mem hmem, fun c hc => ?_⟩, ?_⟩
    · split <;> rfl
    · split
      · exact List.mem_append_left _ hc
      · exact hc
    · obtain ⟨f, hf, rfl⟩ := List.mem_map.mp hf'
      split
      · exact .inr (.inr ⟨f, hf, rfl⟩)
      · exact .inl hf
    · rw [if_pos hpath₀]
      exact List.mem_append_right _ hc
    · rw [Pack.userLoad, Pack.userLoad, Pack.function?, Pack.function?, find?_map_extend]
      split
      · next hpath =>
        subst hpath
        rw [Pack.function?] at hfound
        simp [hfound, hpath₀, PackFunction.extend]
      · next hpath =>
        rcases hload : s.pack.functions.find? (·.path = loadPath) with _ | g
        · simp [hload]
        · have hg : g.path = loadPath := by simpa using List.find?_some hload
          simp [hload, hg, Ne.symm hpath]

end Session

/-! ### Calls inside a text

The compiler looks at runs of tokens inside other runs: behind a first token, behind a cut of a word, and
inside a bracket group. A user calls a function where such a run is a name with a round group directly
behind it. -/

/-- The second run of tokens is found inside the first. -/
inductive Inside : List Token → List Token → Prop
  | here (tokens : List Token) : Inside tokens tokens
  | behind (t : Token) {rest inner : List Token} (h : Inside rest inner) : Inside (t :: rest) inner
  | cut {t front back : Token} {n : Nat} {rest inner : List Token}
    (hcut : t.splitAt? n = some (front, back)) (h : Inside (back :: rest) inner) :
    Inside (t :: rest) inner
  | group {t : Token} {terminator : Terminator} {r : Reading} {statement : Statement}
    {rest inner : List Token} (hread : t.tokenizeInner terminator = .ok r)
    (hmem : statement ∈ r.statements) (h : Inside statement.tokens inner) : Inside (t :: rest) inner

/-- What every step of a fold keeps holds at its end. -/
theorem foldlM_keeps {σ α ε : Type} {f : σ → α → Except ε σ} {P : σ → Prop} {l : List α}
    (hf : ∀ state a state', a ∈ l → P state → f state a = .ok state' → P state')
    {start final : σ} (hstart : P start) (h : l.foldlM f start = .ok final) : P final := by
  induction l generalizing start with
  | nil => exact Except.ok.inj h ▸ hstart
  | cons a l ih =>
    rw [List.foldlM_cons] at h
    rcases hstep : f start a with _ | next
    · rw [hstep] at h
      cases h
    · rw [hstep] at h
      refine ih (fun state b state' hb => hf state b state' (List.mem_cons_of_mem _ hb)) ?_ h
      exact hf start a next (List.mem_cons_self ..) hstart hstep

namespace UserCalls

variable {U : UserCalls} {s s' : Session} {t : Token} {rest tokens : List Token}

/-- Every call inside the tokens is one of the user. -/
def Includes (U : UserCalls) (s : Session) (tokens : List Token) : Prop :=
  ∀ name group : Token, Inside tokens [name, group] → isCallShape [name, group] = true →
    U.called s (.ofName name.text)

namespace Includes

theorem grows (h : U.Includes s tokens) (hg : s.Grows s') : U.Includes s' tokens :=
  fun name group hinside hcall => U.mono hg (h name group hinside hcall)

theorem tail (h : U.Includes s (t :: rest)) : U.Includes s rest :=
  fun name group hinside => h name group (.behind t hinside)

theorem append_right {front : List Token} (h : U.Includes s (front ++ rest)) :
    U.Includes s rest := by
  induction front with
  | nil => exact h
  | cons t front ih => exact ih h.tail

/-- What stands behind the first characters of a word, with the tokens behind the word. -/
theorem tailFrom (h : U.Includes s (t :: rest)) (n : Nat) : U.Includes s (t.tailFrom n ++ rest) := by
  unfold Token.tailFrom
  split
  · next front back hcut => exact fun name group hinside => h name group (.cut hcut hinside)
  · exact h.tail

/-- The statements inside a group. -/
theorem group {terminator : Terminator} {r : Reading} (h : U.Includes s tokens)
    (ht : t ∈ tokens) (hread : t.tokenizeInner terminator = .ok r) :
    ∀ statement ∈ r.statements, U.Includes s statement.tokens := by
  obtain ⟨front, rest, rfl⟩ := List.append_of_mem ht
  exact fun statement hmem name group hinside =>
    h.append_right name group (.group hread hmem hinside)

end Includes

end UserCalls

/-- All calls are calls of the user. -/
def anyCalls : UserCalls where
  called _ _ := True
  mono _ _ h := h

theorem anyCalls_includes (s : Session) (tokens : List Token) : anyCalls.Includes s tokens :=
  fun _ _ _ _ => trivial

end Packwright
