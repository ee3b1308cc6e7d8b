import Packwright.Proofs.Session.Statements

/-!
# Compiled sources

Every construct of a block is compiled to commands that are lowered from what it means, whatever the
depth of the bodies inside it. The top level of a text is compiled construct by construct; its commands
go to the load function, and an import compiles another text in its place. Whatever happens on the way,
the session grows and stays sound.

## Main definitions

- `UserCalls.IncludesText`, `UserCalls.IncludesFiles` — all calls inside texts are calls of the user
- `Compiled` — what holds after a source was compiled

## Main results

- `Compile.construct_meets`, `Compile.block_emits` — one construct, and a block of statements
- `Compile.topLevel_reads` — a text without imports is compiled to what it means
- `Compile.source_meets`, `Compile.importFile_meets` — sources and the files they import
-/

namespace Packwright

section

/-! ### Blocks -/

variable {U : UserCalls}

/-- The kinds of statements that are control flow. -/
def StatementKind.isFlow : StatementKind → Bool
  | .ifBranch | .whileLoop | .doLoop | .forLoop => true
  | _ => false

namespace Compile

variable {inner : Block} {s : Session}

/-- A statement that is no control flow emits commands that stand for themselves. -/
theorem statement_meets (hblock : BlockEmits U inner) (hs : s.Sound U) (level : Level)
    {first : Token} {rest : List Token} (hin : U.Includes s (first :: rest))
    (hkind : (Statement.mk (first :: rest)).kind.isFlow = false) :
    (statement inner level (Statement.mk (first :: rest)).kind first rest).Meets s
      (fun cs s' => Emitted U s (.commands cs) cs s') (Broken U s) := by
  rcases hk : (Statement.mk (first :: rest)).kind with _ | _ | _ | _ | _ | _ | _ | _ | _ | _ | _ |
    _ | _ | b | _ | _
  case function =>
    exact (functionDefinition_meets hblock hs _ hin).bind (fun _ h => h) fun _ s₁ h => h
  case classDefinition =>
    exact (classDefinition_meets hblock hs hin).bind (fun _ h => h) fun _ s₁ h => h
  case newResource => exact (newResource_meets hs _ _).bind (fun _ h => h) fun _ s₁ h => h
  case switch => exact (switch_meets hblock hs hin).mono (fun _ _ h => h.1) fun _ h => h
  case variableChange => exact variableChange_meets hblock hs hin
  case builtin => exact builtin_meets hblock hs b hin none
  case call =>
    refine (functionCall_meets hin (Statement.isCallShape_of_kind hk)).bind
      (fun s' hq => .quiet hs hq) fun c s₁ h₁ => ?_
    refine .plain hs h₁.1 ?_ ?_
    · rw [List.forall_mem_singleton]
      exact h₁.2.1
    · rw [List.forall_mem_singleton]
      exact h₁.2.2
  case vanilla => exact .single hs (.refl s) trivial rfl
  case importFile => exact .refl hs
  case elseBranch => exact .refl hs
  case caseLabel => exact .refl hs
  case breakCase => exact .refl hs
  all_goals
    rw [hk] at hkind
    cases hkind

/-- A construct is compiled to what it means. -/
theorem construct_meets {depth : Nat} (hblock : BlockEmits U (block depth)) (hs : s.Sound U)
    (level : Level) {c : Construct} (hfits : c.Fits)
    (hin : ∀ st ∈ c.statements, U.Includes s st.tokens) :
    (construct (block depth) level c).Meets s
      (fun cs s' => ∃ p, ReadsConstruct s.scope c p ∧ Emitted U s p cs s') (Broken U s) := by
  cases c with
  | chain st elses =>
    obtain ⟨first, rest, htokens⟩ := Statement.exists_tokens hfits.1 (by simp)
    obtain rfl : st = ⟨first :: rest⟩ := by rw [← htokens]
    obtain ⟨hfirst, helses⟩ := List.forall_mem_cons.mp hin
    rw [construct, atLevel, meets_bind]
    refine meets_ofExcept (.refl hs) fun _ _ => ?_
    exact chain_meets hblock hs hfirst hfits.2 helses
  | doWhile st tail =>
    obtain ⟨first, rest, htokens⟩ := Statement.exists_tokens hfits.1 (by simp)
    obtain rfl : st = ⟨first :: rest⟩ := by rw [← htokens]
    rw [construct, atLevel, meets_bind]
    refine meets_ofExcept (.refl hs) fun _ _ => ?_
    exact doWhile_meets hblock hs (hin _ (List.mem_cons_self ..))
  | single st =>
    have hst : U.Includes s st.tokens := hin st (List.mem_singleton_self st)
    by_cases hflow : st.kind.isFlow = true
    · obtain ⟨first, rest, htokens⟩ := Statement.exists_tokens (rfl : st.kind = st.kind) (by
        intro h
        rw [h] at hflow
        cases hflow)
      obtain rfl : st = ⟨first :: rest⟩ := by rw [← htokens]
      rw [construct, atLevel, meets_bind]
      refine meets_ofExcept (.refl hs) fun _ _ => ?_
      rcases hk : (Statement.mk (first :: rest)).kind
      case whileLoop => exact whileLoop_meets hblock hs hst hk
      case forLoop => exact forLoop_meets hblock hs hst hk
      case ifBranch => exact absurd hk hfits.1
      case doLoop => exact absurd hk hfits.2
      all_goals
        rw [hk] at hflow
        cases hflow
    · have hflow' : st.kind.isFlow = false := by simpa using hflow
      have hkind : st.kind ≠ .ifBranch ∧ st.kind ≠ .whileLoop ∧ st.kind ≠ .doLoop ∧
          st.kind ≠ .forLoop := by
        refine ⟨?_, ?_, ?_, ?_⟩
        all_goals
          intro h
          rw [h] at hflow'
          cases hflow'
      have hemits : (construct (block depth) level (.single st)).Meets s
          (fun cs s' => Emitted U s (.commands cs) cs s') (Broken U s) := by
        obtain ⟨tokens⟩ := st
        rw [construct]
        cases tokens with
        | nil => exact .nil hs (.refl s)
        | cons first rest =>
          rw [atLevel, meets_bind]
          refine meets_ofExcept (.refl hs) fun _ _ => ?_
          exact statement_meets hblock hs level hst hflow'
      refine hemits.with_outcome.mono (fun cs s' h => ?_) fun _ h => h
      exact ⟨.commands cs, .other hkind ⟨depth, level, s, s', rfl, h.1⟩, h.2⟩

theorem bodyConstructs_meets {depth : Nat} (hblock : BlockEmits U (block depth))
    (cs : List Construct) (hs : s.Sound U) (hfits : ∀ c ∈ cs, c.Fits)
    (hin : ∀ c ∈ cs, ∀ st ∈ c.statements, U.Includes s st.tokens) :
    (bodyConstructs (block depth) cs).Meets s
      (fun commands s' => ∃ p, ReadsBlock s.scope cs p ∧ Emitted U s p commands s')
      (Broken U s) := by
  induction cs generalizing s with
  | nil => exact ⟨.skip, .nil, .nil hs (.refl s)⟩
  | cons c rest ih =>
    obtain ⟨hfits₁, hfitsrest⟩ := List.forall_mem_cons.mp hfits
    obtain ⟨hin₁, hinrest⟩ := List.forall_mem_cons.mp hin
    unfold bodyConstructs
    refine (construct_meets hblock hs .body hfits₁ hin₁).bind (fun _ h => h) fun commands s₁ h₁ => ?_
    obtain ⟨p, hp, hemitted⟩ := h₁
    refine (ih hemitted.sound hfitsrest
      fun c hc st hst => (hinrest c hc st hst).grows hemitted.grows).bind
      (fun s' h => h.after hemitted.grows) fun more s₂ h₂ => ?_
    obtain ⟨q, hq, hemitted₂⟩ := h₂
    exact ⟨.seq p q, .cons hp (hemitted.scope ▸ hq), hemitted.seq hemitted₂⟩

theorem includes_constructs {statements : List Statement}
    (hin : ∀ st ∈ statements, U.Includes s st.tokens) :
    ∀ c ∈ constructs statements, ∀ st ∈ c.statements, U.Includes s st.tokens := by
  intro c hc st hst
  refine hin st ?_
  rw [← statements_constructs statements]
  exact List.mem_flatMap.mpr ⟨c, hc, hst⟩

/-- A block of statements is compiled to what it means, whatever the depth. -/
theorem block_emits (depth : Nat) : BlockEmits U (block depth) := by
  induction depth with
  | zero => exact fun s statements hs _ => .refl hs
  | succ depth ih =>
    intro s statements hs hin
    exact bodyConstructs_meets ih (constructs statements) hs (constructs_fit statements)
      (includes_constructs hin)

end Compile

end

/-- Every call inside the text is one of the user. -/
def UserCalls.IncludesText (U : UserCalls) (s : Session) (text : String) : Prop :=
  ∀ r, Packwright.tokenize .required Position.start text = .ok r →
    ∀ st ∈ r.statements, U.Includes s st.tokens

/-- Every call inside a file is one of the user once the file is begun. -/
def UserCalls.IncludesFiles (U : UserCalls) (base : Session) (files : File.Tree) : Prop :=
  ∀ (s : Session) (path : File.Path) (place : File.Place) (text : String),
    files.read path = .ok (place, text) → place ∈ s.imported → place ∉ base.imported →
    U.IncludesText s text

theorem UserCalls.IncludesText.grows {U : UserCalls} {s s' : Session} {text : String}
    (h : U.IncludesText s text) (hg : s.Grows s') : U.IncludesText s' text :=
  fun r hr st hst => (h r hr st hst).grows hg

/-- A source was compiled: the session has grown, is sound, and all that was added is called. -/
structure Compiled (U : UserCalls) (s s' : Session) : Prop where
  grows : s.Grows s'
  sound : s'.Sound U
  scope : s'.scope = s.scope
  covered : s.Covers s' []

section

variable {U : UserCalls} {s s₁ s' : Session}

theorem Compiled.refl (h : s.Sound U) : Compiled U s s := ⟨.refl s, h, rfl, .refl s []⟩

theorem Compiled.trans (h : Compiled U s s₁) (h' : Compiled U s₁ s') : Compiled U s s' :=
  ⟨h.grows.trans h'.grows, h'.sound, h'.scope.trans h.scope, h.covered.trans h'.grows h'.covered⟩

theorem Compiled.quiet (h : s.Sound U) (hq : s.Quiet s') : Compiled U s s' :=
  ⟨hq.grows, h.quiet hq, hq.scope, fun _ he => .inl (hq.entries ▸ he)⟩

theorem Compiled.quiet_right (h : Compiled U s s₁) (hq : s₁.Quiet s') : Compiled U s s' :=
  h.trans (.quiet h.sound hq)

end

namespace Compile

variable {U : UserCalls} {base s : Session} {importer : Importer} {depth : Nat}

/-! ### Texts without imports -/

theorem topConstructs_reads (cs : List Construct) (out : List Command) (hs : s.Sound U)
    (hfits : ∀ c ∈ cs, c.Fits) (hin : ∀ c ∈ cs, ∀ st ∈ c.statements, U.Includes s st.tokens)
    (himport : ∀ c ∈ cs, c.import? = none) :
    (topConstructs (block depth) importer out cs).Meets s
      (fun all s' => ∃ (p : Program) (commands : List Command), all = out ++ commands ∧
        ReadsBlock s.scope cs p ∧ Emitted U s p commands s') (Broken U s) := by
  induction cs generalizing s out with
  | nil => exact ⟨.skip, [], (List.append_nil out).symm, .nil, .nil hs (.refl s)⟩
  | cons c rest ih =>
    obtain ⟨hfits₁, hfitsrest⟩ := List.forall_mem_cons.mp hfits
    obtain ⟨hin₁, hinrest⟩ := List.forall_mem_cons.mp hin
    obtain ⟨himport₁, himportrest⟩ := List.forall_mem_cons.mp himport
    unfold topConstructs
    rw [himport₁]
    refine (construct_meets (block_emits depth) hs .top hfits₁ hin₁).bind (fun _ h => h)
      fun commands s₁ h₁ => ?_
    obtain ⟨p, hp, hemitted⟩ := h₁
    refine (ih (out ++ commands) hemitted.sound hfitsrest
      (fun c hc st hst => (hinrest c hc st hst).grows hemitted.grows) himportrest).mono
      (fun all s' h => ?_) fun s' h => h.after hemitted.grows
    obtain ⟨q, more, rfl, hq, hemitted₂⟩ := h
    exact ⟨.seq p q, commands ++ more, List.append_assoc .., .cons hp (hemitted.scope ▸ hq),
      hemitted.seq hemitted₂⟩

theorem tokenize_meets (text : String) :
    (tokenize .required Position.start text).Meets s
      (fun statements s' => s.Quiet s' ∧
        ∃ r, Packwright.tokenize .required Position.start text = .ok r ∧
          statements = r.statements) s.Quiet := by
  unfold tokenize
  rw [meets_bind]
  refine meets_ofExcept (.refl s) fun r hr => ?_
  exact ⟨quiet_warnings s _, r, hr, rfl⟩

/-- A text without imports is compiled to what it means, behind the commands of the load function. -/
theorem topLevel_reads (text : String) (hs : s.Sound U) (hin : U.IncludesText s text)
    (himport : ∀ r, Packwright.tokenize .required Position.start text = .ok r →
      ∀ c ∈ constructs r.statements, c.import? = none) :
    (topLevel importer text).Meets s
      (fun _ s' => s'.Sound U ∧ ∃ (r : Reading) (p : Program) (commands : List Command),
        Packwright.tokenize .required Position.start text = .ok r ∧
        ReadsBlock s.scope (constructs r.statements) p ∧ Lowered s'.Has .own p commands ∧
        s'.pack.userLoad = s.pack.userLoad ++ commands) (Broken U s) := by
  unfold topLevel
  refine (tokenize_meets text).bind (fun s' hq => .quiet hs hq) fun statements s₁ h₁ => ?_
  obtain ⟨hq, r, hr, rfl⟩ := h₁
  refine (topConstructs_reads (constructs r.statements) [] (hs.quiet hq)
    (constructs_fit r.statements) (includes_constructs fun st hst => (hin r hr st hst).grows hq.grows)
    (himport r hr)).bind (fun s' h => h.after hq.grows) fun out s₂ h₂ => ?_
  obtain ⟨p, commands, hout, hp, hemitted⟩ := h₂
  obtain rfl : commands = out := hout.symm
  have hext := s₂.extends_extendFunction loadPath commands
  have hload := hext.load
  rw [if_pos rfl, hemitted.load, hq.userLoad] at hload
  exact ⟨hemitted.sound.extends hext hemitted.safe, r, p, commands, hr, hq.scope ▸ hp,
    hemitted.lowered.mono fun _ _ => hext.grows.has, hload⟩

/-! ### Texts with imports -/

/-- Importing keeps the session sound. -/
def ImporterKeeps (U : UserCalls) (base : Session) (importer : Importer) : Prop :=
  ∀ (s : Session) (path : File.Path) (place : Option Position), s.Sound U → base.Grows s →
    (importer path place).Meets s (fun _ s' => Compiled U s s') (Broken U s)

/-- Commands are put into the load function. -/
theorem compiled_extendLoad {s₁ : Session} {out : List Command} (hg : s.Grows s₁)
    (hscope : s₁.scope = s.scope) (hs : s₁.Sound U) (hsafe : s₁.Safe U out)
    (hcovered : s.Covers s₁ (out.flatMap Command.calls)) :
    Compiled U s { s₁ with pack := s₁.pack.extendLoad out } := by
  have hext := s₁.extends_extendFunction loadPath out
  have hcovered' : s.Covers s₁ (out.flatMap Command.calls ++ []) := by
    rw [List.append_nil]
    exact hcovered
  exact ⟨hg.trans hext.grows, hs.extends hext hsafe, hext.scope.trans hscope,
    hcovered'.extends hext fun _ h => h⟩

/-- The top level of a text. The commands that are not in the load function yet are safe, and call
what was added. -/
theorem topConstructs_meets (himporter : ImporterKeeps U base importer) (cs : List Construct)
    {start : Session} {out : List Command} (hg : base.Grows start) (hgrows : start.Grows s)
    (hscope : s.scope = start.scope) (hs : s.Sound U) (hsafe : s.Safe U out)
    (hcovered : start.Covers s (out.flatMap Command.calls)) (hfits : ∀ c ∈ cs, c.Fits)
    (hin : ∀ c ∈ cs, ∀ st ∈ c.statements, U.Includes s st.tokens) :
    (topConstructs (block depth) importer out cs).Meets s
      (fun all s' => start.Grows s' ∧ s'.scope = start.scope ∧ s'.Sound U ∧ s'.Safe U all ∧
        start.Covers s' (all.flatMap Command.calls)) (Broken U start) := by
  induction cs generalizing s out with
  | nil => exact ⟨hgrows, hscope, hs, hsafe, hcovered⟩
  | cons c rest ih =>
    obtain ⟨hfits₁, hfitsrest⟩ := List.forall_mem_cons.mp hfits
    obtain ⟨hin₁, hinrest⟩ := List.forall_mem_cons.mp hin
    unfold topConstructs
    split
    · next keyword tokens _ =>
      rw [meets_bind]
      refine meets_ofExcept ⟨hgrows, hs⟩ fun target _ => ?_
      rw [meets_bind, modifyPack, meets_modify, meets_bind, meets_get]
      have hloaded := compiled_extendLoad hgrows hscope hs hsafe hcovered
      refine (himporter _ _ _ hloaded.sound (hg.trans hloaded.grows)).bind
        (fun s' h => h.after hloaded.grows) fun _ s₁ h₁ => ?_
      have hall := hloaded.trans h₁
      have hgrows₁ : s.Grows s₁ :=
        (s.extends_extendFunction loadPath out).grows.trans h₁.grows
      exact ih hall.grows hall.scope hall.sound
        ⟨⟨_, .commands (by simp)⟩, by simp⟩ hall.covered hfitsrest
        fun c hc st hst => (hinrest c hc st hst).grows hgrows₁
    · refine (construct_meets (block_emits depth) hs .top hfits₁ hin₁).bind
        (fun s' h => h.after hgrows) fun commands s₁ h₁ => ?_
      obtain ⟨p, -, hemitted⟩ := h₁
      refine ih (hgrows.trans hemitted.grows) (hemitted.scope.trans hscope) hemitted.sound
        ((hsafe.grows hemitted.grows).append hemitted.safe) ?_ hfitsrest
        fun c hc st hst => (hinrest c hc st hst).grows hemitted.grows
      rw [List.flatMap_append]
      exact hcovered.trans hemitted.grows hemitted.covered

theorem topLevel_meets (himporter : ImporterKeeps U base importer) (text : String)
    (hg : base.Grows s) (hs : s.Sound U) (hin : U.IncludesText s text) :
    (topLevel importer text).Meets s (fun _ s' => Compiled U s s') (Broken U s) := by
  unfold topLevel
  refine (tokenize_meets text).bind (fun s' hq => .quiet hs hq) fun statements s₁ h₁ => ?_
  obtain ⟨hq, r, hr, rfl⟩ := h₁
  refine (topConstructs_meets himporter (constructs r.statements) hg hq.grows hq.scope
    (hs.quiet hq) ⟨⟨_, .commands (by simp)⟩, by simp⟩ (fun e he => .inl (hq.entries ▸ he))
    (constructs_fit r.statements)
    (includes_constructs fun st hst => (hin r hr st hst).grows hq.grows)).bind
    (fun _ h => h) fun out s₂ h₂ => ?_
  obtain ⟨hgrows, hscope, hsound, hsafe, hcovered⟩ := h₂
  exact compiled_extendLoad hgrows hscope hsound hsafe hcovered

/-- Naming the file in messages changes the session quietly. -/
theorem meets_source {Q : Session → Prop} {E : Session → Prop} {name text : String}
    (hQ : ∀ s₁ s₂, Session.Quiet s₁ s₂ → Q s₁ → Q s₂) (hE : ∀ s₁ s₂, Session.Quiet s₁ s₂ → E s₁ → E s₂)
    (h : (topLevel importer text).Meets
      { s with log := s.log ++ [⟨.debug, "compiling " ++ name⟩] } (fun _ s' => Q s') E) :
    (source importer name text).Meets s (fun _ s' => Q s') E := by
  generalize hstart : ({ s with log := s.log ++ [⟨.debug, "compiling " ++ name⟩] } : Session) =
    start at h
  have hrun : (source importer name text).outcome s =
      ((((topLevel importer text).outcome start).1).mapError (inFile name text),
        { ((topLevel importer text).outcome start).2 with
          warnings := ((topLevel importer text).outcome start).2.warnings.take s.warnings.length ++
            (((topLevel importer text).outcome start).2.warnings.drop s.warnings.length).map
              (·.inFile name text) }) := by
    rw [← hstart]
    rfl
  unfold Meets at h ⊢
  rw [hrun]
  generalize (topLevel importer text).outcome start = result at h ⊢
  obtain ⟨value, s'⟩ := result
  cases value with
  | ok a => exact hQ _ _ (quiet_warnings s' _) h
  | error e => exact hE _ _ (quiet_warnings s' _) h

/-- A source is compiled with all that it imports. -/
theorem source_meets (himporter : ImporterKeeps U base importer) (name text : String)
    (hg : base.Grows s) (hs : s.Sound U) (hin : U.IncludesText s text) :
    (source importer name text).Meets s (fun _ s' => Compiled U s s') (Broken U s) := by
  have hq := quiet_log s (s.log ++ [⟨.debug, "compiling " ++ name⟩])
  refine meets_source (fun _ _ hq h => h.quiet_right hq) (fun _ _ hq h => h.quiet_right hq) ?_
  exact (topLevel_meets himporter text (hg.trans hq.grows) (hs.quiet hq) (hin.grows hq.grows)).mono
    (fun _ s' h => (Compiled.quiet hs hq).trans h) fun s' h => h.after hq.grows

/-- A file is compiled unless it was begun before. -/
theorem importWith_keeps {files : File.Tree} {compile : String → String → Compile Unit}
    (hfiles : U.IncludesFiles base files)
    (hcompile : ∀ (s : Session) (name text : String), s.Sound U → base.Grows s →
      U.IncludesText s text →
      (compile name text).Meets s (fun _ s' => Compiled U s s') (Broken U s)) :
    ImporterKeeps U base (importWith files compile) := by
  intro s path position hs hg
  unfold importWith
  split
  · exact .refl hs
  · next place text hread =>
    rw [meets_bind, meets_get]
    split
    · exact (debug_meets _).mono (fun _ s' hq => .quiet hs hq) fun _ h => h
    · next hnew =>
      have hplace : place ∉ s.imported := by simpa using hnew
      have hq : s.Quiet { s with imported := s.imported ++ [place] } :=
        ⟨rfl, rfl, rfl, rfl, rfl, rfl, fun _ h => List.mem_append_left _ h⟩
      have hin := hfiles { s with imported := s.imported ++ [place] } path place text hread
        (List.mem_append_right _ (List.mem_singleton_self _))
        fun hold => hplace (hg.imported place hold)
      rw [meets_bind, meets_set]
      exact (hcompile _ _ _ (hs.quiet hq) (hg.trans hq.grows) hin).mono
        (fun _ s' h => (Compiled.quiet hs hq).trans h) fun s' h => h.after hq.grows

theorem importWithin_keeps {files : File.Tree} (hfiles : U.IncludesFiles base files) (depth : Nat) :
    ImporterKeeps U base (importWithin files depth) := by
  induction depth with
  | zero =>
    refine importWith_keeps hfiles fun s name text hs _ _ => ?_
    exact .refl hs
  | succ depth ih =>
    exact importWith_keeps hfiles fun s name text hs hg hin => source_meets ih name text hg hs hin

/-- Checking the namespace and logging warnings changes the session quietly. -/
theorem meets_step {m : Compile Unit} {Q E : Session → Prop} (hstart : E s)
    (hQ : ∀ s₁ s₂, Session.Quiet s₁ s₂ → Q s₁ → Q s₂)
    (hE : ∀ s₁ s₂, Session.Quiet s₁ s₂ → E s₁ → E s₂) (h : m.Meets s (fun _ s' => Q s') E) :
    (step m).Meets s (fun _ s' => Q s') E := by
  unfold step
  rw [meets_bind, meets_get, meets_bind]
  refine meets_ofExcept hstart fun _ _ => ?_
  have hrun : outcome (ExceptT.mk do
      let result ← m.run
      modify flushWarnings
      return result) s = ((m.outcome s).1, flushWarnings (m.outcome s).2) := rfl
  have hflush : ∀ s' : Session, s'.Quiet (flushWarnings s') :=
    fun s' => ⟨rfl, rfl, rfl, rfl, rfl, rfl, fun _ h => h⟩
  unfold Meets at h ⊢
  rw [hrun]
  generalize m.outcome s = result at h ⊢
  obtain ⟨value, s'⟩ := result
  cases value with
  | ok a => exact hQ _ _ (hflush s') h
  | error e => exact hE _ _ (hflush s') h

end Compile

namespace Session

variable {U : UserCalls} {s : Session} {files : File.Tree}

/-- A text is compiled with all that it imports. -/
theorem compileText_meets (hs : s.Sound U) (hfiles : U.IncludesFiles s files) (name text : String)
    (hin : U.IncludesText s text) :
    (compileText files name text).Meets s (fun _ s' => Compiled U s s') (Broken U s) := by
  refine Compile.meets_step (.refl hs) (fun _ _ hq h => h.quiet_right hq)
    (fun _ _ hq h => h.quiet_right hq) ?_
  exact Compile.source_meets (Compile.importWithin_keeps hfiles _) name text (.refl s) hs hin

/-- A file is compiled with all that it imports. -/
theorem compileFile_meets (hs : s.Sound U) (hfiles : U.IncludesFiles s files) (path : File.Path) :
    (compileFile files path).Meets s (fun _ s' => Compiled U s s') (Broken U s) := by
  refine Compile.meets_step (.refl hs) (fun _ _ hq h => h.quiet_right hq)
    (fun _ _ hq h => h.quiet_right hq) ?_
  exact Compile.importWithin_keeps hfiles _ s path none hs (.refl s)

theorem compileEntry_meets (hs : s.Sound U) (hfiles : U.IncludesFiles s files) :
    (compileEntry files).Meets s (fun _ s' => Compiled U s s') (Broken U s) := by
  unfold compileEntry
  rw [Compile.meets_bind, Compile.meets_get]
  exact compileFile_meets hs hfiles _

/-- A session starts sound. -/
theorem new_sound (U : UserCalls) (settings : Settings) : (Session.new settings).Sound U where
  space := rfl
  scope := .empty
  keys := List.nodup_nil
  paths := by simp [Session.new, Session.entries, Pack.empty, Pack.declare, Pack.isDeclared]
  entries := by simp [Session.new, Session.entries, Pack.empty, Pack.declare, Pack.isDeclared]
  functions f hf := by
    obtain rfl : f = ⟨loadPath, []⟩ := List.mem_singleton.mp hf
    exact ⟨⟨_, .commands (by simp)⟩, by simp⟩
  sqrt h := by simp [Session.new] at h

end Session

end Packwright
