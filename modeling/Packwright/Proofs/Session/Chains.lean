import Packwright.Proofs.Session.Loops

/-!
# Compiled chains

The arms of a chain are compiled one after the other; then each of them becomes a function, and the
commands that call these functions test the conditions and the flag of the chain. What a chain emits
is lowered from the choice that it means.

## Main definitions

- `ArmsMean` — the program that compiled arms stand for
- `ArmsEmitted` — what holds after later arms have become functions

## Main results

- `Compile.elseBranches_meets` — the arms behind `else`
- `Compile.armsCommands_meets` — the commands of later arms
- `Compile.chain_meets` — a whole chain
-/

namespace Packwright

variable {U : UserCalls}

/-- The program that compiled arms stand for: the first arm whose condition holds. -/
inductive ArmsMean (has : ResourceLocation → List Command → Prop) : List Branch → Program → Prop
  | noArm {q : Program} (hq : Lowered has .own q []) : ArmsMean has [] q
  | otherwise {p : Program} {cs : List Command} (hp : Lowered has .own p cs) :
    ArmsMean has [⟨none, cs⟩] p
  | arm {p q : Program} {cs : List Command} {rest : List Branch} (g : Guard) (n : Nat)
    (hp : Lowered has .own p cs) (hq : ArmsMean has rest q) :
    ArmsMean has (⟨some (g.rendered n), cs⟩ :: rest) (.choose g p q)

theorem ArmsMean.mono {has has' : ResourceLocation → List Command → Prop} {arms : List Branch}
    {p : Program} (h : ArmsMean has arms p)
    (hle : ∀ target body, has target body → has' target body) : ArmsMean has' arms p := by
  induction h with
  | noArm hq => exact .noArm (hq.mono hle)
  | otherwise hp => exact .otherwise (hp.mono hle)
  | arm g n hp _ ih => exact .arm g n (hp.mono hle) ih

/-- An `else` without commands at the end may be left out. -/
theorem ArmsMean.dropLast {has : ResourceLocation → List Command → Prop} {arms : List Branch}
    {p : Program} (h : ArmsMean has arms p) (hlast : arms.getLast? = some ⟨none, []⟩) :
    ArmsMean has arms.dropLast p := by
  induction h with
  | noArm => simp at hlast
  | @otherwise p cs hp =>
    obtain rfl : cs = [] := by simpa using hlast
    exact .noArm hp
  | @arm p q cs rest g n hp hq ih =>
    cases rest with
    | nil => simp at hlast
    | cons second rest =>
      rw [List.getLast?_cons_cons] at hlast
      rw [List.dropLast_cons_of_ne_nil (List.cons_ne_nil _ _)]
      exact .arm g n hp (ih hlast)

/-- All calls of the bodies of arms. -/
def armCalls (arms : List Branch) : List ResourceLocation :=
  arms.flatMap fun arm => arm.body.flatMap Command.calls

theorem Compile.dropEmptyElse_subset (arms : List Branch) : dropEmptyElse arms ⊆ arms := by
  unfold dropEmptyElse
  split
  · split
    · exact (List.dropLast_sublist arms).subset
    · exact List.Subset.refl _
  · exact List.Subset.refl _

/-- Dropping an empty `else` keeps the first arm and what the others stand for. -/
theorem dropEmptyElse_cons {has : ResourceLocation → List Command → Prop} {first : Branch}
    {more : List Branch} {q : Program} (hfirst : first.condition ≠ none)
    (hmore : ArmsMean has more q) :
    ∃ more', Compile.dropEmptyElse (first :: more) = first :: more' ∧ ArmsMean has more' q ∧
      (∀ arm ∈ more', arm ∈ more) ∧ armCalls more' = armCalls more := by
  unfold Compile.dropEmptyElse
  split
  · next hlast =>
    cases more with
    | nil =>
      obtain rfl : first = ⟨none, []⟩ := by simpa using hlast
      exact absurd rfl hfirst
    | cons second rest =>
      rw [List.getLast?_cons_cons] at hlast
      have hsplit : (second :: rest).dropLast ++ [⟨none, []⟩] = second :: rest :=
        List.dropLast_append_getLast? _ hlast
      refine ⟨(second :: rest).dropLast, ?_, hmore.dropLast hlast,
        fun arm harm => List.mem_of_mem_dropLast harm, ?_⟩
      · rw [if_pos (by simp), List.dropLast_cons_of_ne_nil (List.cons_ne_nil _ _)]
      · conv_rhs => rw [← hsplit]
        simp [armCalls]
  · exact ⟨more, rfl, hmore, fun _ h => h, rfl⟩

namespace Compile

variable {block : Block} {s : Session}

/-! ### The arms -/

/-- The arm of an `if` has a condition and a body that mean what they say. -/
theorem ifBranch_meets (hblock : BlockEmits U block) (hs : s.Sound U) {keyword : Token}
    {rest : List Token} (hin : U.Includes s rest) :
    (ifBranch block keyword rest).Meets s
      (fun arm s' => ∃ (g : Guard) (n : Nat) (head braces : Token) (p : Program),
        headAndBody keyword rest = .ok (head, braces) ∧ g.scope = s.scope ∧
        (Condition.parse head).Gives g.condition ∧ ReadsBody g.scope braces p ∧
        arm.condition = some (g.rendered n) ∧ Emitted U s p arm.body s')
      (Broken U s) := by
  unfold ifBranch
  rw [meets_bind]
  refine meets_ofExcept (.refl hs) fun ⟨head, braces⟩ hhead => ?_
  obtain rfl := headAndBody_mem hhead
  refine (guard_meets hs.scope (Condition.parse head)).bind (fun s' hq => .quiet hs hq)
    fun r s₁ h₁ => ?_
  obtain ⟨hq, g, n, hscope, hparse, rfl⟩ := h₁
  refine (body_meets hblock (hs.quiet hq) (hin.grows hq.grows) (by simp)).bind
    (fun s' h => h.after hq.grows) fun commands s₂ h₂ => ?_
  obtain ⟨p, hp, hemitted⟩ := h₂
  rw [hq.scope, ← hscope] at hp
  exact ⟨g, n, head, braces, p, hhead, hscope, hparse, hp, rfl, hemitted.quiet_left hq⟩

/-- Whether the last arm is a final `else`. -/
def closed (arms : List Branch) : Bool := (arms.getLast?.map (·.condition.isNone)).getD false

/-- The arms behind `else` mean what their statements mean; nothing follows a final `else`. -/
theorem elseBranches_meets (hblock : BlockEmits U block) (elses : List Statement)
    (arms : List Branch) (hs : s.Sound U) (hkind : ∀ st ∈ elses, st.kind = .elseBranch)
    (hin : ∀ st ∈ elses, U.Includes s st.tokens) :
    (elseBranches block arms elses).Meets s
      (fun all s' => ∃ (more : List Branch) (q r : Program), all = arms ++ more ∧
        ReadsElses s.scope elses q ∧ ArmsMean s'.Has more q ∧
        Emitted U s r (more.flatMap Branch.body) s' ∧ (closed arms = true → elses = []))
      (Broken U s) := by
  induction elses generalizing arms s with
  | nil =>
    have hnothing : Emitted U s .skip [] s := .plain hs (.refl s) (by simp) (by simp)
    exact ⟨[], .skip, .skip, by simp, .none, .noArm hnothing.lowered, hnothing, fun _ => rfl⟩
  | cons st rest ih =>
    obtain ⟨hkind₁, hkindrest⟩ := List.forall_mem_cons.mp hkind
    obtain ⟨hin₁, hinrest⟩ := List.forall_mem_cons.mp hin
    obtain ⟨keyword, tokens, htokens⟩ := Statement.exists_tokens hkind₁ (by simp)
    obtain rfl : st = ⟨keyword :: tokens⟩ := by rw [← htokens]
    unfold elseBranches elseBranch
    simp only
    change Meets (bind (if closed arms = true then _ else _) _) _ _ _
    by_cases hclosed : closed arms = true
    · rw [if_pos hclosed, meets_bind]
      exact .refl hs
    · rw [if_neg hclosed]
      cases tokens with
      | nil =>
        rw [meets_bind]
        exact .refl hs
      | cons next more =>
        simp only
        by_cases helse : (more.isEmpty && next.isGroup .curly) = true
        · obtain rfl : more = [] := by simpa using (Bool.and_eq_true_iff.mp helse).1
          rw [if_pos helse, bind_assoc]
          refine (body_meets hblock hs hin₁ (by simp)).bind (fun _ h => h) fun commands s₁ h₁ => ?_
          obtain ⟨p, hp, hemitted⟩ := h₁
          rw [pure_bind]
          cases rest with
          | nil =>
            refine ⟨[⟨none, commands⟩], p, p, rfl, .otherwise hp, .otherwise hemitted.lowered, ?_,
              fun h => absurd h hclosed⟩
            simpa using hemitted
          | cons second rest =>
            -- a further `else` is refused, because the last arm has no condition
            refine (ih (arms ++ [⟨none, commands⟩]) hemitted.sound hkindrest
              fun st hst => (hinrest st hst).grows hemitted.grows).mono (fun all s' h => ?_)
              (fun s' h => h.after hemitted.grows)
            obtain ⟨_, _, _, -, -, -, -, hlast⟩ := h
            exact absurd (hlast (by simp [closed])) (List.cons_ne_nil _ _)
        · rw [if_neg helse]
          by_cases hif : next.isWord "if" = true
          · rw [if_pos hif]
            refine (ifBranch_meets hblock hs hin₁.tail.tail).bind (fun _ h => h)
              fun arm s₁ h₁ => ?_
            obtain ⟨g, n, head, braces, p, hhead, hscope, hparse, hp, hcondition, hemitted⟩ := h₁
            refine (ih (arms ++ [arm]) hemitted.sound hkindrest
              fun st hst => (hinrest st hst).grows hemitted.grows).mono (fun all s' h => ?_)
              (fun s' h => h.after hemitted.grows)
            obtain ⟨more', q, r, rfl, hq, hmean, hrest, -⟩ := h
            obtain ⟨condition, commands⟩ := arm
            obtain rfl : condition = some (g.rendered n) := hcondition
            rw [hemitted.scope, ← hscope] at hq
            refine ⟨⟨some (g.rendered n), commands⟩ :: more', .choose g p q, .seq p r, by simp,
              hscope ▸ .elseIf hif hhead hparse hp hq, ?_, hemitted.seq hrest,
              fun h => absurd h hclosed⟩
            exact .arm g n (hemitted.lowered.mono fun _ _ => hrest.grows.has) hmean
          · rw [if_neg hif, meets_bind]
            exact .refl hs

/-! ### The functions of the arms -/

end Compile

/-- Later arms have become functions: the commands that call them are lowered from the program that
the arms stand for. The functions that are still to be called are among the targets. -/
structure ArmsEmitted (U : UserCalls) (base s : Session) (q : Program)
    (targets : List ResourceLocation) (cs : List Command) (s' : Session) : Prop where
  grows : s.Grows s'
  sound : s'.Sound U
  scope : s'.scope = s.scope
  load : s'.pack.userLoad = s.pack.userLoad
  lowered : Lowered s'.Has .laterArms q cs
  resolved : ∀ c ∈ cs, s'.Resolves U c
  covered : base.Covers s' (cs.flatMap Command.calls ++ targets)

namespace Compile

variable {block : Block} {base s : Session}

/-- The function of an arm: its commands, and the flag raised behind them unless it is the last. -/
theorem allocateArm_meets (hs : s.Sound U) {commands raise : List Command} {p : Program}
    (hp : Lowered s.Has .own p commands) (hresolved : ∀ c ∈ commands, s.Resolves U c)
    (hraise : raise = [] ∨ raise = [.set ifElseFlag 1]) {targets : List ResourceLocation}
    (hcovered : base.Covers s (commands.flatMap Command.calls ++ targets)) :
    (allocateNext .ifElse (commands ++ raise)).Meets s
      (fun path s' => s.Grows s' ∧ s'.Sound U ∧ s'.scope = s.scope ∧
        s'.pack.userLoad = s.pack.userLoad ∧
        s'.Has (path.inSpace s'.settings.space) (commands ++ raise) ∧
        s'.Resolves U (.call (path.inSpace s'.settings.space)) ∧
        base.Covers s' (path.inSpace s'.settings.space :: targets))
      (Broken U s) := by
  refine (allocateNext_meets _ _).mono (fun path s' h => ?_) (fun s' hq => .quiet hs hq)
  obtain ⟨name, rfl, hadds⟩ := h
  have hsafe : s'.Safe U (commands ++ raise) := by
    refine (Session.Safe.grows ⟨⟨p, hp⟩, hresolved⟩ hadds.grows).append ?_
    rcases hraise with rfl | rfl
    · exact ⟨⟨_, .commands (by simp)⟩, by simp⟩
    · refine ⟨⟨_, .commands (by simp [Command.Plain])⟩, fun c hc => ?_⟩
      rw [List.mem_singleton.mp hc]
      exact resolves_of_calls rfl
  refine ⟨hadds.grows, hs.adds hadds hsafe, hadds.scope, hadds.userLoad, hadds.has,
    hadds.resolves_call, hcovered.adds hadds fun target htarget => ?_⟩
  rw [List.flatMap_append]
  exact List.mem_append_left _ htarget

/-- The commands of an arm call what its command calls. -/
theorem calls_armCommands (first : Bool) (g : Guard) (n : Nat) (only : Command) :
    (armCommands first (some (g.rendered n)) only).flatMap Command.calls = only.calls := by
  have hbefore : (g.rendered n).before.flatMap Command.calls = [] :=
    Condition.calls_render_before ..
  cases first <;>
    simp [armCommands, Rendered.guardedCommands, Rendered.guard, hbefore, Command.calls]

/-- Later arms are lowered from the program that they stand for. -/
theorem armsCommands_meets (arms : List Branch) {q : Program} {targets : List ResourceLocation}
    (hs : s.Sound U) (hmean : ArmsMean s.Has arms q)
    (hresolved : ∀ arm ∈ arms, ∀ c ∈ arm.body, s.Resolves U c)
    (hcovered : base.Covers s (armCalls arms ++ targets)) :
    (armsCommands false arms).Meets s (ArmsEmitted U base s q targets) (Broken U s) := by
  induction arms generalizing s q targets with
  | nil =>
    cases hmean with
    | noArm hq =>
      exact ⟨.refl s, hs, rfl, rfl, .noArm hq, by simp, by simpa [armCalls] using hcovered⟩
  | cons arm rest ih =>
    obtain ⟨hresolved₁, hresolvedrest⟩ := List.forall_mem_cons.mp hresolved
    rw [armCalls, List.flatMap_cons, List.append_assoc] at hcovered
    unfold armsCommands
    cases hmean with
    | otherwise hp =>
      refine (allocateArm_meets hs hp hresolved₁ (.inl rfl) hcovered).bind (fun _ h => h)
        fun path s₁ h₁ => ?_
      obtain ⟨hgrows, hsound, hscope, hload, hhas, hcall, hcovered₁⟩ := h₁
      rw [List.append_nil] at hhas
      refine ⟨hgrows, hsound, hscope, hload, .otherwise hhas (hp.mono fun _ _ => hgrows.has), ?_, ?_⟩
      · intro c hc
        rw [List.mem_singleton.mp hc]
        exact hcall
      · simpa [armCommands, Command.calls] using hcovered₁
    | @arm p q cs _ g n hp hq =>
      cases rest with
      | nil =>
        obtain ⟨hq⟩ := hq
        refine (allocateArm_meets hs hp hresolved₁ (.inl rfl) hcovered).bind (fun _ h => h)
          fun path s₁ h₁ => ?_
        obtain ⟨hgrows, hsound, hscope, hload, hhas, hcall, hcovered₁⟩ := h₁
        rw [List.append_nil] at hhas
        simp only [armsCommands, pure_bind, meets_bind, meets_call, meets_pure, List.append_nil]
        refine ⟨hgrows, hsound, hscope, hload, .lastArm n hhas (hp.mono fun _ _ => hgrows.has)
          (hq.mono fun _ _ => hgrows.has), g.resolves_guarded n hcall, ?_⟩
        rw [calls_armCommands]
        exact hcovered₁
      | cons second rest =>
        refine (allocateArm_meets hs hp hresolved₁ (.inr rfl) hcovered).bind (fun _ h => h)
          fun path s₁ h₁ => ?_
        obtain ⟨hgrows, hsound, hscope, hload, hhas, hcall, hcovered₁⟩ := h₁
        rw [meets_bind, meets_call]
        have hcovered₂ : base.Covers s₁ (armCalls (second :: rest) ++
            (path.inSpace s₁.settings.space :: targets)) :=
          hcovered₁.mono fun target htarget => List.perm_middle.symm.mem_iff.mp htarget
        refine (ih hsound (hq.mono fun _ _ => hgrows.has)
          (fun arm harm c hc => (hresolvedrest arm harm c hc).grows hgrows) hcovered₂).bind
          (fun s' h => h.after hgrows) fun ds s₂ h₂ => ?_
        refine ⟨hgrows.trans h₂.grows, h₂.sound, h₂.scope.trans hscope, h₂.load.trans hload,
          .arm n (h₂.grows.has hhas) (hp.mono fun _ _ h => h₂.grows.has (hgrows.has h)) h₂.lowered,
          fun c hc => ?_, ?_⟩
        · rcases List.mem_append.mp hc with hc | hc
          · exact g.resolves_guarded n (hcall.grows h₂.grows) c hc
          · exact h₂.resolved c hc
        · rw [List.flatMap_append, calls_armCommands]
          exact h₂.covered.mono fun target htarget => List.perm_middle.mem_iff.mp htarget

/-! ### Whole chains -/

/-- A single arm: nothing, a guarded command, or a guarded call. -/
theorem singleArm_meets {s₁ : Session} {commands : List Command} {p q : Program} (g : Guard)
    (n : Nat) (h : Emitted U s p commands s₁) (hq : Lowered s₁.Has .own q []) :
    (singleArm (g.rendered n) commands).Meets s₁
      (fun cs s' => Emitted U s (.choose g p q) cs s') (Broken U s) := by
  unfold singleArm
  split
  · exact { h with lowered := .nothing h.lowered hq }
  · next only =>
    have hcalls : ((g.rendered n).guardedCommands only).flatMap Command.calls =
        [only].flatMap Command.calls := by
      rw [g.calls_guardedCommands]
      simp
    refine { h with lowered := .guarded n h.lowered hq, resolved := ?_, covered := ?_ }
    · exact g.resolves_guarded n (h.resolved only (List.mem_singleton_self only))
    · rw [hcalls]
      exact h.covered
  · refine (allocateNext_meets _ _).bind (fun s' hq' => h.broken.quiet_right hq')
      fun path s₂ h₂ => ?_
    obtain ⟨name, rfl, hadds⟩ := h₂
    have hp : Lowered s₂.Has .own p commands := h.lowered.mono fun _ _ => hadds.grows.has
    have hq₂ : Lowered s₂.Has .own q [] := hq.mono fun _ _ => hadds.grows.has
    refine h.wrap hadds (h.safe.grows hadds.grows) (fun _ h => h)
      (.guarded n (.call hadds.has hp) hq₂) (g.resolves_guarded n hadds.resolves_call) ?_
    rw [g.calls_guardedCommands]
    exact List.mem_singleton_self _

theorem flatMap_calls_bodies (arms : List Branch) :
    (arms.flatMap Branch.body).flatMap Command.calls = armCalls arms :=
  List.flatMap_assoc

/-- A chain is compiled to the choice that it means. -/
theorem chain_meets (hblock : BlockEmits U block) (hs : s.Sound U) {keyword : Token}
    {rest : List Token} {elses : List Statement} (hin : U.Includes s (keyword :: rest))
    (hkind : ∀ st ∈ elses, st.kind = .elseBranch) (hinelses : ∀ st ∈ elses, U.Includes s st.tokens) :
    (chain block keyword rest elses).Meets s
      (fun cs s' => ∃ p, ReadsConstruct s.scope (.chain ⟨keyword :: rest⟩ elses) p ∧
        Emitted U s p cs s') (Broken U s) := by
  unfold chain
  refine (ifBranch_meets hblock hs hin.tail).bind (fun _ h => h) fun first s₁ h₁ => ?_
  obtain ⟨g, n, head, braces, p, hhead, hscope, hparse, hp, hcondition, hfirst⟩ := h₁
  obtain ⟨condition, commands⟩ := first
  obtain rfl : condition = some (g.rendered n) := hcondition
  refine (elseBranches_meets hblock elses _ hfirst.sound hkind
    fun st hst => (hinelses st hst).grows hfirst.grows).bind (fun s' h => h.after hfirst.grows)
    fun all s₂ h₂ => ?_
  obtain ⟨more, q, r, rfl, hq, hmean, hmore, -⟩ := h₂
  rw [hfirst.scope, ← hscope] at hq
  have hreads : ReadsConstruct s.scope (.chain ⟨keyword :: rest⟩ elses) (.choose g p q) :=
    hscope ▸ .chain hhead hparse hp hq
  have hsome : (⟨some (g.rendered n), commands⟩ : Branch).condition ≠ none := by simp
  obtain ⟨more', hdrop, hmean', hsub, hcalls⟩ := dropEmptyElse_cons hsome hmean
  have hp₂ : Lowered s₂.Has .own p commands := hfirst.lowered.mono fun _ _ => hmore.grows.has
  unfold chainCommands
  rw [List.singleton_append, hdrop]
  cases more' with
  | nil =>
    obtain ⟨hnothing⟩ := hmean'
    have hnone : (more.flatMap Branch.body).flatMap Command.calls = [] := by
      rw [flatMap_calls_bodies, ← hcalls]
      rfl
    exact (singleArm_meets g n (hfirst.drop_right hmore hnone) hnothing).mono
      (fun cs s' h => ⟨_, hreads, h⟩) (fun _ h => h)
  | cons second more' =>
    have hboth := hfirst.seq hmore
    have hcovered : s.Covers s₂
        (commands.flatMap Command.calls ++ armCalls (second :: more')) := by
      rw [hcalls, ← flatMap_calls_bodies, ← List.flatMap_append]
      exact hboth.covered
    have hresolved : ∀ arm ∈ second :: more', ∀ c ∈ arm.body, s₂.Resolves U c :=
      fun arm harm c hc => hmore.resolved c (List.mem_flatMap.mpr ⟨arm, hsub arm harm, hc⟩)
    change Meets (do return .set ifElseFlag 0 ::
      (← armsCommands true (⟨some (g.rendered n), commands⟩ :: second :: more'))) _ _ _
    rw [armsCommands]
    simp only [bind_assoc]
    refine (allocateArm_meets hboth.sound hp₂
      (fun c hc => hboth.resolved c (List.mem_append_left _ hc)) (.inr rfl) hcovered).bind
      (fun s' h => h.after hboth.grows) fun path s₃ h₃ => ?_
    obtain ⟨hgrows, hsound, hscope₃, hload, hhas, hcall, hcovered₃⟩ := h₃
    rw [meets_bind, meets_call]
    have hcovered₃' : s.Covers s₃ (armCalls (second :: more') ++
        [path.inSpace s₃.settings.space]) :=
      hcovered₃.mono fun target htarget => (List.perm_append_singleton _ _).symm.mem_iff.mp htarget
    refine (armsCommands_meets (second :: more') hsound (hmean'.mono fun _ _ => hgrows.has)
      (fun arm harm c hc => (hresolved arm harm c hc).grows hgrows) hcovered₃').bind
      (fun s' h => h.after (hboth.grows.trans hgrows)) fun ds s₄ h₄ => ?_
    refine ⟨.choose g p q, hreads, (hboth.grows.trans hgrows).trans h₄.grows, h₄.sound,
      h₄.scope.trans (hscope₃.trans hboth.scope), h₄.load.trans (hload.trans hboth.load),
      .chain n (h₄.grows.has hhas) (hp₂.mono fun _ _ h => h₄.grows.has (hgrows.has h)) h₄.lowered,
      ?_, ?_⟩
    · intro c hc
      rcases List.mem_cons.mp hc with rfl | hc
      · exact resolves_of_calls rfl
      · rcases List.mem_append.mp hc with hc | hc
        · exact g.resolves_guarded n (hcall.grows h₄.grows) c hc
        · exact h₄.resolved c hc
    · refine h₄.covered.mono fun target htarget => ?_
      rw [List.flatMap_cons, List.flatMap_append, calls_armCommands]
      exact (List.perm_append_singleton _ _).mem_iff.mp htarget

end Compile

end Packwright
