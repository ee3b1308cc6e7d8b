import Packwright.Proofs.Session.Growth
import Packwright.Proofs.Session.Reading

/-!
# Compiled loops

A loop is compiled to a function that ends with a guarded call of itself. What it emits is lowered
from the loop that its statements mean, provided this holds of the bodies inside it.

## Main definitions

- `BlockEmits` — what is asked of the compiler of bodies

## Main results

- `Compile.whileLoop_meets`, `Compile.doWhile_meets`, `Compile.forLoop_meets` — the three loops
-/

namespace Packwright

open Compile

variable {U : UserCalls}

/-- Statements are compiled to commands that are lowered from the program they mean. -/
def BlockEmits (U : UserCalls) (block : Block) : Prop :=
  ∀ (s : Session) (statements : List Statement), s.Sound U →
    (∀ st ∈ statements, U.Includes s st.tokens) →
    (block statements).Meets s
      (fun cs s' => ∃ p, ReadsBlock s.scope (constructs statements) p ∧ Emitted U s p cs s')
      (Broken U s)

theorem headAndBody_mem {keyword head braces : Token} {rest : List Token}
    (h : headAndBody keyword rest = .ok (head, braces)) : rest = [head, braces] := by
  unfold headAndBody at h
  split at h
  · cases h
  · split at h
    · cases h
    · split at h
      · cases h
      · split at h
        · cases h
        · split at h
          · cases h
            rfl
          · cases h

theorem loopScope_pop (scope : Scope) (id : Nat) (tokens : List Token) :
    (loopScope scope id tokens).pop = scope := by
  unfold loopScope
  split
  · split
    · split <;> rfl
    · rfl
  · rfl

theorem loopScope_userHeld {scope : Scope} (h : scope.UserHeld) (id : Nat) (tokens : List Token) :
    (loopScope scope id tokens).UserHeld := by
  unfold loopScope
  split
  · split
    · split
      · exact h.push.bind _ (by simp)
      · exact h.push
    · exact h.push
  · exact h.push

namespace Compile

variable {block : Block} {s : Session} {tokens : List Token}

theorem body_meets (hblock : BlockEmits U block) (hs : s.Sound U) (hin : U.Includes s tokens)
    {t : Token} (ht : t ∈ tokens) :
    (body block t).Meets s (fun cs s' => ∃ p, ReadsBody s.scope t p ∧ Emitted U s p cs s')
      (Broken U s) := by
  unfold body
  split
  · next hgroup =>
    refine (tokenizeInner_meets _ t).bind (fun s' hq => .quiet hs hq) fun statements s₁ h₁ => ?_
    obtain ⟨hq, r, hread, rfl⟩ := h₁
    have hin₁ : ∀ st ∈ r.statements, U.Includes s₁ st.tokens :=
      fun st hst => ((hin.group ht hread) st hst).grows hq.grows
    refine (hblock s₁ r.statements (hs.quiet hq) hin₁).mono (fun cs s' h => ?_)
      (fun s' h => h.after hq.grows)
    obtain ⟨p, hp, hemitted⟩ := h
    exact ⟨p, .braces hgroup hread (hq.scope ▸ hp), hemitted.quiet_left hq⟩
  · exact .refl hs

/-- A `while` is compiled to the loop that it means. -/
theorem whileLoop_meets (hblock : BlockEmits U block) (hs : s.Sound U) {keyword : Token}
    {rest : List Token} (hin : U.Includes s (keyword :: rest))
    (hkind : Statement.kind ⟨keyword :: rest⟩ = .whileLoop) :
    (whileLoop block keyword rest).Meets s
      (fun cs s' => ∃ p, ReadsConstruct s.scope (.single ⟨keyword :: rest⟩) p ∧
        Emitted U s p cs s') (Broken U s) := by
  unfold whileLoop
  rw [meets_bind]
  refine meets_ofExcept (.refl hs) fun ⟨head, braces⟩ hhead => ?_
  obtain rfl := headAndBody_mem hhead
  refine (takeId_meets _).bind (fun s' hq => .quiet hs hq) fun id s₁ ⟨h₁, _⟩ => ?_
  refine (guard_meets (h₁.scope.symm ▸ hs.scope) (Condition.parse head)).bind
    (fun s' hq => .quiet hs (h₁.trans hq)) fun r s₂ h₂ => ?_
  obtain ⟨hq₂, g, n, hscope, hparse, rfl⟩ := h₂
  have hq : s.Quiet s₂ := h₁.trans hq₂
  rw [meets_bind, meets_call]
  refine (body_meets hblock (hs.quiet hq) (hin.grows hq.grows) (by simp)).bind
    (fun s' h => h.after hq.grows) fun commands s₃ h₃ => ?_
  obtain ⟨p, hp, hemitted⟩ := h₃
  refine (allocate_meets _ _ _).bind
    (fun s' hq' => (hemitted.quiet_left hq).broken.quiet_right hq') fun path s₄ h₄ => ?_
  have hg : g.scope = s.scope := hscope.trans h₁.scope
  rw [hq.scope, ← hg] at hp
  refine ⟨.repeatWhile g p, hg ▸ .whileLoop hkind hhead hparse hp, ?_⟩
  refine ((hemitted.quiet_left hq).loop g n h₄.2 ?_).1
  rw [h₄.2.settings, hemitted.grows.settings]

/-- A `do` is compiled to the loop that it means. -/
theorem doWhile_meets (hblock : BlockEmits U block) (hs : s.Sound U) {keyword : Token}
    {rest : List Token} {tail : Option Statement} (hin : U.Includes s (keyword :: rest)) :
    (doWhile block keyword rest tail).Meets s
      (fun cs s' => ∃ p, ReadsConstruct s.scope (.doWhile ⟨keyword :: rest⟩ tail) p ∧
        Emitted U s p cs s') (Broken U s) := by
  unfold doWhile
  split
  · next braces =>
    refine (takeId_meets _).bind (fun s' hq => .quiet hs hq) fun id s₁ ⟨h₁, _⟩ => ?_
    refine (body_meets hblock (hs.quiet h₁) (hin.grows h₁.grows) (by simp)).bind
      (fun s' h => h.after h₁.grows) fun commands s₂ h₂ => ?_
    obtain ⟨p, hp, hbody⟩ := h₂
    have hemitted : Emitted U s p commands s₂ := hbody.quiet_left h₁
    split
    · next whileKeyword tokens htail =>
      obtain ⟨tail, rfl, htokens⟩ := Option.map_eq_some_iff.mp htail
      obtain rfl : tail = ⟨whileKeyword :: tokens⟩ := by
        rw [← htokens]
      rw [meets_bind]
      refine meets_ofExcept hemitted.broken fun head hhead => ?_
      refine (guard_meets hemitted.sound.scope (Condition.parse head)).bind
        (fun s' hq => hemitted.broken.quiet_right hq) fun r s₃ h₃ => ?_
      obtain ⟨hq₃, g, n, hscope, hparse, rfl⟩ := h₃
      rw [meets_bind, meets_call]
      refine (allocate_meets _ _ _).bind
        (fun s' hq => hemitted.broken.quiet_right (hq₃.trans hq)) fun path s₄ h₄ => ?_
      have hg : g.scope = s.scope := hscope.trans hemitted.scope
      rw [h₁.scope, ← hg] at hp
      refine ⟨.doWhile p g, hg ▸ .doWhile hp hhead hparse, ?_⟩
      refine ((hemitted.quiet_right hq₃).loop g n h₄.2 ?_).2
      rw [h₄.2.settings]
    · exact hemitted.broken
  · exact .refl hs

/-- The variable of a `for` is renamed as it should be inside the loop. -/
theorem bindLoopVariable_meets (id : Nat) (tokens : List Token) {E : Session → Prop} :
    (bindLoopVariable id tokens).Meets { s with scope := s.scope.push }
      (fun _ s' => ∃ s₁, s.Quiet s₁ ∧ s' = { s₁ with scope := loopScope s.scope id tokens }) E := by
  match tokens with
  | [] => exact ⟨s, .refl s, rfl⟩
  | [_] => exact ⟨s, .refl s, rfl⟩
  | first :: second :: _ =>
    simp only [bindLoopVariable, loopScope]
    by_cases hlet : first.isWord "let" = true
    · simp only [if_pos hlet]
      cases leadingVariable? second.text with
      | none => exact ⟨s, .refl s, rfl⟩
      | some name => exact ⟨_, quiet_log s _, rfl⟩
    · simp only [if_neg hlet]
      exact ⟨s, .refl s, rfl⟩

/-- The parts of a `for`, from the session in which its variable is renamed. -/
theorem forParts_meets (hblock : BlockEmits U block) (hs : s.Sound U) (id : Nat)
    {start test step : Statement} {head braces : Token} (hstart : U.Includes s start.tokens)
    (hstep : U.Includes s step.tokens) (hin : U.Includes s tokens) (hbraces : braces ∈ tokens) :
    (forParts block id start test step head braces).Meets { s with scope := s.scope.push }
      (fun cs s' => ∃ (s₁ : Session) (g : Guard) (p q body : Program), s.Quiet s₁ ∧
        g.scope = loopScope s.scope id start.tokens ∧
        ReadsBlock g.scope (constructs [start]) p ∧
        (Condition.parseTokens head.position test.tokens).Gives g.condition ∧
        ReadsBlock g.scope (constructs [step]) q ∧ ReadsBody g.scope braces body ∧
        Emitted U { s₁ with scope := g.scope } (.forLoop p g q body) cs s')
      (fun s' => Broken U s s') := by
  unfold forParts
  refine (bindLoopVariable_meets id start.tokens).bind (fun _ h => h) fun _ s₂ h₂ => ?_
  obtain ⟨s₁, hq₁, rfl⟩ := h₂
  have hheld := loopScope_userHeld hs.scope id start.tokens
  generalize hscope : loopScope s.scope id start.tokens = scope at hheld ⊢
  have hs₂ : ({ s₁ with scope } : Session).Sound U := (hs.quiet hq₁).rescope hheld
  have hg₂ : s.Grows { s₁ with scope } := hq₁.grows.trans (s₁.grows_rescope scope)
  refine (hblock _ [start] hs₂ (by simpa using hstart.grows hg₂)).bind
    (fun s' h => h.after hg₂) fun startCommands s₃ h₃ => ?_
  obtain ⟨p, hp, hemitted₃⟩ := h₃
  have hg₃ : s.Grows s₃ := hg₂.trans hemitted₃.grows
  rw [← bind_assoc]
  refine (guard_meets hemitted₃.sound.scope _).bind
    (fun s' hq => (hemitted₃.broken.quiet_right hq).after hg₂) fun r s₄ h₄ => ?_
  obtain ⟨hq₄, g, n, hgscope, hparse, rfl⟩ := h₄
  have hg₄ : s.Grows s₄ := hg₃.trans hq₄.grows
  refine (hblock s₄ [step] (hemitted₃.sound.quiet hq₄) (by simpa using hstep.grows hg₄)).bind
    (fun s' h => h.after hg₄) fun stepCommands s₅ h₅ => ?_
  obtain ⟨q, hq, hemitted₅⟩ := h₅
  have hg₅ : s.Grows s₅ := hg₄.trans hemitted₅.grows
  rw [meets_bind, meets_call]
  refine (body_meets hblock hemitted₅.sound (hin.grows hg₅) hbraces).bind
    (fun s' h => h.after hg₅) fun commands s₆ h₆ => ?_
  obtain ⟨body, hbody, hemitted₆⟩ := h₆
  refine (allocate_meets _ _ _).bind
    (fun s' hq => (hemitted₆.broken.quiet_right hq).after hg₅) fun path s₇ h₇ => ?_
  have hg : g.scope = scope := hgscope.trans hemitted₃.scope
  have hscope₄ : s₄.scope = g.scope := hq₄.scope.trans hgscope.symm
  rw [hscope₄] at hq
  rw [hemitted₅.scope, hscope₄] at hbody
  refine ⟨s₁, g, p, q, body, hq₁, hg, hg ▸ hp, hparse, hq, hbody, ?_⟩
  have hloop := ((hemitted₅.seq_swap hemitted₆).loop g n h₇.2 (by
    rw [h₇.2.settings, hemitted₆.grows.settings])).1
  rw [hg]
  exact hemitted₃.seq (hloop.quiet_left hq₄)

/-- A `for` is compiled to the loop that it means. -/
theorem forLoop_meets (hblock : BlockEmits U block) (hs : s.Sound U) {keyword : Token}
    {rest : List Token} (hin : U.Includes s (keyword :: rest))
    (hkind : Statement.kind ⟨keyword :: rest⟩ = .forLoop) :
    (forLoop block keyword rest).Meets s
      (fun cs s' => ∃ p, ReadsConstruct s.scope (.single ⟨keyword :: rest⟩) p ∧
        Emitted U s p cs s') (Broken U s) := by
  unfold forLoop
  rw [meets_bind]
  refine meets_ofExcept (.refl hs) fun ⟨head, braces⟩ hhead => ?_
  obtain rfl := headAndBody_mem hhead
  refine (tokenizeInner_meets _ head).bind (fun s' hq => .quiet hs hq) fun statements s₁ h₁ => ?_
  obtain ⟨hq₁, r, hread, rfl⟩ := h₁
  have hin₁ : ∀ st ∈ r.statements, U.Includes s₁ st.tokens :=
    fun st hst => ((hin.group (by simp) hread) st hst).grows hq₁.grows
  split
  · next start test step hparts =>
    refine (takeId_meets _).bind (fun s' hq => .quiet hs (hq₁.trans hq))
      fun id s₂ ⟨h₂, _⟩ => ?_
    have hq : s.Quiet s₂ := hq₁.trans h₂
    rw [meets_inScope]
    refine (forParts_meets hblock (hs.quiet hq) id
      ((hin₁ start (by simp [hparts])).grows h₂.grows)
      ((hin₁ step (by simp [hparts])).grows h₂.grows) (hin.grows hq.grows) (by simp)).mono
      (fun cs s' h => ?_) (fun s' h => ?_)
    · obtain ⟨s₃, g, p, q, body, hq₃, hscope, hp, hparse, hq', hbody, hemitted⟩ := h
      rw [hq.scope] at hscope
      have hpop : s'.scope.pop = s₃.scope := by
        rw [hemitted.scope, hq₃.scope, hq.scope]
        exact (congrArg Scope.pop hscope).trans (loopScope_pop ..)
      refine ⟨.forLoop p g q body, .forLoop id hkind hhead hread hparts hscope hp hparse hq' hbody, ?_⟩
      rw [hpop]
      exact (hemitted.rescope ((hs.quiet (hq.trans hq₃)).scope)).quiet_left (hq.trans hq₃)
    · exact ⟨(hq.grows.trans h.grows).trans (s'.grows_rescope _), h.sound.rescope h.sound.scope.pop⟩
  · exact .quiet hs hq₁

end Compile

end Packwright
