import Packwright.Proofs.Session.Mirrors

/-!
# Scopes of loop variables

The variable of a `for` is known inside the loop and nowhere else. Whatever the compiler reads as a
score, the holder of a variable is that of the innermost loop around it that declares the variable, and
the name itself where there is no such loop. No two loops of a session have a holder in common. Behind
a task, be it one that fails inside loops, the renamings are those from before.

## Main definitions

- `Compile.ReadsWithin` — a step inside loops does what another one does outside of them
- `ReadsHolders` — the steps that read names find the holders that these have inside loops

## Main results

- `readsHolders` — scores, operands, conditions and arguments inside loops
- `Session.trace_accounts` — the record of a session accounts for all that happened
- `loop_variables_are_lexical` — holders are found by the loops around a place
-/

namespace Packwright

/-! ### Reading inside loops -/

/-- The operand with the holder that its variable has inside loops. -/
def Operand.within (loops : List ForLoop) : Operand → Operand
  | .int n => .int n
  | .score s => .score (s.within loops)

namespace Compile

variable {α β γ δ : Type} {loops : List ForLoop} {f : α → β} {g : γ → δ}

/-- Inside loops the second step gives what the first one gives outside of them, but for the given
difference, and does the same to the session. -/
def ReadsWithin (loops : List ForLoop) (f : α → β) (m : Compile α) (m' : Compile β) : Prop :=
  ∀ s : Session, m'.outcome (s.inside loops) =
      ((m.outcome (s.inside [])).1.map f, (m.outcome (s.inside [])).2.inside loops) ∧
    (m.outcome (s.inside [])).2.scope = {}

/-- One step after another. -/
theorem ReadsWithin.bind {m : Compile α} {m' : Compile β} {k : α → Compile γ} {k' : β → Compile δ}
    (h : ReadsWithin loops f m m') (hk : ∀ a, ReadsWithin loops g (k a) (k' (f a))) :
    ReadsWithin loops g (m >>= k) (m' >>= k') := by
  intro s
  obtain ⟨hrun, hscope⟩ := h s
  rw [outcome_bind, outcome_bind, hrun]
  generalize m.outcome (s.inside []) = first at hscope
  obtain ⟨result, s'⟩ := first
  cases result with
  | error e => exact ⟨rfl, hscope⟩
  | ok a =>
    -- the first step has left the session outside of loops
    have hsame : s' = s'.inside [] := by
      unfold Session.inside
      rw [show scopeOf [] = s'.scope from hscope.symm]
    show (k' (f a)).outcome (s'.inside loops) =
        (((k a).outcome s').1.map g, ((k a).outcome s').2.inside loops) ∧
      ((k a).outcome s').2.scope = {}
    rw [hsame]
    exact hk a s'

theorem readsWithin_pure (a : α) : ReadsWithin loops f (pure a) (pure (f a)) :=
  fun _ => ⟨rfl, rfl⟩

theorem readsWithin_fail (fault : Fault) : ReadsWithin loops f (fail fault) (fail fault) :=
  fun _ => ⟨rfl, rfl⟩

theorem readsWithin_failAt (t : Token) (cause : Cause) :
    ReadsWithin loops f (failAt t cause) (failAt t cause) :=
  readsWithin_fail _

theorem readsWithin_ofExcept (x : Except Fault α) :
    ReadsWithin loops id (ofExcept x) (ofExcept x) := by
  cases x <;> exact fun _ => ⟨rfl, rfl⟩

theorem readsWithin_score? (text : String) :
    ReadsWithin loops (Option.map (Score.within loops)) (score? text) (score? text) := by
  intro s
  refine ⟨?_, rfl⟩
  show (Except.ok (Score.parseIn? (scopeOf loops) text), s.inside loops) =
    (Except.ok ((Score.parseIn? (scopeOf []) text).map (Score.within loops)), s.inside loops)
  rw [Score.parseIn?_scopeOf, show scopeOf [] = {} from rfl, Score.parseIn?_empty]

/-- A step that goes on with a score goes on with the one that is meant inside loops. -/
theorem readsWithin_bind_score? {f : γ → γ} {text : String} (k : Option Score → Compile γ)
    (hk : ∀ found, ReadsWithin loops f (k found) (k (found.map (Score.within loops)))) :
    ReadsWithin loops f (score? text >>= k) (score? text >>= k) :=
  (readsWithin_score? text).bind hk

theorem readsWithin_score (text : String) (t : Token) :
    ReadsWithin loops (Score.within loops) (score text t) (score text t) := by
  unfold score
  refine readsWithin_bind_score? _ fun found => ?_
  cases found with
  | none => exact readsWithin_failAt _ _
  | some s => exact readsWithin_pure s

theorem readsWithin_switchScore (head : Token) :
    ReadsWithin loops (Score.within loops) (switchScore head) (switchScore head) := by
  unfold switchScore
  refine readsWithin_bind_score? _ fun found => ?_
  cases found with
  | none => exact readsWithin_failAt _ _
  | some s => exact readsWithin_pure s

theorem readsWithin_render (c : Condition) :
    ReadsWithin loops (Rendered.within loops) (render c) (render c) := by
  intro s
  have hscope : ∀ outer : List ForLoop, (s.inside outer).scope = scopeOf outer := fun _ => rfl
  rw [render_outcome, render_outcome, hscope, hscope, show scopeOf [] = {} from rfl,
    c.rendering_scopeOf loops]
  simp only [ExceptT.run_map, StateT.run_map]
  exact ⟨rfl, rfl⟩

theorem readsWithin_checkSingle (value : Token) (rest : List Token) :
    ReadsWithin loops id (checkSingle value rest) (checkSingle value rest) := by
  unfold checkSingle
  split
  · exact readsWithin_fail _
  split
  · exact readsWithin_pure _
  split
  · exact readsWithin_fail _
  · exact readsWithin_failAt _ _

theorem readsWithin_operand (o : Operator) (target : Token) (right : List Token) :
    ReadsWithin loops (Prod.map id (Operand.within loops)) (operand o target right)
      (operand o target right) := by
  cases right with
  | nil => exact readsWithin_failAt _ _
  | cons value rest =>
    refine (readsWithin_checkSingle value rest).bind fun _ => ?_
    refine (readsWithin_ofExcept value.scoreValue).bind fun n => ?_
    cases n with
    | some n => exact readsWithin_pure (value, Operand.int n)
    | none =>
      cases value.word? with
      | none => exact readsWithin_failAt _ _
      | some word =>
        intro s
        have hinside : (s.inside loops).scope = scopeOf loops := rfl
        have houtside : (s.inside []).scope = {} := rfl
        simp only [id_eq, Option.bind_some, outcome_get_bind, hinside, houtside,
          Score.parseIn?_scopeOf, Score.parseIn?_empty]
        cases Score.parse? word with
        | none => exact readsWithin_failAt _ _ s
        | some score =>
          exact readsWithin_pure (f := Prod.map id (Operand.within loops))
            (value, Operand.score score) s

theorem isValueToken_scopeOf (loops : List ForLoop) (t : Token) :
    isValueToken (scopeOf loops) t = isValueToken {} t := by
  unfold isValueToken
  simp only [Score.parseIn?_scopeOf, Score.parseIn?_empty, Option.isSome_map]

end Compile

/-- What names stand for inside loops: every step that reads scores reads those that are written, with
the holders that their variables have inside these loops. -/
structure ReadsHolders (loops : List ForLoop) : Prop where
  /-- The target of a variable statement. -/
  score : ∀ text t, Compile.ReadsWithin loops (Score.within loops) (Compile.score text t)
    (Compile.score text t)
  /-- The right side of an operator. -/
  operand : ∀ o target right, Compile.ReadsWithin loops (Prod.map id (Operand.within loops))
    (Compile.operand o target right) (Compile.operand o target right)
  /-- Whether a right side is a value. -/
  value : ∀ t, Compile.isValueToken (scopeOf loops) t = Compile.isValueToken {} t
  /-- A condition, be it in a group of its own or in the head of a `for`. -/
  condition : ∀ c, Compile.ReadsWithin loops (Rendered.within loops) (Compile.render c)
    (Compile.render c)
  /-- The head of a switch. -/
  switchScore : ∀ head, Compile.ReadsWithin loops (Score.within loops) (Compile.switchScore head)
    (Compile.switchScore head)
  /-- The arguments of a built-in function. -/
  arguments : ∀ (b : Builtin) args, b.bind (scopeOf loops) args =
    (b.bind {} args).map (Bindings.within loops)

theorem readsHolders (loops : List ForLoop) : ReadsHolders loops where
  score := Compile.readsWithin_score
  operand := Compile.readsWithin_operand
  value := Compile.isValueToken_scopeOf loops
  condition := Compile.readsWithin_render
  switchScore := Compile.readsWithin_switchScore
  arguments := Builtin.bind_scopeOf loops

/-! ### Sessions -/

/-- The innermost loop that declares a name is the first one of those around. -/
theorem holderIn_eq (loops : List ForLoop) (name : String) :
    holderIn loops name = match loops.find? fun l => l.declared? = some name with
      | some l => l.holder name
      | none => name := by
  induction loops with
  | nil => rfl
  | cons l outer ih =>
    rw [holderIn, List.find?_cons]
    by_cases hdeclared : l.declared? = some name
    · rw [if_pos hdeclared, decide_eq_true hdeclared]
    · rw [if_neg hdeclared, decide_eq_false hdeclared, ih]

/-- Loops with consecutive numbers have no holder in common. -/
theorem pairwise_holder_ne {loops : List ForLoop} {first : Nat}
    (h : loops.map ForLoop.id = List.range' first loops.length) :
    loops.Pairwise fun l l' => ∀ name name', l.holder name ≠ l'.holder name' := by
  have hnodup : (loops.map ForLoop.id).Nodup := h ▸ List.nodup_range'
  rw [List.Nodup, List.pairwise_map] at hnodup
  exact hnodup.imp fun hne name name' hsame => hne (ForLoop.holder_inj hsame)

/-- In any session, be it one in which tasks failed, a task does what it does when every name is read
with the loops around its place, of which the header counts as inside. There a name has the holder of
the innermost loop that declares it, or its own. The renamings behind the task are those from before it,
and no two loops of the session have a holder in common: a session that is out of numbers for loops
stops at the next one, and gives no number again. -/
theorem loop_variables_are_lexical (settings : Settings) (tasks : List Task) (t : Task) :
    let s := (Session.new settings).after tasks
    t.compile.outcome s = (t.traced s).1 ∧ (∀ loops, ReadsHolders loops) ∧
      (∀ loops name, holderIn loops name =
        match loops.find? fun l => l.declared? = some name with
        | some l => l.holder name
        | none => name) ∧
      (t.compile.outcome s).2.scope = s.scope ∧
      (((Session.new settings).trace tasks).filterMap Event.loop?).Pairwise
        fun l l' => ∀ name name', l.holder name ≠ l'.holder name' := by
  intro s
  have hscope := Session.after_scope settings tasks
  refine ⟨Session.outcome_traced hscope t, readsHolders, holderIn_eq, ?_, ?_⟩
  · rw [Session.outcome_traced hscope t]
    exact (t.mirrors.accounts s).scope
  · exact pairwise_holder_ne (Session.trace_accounts (s := .new settings) rfl tasks).loops

end Packwright
