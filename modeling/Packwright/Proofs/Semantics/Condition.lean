import Packwright.Condition.Tree
import Packwright.Proofs.Semantics.Flags

/-!
# The meaning of rendered conditions

A condition has a Boolean value in every state: that of its connectives over its comparisons.
Rendering gives clauses and commands that run before them. After these commands every clause has the
value of the part of the condition it comes from, and each disjunction has its value in a flag of
its own. A negation turns every clause of its operand, so the clauses together have the value of the
condition as long as negations are applied to single clauses.

## Main definitions

- `Condition.value` — the value of a condition
- `Condition.disjunctions` — the disjunctions of a condition, each before those inside it
- `Condition.NegatesSingles` — negation is applied to single clauses only
- `Condition.SplitsConjunctions` — no conjunction under a negation without a disjunction between

## Main results

- `Condition.render_literals` — the clauses of any condition after its commands
- `Condition.render_value` — the value of a condition whose negations are single
- `Condition.rendering_computes_value` — the same with the flags that are used
-/

namespace Packwright

namespace Condition

variable {W : Type}

/-! ### Values -/

mutual

/-- The value of a condition in a state. -/
def value (m : Machine W) (scope : Scope) (s : State W) : Condition → Bool
  | .leaf tokens => (Clause.ofText scope (leafText tokens)).holds m s
  | .all body => valueAll m scope s body
  | .any body => valueAny m scope s body
  | .not body => !value m scope s body

/-- Whether all parts hold. -/
def valueAll (m : Machine W) (scope : Scope) (s : State W) : List Condition → Bool
  | [] => true
  | c :: rest => value m scope s c && valueAll m scope s rest

/-- Whether some part holds. -/
def valueAny (m : Machine W) (scope : Scope) (s : State W) : List Condition → Bool
  | [] => false
  | c :: rest => value m scope s c || valueAny m scope s rest

end

mutual

/-- The clauses of the comparisons of a condition. -/
def leafClauses (scope : Scope) : Condition → List Clause
  | .leaf tokens => [Clause.ofText scope (leafText tokens)]
  | .all body | .any body => leafClausesIn scope body
  | .not body => leafClauses scope body

/-- The clauses of the comparisons of several conditions. -/
def leafClausesIn (scope : Scope) : List Condition → List Clause
  | [] => []
  | c :: rest => leafClauses scope c ++ leafClausesIn scope rest

end

mutual

/-- The disjunctions of a condition, each before those inside it. -/
def disjunctions : Condition → List Condition
  | .leaf _ => []
  | .all body => disjunctionsIn body
  | .any body => .any body :: disjunctionsIn body
  | .not body => disjunctions body

/-- The disjunctions of several conditions in order. -/
def disjunctionsIn : List Condition → List Condition
  | [] => []
  | c :: rest => disjunctions c ++ disjunctionsIn rest

end

mutual

/-- What the clauses of a rendered condition come to, one by one: a negation turns each of them. -/
def literals (m : Machine W) (scope : Scope) (s : State W) : Condition → List Bool
  | .leaf tokens => [(Clause.ofText scope (leafText tokens)).holds m s]
  | .all body => literalsAll m scope s body
  | .any body => [literalsAny m scope s body]
  | .not body => (literals m scope s body).map (!·)

/-- What the clauses of a conjunction come to. -/
def literalsAll (m : Machine W) (scope : Scope) (s : State W) : List Condition → List Bool
  | [] => []
  | c :: rest => literals m scope s c ++ literalsAll m scope s rest

/-- Whether the clauses of some part all hold. -/
def literalsAny (m : Machine W) (scope : Scope) (s : State W) : List Condition → Bool
  | [] => false
  | c :: rest => (literals m scope s c).all id || literalsAny m scope s rest

end

mutual

/-- What the flags of a rendered condition come to, in their order. -/
def flagValues (m : Machine W) (scope : Scope) (s : State W) : Condition → List Bool
  | .leaf _ => []
  | .all body => flagValuesIn m scope s body
  | .any body => literalsAny m scope s body :: flagValuesIn m scope s body
  | .not body => flagValues m scope s body

/-- What the flags of several conditions come to. -/
def flagValuesIn (m : Machine W) (scope : Scope) (s : State W) : List Condition → List Bool
  | [] => []
  | c :: rest => flagValues m scope s c ++ flagValuesIn m scope s rest

end

/-! ### Conditions on negations -/

mutual

/-- Number of clauses a condition is rendered to. -/
def clauseCount : Condition → Nat
  | .leaf _ => 1
  | .all body => clauseCountAll body
  | .any _ => 1
  | .not body => clauseCount body

/-- Number of clauses of a conjunction. -/
def clauseCountAll : List Condition → Nat
  | [] => 0
  | c :: rest => clauseCount c + clauseCountAll rest

end

mutual

/-- Negation is applied only to operands that are rendered to a single clause. -/
def NegatesSingles : Condition → Prop
  | .leaf _ => True
  | .all body | .any body => NegatesSinglesIn body
  | .not body => clauseCount body = 1 ∧ NegatesSingles body

/-- Negation is applied to single clauses in all parts. -/
def NegatesSinglesIn : List Condition → Prop
  | [] => True
  | c :: rest => NegatesSingles c ∧ NegatesSinglesIn rest

end

mutual

/-- Whether negation is applied to single clauses only can be computed. -/
def decideNegatesSingles : (c : Condition) → Decidable (NegatesSingles c)
  | .leaf _ => .isTrue trivial
  | .all body | .any body => decideNegatesSinglesIn body
  | .not body => @instDecidableAnd _ _ inferInstance (decideNegatesSingles body)

/-- The same for all parts. -/
def decideNegatesSinglesIn : (body : List Condition) → Decidable (NegatesSinglesIn body)
  | [] => .isTrue trivial
  | c :: rest => @instDecidableAnd _ _ (decideNegatesSingles c) (decideNegatesSinglesIn rest)

end

instance : DecidablePred NegatesSingles := decideNegatesSingles

/-- Whether a conjunction can be reached without going through a disjunction. -/
def exposesConjunction : Condition → Bool
  | .leaf _ | .any _ => false
  | .all _ => true
  | .not body => exposesConjunction body

mutual

/-- No conjunction lies under a negation without a disjunction in between. -/
def SplitsConjunctions : Condition → Prop
  | .leaf _ => True
  | .all body | .any body => SplitsConjunctionsIn body
  | .not body => exposesConjunction body = false ∧ SplitsConjunctions body

/-- No part has a conjunction under a negation without a disjunction in between. -/
def SplitsConjunctionsIn : List Condition → Prop
  | [] => True
  | c :: rest => SplitsConjunctions c ∧ SplitsConjunctionsIn rest

end

theorem clauseCount_eq_one : (c : Condition) → exposesConjunction c = false → clauseCount c = 1
  | .leaf _, _ => rfl
  | .any _, _ => rfl
  | .all _, h => by simp [exposesConjunction] at h
  | .not body, h => clauseCount_eq_one body h

mutual

theorem SplitsConjunctions.negatesSingles :
    (c : Condition) → SplitsConjunctions c → NegatesSingles c
  | .leaf _, _ => trivial
  | .all body, h => SplitsConjunctionsIn.negatesSinglesIn body h
  | .any body, h => SplitsConjunctionsIn.negatesSinglesIn body h
  | .not body, h =>
    ⟨clauseCount_eq_one body h.1, SplitsConjunctions.negatesSingles body h.2⟩

theorem SplitsConjunctionsIn.negatesSinglesIn :
    (body : List Condition) → SplitsConjunctionsIn body → NegatesSinglesIn body
  | [], _ => trivial
  | c :: rest, h =>
    ⟨SplitsConjunctions.negatesSingles c h.1, SplitsConjunctionsIn.negatesSinglesIn rest h.2⟩

end

/-! ### Literals and values -/

mutual

@[simp] theorem length_literals (m : Machine W) (scope : Scope) (s : State W) :
    (c : Condition) → (literals m scope s c).length = clauseCount c
  | .leaf _ => rfl
  | .all body => length_literalsAll m scope s body
  | .any _ => rfl
  | .not body => by
    rw [literals, List.length_map, clauseCount]
    exact length_literals m scope s body

@[simp] theorem length_literalsAll (m : Machine W) (scope : Scope) (s : State W) :
    (body : List Condition) → (literalsAll m scope s body).length = clauseCountAll body
  | [] => rfl
  | c :: rest => by
    rw [literalsAll, List.length_append, clauseCountAll, length_literals m scope s c,
      length_literalsAll m scope s rest]

end

mutual

/-- With single negations, a condition holds when all its literals hold. -/
theorem all_literals (m : Machine W) (scope : Scope) (s : State W) :
    (c : Condition) → NegatesSingles c → (literals m scope s c).all id = value m scope s c
  | .leaf _, _ => by simp [literals, value]
  | .all body, h => all_literalsAll m scope s body h
  | .any body, h => by
    simp [literals, value, literalsAny_eq m scope s body h]
  | .not body, h => by
    have hlength : (literals m scope s body).length = 1 := by
      rw [length_literals]
      exact h.1
    obtain ⟨b, hb⟩ := List.length_eq_one_iff.mp hlength
    have hvalue := all_literals m scope s body h.2
    rw [hb] at hvalue
    simp only [literals, value, hb, ← hvalue]
    simp

theorem all_literalsAll (m : Machine W) (scope : Scope) (s : State W) :
    (body : List Condition) → NegatesSinglesIn body →
      (literalsAll m scope s body).all id = valueAll m scope s body
  | [], _ => rfl
  | c :: rest, h => by
    rw [literalsAll, List.all_append, all_literals m scope s c h.1,
      all_literalsAll m scope s rest h.2, valueAll]

theorem literalsAny_eq (m : Machine W) (scope : Scope) (s : State W) :
    (body : List Condition) → NegatesSinglesIn body →
      literalsAny m scope s body = valueAny m scope s body
  | [], _ => rfl
  | c :: rest, h => by
    rw [literalsAny, valueAny, all_literals m scope s c h.1, literalsAny_eq m scope s rest h.2]

end

/-! ### States that differ in flags -/

section

variable {m : Machine W} {scope : Scope} {F : Score → Prop} {s t : State W}

mutual

theorem literals_congr (h : s.AgreeOff F t) :
    (c : Condition) → (∀ l ∈ leafClauses scope c, l.Ignores m F) →
      literals m scope s c = literals m scope t c
  | .leaf tokens, hleaf => by
    have hl := hleaf (Clause.ofText scope (leafText tokens)) (by simp [leafClauses])
    rw [literals, literals, hl s t h]
  | .all body, hleaf => literalsAll_congr h body hleaf
  | .any body, hleaf => by rw [literals, literals, literalsAny_congr h body hleaf]
  | .not body, hleaf => by rw [literals, literals, literals_congr h body hleaf]

theorem literalsAll_congr (h : s.AgreeOff F t) :
    (body : List Condition) → (∀ l ∈ leafClausesIn scope body, l.Ignores m F) →
      literalsAll m scope s body = literalsAll m scope t body
  | [], _ => rfl
  | c :: rest, hleaf => by
    rw [literalsAll, literalsAll,
      literals_congr h c fun l hl => hleaf l (List.mem_append_left _ hl),
      literalsAll_congr h rest fun l hl => hleaf l (List.mem_append_right _ hl)]

theorem literalsAny_congr (h : s.AgreeOff F t) :
    (body : List Condition) → (∀ l ∈ leafClausesIn scope body, l.Ignores m F) →
      literalsAny m scope s body = literalsAny m scope t body
  | [], _ => rfl
  | c :: rest, hleaf => by
    rw [literalsAny, literalsAny,
      literals_congr h c fun l hl => hleaf l (List.mem_append_left _ hl),
      literalsAny_congr h rest fun l hl => hleaf l (List.mem_append_right _ hl)]

end

mutual

theorem flagValues_congr (h : s.AgreeOff F t) :
    (c : Condition) → (∀ l ∈ leafClauses scope c, l.Ignores m F) →
      flagValues m scope s c = flagValues m scope t c
  | .leaf _, _ => rfl
  | .all body, hleaf => flagValuesIn_congr h body hleaf
  | .any body, hleaf => by
    rw [flagValues, flagValues, literalsAny_congr h body hleaf, flagValuesIn_congr h body hleaf]
  | .not body, hleaf => flagValues_congr h body hleaf

theorem flagValuesIn_congr (h : s.AgreeOff F t) :
    (body : List Condition) → (∀ l ∈ leafClausesIn scope body, l.Ignores m F) →
      flagValuesIn m scope s body = flagValuesIn m scope t body
  | [], _ => rfl
  | c :: rest, hleaf => by
    rw [flagValuesIn, flagValuesIn,
      flagValues_congr h c fun l hl => hleaf l (List.mem_append_left _ hl),
      flagValuesIn_congr h rest fun l hl => hleaf l (List.mem_append_right _ hl)]

end

end

/-! ### Flags are numbered without gaps -/

mutual

/-- There is one flag for each disjunction, and it comes to what the disjunction comes to. -/
theorem flagValues_eq (m : Machine W) (scope : Scope) (s : State W) :
    (c : Condition) →
      flagValues m scope s c = (disjunctions c).map fun d => (literals m scope s d).all id
  | .leaf _ => rfl
  | .all body => flagValuesIn_eq m scope s body
  | .any body => by
    rw [flagValues, disjunctions, List.map_cons, flagValuesIn_eq m scope s body]
    simp [literals]
  | .not body => flagValues_eq m scope s body

theorem flagValuesIn_eq (m : Machine W) (scope : Scope) (s : State W) :
    (body : List Condition) →
      flagValuesIn m scope s body =
        (disjunctionsIn body).map fun d => (literals m scope s d).all id
  | [] => rfl
  | c :: rest => by
    rw [flagValuesIn, disjunctionsIn, List.map_append, flagValues_eq m scope s c,
      flagValuesIn_eq m scope s rest]

end

@[simp] theorem length_flagValues (m : Machine W) (scope : Scope) (s : State W) (c : Condition) :
    (flagValues m scope s c).length = (disjunctions c).length := by
  rw [flagValues_eq, List.length_map]

@[simp] theorem length_flagValuesIn (m : Machine W) (scope : Scope) (s : State W)
    (body : List Condition) :
    (flagValuesIn m scope s body).length = (disjunctionsIn body).length := by
  rw [flagValuesIn_eq, List.length_map]

mutual

/-- One flag is used for each disjunction. -/
theorem render_snd (scope : Scope) :
    (c : Condition) → (n : Nat) → (render scope c n).2 = n + (disjunctions c).length
  | .leaf _, _ => rfl
  | .all body, n => renderAll_snd scope body n
  | .any body, n => by
    rw [render, disjunctions, List.length_cons]
    have h := renderAny_snd scope (logicFlag n) body (n + 1)
    simp only [h]
    omega
  | .not body, n => by
    rw [render, disjunctions]
    exact render_snd scope body n

theorem renderAll_snd (scope : Scope) :
    (body : List Condition) → (n : Nat) →
      (renderAll scope body n).2 = n + (disjunctionsIn body).length
  | [], _ => rfl
  | c :: rest, n => by
    rw [renderAll, disjunctionsIn, List.length_append]
    simp only [renderAll_snd scope rest, render_snd scope c]
    omega

theorem renderAny_snd (scope : Scope) (flag : Score) :
    (body : List Condition) → (n : Nat) →
      (renderAny scope flag body n).2 = n + (disjunctionsIn body).length
  | [], _ => rfl
  | c :: rest, n => by
    rw [renderAny, disjunctionsIn, List.length_append]
    simp only [renderAny_snd scope flag rest, render_snd scope c]
    omega

end

/-! ### Running the commands of a condition -/

/-- The flags from number `n` on hold the given values. -/
def FlagsHold (s : State W) (n : Nat) (values : List Bool) : Prop :=
  ∀ i b, values[i]? = some b → s.scores (logicFlag (n + i)) = some (if b then 1 else 0)

theorem FlagsHold.nil (s : State W) (n : Nat) : FlagsHold s n [] := by
  intro i b h
  simp at h

theorem FlagsHold.append {s : State W} {n : Nat} {bs cs : List Bool} (hb : FlagsHold s n bs)
    (hc : FlagsHold s (n + bs.length) cs) : FlagsHold s n (bs ++ cs) := by
  intro i b h
  rw [List.getElem?_append] at h
  split at h
  · exact hb i b h
  · next hi =>
    have hnumber : n + bs.length + (i - bs.length) = n + i := by omega
    have hvalue := hc (i - bs.length) b h
    rwa [hnumber] at hvalue

/-- Flags keep their values when only other scores change. -/
theorem FlagsHold.frame {F : Score → Prop} {s t : State W} {n : Nat} {bs : List Bool}
    (h : FlagsHold s n bs) (hst : s.AgreeOff F t)
    (hF : ∀ k, n ≤ k → k < n + bs.length → ¬ F (logicFlag k)) : FlagsHold t n bs := by
  intro i b hi
  obtain ⟨hlt, -⟩ := List.getElem?_eq_some_iff.mp hi
  rw [← hst.2 _ (hF (n + i) (by omega) (by omega))]
  exact h i b hi

/-- After the commands of a condition: only its flags have changed, they have their values, and so
have the clauses in every state that differs at most in other flags. -/
structure Prepared (m : Machine W) (s s' : State W) (n : Nat) (values lits : List Bool)
    (parts : List Clause) : Prop where
  frame : s.AgreeOff (logicFlags n (n + values.length)) s'
  flags : FlagsHold s' n values
  clauses : ∀ t, s'.AgreeOff (fun f => isLogicFlag f ∧ ¬ logicFlags n (n + values.length) f) t →
    parts.map (·.holds m t) = lits

namespace Prepared

variable {m : Machine W} {s s₁ s₂ : State W} {n : Nat} {bs cs lits lits' : List Bool}
  {clauses clauses' : List Clause}

/-- The clauses have their values directly after the commands. -/
theorem holds (h : Prepared m s s₁ n bs lits clauses) : clauses.map (·.holds m s₁) = lits :=
  h.clauses s₁ (.refl _ s₁)

theorem all_holds (h : Prepared m s s₁ n bs lits clauses) :
    clauses.all (·.holds m s₁) = lits.all id := by
  rw [← h.holds, List.all_map]
  rfl

/-- A second condition with flags behind those of the first does not disturb it. -/
theorem append (h : Prepared m s s₁ n bs lits clauses)
    (h' : Prepared m s₁ s₂ (n + bs.length) cs lits' clauses') :
    Prepared m s s₂ n (bs ++ cs) (lits ++ lits') (clauses ++ clauses') := by
  have hlength : n + (bs ++ cs).length = n + bs.length + cs.length := by
    rw [List.length_append]
    omega
  refine ⟨?_, ?_, ?_⟩
  · rw [hlength]
    exact (h.frame.mono fun _ => logicFlags_mono le_rfl (by omega)).trans
      (h'.frame.mono fun _ => logicFlags_mono (by omega) le_rfl)
  · refine FlagsHold.append (h.flags.frame h'.frame fun k _ hk => ?_) h'.flags
    rw [logicFlags_logicFlag]
    omega
  · intro t ht
    rw [hlength] at ht
    rw [List.map_append]
    congr 1
    · -- the flags of the second condition are other flags for the first
      refine h.clauses t ((h'.frame.mono fun f hf => ?_).trans (ht.mono fun f hf => ?_))
      · obtain ⟨k, hlow, hhigh, rfl⟩ := hf
        rw [logicFlags_logicFlag]
        exact ⟨⟨k, rfl⟩, by omega⟩
      · exact ⟨hf.1, fun hin => hf.2 (logicFlags_mono le_rfl (by omega) hin)⟩
    · refine h'.clauses t (ht.mono fun f hf => ?_)
      exact ⟨hf.1, fun hin => hf.2 (logicFlags_mono (by omega) le_rfl hin)⟩

theorem negate (h : Prepared m s s₁ n bs lits clauses) :
    Prepared m s s₁ n bs (lits.map (!·)) (clauses.map Clause.negate) := by
  refine ⟨h.frame, h.flags, fun t ht => ?_⟩
  rw [← h.clauses t ht, List.map_map, List.map_map]
  exact List.map_congr_left fun c _ => Clause.holds_negate m t c

end Prepared

section

variable {m : Machine W} {scope : Scope}
  {call : ResourceLocation → State W → Option (State W)}

/-- After an `if` on the clauses, the flag of a disjunction is raised exactly when they hold. -/
theorem run_guarded_set {flag : Score} {clauses : List Clause} {b : Bool} {s : State W}
    (h : clauses.all (·.holds m s) = b) :
    (Command.guarded clauses (.set flag 1)).run m call s =
      some (if b then s.set flag 1 else s) := by
  rw [run_guarded, h]
  cases b <;> simp

mutual

/-- The commands of a condition end, and prepare its clauses. -/
theorem render_prepared :
    (c : Condition) → (n : Nat) → (s : State W) →
      (∀ l ∈ leafClauses scope c, l.Ignores m isLogicFlag) →
      ∃ s', runCommands m call (render scope c n).1.before s = some s' ∧
        Prepared m s s' n (flagValues m scope s c) (literals m scope s c)
          (render scope c n).1.clauses
  | .leaf tokens, n, s, hleaf => by
    refine ⟨s, rfl, .refl _ s, .nil s n, fun t ht => ?_⟩
    have hl := hleaf (Clause.ofText scope (leafText tokens)) (by simp [leafClauses])
    simp only [render, literals, List.map_cons, List.map_nil,
      hl s t (ht.mono fun f hf => hf.1)]
  | .all body, n, s, hleaf => renderAll_prepared body n s hleaf
  | .not body, n, s, hleaf => by
    obtain ⟨s', hrun, hprepared⟩ := render_prepared body n s hleaf
    exact ⟨s', hrun, hprepared.negate⟩
  | .any body, n, s, hleaf => by
    obtain ⟨s', hrun, hframe, hflag, hflags⟩ :=
      renderAny_prepared body (Nat.lt_succ_self n) (s.set (logicFlag n) 0) hleaf
    -- the disjunction itself is not seen by its parts
    have hset : s.AgreeOff isLogicFlag (s.set (logicFlag n) 0) :=
      (State.AgreeOff.refl _ s).set_right ⟨n, rfl⟩ 0
    rw [← literalsAny_congr hset body hleaf, State.set_scores_self] at hflag
    rw [← flagValuesIn_congr hset body hleaf] at hframe hflags
    have hlength : n + (flagValues m scope s (.any body)).length =
        n + 1 + (flagValuesIn m scope s body).length := by
      rw [flagValues, List.length_cons]
      omega
    refine ⟨s', ?_, ?_, ?_, ?_⟩
    · simp only [render, runCommands_cons, run_set, Option.bind_some]
      exact hrun
    · rw [hlength]
      have hown : logicFlags n (n + 1 + (flagValuesIn m scope s body).length) (logicFlag n) :=
        logicFlags_logicFlag.mpr ⟨le_rfl, by omega⟩
      refine ((State.AgreeOff.refl _ s).set_right hown 0).trans (hframe.mono fun f hf => ?_)
      rcases hf with rfl | hf
      · exact hown
      · exact logicFlags_mono (by omega) le_rfl hf
    · intro i b hi
      cases i with
      | zero =>
        simp only [flagValues, List.getElem?_cons_zero, Option.some.injEq] at hi
        subst hi
        rw [Nat.add_zero, hflag]
        cases literalsAny m scope s body <;> rfl
      | succ i =>
        have hvalue := hflags i b (by simpa [flagValues] using hi)
        rwa [show n + 1 + i = n + (i + 1) by omega] at hvalue
    · intro t ht
      rw [hlength] at ht
      have hread : t.scores (logicFlag n) = s'.scores (logicFlag n) := by
        refine (ht.2 (logicFlag n) fun hother => hother.2 ?_).symm
        exact logicFlags_logicFlag.mpr ⟨le_rfl, by omega⟩
      simp only [render, literals, List.map_cons, List.map_nil, Clause.holds, Test.holds, hread,
        hflag]
      cases literalsAny m scope s body <;> simp [ScoreRange.contains]

theorem renderAll_prepared :
    (body : List Condition) → (n : Nat) → (s : State W) →
      (∀ l ∈ leafClausesIn scope body, l.Ignores m isLogicFlag) →
      ∃ s', runCommands m call (renderAll scope body n).1.before s = some s' ∧
        Prepared m s s' n (flagValuesIn m scope s body) (literalsAll m scope s body)
          (renderAll scope body n).1.clauses
  | [], n, s, _ => ⟨s, rfl, .refl _ s, .nil s n, fun _ _ => rfl⟩
  | c :: rest, n, s, hleaf => by
    have hc : ∀ l ∈ leafClauses scope c, l.Ignores m isLogicFlag :=
      fun l hl => hleaf l (List.mem_append_left _ hl)
    have hrest : ∀ l ∈ leafClausesIn scope rest, l.Ignores m isLogicFlag :=
      fun l hl => hleaf l (List.mem_append_right _ hl)
    obtain ⟨s₁, hrun₁, h₁⟩ := render_prepared c n s hc
    obtain ⟨s₂, hrun₂, h₂⟩ := renderAll_prepared rest (render scope c n).2 s₁ hrest
    have hframe : s.AgreeOff isLogicFlag s₁ := h₁.frame.mono fun _ => isLogicFlag_of_logicFlags
    have hnext : (render scope c n).2 = n + (flagValues m scope s c).length := by
      rw [render_snd, length_flagValues]
    rw [← literalsAll_congr hframe rest hrest, ← flagValuesIn_congr hframe rest hrest] at h₂
    refine ⟨s₂, ?_, ?_⟩
    · simp only [renderAll, Rendered.and, runCommands_append, hrun₁, Option.bind_some]
      exact hrun₂
    · rw [hnext] at h₂
      have h := h₁.append h₂
      simp only [renderAll, Rendered.and, literalsAll, flagValuesIn, hnext]
      exact h

theorem renderAny_prepared :
    (body : List Condition) → {k n : Nat} → k < n → (s : State W) →
      (∀ l ∈ leafClausesIn scope body, l.Ignores m isLogicFlag) →
      ∃ s', runCommands m call (renderAny scope (logicFlag k) body n).1 s = some s' ∧
        s.AgreeOff (fun f => f = logicFlag k ∨
          logicFlags n (n + (flagValuesIn m scope s body).length) f) s' ∧
        s'.scores (logicFlag k) =
          (if literalsAny m scope s body then some 1 else s.scores (logicFlag k)) ∧
        FlagsHold s' n (flagValuesIn m scope s body)
  | [], k, n, _, s, _ => ⟨s, rfl, .refl _ s, by simp [literalsAny], .nil s n⟩
  | c :: rest, k, n, hk, s, hleaf => by
    have hc : ∀ l ∈ leafClauses scope c, l.Ignores m isLogicFlag :=
      fun l hl => hleaf l (List.mem_append_left _ hl)
    have hrest : ∀ l ∈ leafClausesIn scope rest, l.Ignores m isLogicFlag :=
      fun l hl => hleaf l (List.mem_append_right _ hl)
    obtain ⟨s₁, hrun₁, h₁⟩ := render_prepared c n s hc
    -- the state after the part has raised the flag, if it holds
    let s₂ := if (literals m scope s c).all id then s₁.set (logicFlag k) 1 else s₁
    have hrun₂ : (Command.guarded (render scope c n).1.clauses (.set (logicFlag k) 1)).run m call
        s₁ = some s₂ := run_guarded_set h₁.all_holds
    have h₁₂ : s₁.AgreeOff (· = logicFlag k) s₂ := by
      simp only [s₂]
      split
      · exact State.AgreeOff.set_right (F := (· = logicFlag k)) (.refl _ s₁) rfl 1
      · exact .refl _ s₁
    have hnext : (render scope c n).2 = n + (flagValues m scope s c).length := by
      rw [render_snd, length_flagValues]
    have hlt : k < (render scope c n).2 := by omega
    obtain ⟨s', hrun₃, hframe, hflag, hflags⟩ := renderAny_prepared rest hlt s₂ hrest
    have hs₂ : s.AgreeOff isLogicFlag s₂ :=
      (h₁.frame.mono fun _ => isLogicFlag_of_logicFlags).trans
        (h₁₂.mono fun _ h => ⟨k, h⟩)
    rw [← literalsAny_congr hs₂ rest hrest] at hflag
    rw [← flagValuesIn_congr hs₂ rest hrest, hnext] at hframe hflags
    have hlength : n + (flagValuesIn m scope s (c :: rest)).length =
        n + (flagValues m scope s c).length + (flagValuesIn m scope s rest).length := by
      rw [flagValuesIn, List.length_append]
      omega
    refine ⟨s', ?_, ?_, ?_, ?_⟩
    · simp only [renderAny, Rendered.guardedCommands, Rendered.guard, runCommands_append, hrun₁,
        Option.bind_some, runCommands_singleton, hrun₂]
      exact hrun₃
    · rw [hlength]
      refine ((h₁.frame.mono fun f hf => ?_).trans (h₁₂.mono fun f hf => .inl hf)).trans
        (hframe.mono fun f hf => hf.imp_right (logicFlags_mono (by omega) le_rfl))
      exact .inr (logicFlags_mono le_rfl (by omega) hf)
    · have hkept : s₁.scores (logicFlag k) = s.scores (logicFlag k) := by
        refine (h₁.frame.2 _ fun hin => ?_).symm
        have := logicFlags_logicFlag.mp hin
        omega
      rw [hflag, literalsAny]
      simp only [s₂]
      cases (literals m scope s c).all id <;> cases literalsAny m scope s rest <;> simp [hkept]
    · refine FlagsHold.append ((h₁.flags.frame h₁₂ ?_).frame hframe ?_) hflags
      · intro j hj _ heq
        have := logicFlag_inj.mp heq
        omega
      · intro j hj hj' hin
        rcases hin with heq | hin
        · have := logicFlag_inj.mp heq
          omega
        · have := logicFlags_logicFlag.mp hin
          omega

end

end

mutual

/-- The commands of a condition call no function. -/
theorem calls_render_before (scope : Scope) :
    (c : Condition) → (n : Nat) → (render scope c n).1.before.flatMap Command.calls = []
  | .leaf _, _ => rfl
  | .all body, n => calls_renderAll_before scope body n
  | .any body, n => calls_renderAny scope (logicFlag n) body (n + 1)
  | .not body, n => calls_render_before scope body n

theorem calls_renderAll_before (scope : Scope) :
    (body : List Condition) → (n : Nat) →
      (renderAll scope body n).1.before.flatMap Command.calls = []
  | [], _ => rfl
  | c :: rest, n => by
    simp only [renderAll, Rendered.and, List.flatMap_append, calls_render_before scope c,
      calls_renderAll_before scope rest, List.append_nil]

theorem calls_renderAny (scope : Scope) (flag : Score) :
    (body : List Condition) → (n : Nat) →
      (renderAny scope flag body n).1.flatMap Command.calls = []
  | [], _ => rfl
  | c :: rest, n => by
    simp only [renderAny, Rendered.guardedCommands, List.flatMap_append,
      calls_render_before scope c, calls_renderAny scope flag rest, List.append_nil]
    rfl

end

/-! ### The value of a condition -/

mutual

theorem NegatesSingles.of_mem_disjunctions :
    (c : Condition) → NegatesSingles c → ∀ d ∈ disjunctions c, NegatesSingles d
  | .leaf _, _, d, hd => by simp [disjunctions] at hd
  | .all body, h, d, hd => NegatesSinglesIn.of_mem_disjunctionsIn body h d hd
  | .any body, h, d, hd => by
    rcases List.mem_cons.mp hd with rfl | hd
    · exact h
    · exact NegatesSinglesIn.of_mem_disjunctionsIn body h d hd
  | .not body, h, d, hd => NegatesSingles.of_mem_disjunctions body h.2 d hd

theorem NegatesSinglesIn.of_mem_disjunctionsIn :
    (body : List Condition) → NegatesSinglesIn body → ∀ d ∈ disjunctionsIn body, NegatesSingles d
  | [], _, d, hd => by simp [disjunctionsIn] at hd
  | c :: rest, h, d, hd => by
    rcases List.mem_append.mp hd with hd | hd
    · exact NegatesSingles.of_mem_disjunctions c h.1 d hd
    · exact NegatesSinglesIn.of_mem_disjunctionsIn rest h.2 d hd

end

/-- The scores that commands set to zero without a guard, in their order. -/
def initialised (cs : List Command) : List Score :=
  cs.filterMap fun
    | .set score value => if value = 0 then some score else none
    | _ => none

theorem initialised_append (cs ds : List Command) :
    initialised (cs ++ ds) = initialised cs ++ initialised ds :=
  List.filterMap_append

mutual

/-- Each disjunction starts one flag, and the flags are taken in the order of the disjunctions. -/
theorem initialised_render (scope : Scope) :
    (c : Condition) → (n : Nat) → initialised (render scope c n).1.before =
      (List.range' n (disjunctions c).length).map logicFlag
  | .leaf _, _ => rfl
  | .all body, n => initialised_renderAll scope body n
  | .any body, n => by
    have h := initialised_renderAny scope n body (n + 1)
    rw [disjunctions, List.length_cons, List.range'_succ, List.map_cons, ← h]
    rfl
  | .not body, n => initialised_render scope body n

theorem initialised_renderAll (scope : Scope) :
    (body : List Condition) → (n : Nat) → initialised (renderAll scope body n).1.before =
      (List.range' n (disjunctionsIn body).length).map logicFlag
  | [], _ => rfl
  | c :: rest, n => by
    simp only [renderAll, Rendered.and, initialised_append, initialised_render scope c,
      initialised_renderAll scope rest, render_snd, disjunctionsIn, List.length_append]
    rw [← List.map_append, List.range'_append_1]

theorem initialised_renderAny (scope : Scope) (k : Nat) :
    (body : List Condition) → (n : Nat) → initialised (renderAny scope (logicFlag k) body n).1 =
      (List.range' n (disjunctionsIn body).length).map logicFlag
  | [], _ => rfl
  | c :: rest, n => by
    have hguard : initialised [(render scope c n).1.guard (.set (logicFlag k) 1)] = [] := rfl
    simp only [renderAny, Rendered.guardedCommands, initialised_append, hguard, List.append_nil,
      initialised_render scope c, initialised_renderAny scope k rest, render_snd, disjunctionsIn,
      List.length_append]
    rw [← List.map_append, List.range'_append_1]

end

/-- The commands of a condition with single negations end, its clauses then have its value, and
only its own flags have changed. -/
theorem render_value (m : Machine W) (table : Table) (scope : Scope) (c : Condition) (n : Nat)
    (s : State W) (hsingle : NegatesSingles c)
    (hleaf : ∀ l ∈ leafClauses scope c, l.Ignores m isLogicFlag) :
    ∃ s', Runs m table (render scope c n).1.before s s' ∧
      (render scope c n).1.clauses.all (·.holds m s') = value m scope s c ∧
      s.AgreeOff (logicFlags n (render scope c n).2) s' ∧
      FlagsHold s' n ((disjunctions c).map (value m scope s)) := by
  obtain ⟨s', hrun, hprepared⟩ : ∃ s', runCommands m (table.call m 0) (render scope c n).1.before s =
      some s' ∧ Prepared m s s' n (flagValues m scope s c) (literals m scope s c)
        (render scope c n).1.clauses := render_prepared c n s hleaf
  have hflags : flagValues m scope s c = (disjunctions c).map (value m scope s) := by
    rw [flagValues_eq]
    exact List.map_congr_left fun d hd =>
      all_literals m scope s d (NegatesSingles.of_mem_disjunctions c hsingle d hd)
  refine ⟨s', ⟨0, hrun⟩, ?_, ?_, ?_⟩
  · rw [hprepared.all_holds, all_literals m scope s c hsingle]
  · rw [render_snd, ← length_flagValues m scope s]
    exact hprepared.frame
  · rw [← hflags]
    exact hprepared.flags

/-- Rendering computes the value of a condition. It gives a result exactly if the leaves can be read and
the counter has a number left for each disjunction, and stops the program otherwise. The disjunctions
take the flags from `n` on, one each and in order; running the commands changes no other score, leaves
in every flag the value of its disjunction, and makes the clauses together have the value of the
condition. -/
theorem rendering_computes_value (m : Machine W) (table : Table) (scope : Scope) (c : Condition)
    (n : UInt32) (s : State W) (hsplit : SplitsConjunctions c)
    (hleaf : ∀ l ∈ leafClauses scope c, l.Ignores m isLogicFlag) :
    ((∃ r n', (rendering scope c).run.run n = (.ok r, n')) ↔
      Readable scope c ∧ n.toNat + (disjunctions c).length < UInt32.size) ∧
    (∀ e n', (rendering scope c).run.run n = (.error e, n') → e = .crash) ∧
    ∀ r n', (rendering scope c).run.run n = (.ok r, n') →
      n'.toNat = n.toNat + (disjunctions c).length ∧
      initialised r.before = (List.range' n.toNat (disjunctions c).length).map logicFlag ∧
      (initialised r.before).Nodup ∧
      ∃ s', Runs m table r.before s s' ∧
        r.clauses.all (·.holds m s') = value m scope s c ∧
        s.AgreeOff (logicFlags n.toNat n'.toNat) s' ∧
        ∀ i d, (disjunctions c)[i]? = some d →
          s'.scores (logicFlag (n.toNat + i)) = some (if value m scope s d then 1 else 0) := by
  refine ⟨?_, fun e n' hrun => eq_crash_of_rendering hrun, fun r n' hrun => ?_⟩
  · rw [rendering_completes_iff, render_snd]
  have hrender := (render_of_rendering hrun).2
  obtain ⟨s', hruns, hvalue, hframe, hflags⟩ := render_value m table scope c n.toNat s
    (SplitsConjunctions.negatesSingles c hsplit) hleaf
  have hnext := render_snd scope c n.toNat
  have hstart := initialised_render scope c n.toNat
  rw [hrender] at hruns hvalue hframe hnext hstart
  refine ⟨hnext, hstart, ?_, s', hruns, hvalue, hframe, fun i d hd => ?_⟩
  · rw [hstart]
    exact List.Nodup.map (fun j k h => logicFlag_inj.mp h) List.nodup_range'
  · exact hflags i (value m scope s d) (by rw [List.getElem?_map, hd]; rfl)

/-- The condition `($a || !($b || $c > 2)) && !$d`. -/
def nested : Condition :=
  let word (text : String) : Token := ⟨.word, .empty, text⟩
  .all [.any [.leaf [word "$a"], .not (.any [.leaf [word "$b"], .leaf [word "$c>2"]])],
    .not (.leaf [word "$d"])]

theorem nested_computes_value :
    let m : Machine Unit := ⟨fun _ s => some s, fun _ _ => false, fun _ _ => false⟩
    let s : State Unit := ⟨fun score => if score.holder = "$c" then some 3 else some 0, ()⟩
    SplitsConjunctions nested ∧ (∀ l ∈ leafClauses {} nested, l.Ignores m isLogicFlag) ∧
    value m {} s nested = false ∧
    (∃ r, (rendering {} nested).run.run 5 = (.ok r, 7) ∧
      initialised r.before = [logicFlag 5, logicFlag 6] ∧
      ∃ s', Runs m (fun _ => none) r.before s s' ∧ r.clauses.all (·.holds m s') = false ∧
        s.AgreeOff (logicFlags 5 7) s' ∧
        s'.scores (logicFlag 5) = some 0 ∧ s'.scores (logicFlag 6) = some 1) ∧
    ∀ r n', (rendering {} nested).run.run 4294967294 ≠ (.ok r, n') := by
  intro m s
  have hm : m.IgnoresFlags :=
    ⟨fun _ _ _ hst => .some hst, fun _ _ _ _ => rfl⟩
  have hsplit : SplitsConjunctions nested := by
    simp [nested, SplitsConjunctions, SplitsConjunctionsIn, exposesConjunction]
  have hleaf : ∀ l ∈ leafClauses {} nested, l.Ignores m isLogicFlag := by
    intro l hl
    have hof : ∃ text, l = Clause.ofText {} text := by
      simp only [nested, leafClauses, leafClausesIn, List.append_nil, List.mem_append,
        List.mem_singleton] at hl
      rcases hl with (rfl | rfl | rfl) | rfl <;> exact ⟨_, rfl⟩
    obtain ⟨text, rfl⟩ := hof
    exact (Clause.ofText_ignores hm Scope.UserHeld.empty text).mono fun _ => Or.inr
  obtain ⟨-, -, hresult⟩ :=
    rendering_computes_value m (fun _ => none) {} nested 5 s hsplit hleaf
  obtain ⟨hlast, -, -⟩ :=
    rendering_computes_value m (fun _ => none) {} nested 4294967294 s hsplit hleaf
  have hv : value m {} s nested = false := by decide +kernel
  refine ⟨hsplit, hleaf, hv, ?_, fun r n' hrun => ?_⟩
  · obtain ⟨r, hrun⟩ : ∃ r, (rendering {} nested).run.run 5 = (.ok r, 7) := ⟨_, rfl⟩
    obtain ⟨-, hstart, -, s', hruns, hvalue, hframe, hflags⟩ := hresult r 7 hrun
    refine ⟨r, hrun, hstart, s', hruns, hvalue.trans hv, hframe, ?_, ?_⟩
    · have h := hflags 0 _ rfl
      exact h.trans (by decide +kernel)
    · have h := hflags 1 _ rfl
      exact h.trans (by decide +kernel)
  · -- there is one number left for two disjunctions
    have hleft := (hlast.mp ⟨r, n', hrun⟩).2
    revert hleft
    decide

end Condition

end Packwright
