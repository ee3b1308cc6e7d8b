import Packwright.Proofs.Semantics.Condition

/-!
# Structured programs

The ordinary meaning of control flow: one thing after the other, a choice between two programs, and
a program repeated while a guard holds. Everything else is a list of commands, which runs as it
stands. The ends of two runs match when they agree off flags.

## Main definitions

- `Guard` — a condition together with the scope it is read in
- `Program`, `Program.Ends` — programs and the ends of their runs
- `Loop` — a test before each round
- `Matches` — two kinds of ends are the same up to flags

## Main results

- `Guard.run_guarded` — a command behind the clauses of a guard
- `Matches.bind` — runs one after the other
-/

namespace Packwright

variable {W : Type}

/-- A condition and the renamings it is read with. -/
structure Guard where
  scope : Scope
  condition : Condition
  held : scope.UserHeld

namespace Guard

/-- The clauses of a guard, with its flags numbered from `n` on. -/
def rendered (g : Guard) (n : Nat) : Rendered := (g.condition.render g.scope n).1

/-- Whether the condition holds. -/
def holds (m : Machine W) (s : State W) (g : Guard) : Bool := g.condition.value m g.scope s

/-- Whether all clauses of the condition hold after its commands. -/
def passes (m : Machine W) (s : State W) (g : Guard) : Bool :=
  (g.condition.literals m g.scope s).all id

/-- With single negations, the clauses test the condition itself. -/
theorem passes_eq_holds (m : Machine W) (s : State W) {g : Guard}
    (h : g.condition.NegatesSingles) : g.passes m s = g.holds m s :=
  Condition.all_literals m g.scope s g.condition h

end Guard

mutual

/-- The clauses of a condition are those of comparisons in its scope. -/
theorem Condition.exists_ofText (scope : Scope) :
    (c : Condition) → ∀ l ∈ leafClauses scope c, ∃ text, l = Clause.ofText scope text
  | .leaf tokens, _, hl => ⟨leafText tokens, List.mem_singleton.mp hl⟩
  | .all body, l, hl => Condition.exists_ofText_in scope body l hl
  | .any body, l, hl => Condition.exists_ofText_in scope body l hl
  | .not body, l, hl => Condition.exists_ofText scope body l hl

theorem Condition.exists_ofText_in (scope : Scope) :
    (body : List Condition) → ∀ l ∈ leafClausesIn scope body, ∃ text, l = Clause.ofText scope text
  | [], l, hl => by simp [leafClausesIn] at hl
  | c :: rest, l, hl => by
    rcases List.mem_append.mp hl with hl | hl
    · exact Condition.exists_ofText scope c l hl
    · exact Condition.exists_ofText_in scope rest l hl

end

namespace Guard

variable {m : Machine W}

theorem ignores (hm : m.IgnoresFlags) (g : Guard) :
    ∀ l ∈ g.condition.leafClauses g.scope, l.Ignores m isFlag := by
  intro l hl
  obtain ⟨text, rfl⟩ := Condition.exists_ofText g.scope g.condition l hl
  exact Clause.ofText_ignores hm g.held text

/-- Flags do not change what the clauses of a guard test. -/
theorem passes_congr (hm : m.IgnoresFlags) (g : Guard) {s t : State W}
    (hst : s.AgreeOff isFlag t) : g.passes m s = g.passes m t := by
  rw [passes, passes, Condition.literals_congr hst g.condition (g.ignores hm)]

theorem holds_congr (hm : m.IgnoresFlags) {g : Guard} (hg : g.condition.NegatesSingles)
    {s t : State W} (hst : s.AgreeOff isFlag t) : g.holds m s = g.holds m t := by
  rw [← passes_eq_holds m s hg, ← passes_eq_holds m t hg, passes_congr hm g hst]

/-- A command behind the clauses of a guard, and behind others that come first. The commands of the
guard end in a state that differs in flags of disjunctions only; from there the command runs if all
clauses hold. -/
theorem run_guarded (hm : m.IgnoresFlags) (g : Guard) (n : Nat) (s : State W) :
    ∃ s₁, s.AgreeOff isLogicFlag s₁ ∧
      ∀ (call : ResourceLocation → State W → Option (State W)) (first : List Clause)
        (only : Command), (∀ l ∈ first, l.Ignores m isLogicFlag) →
        runCommands m call
            ((g.rendered n).before ++ [Command.guarded (first ++ (g.rendered n).clauses) only]) s =
          if first.all (·.holds m s) && g.passes m s then only.run m call s₁ else some s₁ := by
  have hleaf : ∀ l ∈ g.condition.leafClauses g.scope, l.Ignores m isLogicFlag :=
    fun l hl => (g.ignores hm l hl).mono fun _ => Or.inr
  obtain ⟨s₁, hrun, hprepared⟩ :
      ∃ s₁, runCommands m (fun _ _ => none) (g.rendered n).before s = some s₁ ∧
        Condition.Prepared m s s₁ n (g.condition.flagValues m g.scope s)
          (g.condition.literals m g.scope s) (g.rendered n).clauses :=
    Condition.render_prepared g.condition n s hleaf
  have hframe : s.AgreeOff isLogicFlag s₁ :=
    hprepared.frame.mono fun _ => isLogicFlag_of_logicFlags
  refine ⟨s₁, hframe, fun call first only hfirst => ?_⟩
  -- the commands of the guard call nothing, so they run alike whatever calls do
  have hbefore : runCommands m call (g.rendered n).before s = some s₁ := by
    rw [← hrun]
    refine runCommands_congr _ (fun target htarget => ?_) s
    rw [rendered, Condition.calls_render_before] at htarget
    exact absurd htarget (List.not_mem_nil)
  have hsame : first.map (·.holds m s₁) = first.map (·.holds m s) :=
    List.map_congr_left fun l hl => (hfirst l hl s s₁ hframe).symm
  have htests : (first ++ (g.rendered n).clauses).all (·.holds m s₁) =
      (first.all (·.holds m s) && g.passes m s) := by
    have hall := congrArg (List.all · id) hsame
    simp only [List.all_map, Function.id_comp] at hall
    rw [List.all_append, hprepared.all_holds, passes, hall]
  rw [runCommands_append, hbefore, Option.bind_some, runCommands_singleton,
    Packwright.run_guarded, htests]

end Guard

/-! ### Programs -/

/-- A program of structured control flow. -/
inductive Program where
  /-- Commands that run as they stand. -/
  | commands (cs : List Command)
  /-- One program after another. -/
  | seq (p q : Program)
  /-- The first program if the guard holds, else the second. -/
  | choose (g : Guard) (p q : Program)
  /-- The program again and again, as long as the guard holds before it. -/
  | repeatWhile (g : Guard) (p : Program)

/-- Rounds of `body`, each behind a test that holds, up to a state where it does not hold. -/
inductive Loop (test : State W → Bool) (body : State W → State W → Prop) :
    State W → State W → Prop
  | done {s : State W} (h : test s = false) : Loop test body s s
  | again {s t u : State W} (h : test s = true) (hbody : body s t) (hrest : Loop test body t u) :
    Loop test body s u

namespace Program

/-- A program that does nothing. -/
def skip : Program := .commands []

/-- A program once, and then again as long as the guard holds behind it. -/
def doWhile (p : Program) (g : Guard) : Program := .seq p (.repeatWhile g p)

/-- The start of a loop once, then rounds of its body and its step behind its test. -/
def forLoop (init : Program) (g : Guard) (step body : Program) : Program :=
  .seq init (.repeatWhile g (.seq body step))

/-- A run of the program from one state ends in another. -/
def Ends (m : Machine W) (table : Table) : Program → State W → State W → Prop
  | .commands cs, s, u => Runs m table cs s u
  | .seq p q, s, u => ∃ t, p.Ends m table s t ∧ q.Ends m table t u
  | .choose g p q, s, u => if g.holds m s then p.Ends m table s u else q.Ends m table s u
  | .repeatWhile g p, s, u => Loop (fun s => g.holds m s) (p.Ends m table) s u

/-- All negations in the guards of a program are single. -/
def NegatesSingles : Program → Prop
  | .commands _ => True
  | .seq p q => p.NegatesSingles ∧ q.NegatesSingles
  | .choose g p q => g.condition.NegatesSingles ∧ p.NegatesSingles ∧ q.NegatesSingles
  | .repeatWhile g p => g.condition.NegatesSingles ∧ p.NegatesSingles

end Program

/-! ### Ends that match -/

/-- For each end of one kind there is one of the other kind that agrees with it off flags. -/
structure Matches (A B : State W → Prop) : Prop where
  forth : ∀ s', A s' → ∃ t', B t' ∧ s'.AgreeOff isFlag t'
  back : ∀ t', B t' → ∃ s', A s' ∧ s'.AgreeOff isFlag t'

namespace Matches

variable {A A' B B' : State W → Prop}

theorem single {s t : State W} (h : s.AgreeOff isFlag t) : Matches (· = s) (· = t) := by
  constructor
  · rintro s' rfl
    exact ⟨t, rfl, h⟩
  · rintro t' rfl
    exact ⟨s, rfl, h⟩

theorem congr (h : Matches A B) (hA : ∀ s', A' s' ↔ A s') (hB : ∀ t', B' t' ↔ B t') :
    Matches A' B' := by
  have hA' : A' = A := funext fun s' => propext (hA s')
  have hB' : B' = B := funext fun t' => propext (hB t')
  rw [hA', hB']
  exact h

/-- Ends that match are followed by runs whose ends match. -/
theorem bind (h : Matches A B) {R S : State W → State W → Prop}
    (hRS : ∀ s t, s.AgreeOff isFlag t → Matches (R s) (S t)) :
    Matches (fun s' => ∃ s, A s ∧ R s s') (fun t' => ∃ t, B t ∧ S t t') := by
  constructor
  · rintro s' ⟨s, hA, hR⟩
    obtain ⟨t, hB, hst⟩ := h.forth s hA
    obtain ⟨t', hS, hagree⟩ := (hRS s t hst).forth s' hR
    exact ⟨t', ⟨t, hB, hS⟩, hagree⟩
  · rintro t' ⟨t, hB, hS⟩
    obtain ⟨s, hA, hst⟩ := h.back t hB
    obtain ⟨s', hR, hagree⟩ := (hRS s t hst).back t' hS
    exact ⟨s', ⟨s, hA, hR⟩, hagree⟩

end Matches

end Packwright
