import Packwright.Proofs.OneLine

/-!
# Neat commands

A command is neat if its line has a line feed only in the text of a particle. The commands that the
compiler spells itself are neat, and guards keep a command neat.

## Main definitions

- `Command.core`, `Command.DrawsBroken` — the command behind guards, and those that draw a broken
  particle
- `Command.Neat`, `Rendered.Neat` — neat commands and conditions

## Main results

- `Command.Neat.not_unbroken_iff` — where a neat command has a line feed
- `Condition.render_neat` — rendered conditions
-/

namespace Packwright

/-- The command that draws a particle at a point of a circle. -/
def Circle.draw (particle : String) (point : String × String) : Command :=
  .written ("particle " ++ particle ++ " ^" ++ point.1 ++ " ^ ^" ++ point.2)

/-- A number is written with digits, a point and a minus. -/
theorem Double.feed_not_mem_fixed (d : Double) (places : Nat) : '\n' ∉ d.fixed places := by
  have hdigits : '\n' ∉ padLeft (places + 1) (Nat.toDigits 10 (d.fixedDigits places)) := by
    have hvalue := unbroken_repr (d.fixedDigits places)
    rw [Unbroken, Nat.toList_repr] at hvalue
    simp [padLeft, hvalue]
  unfold fixed
  generalize padLeft (places + 1) (Nat.toDigits 10 (d.fixedDigits places)) = digits at hdigits ⊢
  have hwhole : ∀ n, '\n' ∉ digits.take n := fun n hmem => hdigits (List.mem_of_mem_take hmem)
  have hfraction : ∀ n, '\n' ∉ digits.drop n := fun n hmem => hdigits (List.mem_of_mem_drop hmem)
  cases d.negative <;> simp [hwhole, hfraction]

theorem Circle.unbroken_coordinate (f : Float) : Unbroken (Circle.coordinate f) := by
  unfold coordinate
  simp only
  split
  · decide
  · rw [unbroken_ofList, List.mem_reverse]
    intro hmem
    have hkept := (List.dropWhile_sublist _).subset ((List.dropWhile_sublist _).subset hmem)
    exact Double.feed_not_mem_fixed _ _ (List.mem_reverse.mp hkept)

theorem Circle.unbroken_point (radius : Float) (count index : Nat) :
    Unbroken (Circle.point radius count index).1 ∧
      Unbroken (Circle.point radius count index).2 := by
  simp only [Circle.point]
  exact ⟨unbroken_coordinate _, unbroken_coordinate _⟩

theorem Circle.unbroken_draw {particle : String} {radius : Float} {count index : Nat} :
    Unbroken (Circle.draw particle (Circle.point radius count index)).render ↔
      Unbroken particle := by
  obtain ⟨hx, hz⟩ := unbroken_point radius count index
  -- the coordinates stay closed, since opening them would compute with floats
  generalize point radius count index = place at hx hz ⊢
  show Unbroken ("particle " ++ particle ++ " ^" ++ place.1 ++ " ^ ^" ++ place.2) ↔ _
  simp +decide [hx, hz]

namespace Command

/-- The command that is run when all guards let it pass. -/
def core : Command → Command
  | .guarded _ body | .store _ body | .forPlayers _ body => body.core
  | c => c

/-- The command draws a particle of a circle, and the text of the particle has a line feed. -/
def DrawsBroken (c : Command) : Prop :=
  ∃ particle radius count index,
    ¬Unbroken particle ∧ c.core = Circle.draw particle (Circle.point radius count index)

/-- The line of the command has a line feed only where it draws a broken particle. -/
def Neat (c : Command) : Prop := Unbroken c.render ∨ c.DrawsBroken

theorem unbroken_guarded {clauses : List Clause} {c : Command} :
    Unbroken (Command.guarded clauses c).render ↔
      Unbroken (renderClauses clauses) ∧ Unbroken c.render := by
  show Unbroken ("execute " ++ renderClauses clauses ++ " run " ++ c.render) ↔ _
  simp +decide

theorem unbroken_store {target : Score} {c : Command} :
    Unbroken (Command.store target c).render ↔ Unbroken target.render ∧ Unbroken c.render := by
  show Unbroken ("execute store result score " ++ target.render ++ " run " ++ c.render) ↔ _
  simp +decide

theorem unbroken_forPlayers {objective : String} {c : Command} :
    Unbroken (Command.forPlayers objective c).render ↔ Unbroken objective ∧ Unbroken c.render := by
  show Unbroken ("execute as @a[scores=\x7b" ++ objective ++ "=1..\x7d] at @s run " ++ c.render) ↔ _
  simp +decide

theorem unbroken_core {c : Command} (h : Unbroken c.render) : Unbroken c.core.render := by
  fun_induction core c with
  | case1 _ body ih => exact ih (unbroken_guarded.mp h).2
  | case2 _ body ih => exact ih (unbroken_store.mp h).2
  | case3 _ body ih => exact ih (unbroken_forPlayers.mp h).2
  | case4 => exact h

/-- A broken particle breaks the line, whatever guards stand before it. -/
theorem not_unbroken_of_drawsBroken {c : Command} (h : c.DrawsBroken) : ¬Unbroken c.render := by
  obtain ⟨particle, radius, count, index, hparticle, hcore⟩ := h
  intro hline
  have hdrawn := unbroken_core hline
  rw [hcore, Circle.unbroken_draw] at hdrawn
  exact hparticle hdrawn

theorem Neat.not_unbroken_iff {c : Command} (h : c.Neat) : ¬Unbroken c.render ↔ c.DrawsBroken :=
  ⟨h.resolve_left, not_unbroken_of_drawsBroken⟩

theorem neat_draw (particle : String) (radius : Float) (count index : Nat) :
    (Circle.draw particle (Circle.point radius count index)).Neat := by
  by_cases h : Unbroken particle
  · exact .inl (Circle.unbroken_draw.mpr h)
  · exact .inr ⟨particle, radius, count, index, h, rfl⟩

theorem neat_written {line : String} (h : Unbroken line) : (Command.written line).Neat := .inl h

theorem neat_call {target : ResourceLocation} (hspace : Unbroken target.space)
    (hpath : Unbroken target.path.text) : (Command.call target).Neat := by
  refine .inl (show Unbroken ("function " ++ (target.space ++ ":" ++ target.path.text)) from ?_)
  simp +decide [hspace, hpath]

/-- The scores in the line of a command that is spelled from scores and numbers alone. -/
def scores? : Command → Option (List Score)
  | .set score _ | .add score _ | .remove score _ | .get score | .reset score => some [score]
  | .operate target _ source => some [target, source]
  | .random _ _ => some []
  | _ => none

theorem neat_of_scores {c : Command} {scores : List Score} (hscores : c.scores? = some scores)
    (h : ∀ s ∈ scores, Unbroken s.render) : c.Neat := by
  refine .inl ?_
  cases c with
  | set score n =>
    obtain rfl := Option.some.inj hscores
    show Unbroken ("scoreboard players set " ++ score.render ++ " " ++ toString n)
    simpa +decide using h
  | add score n =>
    obtain rfl := Option.some.inj hscores
    show Unbroken ("scoreboard players add " ++ score.render ++ " " ++ toString n)
    simpa +decide using h
  | remove score n =>
    obtain rfl := Option.some.inj hscores
    show Unbroken ("scoreboard players remove " ++ score.render ++ " " ++ toString n)
    simpa +decide using h
  | get score =>
    obtain rfl := Option.some.inj hscores
    show Unbroken ("scoreboard players get " ++ score.render)
    simpa +decide using h
  | reset score =>
    obtain rfl := Option.some.inj hscores
    show Unbroken ("scoreboard players reset " ++ score.render)
    simpa +decide using h
  | operate target o source =>
    obtain rfl := Option.some.inj hscores
    obtain ⟨htarget, hsource⟩ : Unbroken target.render ∧ Unbroken source.render := by simpa using h
    show Unbroken ("scoreboard players operation " ++ target.render ++ " " ++ o.code ++ " " ++
      source.render)
    simp +decide [htarget, hsource]
  | random low high =>
    show Unbroken ("random value " ++ toString low ++ ".." ++ toString high)
    simp +decide
  | _ => cases hscores

theorem Neat.guarded {c : Command} (h : c.Neat) {clauses : List Clause}
    (hclauses : ∀ clause ∈ clauses, Unbroken clause.render) : (Command.guarded clauses c).Neat := by
  have htests : Unbroken (renderClauses clauses) :=
    Text.unbroken_joinWith (by decide) (List.forall_mem_map.mpr hclauses)
  exact h.imp (fun hline => unbroken_guarded.mpr ⟨htests, hline⟩) id

theorem Neat.store {c : Command} (h : c.Neat) {target : Score} (htarget : Unbroken target.render) :
    (Command.store target c).Neat :=
  h.imp (fun hline => unbroken_store.mpr ⟨htarget, hline⟩) id

theorem Neat.forPlayers {c : Command} (h : c.Neat) {objective : String}
    (hobjective : Unbroken objective) : (Command.forPlayers objective c).Neat :=
  h.imp (fun hline => unbroken_forPlayers.mpr ⟨hobjective, hline⟩) id

end Command

/-- All commands are neat. -/
def NeatCommands (cs : List Command) : Prop := ∀ c ∈ cs, c.Neat

/-! ### Conditions -/

/-- The preparing commands are neat, and the clauses are unbroken. -/
structure Rendered.Neat (r : Rendered) : Prop where
  before : NeatCommands r.before
  clauses : ∀ clause ∈ r.clauses, Unbroken clause.render

namespace Rendered

variable {r : Rendered}

theorem neat_and {r₁ r₂ : Rendered} (h₁ : r₁.Neat) (h₂ : r₂.Neat) : (r₁.and r₂).Neat where
  before := List.forall_mem_append.mpr ⟨h₁.before, h₂.before⟩
  clauses := List.forall_mem_append.mpr ⟨h₁.clauses, h₂.clauses⟩

theorem Neat.negate (h : r.Neat) : r.negate.Neat where
  before := h.before
  clauses := List.forall_mem_map.mpr fun clause hclause => by
    have htest := Clause.unbroken_render.mp (h.clauses clause hclause)
    exact Clause.unbroken_render.mpr htest

theorem Neat.guardedCommands (h : r.Neat) {c : Command} (hc : c.Neat) :
    NeatCommands (r.guardedCommands c) :=
  List.forall_mem_append.mpr ⟨h.before, List.forall_mem_singleton.mpr (hc.guarded h.clauses)⟩

end Rendered

@[simp] theorem unbroken_logicFlag (n : Nat) : Unbroken (logicFlag n).render := by
  simp +decide [logicFlag]

theorem neat_set_flag (n : Nat) (value : Int) : (Command.set (logicFlag n) value).Neat :=
  Command.neat_of_scores rfl (by simp)

namespace Condition

mutual

/-- A condition is rendered to neat commands and unbroken clauses. -/
theorem render_neat {scope : Scope} (hscope : scope.Unbroken) :
    (c : Condition) → (n : Nat) → (c.render scope n).1.Neat
  | .leaf tokens, n => ⟨List.forall_mem_nil _, List.forall_mem_singleton.mpr
      (Clause.unbroken_ofText hscope (unbroken_joinTokens tokens))⟩
  | .all body, n => renderAll_neat hscope body n
  | .not body, n => (render_neat hscope body n).negate
  | .any body, n => by
    refine ⟨?_, ?_⟩
    · exact List.forall_mem_cons.mpr ⟨neat_set_flag n 0, renderAny_neat hscope n body (n + 1)⟩
    · simp +decide [Condition.render, Test.render, ScoreRange.render]

theorem renderAll_neat {scope : Scope} (hscope : scope.Unbroken) :
    (body : List Condition) → (n : Nat) → (renderAll scope body n).1.Neat
  | [], _ => ⟨List.forall_mem_nil _, List.forall_mem_nil _⟩
  | c :: rest, n => Rendered.neat_and (render_neat hscope c n) (renderAll_neat hscope rest _)

theorem renderAny_neat {scope : Scope} (hscope : scope.Unbroken) (flag : Nat) :
    (body : List Condition) → (n : Nat) → NeatCommands (renderAny scope (logicFlag flag) body n).1
  | [], _ => List.forall_mem_nil _
  | c :: rest, n => List.forall_mem_append.mpr
      ⟨(render_neat hscope c n).guardedCommands (neat_set_flag flag 1),
        renderAny_neat hscope flag rest _⟩

end

end Condition

end Packwright
