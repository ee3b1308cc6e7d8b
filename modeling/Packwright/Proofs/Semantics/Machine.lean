import Mathlib.Logic.Function.Basic
import Packwright.Command

/-!
# Running commands

A machine runs the commands of a pack. Setting a score, testing clauses and calling a function are
read by their structure; every other command changes the state in a way that is a parameter of the
machine. A function that the table does not know is such a command as well.

## Main definitions

- `State`, `Machine` — what commands act on, and the effects that are left open
- `State.AgreeOff` — states that differ at most in some scores
- `Clause.holds`, `Clause.Ignores` — whether a clause holds in a state, and what it does not read
- `Command.run`, `runCommands` — commands run once, given what a call does
- `Command.calls` — the functions that a command calls
- `Table`, `Table.call` — functions by their location, and calls at most so many levels deep
- `Runs` — commands run to an end

## Main results

- `runCommands_append` — commands run one after the other
- `runCommands_mono` — deeper calls keep the end of a run
- `runCommands_congr` — a run depends only on the functions that are called
- `Runs.unique` — a run has one end
- `runs_append_iff`, `runs_guarded_iff`, `runs_call_iff` — the rules of `Runs`
-/

namespace Packwright

/-- What commands act on: the scores that have a value, and the rest of the world. -/
@[ext]
structure State (W : Type) where
  scores : Score → Option Int
  world : W

namespace State

variable {W : Type}

/-- Gives a score a value. -/
def set (s : State W) (score : Score) (value : Int) : State W :=
  { s with scores := Function.update s.scores score (some value) }

@[simp] theorem set_world (s : State W) (score : Score) (value : Int) :
    (s.set score value).world = s.world := rfl

@[simp] theorem set_scores_self (s : State W) (score : Score) (value : Int) :
    (s.set score value).scores score = some value := by
  simp [set]

theorem set_scores_of_ne (s : State W) {score other : Score} (value : Int) (h : other ≠ score) :
    (s.set score value).scores other = s.scores other := by
  simp [set, Function.update_of_ne h]

/-- The states differ at most in the scores `F`. -/
def AgreeOff (F : Score → Prop) (s t : State W) : Prop :=
  s.world = t.world ∧ ∀ score, ¬ F score → s.scores score = t.scores score

namespace AgreeOff

variable {F G : Score → Prop} {s t u : State W}

theorem refl (F : Score → Prop) (s : State W) : s.AgreeOff F s := ⟨rfl, fun _ _ => rfl⟩

theorem symm (h : s.AgreeOff F t) : t.AgreeOff F s :=
  ⟨h.1.symm, fun score hscore => (h.2 score hscore).symm⟩

theorem trans (h : s.AgreeOff F t) (h' : t.AgreeOff F u) : s.AgreeOff F u :=
  ⟨h.1.trans h'.1, fun score hscore => (h.2 score hscore).trans (h'.2 score hscore)⟩

theorem mono (h : s.AgreeOff F t) (hle : ∀ score, F score → G score) : s.AgreeOff G t :=
  ⟨h.1, fun score hscore => h.2 score fun hF => hscore (hle score hF)⟩

/-- Setting one of the scores `F` is not seen outside them. -/
theorem set_right {score : Score} (h : s.AgreeOff F t) (hscore : F score) (value : Int) :
    s.AgreeOff F (t.set score value) := by
  refine ⟨h.1, fun other hother => ?_⟩
  have hne : other ≠ score := fun heq => hother (heq ▸ hscore)
  rw [h.2 other hother, set_scores_of_ne t value hne]

/-- Setting the same score on both sides keeps them alike. -/
theorem set_both (h : s.AgreeOff F t) (score : Score) (value : Int) :
    (s.set score value).AgreeOff F (t.set score value) := by
  refine ⟨h.1, fun other hother => ?_⟩
  by_cases heq : other = score
  · subst heq
    simp
  · rw [set_scores_of_ne s value heq, set_scores_of_ne t value heq, h.2 other hother]

end AgreeOff

end State

/-- The effects that are not read from the structure of a command. -/
structure Machine (W : Type) where
  /-- What any other command does; nothing when it never ends. -/
  act : Command → State W → Option (State W)
  /-- Whether a test holds that is taken as written. -/
  test : String → State W → Bool
  /-- Whether a value lies in a range that is taken as written. -/
  within : String → Int → Bool

variable {W : Type}

/-- Whether a value lies in a range. -/
def ScoreRange.contains (m : Machine W) : ScoreRange → Int → Bool
  | .exactly n, v => v = n
  | .atLeast n, v => n ≤ v
  | .atMost n, v => v ≤ n
  | .between low high, v => low ≤ v && v ≤ high
  | .written text, v => m.within text v

/-- Whether two values compare as a command tests it. A command has no sign for `ne`: the clause
around it is negated, and the test itself asks for equality. -/
def Comparison.relates : Comparison → Int → Int → Bool
  | .eq, v, w | .ne, v, w => v = w
  | .ge, v, w => w ≤ v
  | .le, v, w => v ≤ w
  | .gt, v, w => w < v
  | .lt, v, w => v < w

/-- Whether a test holds. A score without a value fails every test. -/
def Test.holds (m : Machine W) (s : State W) : Test → Bool
  | .inRange score range =>
    match s.scores score with
    | some v => range.contains m v
    | none => false
  | .compare score relation other =>
    match s.scores score, s.scores other with
    | some v, some w => relation.relates v w
    | _, _ => false
  | .written text => m.test text s

/-- Whether a clause holds. -/
def Clause.holds (m : Machine W) (s : State W) (c : Clause) : Bool := c.test.holds m s != c.negated

/-- The clause does not read the scores `F`. -/
def Clause.Ignores (m : Machine W) (F : Score → Prop) (c : Clause) : Prop :=
  ∀ s t : State W, s.AgreeOff F t → c.holds m s = c.holds m t

@[simp] theorem Clause.holds_negate (m : Machine W) (s : State W) (c : Clause) :
    c.negate.holds m s = !c.holds m s := by
  simp [Clause.negate, Clause.holds]

/-- Runs a command once, given what a call does. -/
def Command.run (m : Machine W) (call : ResourceLocation → State W → Option (State W)) :
    Command → State W → Option (State W)
  | .set score value, s => some (s.set score value)
  | .call target, s => call target s
  | .guarded clauses body, s => if clauses.all (·.holds m s) then body.run m call s else some s
  | c, s => m.act c s

/-- The functions that a command calls, wherever the call stands in it. -/
def Command.calls : Command → List ResourceLocation
  | .call target => [target]
  | .guarded _ body | .store _ body | .forPlayers _ body => body.calls
  | _ => []

/-- Runs commands one after the other, given what a call does. -/
def runCommands (m : Machine W) (call : ResourceLocation → State W → Option (State W)) :
    List Command → State W → Option (State W)
  | [], s => some s
  | c :: rest, s => (c.run m call s).bind (runCommands m call rest)

/-- The functions that calls find. -/
abbrev Table := ResourceLocation → Option (List Command)

/-- Runs the function at a location, with at most `depth` calls inside one another. A location
without a function is left to the machine. -/
def Table.call (m : Machine W) (table : Table) : Nat → ResourceLocation → State W →
    Option (State W)
  | 0, _, _ => none
  | depth + 1, target, s =>
    match table target with
    | some body => runCommands m (table.call m depth) body s
    | none => m.act (.call target) s

/-- Running commands ends, in the second state. -/
def Runs (m : Machine W) (table : Table) (cs : List Command) (s s' : State W) : Prop :=
  ∃ depth, runCommands m (table.call m depth) cs s = some s'

/-! ### Commands in a row -/

section

variable {m : Machine W} {call call' : ResourceLocation → State W → Option (State W)}

@[simp] theorem runCommands_nil (s : State W) : runCommands m call [] s = some s := rfl

theorem runCommands_cons (c : Command) (rest : List Command) (s : State W) :
    runCommands m call (c :: rest) s = (c.run m call s).bind (runCommands m call rest) := rfl

@[simp] theorem runCommands_singleton (c : Command) (s : State W) :
    runCommands m call [c] s = c.run m call s := by
  rw [runCommands_cons]
  cases c.run m call s <;> rfl

theorem runCommands_append (cs ds : List Command) (s : State W) :
    runCommands m call (cs ++ ds) s = (runCommands m call cs s).bind (runCommands m call ds) := by
  induction cs generalizing s with
  | nil => rfl
  | cons c cs ih =>
    simp only [List.cons_append, runCommands_cons, Option.bind_assoc]
    congr
    funext t
    exact ih t

@[simp] theorem run_set (score : Score) (value : Int) (s : State W) :
    (Command.set score value).run m call s = some (s.set score value) := by
  rw [Command.run]

@[simp] theorem run_call (target : ResourceLocation) (s : State W) :
    (Command.call target).run m call s = call target s := by
  rw [Command.run]

theorem run_guarded (clauses : List Clause) (body : Command) (s : State W) :
    (Command.guarded clauses body).run m call s =
      if clauses.all (·.holds m s) then body.run m call s else some s := by
  rw [Command.run]

/-- A command that is not read by its structure is left to the machine. -/
theorem run_eq_act (c : Command) (s : State W) (hset : ∀ score value, c ≠ .set score value)
    (hcall : ∀ target, c ≠ .call target)
    (hguarded : ∀ clauses body, c ≠ .guarded clauses body) : c.run m call s = m.act c s := by
  cases c with
  | set score value => exact absurd rfl (hset score value)
  | call target => exact absurd rfl (hcall target)
  | guarded clauses body => exact absurd rfl (hguarded clauses body)
  | _ => rw [Command.run] <;> simp

/-- A command keeps its end when calls do more. -/
theorem run_mono (hle : ∀ target s s', call target s = some s' → call' target s = some s')
    (c : Command) {s s' : State W} (h : c.run m call s = some s') :
    c.run m call' s = some s' := by
  induction c with
  | call target =>
    rw [run_call] at h ⊢
    exact hle _ _ _ h
  | guarded clauses body ih =>
    rw [run_guarded] at h ⊢
    split
    · next hclauses =>
      rw [if_pos hclauses] at h
      exact ih h
    · next hclauses =>
      rw [if_neg hclauses] at h
      exact h
  | _ =>
    rw [Command.run] at h ⊢ <;> simp_all

/-- Commands keep their end when calls do more. -/
theorem runCommands_mono (hle : ∀ target s s', call target s = some s' → call' target s = some s')
    (cs : List Command) {s s' : State W} (h : runCommands m call cs s = some s') :
    runCommands m call' cs s = some s' := by
  induction cs generalizing s with
  | nil => exact h
  | cons c cs ih =>
    rw [runCommands_cons, Option.bind_eq_some_iff] at h ⊢
    obtain ⟨t, hc, hrest⟩ := h
    exact ⟨t, run_mono hle c hc, ih hrest⟩

/-- What a command does depends only on the functions it calls. -/
theorem run_congr (c : Command) (h : ∀ target ∈ c.calls, call target = call' target)
    (s : State W) : c.run m call s = c.run m call' s := by
  induction c with
  | call target =>
    rw [run_call, run_call, h target (by simp [Command.calls])]
  | guarded clauses body ih => rw [run_guarded, run_guarded, ih h]
  | _ => rw [Command.run, Command.run] <;> simp

/-- What commands do depends only on the functions they call. -/
theorem runCommands_congr (cs : List Command)
    (h : ∀ target ∈ cs.flatMap Command.calls, call target = call' target) (s : State W) :
    runCommands m call cs s = runCommands m call' cs s := by
  induction cs generalizing s with
  | nil => rfl
  | cons c cs ih =>
    rw [List.flatMap_cons] at h
    have hrest : runCommands m call cs = runCommands m call' cs := by
      funext t
      exact ih (fun target htarget => h target (List.mem_append_right _ htarget)) t
    rw [runCommands_cons, runCommands_cons, hrest,
      run_congr c fun target htarget => h target (List.mem_append_left _ htarget)]

end

/-! ### Calls -/

section

variable {m : Machine W} {table : Table}

theorem Table.call_succ_of_some {target : ResourceLocation} {body : List Command}
    (h : table target = some body) (depth : Nat) (s : State W) :
    table.call m (depth + 1) target s = runCommands m (table.call m depth) body s := by
  simp [Table.call, h]

theorem Table.call_succ_of_none {target : ResourceLocation} (h : table target = none)
    (depth : Nat) (s : State W) :
    table.call m (depth + 1) target s = m.act (.call target) s := by
  simp [Table.call, h]

/-- A call that ends still ends the same way with one more level. -/
theorem Table.call_succ (depth : Nat) (target : ResourceLocation) {s s' : State W}
    (h : table.call m depth target s = some s') :
    table.call m (depth + 1) target s = some s' := by
  induction depth generalizing target s s' with
  | zero => simp [Table.call] at h
  | succ depth ih =>
    cases hbody : table target with
    | none =>
      rw [Table.call_succ_of_none hbody] at h ⊢
      exact h
    | some body =>
      rw [Table.call_succ_of_some hbody] at h ⊢
      exact runCommands_mono (fun target _ _ => ih target) body h

theorem Table.call_mono {depth depth' : Nat} (hle : depth ≤ depth') (target : ResourceLocation)
    {s s' : State W} (h : table.call m depth target s = some s') :
    table.call m depth' target s = some s' := by
  induction hle with
  | refl => exact h
  | step _ ih => exact Table.call_succ _ target ih

/-- A run that ends still ends the same way with more levels of calls. -/
theorem runCommands_depth_mono {depth depth' : Nat} (hle : depth ≤ depth') (cs : List Command)
    {s s' : State W} (h : runCommands m (table.call m depth) cs s = some s') :
    runCommands m (table.call m depth') cs s = some s' :=
  runCommands_mono (fun target _ _ => Table.call_mono hle target) cs h

/-- A run has one end. -/
theorem Runs.unique {cs : List Command} {s s₁ s₂ : State W} (h₁ : Runs m table cs s s₁)
    (h₂ : Runs m table cs s s₂) : s₁ = s₂ := by
  obtain ⟨d₁, h₁⟩ := h₁
  obtain ⟨d₂, h₂⟩ := h₂
  have h₁' := runCommands_depth_mono (Nat.le_max_left d₁ d₂) cs h₁
  have h₂' := runCommands_depth_mono (Nat.le_max_right d₁ d₂) cs h₂
  exact Option.some.inj (h₁'.symm.trans h₂')

@[simp] theorem runs_nil_iff {s s' : State W} : Runs m table [] s s' ↔ s' = s := by
  constructor
  · rintro ⟨_, h⟩
    exact (Option.some.inj h).symm
  · rintro rfl
    exact ⟨0, rfl⟩

theorem runs_append_iff {cs ds : List Command} {s s' : State W} :
    Runs m table (cs ++ ds) s s' ↔ ∃ t, Runs m table cs s t ∧ Runs m table ds t s' := by
  constructor
  · rintro ⟨d, h⟩
    rw [runCommands_append, Option.bind_eq_some_iff] at h
    obtain ⟨t, hcs, hds⟩ := h
    exact ⟨t, ⟨d, hcs⟩, ⟨d, hds⟩⟩
  · rintro ⟨t, ⟨d₁, hcs⟩, ⟨d₂, hds⟩⟩
    refine ⟨max d₁ d₂, ?_⟩
    rw [runCommands_append, runCommands_depth_mono (Nat.le_max_left d₁ d₂) cs hcs]
    exact runCommands_depth_mono (Nat.le_max_right d₁ d₂) ds hds

theorem runs_cons_iff {c : Command} {cs : List Command} {s s' : State W} :
    Runs m table (c :: cs) s s' ↔ ∃ t, Runs m table [c] s t ∧ Runs m table cs t s' := by
  rw [← List.singleton_append, runs_append_iff]

@[simp] theorem runs_set_iff {score : Score} {value : Int} {s s' : State W} :
    Runs m table [.set score value] s s' ↔ s' = s.set score value := by
  simp [Runs, eq_comm]

/-- A guarded command runs its body when the clauses hold, and does nothing otherwise. -/
theorem runs_guarded_iff {clauses : List Clause} {body : Command} {s s' : State W} :
    Runs m table [.guarded clauses body] s s' ↔
      if clauses.all (·.holds m s) then Runs m table [body] s s' else s' = s := by
  split <;> next hclauses => simp [Runs, run_guarded, hclauses, eq_comm]

/-- A call of a function of the table runs its commands. -/
theorem runs_call_iff {target : ResourceLocation} {body : List Command}
    (h : table target = some body) {s s' : State W} :
    Runs m table [.call target] s s' ↔ Runs m table body s s' := by
  constructor
  · rintro ⟨d, hd⟩
    rw [runCommands_singleton, run_call] at hd
    have hd' := Table.call_succ d target hd
    rw [Table.call_succ_of_some h] at hd'
    exact ⟨d, hd'⟩
  · rintro ⟨d, hd⟩
    refine ⟨d + 1, ?_⟩
    rw [runCommands_singleton, run_call, Table.call_succ_of_some h]
    exact hd

end

end Packwright
