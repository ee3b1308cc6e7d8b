import Packwright.Proofs.Semantics.Machine

/-!
# Computing with scores

An operation between two scores has a value, and what is kept of it depends on the machine: all of
it, or only as much as fits a score. A third machine stops where a value does not fit a score, so a
run that it ends has had no such value.

## Main definitions

- `Operation.value?` — the value of an operation
- `Store`, `Store.unbounded`, `Store.wrapping`, `Store.checked` — what is kept of a value
- `Machine.Computes`, `Machine.Checks` — machines that compute with scores, and one that stops
- `Machine.Counts` — machines that add amounts to scores and take them away
- `Machine.computing`, `Machine.counting` — machines that do nothing else

## Main results

- `Machine.Computes.runs_operate_iff`, `Machine.Computes.runs_operate_cons_iff` — what an operation
  between two scores does
- `Machine.Counts.runs_add_iff`, `Machine.Counts.runs_remove_iff` — what an amount does
-/

namespace Packwright

/-- The value of an operation, with quotients rounded down; there is none for a divisor of zero. Two
scores that are swapped do not get one value. -/
def Operation.value? : Operation → Int → Int → Option Int
  | .assign, _, b => some b
  | .add, a, b => some (a + b)
  | .subtract, a, b => some (a - b)
  | .multiply, a, b => some (a * b)
  | .divide, a, b => if b = 0 then none else some (a.fdiv b)
  | .modulo, a, b => if b = 0 then none else some (a.fmod b)
  | .min, a, b => some (Min.min a b)
  | .max, a, b => some (Max.max a b)
  | .swap, _, _ => none

/-- What is kept of a value; nothing where the run stops. -/
abbrev Store := Int → Option Int

namespace Store

/-- Values of any size are kept. -/
def unbounded : Store := some

/-- A value is kept modulo the number of all scores. -/
def wrapping : Store := fun v => some (v.bmod 4294967296)

/-- The run stops at a value that is no score. -/
def checked : Store := fun v => if inScoreRange v then some v else none

theorem wrapping_of_inScoreRange {v : Int} (h : inScoreRange v = true) : wrapping v = some v := by
  obtain ⟨hlow, hhigh⟩ := inScoreRange_iff.mp h
  unfold minScore at hlow
  unfold maxScore at hhigh
  rw [wrapping, Int.bmod_eq_of_le (by omega) (by omega)]

theorem checked_of_inScoreRange {v : Int} (h : inScoreRange v = true) : checked v = some v :=
  if_pos h

end Store

variable {W : Type}

namespace State

variable {s : State W} {score other : Score} {a b : Int}

@[simp] theorem set_set : (s.set score a).set score b = s.set score b := by
  simp [State.set, Function.update_idem]

theorem set_comm (h : score ≠ other) :
    (s.set score a).set other b = (s.set other b).set score a := by
  simp [State.set, Function.update_comm h]

end State

/-- The machine computes with scores and keeps the values as told. A target without a value counts as
zero. Nothing is said about operations that have no value. -/
def Machine.Computes (m : Machine W) (store : Store) : Prop :=
  ∀ (target source : Score) (o : Operation) (s : State W) (b v : Int),
    s.scores source = some b → o.value? ((s.scores target).getD 0) b = some v →
    m.act (.operate target o source) s = (store v).map (s.set target)

/-- The machine stops at a value that is no score, and at a divisor of zero. -/
structure Machine.Checks (m : Machine W) : Prop where
  computes : m.Computes .checked
  divides (target source : Score) (o : Operation) (s : State W) (b : Int) :
    s.scores source = some b → o.value? ((s.scores target).getD 0) b = none → o ≠ .swap →
    m.act (.operate target o source) s = none

/-- The machine adds amounts and takes them away, and keeps the values as told. A target without a value counts
as zero. Nothing is said about amounts that are no scores. -/
structure Machine.Counts (m : Machine W) (store : Store) : Prop where
  add (target : Score) (n : Nat) (s : State W) : (n : Int) ≤ maxScore →
    m.act (.add target n) s = (store ((s.scores target).getD 0 + n)).map (s.set target)
  remove (target : Score) (n : Nat) (s : State W) : (n : Int) ≤ maxScore →
    m.act (.remove target n) s = (store ((s.scores target).getD 0 - n)).map (s.set target)

/-- A machine that computes with scores, and whose other commands do nothing. -/
def Machine.computing (store : Store) : Machine Unit where
  act
    | .operate target .swap source, s =>
      some ((s.set target ((s.scores source).getD 0)).set source ((s.scores target).getD 0))
    | .operate target o source, s =>
      ((o.value? ((s.scores target).getD 0) ((s.scores source).getD 0)).bind store).map (s.set target)
    | _, s => some s
  test _ _ := false
  within _ _ := false

theorem Machine.computing_computes (store : Store) : (computing store).Computes store := by
  intro target source o s b v hsource hvalue
  cases o with
  | swap => cases hvalue
  | _ => simp [computing, hsource, hvalue]

theorem Machine.computing_checks : (computing .checked).Checks where
  computes := computing_computes .checked
  divides target source o s b hsource hvalue hswap := by
    cases o with
    | swap => exact absurd rfl hswap
    | _ => simp [computing, hsource, hvalue]

/-- A machine that computes with scores and counts, and whose other commands do nothing. -/
def Machine.counting (store : Store) : Machine Unit where
  act
    | .add target n, s => (store ((s.scores target).getD 0 + n)).map (s.set target)
    | .remove target n, s => (store ((s.scores target).getD 0 - n)).map (s.set target)
    | c, s => (computing store).act c s
  test := (computing store).test
  within := (computing store).within

theorem Machine.counting_computes (store : Store) : (counting store).Computes store :=
  computing_computes store

theorem Machine.counting_counts (store : Store) : (counting store).Counts store where
  add _ _ _ _ := rfl
  remove _ _ _ _ := rfl

namespace Machine.Counts

variable {m : Machine W} {store : Store} {table : Table} {target : Score} {n : Nat} {s s' : State W}

/-- An amount that is added gives the target what is kept of the sum. -/
theorem runs_add_iff (h : m.Counts store) (hn : (n : Int) ≤ maxScore) :
    Runs m table [.add target n] s s' ↔
      ∃ w, store ((s.scores target).getD 0 + n) = some w ∧ s' = s.set target w := by
  simp only [Runs, runCommands_singleton, Command.run, h.add target n s hn, Option.map_eq_some_iff, exists_const,
    @eq_comm _ s']

/-- An amount that is taken away gives the target what is kept of the difference. -/
theorem runs_remove_iff (h : m.Counts store) (hn : (n : Int) ≤ maxScore) :
    Runs m table [.remove target n] s s' ↔
      ∃ w, store ((s.scores target).getD 0 - n) = some w ∧ s' = s.set target w := by
  simp only [Runs, runCommands_singleton, Command.run, h.remove target n s hn, Option.map_eq_some_iff, exists_const,
    @eq_comm _ s']

end Machine.Counts

namespace Machine.Computes

variable {m : Machine W} {store : Store} {table : Table} {target source : Score} {o : Operation}
  {cs : List Command} {s s' : State W} {b v w : Int}

/-- An operation gives its target what is kept of its value. -/
theorem runs_operate_iff (h : m.Computes store) (hsource : s.scores source = some b)
    (hvalue : o.value? ((s.scores target).getD 0) b = some v) :
    Runs m table [.operate target o source] s s' ↔ ∃ w, store v = some w ∧ s' = s.set target w := by
  simp only [Runs, runCommands_singleton, Command.run, h target source o s b v hsource hvalue,
    Option.map_eq_some_iff, exists_const, @eq_comm _ s']

/-- The commands behind an operation run on what it leaves. -/
theorem runs_operate_cons_iff (h : m.Computes store) (hsource : s.scores source = some b)
    (hvalue : o.value? ((s.scores target).getD 0) b = some v) :
    Runs m table (.operate target o source :: cs) s s' ↔
      ∃ w, store v = some w ∧ Runs m table cs (s.set target w) s' := by
  rw [runs_cons_iff]
  constructor
  · rintro ⟨t, hfirst, hrest⟩
    obtain ⟨w, hw, rfl⟩ := (h.runs_operate_iff hsource hvalue).mp hfirst
    exact ⟨w, hw, hrest⟩
  · rintro ⟨w, hw, hrest⟩
    exact ⟨_, (h.runs_operate_iff hsource hvalue).mpr ⟨w, hw, rfl⟩, hrest⟩

/-- The same where the value is kept. -/
theorem runs_kept_iff (h : m.Computes store) (hsource : s.scores source = some b)
    (hvalue : o.value? ((s.scores target).getD 0) b = some v) (hkept : store v = some w) :
    Runs m table (.operate target o source :: cs) s s' ↔ Runs m table cs (s.set target w) s' := by
  simp only [h.runs_operate_cons_iff hsource hvalue, hkept, Option.some.injEq, exists_eq_left']

end Machine.Computes

end Packwright
