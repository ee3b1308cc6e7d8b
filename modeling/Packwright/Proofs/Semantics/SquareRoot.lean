import Mathlib.Data.Nat.Sqrt
import Mathlib.Tactic.Linarith
import Packwright.Proofs.Semantics.Arithmetic
import Packwright.Session.Expansion

/-!
# The square root of a score

The two functions of the square root call one another, and share three scores. Started at the number
itself, the estimates fall until they are at the integer square root, and not below it. No estimate
and no value on the way to it is greater than the number and one more.

## Main definitions

- `Sqrt.next`, `Sqrt.root`, `Sqrt.rest` — the estimate behind another one, the result, and what stays
  behind as the last estimate
- `Sqrt.Defines` — tables that know the two functions
- `Sqrt.finish` — the state in which the commands of a call end

## Main results

- `Sqrt.sqrt_le_next`, `Sqrt.next_lt_iff` — estimates fall to the root, and only so far
- `Sqrt.runs_round_iff` — one round
- `Sqrt.runs_rounds` — all rounds
- `Sqrt.runs_use` — the commands of a call
- `Sqrt.runs_checked_iff`, `Sqrt.runs_wrapping_eq_iff` — only calls with the greatest score need more
  than scores
-/

namespace Packwright.Sqrt

/-! ### Estimates -/

/-- The estimate behind `x`. -/
def next (n x : Nat) : Nat := (n / x + x) / 2

variable {n x : Nat}

/-- No estimate is below the root. -/
theorem sqrt_le_next (hx : 0 < x) : n.sqrt ≤ next n x := by
  have hquotient : 2 * n.sqrt - x ≤ n / x := by
    rw [Nat.le_div_iff_mul_le hx]
    by_cases hle : x ≤ 2 * n.sqrt
    · -- the square of the difference of the root and `x` is not negative
      obtain ⟨d, hd⟩ := Nat.exists_eq_add_of_le hle
      have hroot := n.sqrt_le
      rw [hd, Nat.add_sub_cancel_left]
      nlinarith [sq_nonneg ((x : ℤ) - d)]
    · rw [Nat.sub_eq_zero_of_le (by omega), Nat.zero_mul]
      exact Nat.zero_le n
  unfold next
  omega

/-- Estimates fall as long as they are above the root. -/
theorem next_lt_iff (hx : 0 < x) : next n x < x ↔ n.sqrt < x := by
  rw [Nat.sqrt_lt, ← Nat.div_lt_iff_lt_mul hx]
  unfold next
  omega

/-- What is halved exceeds the number by one at most. -/
theorem sum_le (hx : 0 < x) (hle : x ≤ n) : n / x + x ≤ n + 1 := by
  have hquotient : 1 ≤ n / x := (Nat.le_div_iff_mul_le hx).mpr (by omega)
  have hproduct := Nat.div_mul_le_self n x
  nlinarith

theorem next_le (hx : 0 < x) (hle : x ≤ n) : next n x ≤ n := by
  have hsum := sum_le hx hle
  unfold next
  omega

/-- The integer square root; a negative number stays as it is. -/
def root (n : Int) : Int := if n < 0 then n else n.toNat.sqrt

/-- The last estimate that was computed. -/
def rest (n : Int) : Int := if n < 2 then n else next n.toNat n.toNat.sqrt

/-- The greatest integer whose square is not above the number. -/
theorem root_spec {n : Int} (hn : 0 ≤ n) :
    0 ≤ root n ∧ root n * root n ≤ n ∧ n < (root n + 1) * (root n + 1) := by
  obtain ⟨k, rfl⟩ := Int.eq_ofNat_of_zero_le hn
  have hroot : root k = k.sqrt := if_neg (Int.not_lt.mpr hn)
  rw [hroot]
  exact ⟨Int.natCast_nonneg _, by exact_mod_cast k.sqrt_le, by exact_mod_cast k.lt_succ_sqrt⟩

/-! ### Rounds -/

variable {W : Type} {m : Machine W} {store : Store} {table : Table} {main step : ResourceLocation}
  {s s' : State W}

/-- The table knows the two functions. -/
structure Defines (table : Table) (main step : ResourceLocation) : Prop where
  atMain : table main = some (mainBody (.call step))
  atStep : table step = some (stepBody (.call main))

theorem number_ne_estimate : number ≠ estimate := by decide

theorem number_ne_previous : number ≠ previous := by decide

theorem estimate_ne_previous : estimate ≠ previous := by decide

theorem two_ne_number : Score.ofConstant 2 ≠ number := by decide +kernel

theorem two_ne_estimate : Score.ofConstant 2 ≠ estimate := by decide +kernel

theorem two_ne_previous : Score.ofConstant 2 ≠ previous := by decide +kernel

/-- A state in which a round can begin. -/
structure Begins (s : State W) (n x : Int) : Prop where
  number : s.scores number = some n
  estimate : s.scores estimate = some x
  two : s.scores (.ofConstant 2) = some 2

/-- A round can begin again where only the estimates have changed. -/
theorem Begins.again {n x : Int} (h : Begins s n x) (y e : Int) :
    Begins ((s.set previous y).set Sqrt.estimate e) n e where
  number := by
    rw [State.set_scores_of_ne _ _ number_ne_estimate, State.set_scores_of_ne _ _ number_ne_previous]
    exact h.number
  estimate := State.set_scores_self ..
  two := by
    rw [State.set_scores_of_ne _ _ two_ne_estimate, State.set_scores_of_ne _ _ two_ne_previous]
    exact h.two

/-- A new estimate, computed from the last one. -/
theorem runs_step_iff (htable : Defines table main step) (hm : m.Computes store) {n x : Int}
    (hnumber : s.scores number = some n) (hprevious : s.scores previous = some x)
    (htwo : s.scores (.ofConstant 2) = some 2) (hx : x ≠ 0) (hkept : store n = some n)
    (hquotient : store (n.fdiv x) = some (n.fdiv x)) :
    Runs m table [.call step] s s' ↔ ∃ sum e, store (n.fdiv x + x) = some sum ∧
      store (sum.fdiv 2) = some e ∧
      if e < x then Runs m table [.call main] (s.set estimate e) s' else s' = s.set estimate e := by
  have hprevious' : ∀ v, (s.set estimate v).scores previous = some x := fun v =>
    (State.set_scores_of_ne s v estimate_ne_previous.symm).trans hprevious
  have htwo' : ∀ v, (s.set estimate v).scores (.ofConstant 2) = some 2 := fun v =>
    (State.set_scores_of_ne s v two_ne_estimate).trans htwo
  have hdivide : Operation.value? .divide n x = some (n.fdiv x) := if_neg hx
  rw [runs_call_iff htable.atStep, stepBody, hm.runs_kept_iff hnumber rfl hkept,
    hm.runs_kept_iff (hprevious' n) (by simp [hdivide]) hquotient, State.set_set,
    hm.runs_operate_cons_iff (v := n.fdiv x + x) (hprevious' _) (by simp [Operation.value?])]
  have hlast : ∀ sum, Runs m table [.operate estimate .divide (.ofConstant 2),
        .guarded [⟨false, .compare estimate .lt previous⟩] (.call main)] (s.set estimate sum) s' ↔
      ∃ e, store (sum.fdiv 2) = some e ∧ if e < x then Runs m table [.call main] (s.set estimate e) s'
        else s' = s.set estimate e := by
    intro sum
    rw [hm.runs_operate_cons_iff (v := sum.fdiv 2) (htwo' sum) (by simp [Operation.value?])]
    refine exists_congr fun e => and_congr_right fun _ => ?_
    rw [State.set_set, runs_guarded_iff]
    simp [Clause.holds, Test.holds, hprevious', Comparison.relates]
  simp only [State.set_set, hlast, exists_and_left]

/-- One round: the estimate becomes the last one, and the next one is computed. If it is smaller,
another round follows. -/
theorem runs_round_iff (htable : Defines table main step) (hm : m.Computes store) {n x : Int}
    (h : Begins s n x) (hx : x ≠ 0) (hkept : store x = some x) (hnumber : store n = some n)
    (hquotient : store (n.fdiv x) = some (n.fdiv x)) :
    Runs m table [.call main] s s' ↔ ∃ sum e, store (n.fdiv x + x) = some sum ∧
      store (sum.fdiv 2) = some e ∧
      if e < x then Runs m table [.call main] ((s.set previous x).set estimate e) s'
      else s' = (s.set previous x).set estimate e := by
  rw [runs_call_iff htable.atMain, mainBody, hm.runs_kept_iff h.estimate rfl hkept]
  refine runs_step_iff htable hm ?_ (State.set_scores_self ..) ?_ hx hnumber hquotient
  · rw [State.set_scores_of_ne _ _ number_ne_previous]
    exact h.number
  · rw [State.set_scores_of_ne _ _ two_ne_previous]
    exact h.two

/-- The numbers up to `n` and one more are kept. -/
def Keeps (store : Store) (n : Nat) : Prop := ∀ k : Nat, k ≤ n + 1 → store k = some k

/-- From an estimate that is not below the root, the rounds lead to the root. -/
theorem runs_rounds (htable : Defines table main step) (hm : m.Computes store) {n x : Nat}
    (hkeeps : Keeps store n) (hx : 0 < x) (hle : x ≤ n) (hroot : n.sqrt ≤ x) (h : Begins s n x) :
    Runs m table [.call main] s ((s.set previous n.sqrt).set estimate (next n n.sqrt)) := by
  -- the estimate gets smaller from round to round
  induction x using Nat.strong_induction_on generalizing s with
  | _ x ih =>
    have hquotient : (n : Int).fdiv x = (n / x : Nat) := (Int.ofNat_fdiv n x).symm
    have hhalf : ((n / x : Nat) + x : Int).fdiv 2 = next n x := (Int.ofNat_fdiv (n / x + x) 2).symm
    have hsum := hkeeps _ (sum_le hx hle)
    have hkept := hkeeps _ ((next_le hx hle).trans (Nat.le_succ n))
    rw [runs_round_iff htable hm h (by omega) (hkeeps x (by omega)) (hkeeps n (by omega))
      (hquotient ▸ hkeeps _ ((Nat.div_le_self n x).trans (Nat.le_succ n))), hquotient]
    refine ⟨_, _, hsum, hhalf ▸ hkept, ?_⟩
    have hpositive : 0 < n.sqrt := Nat.sqrt_pos.mpr (by omega)
    by_cases hfalls : next n x < x
    · rw [if_pos (by exact_mod_cast hfalls)]
      have hnext := sqrt_le_next (n := n) hx
      have hrun := ih (next n x) hfalls (by omega) (next_le hx hle) hnext (h.again x (next n x))
      rw [State.set_comm estimate_ne_previous, State.set_set, State.set_set] at hrun
      exact hrun
    · rw [if_neg (by exact_mod_cast hfalls)]
      have hsame : n.sqrt = x := Nat.le_antisymm hroot (Nat.not_lt.mp fun hlt =>
        hfalls ((next_lt_iff hx).mpr hlt))
      rw [hsame]

/-! ### Calls -/

/-- The state in which the commands of a call end. -/
def finish (s : State W) (n : Int) (target : Score) : State W :=
  (((s.set number n).set previous (root n)).set estimate (rest n)).set target (root n)

/-- The scores that a call writes. -/
def Writes (target score : Score) : Prop :=
  score = target ∨ score = number ∨ score = estimate ∨ score = previous

theorem finish_scores_target (s : State W) (n : Int) (target : Score) :
    (finish s n target).scores target = some (root n) :=
  State.set_scores_self ..

/-- A call writes no other score. -/
theorem agreeOff_finish (s : State W) (n : Int) (target : Score) :
    s.AgreeOff (Writes target) (finish s n target) := by
  have hnumber : Writes target number := .inr (.inl rfl)
  have hestimate : Writes target estimate := .inr (.inr (.inl rfl))
  have hprevious : Writes target previous := .inr (.inr (.inr rfl))
  have htarget : Writes target target := .inl rfl
  exact ((((State.AgreeOff.refl _ s).set_right hnumber _).set_right hprevious _).set_right
    hestimate _).set_right htarget _

/-- Numbers below two are roots of themselves. -/
theorem root_of_lt_two {n : Int} (hn : n < 2) : root n = n := by
  unfold root
  split
  · rfl
  · obtain rfl | rfl : n = 0 ∨ n = 1 := by omega
    · rfl
    · rfl

section

variable {n : Int} {setNumber : Command} {target : Score}

/-- The commands of a call begin rounds at the number itself, if it is two or more. -/
theorem runs_use_iff (hm : m.Computes store)
    (hset : ∀ t, Runs m table [setNumber] s t ↔ t = s.set number n) (hkept : store n = some n) :
    Runs m table (useBody setNumber target (.call main)) s s' ↔
      ∃ t, (if 2 ≤ n then
          Runs m table [.call main] (((s.set number n).set estimate n).set previous n) t
        else t = ((s.set number n).set estimate n).set previous n) ∧
        Runs m table [.operate target .assign previous] t s' := by
  have hnumber : ((s.set number n).set estimate n).scores number = some n := by
    rw [State.set_scores_of_ne _ _ number_ne_estimate, State.set_scores_self]
  have hnumber' : (((s.set number n).set estimate n).set previous n).scores number = some n := by
    rw [State.set_scores_of_ne _ _ number_ne_previous, hnumber]
  rw [useBody, runs_cons_iff]
  simp only [hset, exists_eq_left]
  rw [hm.runs_kept_iff (State.set_scores_self ..) rfl hkept, hm.runs_kept_iff hnumber rfl hkept,
    runs_cons_iff]
  refine exists_congr fun t => and_congr_left fun _ => ?_
  rw [runs_guarded_iff]
  simp [Clause.holds, Test.holds, ScoreRange.contains, hnumber']

/-- The state before the rounds is one in which a round can begin. -/
theorem begins_use (htwo : s.scores (.ofConstant 2) = some 2) :
    Begins (((s.set number n).set estimate n).set previous n) n n where
  number := by
    rw [State.set_scores_of_ne _ _ number_ne_previous, State.set_scores_of_ne _ _ number_ne_estimate,
      State.set_scores_self]
  estimate := by rw [State.set_scores_of_ne _ _ estimate_ne_previous, State.set_scores_self]
  two := by
    rw [State.set_scores_of_ne _ _ two_ne_previous, State.set_scores_of_ne _ _ two_ne_estimate,
      State.set_scores_of_ne _ _ two_ne_number, htwo]

/-- The commands of a call leave the root in the target, on every machine that keeps the numbers up
to the given one and one more. -/
theorem runs_use (htable : Defines table main step) (hm : m.Computes store)
    (hset : ∀ t, Runs m table [setNumber] s t ↔ t = s.set number n)
    (htwo : s.scores (.ofConstant 2) = some 2) (hkept : store n = some n)
    (hkeeps : 2 ≤ n → Keeps store n.toNat) :
    Runs m table (useBody setNumber target (.call main)) s (finish s n target) := by
  have hlast : ∀ (t : State W) (r : Int), t.scores previous = some r → store r = some r →
      Runs m table [.operate target .assign previous] t (t.set target r) :=
    fun t r hr hkept => (hm.runs_operate_iff hr rfl).mpr ⟨r, hkept, rfl⟩
  rw [runs_use_iff hm hset hkept]
  refine ⟨((s.set number n).set previous (root n)).set estimate (rest n), ?_, ?_⟩
  · split
    · next hn =>
      obtain ⟨k, rfl⟩ := Int.eq_ofNat_of_zero_le (Int.le_trans (by decide) hn)
      have hk : 2 ≤ k := by exact_mod_cast hn
      have hrun := runs_rounds (n := k) (x := k) htable hm (hkeeps hn) (by omega) le_rfl
        (Nat.sqrt_le_self k) (begins_use htwo)
      have hroot : root k = k.sqrt := if_neg (by omega)
      have hrest : rest k = next k k.sqrt := if_neg (by omega)
      have hend : ((((s.set number k).set estimate k).set previous k).set previous (root k)).set
          estimate (rest k) = ((s.set number k).set previous (root k)).set estimate (rest k) := by
        rw [State.set_set, State.set_comm estimate_ne_previous, State.set_set]
      rw [← hend, hroot, hrest]
      exact hrun
    · next hn =>
      rw [root_of_lt_two (by omega), rest, if_pos (by omega), State.set_comm estimate_ne_previous]
  · refine hlast _ (root n) ?_ ?_
    · rw [State.set_scores_of_ne _ _ estimate_ne_previous.symm, State.set_scores_self]
    · by_cases hn : 2 ≤ n
      · have hroot : root n = n.toNat.sqrt := if_neg (by omega)
        rw [hroot]
        exact hkeeps hn _ ((Nat.sqrt_le_self _).trans (Nat.le_succ _))
      · rw [root_of_lt_two (by omega), hkept]

end

/-! ### The greatest score -/

/-- The first sum for the greatest score is no score. -/
theorem no_round_of_max (htable : Defines table main step) (hm : m.Computes .checked)
    (h : Begins s maxScore maxScore) : ¬ Runs m table [.call main] s s' := by
  have hkept : Store.checked maxScore = some maxScore := by decide
  rw [runs_round_iff htable hm h (by decide) hkept hkept (by decide)]
  rintro ⟨sum, -, hsum, -⟩
  have hnone : Store.checked (maxScore.fdiv maxScore + maxScore) = none := by decide
  rw [hnone] at hsum
  cases hsum

/-- What the rounds for the greatest score leave when sums are wrapped. -/
def lapsed : Int := -1073741824

/-- When sums are wrapped, the second round for the greatest score begins below zero, and is the
last one. -/
theorem runs_wrapping_max (htable : Defines table main step) (hm : m.Computes .wrapping)
    (h : Begins s maxScore maxScore) :
    Runs m table [.call main] s ((s.set previous lapsed).set estimate (-536870913)) := by
  have hkept : Store.wrapping maxScore = some maxScore := by decide
  rw [runs_round_iff htable hm h (by decide) hkept hkept (by decide)]
  refine ⟨minScore, lapsed, by decide, by decide, ?_⟩
  rw [if_pos (by decide), runs_round_iff htable hm (h.again _ _) (by decide) (by decide) hkept
    (by decide)]
  refine ⟨-1073741826, -536870913, by decide, by decide, ?_⟩
  rw [if_neg (by decide), State.set_comm estimate_ne_previous, State.set_set, State.set_set]

section

variable {setNumber : Command} {target : Score}

theorem no_use_of_max (htable : Defines table main step) (hm : m.Computes .checked)
    (hset : ∀ t, Runs m table [setNumber] s t ↔ t = s.set number maxScore)
    (htwo : s.scores (.ofConstant 2) = some 2) :
    ¬ Runs m table (useBody setNumber target (.call main)) s s' := by
  rw [runs_use_iff hm hset (by decide)]
  rintro ⟨t, hrounds, -⟩
  rw [if_pos (by decide)] at hrounds
  exact no_round_of_max htable hm (begins_use htwo) hrounds

/-- When sums are wrapped, a call with the greatest score leaves a negative number. -/
theorem runs_use_wrapping_max (htable : Defines table main step) (hm : m.Computes .wrapping)
    (hset : ∀ t, Runs m table [setNumber] s t ↔ t = s.set number maxScore)
    (htwo : s.scores (.ofConstant 2) = some 2) :
    ∃ t, Runs m table (useBody setNumber target (.call main)) s t ∧
      t.scores target = some lapsed := by
  obtain ⟨t, hrounds, hprevious⟩ : ∃ t, Runs m table [.call main]
      (((s.set number maxScore).set estimate maxScore).set previous maxScore) t ∧
        t.scores previous = some lapsed := by
    refine ⟨_, runs_wrapping_max htable hm (begins_use htwo), ?_⟩
    rw [State.set_scores_of_ne _ _ estimate_ne_previous.symm, State.set_scores_self]
  refine ⟨t.set target lapsed, ?_, State.set_scores_self ..⟩
  rw [runs_use_iff hm hset (by decide)]
  refine ⟨t, ?_, (hm.runs_operate_iff hprevious rfl).mpr ⟨lapsed, by decide, rfl⟩⟩
  rw [if_pos (by decide)]
  exact hrounds

variable {n : Int}

/-- The numbers up to a score that is not the greatest one, and one more, are scores. -/
theorem keeps_of_ne_max (hstore : ∀ v, inScoreRange v = true → store v = some v)
    (hn : inScoreRange n = true) (hmax : n ≠ maxScore) (htwo : 2 ≤ n) : Keeps store n.toNat := by
  intro k hk
  apply hstore
  rw [inScoreRange_iff] at hn ⊢
  unfold minScore maxScore at *
  omega

/-- A machine that stops where a value is no score ends the commands for every number but the greatest
score. -/
theorem runs_checked_iff (htable : Defines table main step) (hm : m.Computes .checked)
    (hset : ∀ t, Runs m table [setNumber] s t ↔ t = s.set number n)
    (htwo : s.scores (.ofConstant 2) = some 2) (hn : inScoreRange n = true) :
    (∃ s', Runs m table (useBody setNumber target (.call main)) s s') ↔ n ≠ maxScore := by
  constructor
  · rintro ⟨s', hrun⟩ rfl
    exact no_use_of_max htable hm hset htwo hrun
  · intro hmax
    exact ⟨_, runs_use htable hm hset htwo (Store.checked_of_inScoreRange hn)
      (keeps_of_ne_max (fun _ => Store.checked_of_inScoreRange) hn hmax)⟩

/-- Wrapping changes the result for the greatest score only. -/
theorem runs_wrapping_eq_iff {m' : Machine W} (htable : Defines table main step)
    (hm : m.Computes .wrapping) (hm' : m'.Computes .unbounded)
    (hset : ∀ t, Runs m table [setNumber] s t ↔ t = s.set number n)
    (hset' : ∀ t, Runs m' table [setNumber] s t ↔ t = s.set number n)
    (htwo : s.scores (.ofConstant 2) = some 2) (hn : inScoreRange n = true) :
    ∃ t t', Runs m table (useBody setNumber target (.call main)) s t ∧
      Runs m' table (useBody setNumber target (.call main)) s t' ∧ (t = t' ↔ n ≠ maxScore) := by
  have hfree : Runs m' table (useBody setNumber target (.call main)) s (finish s n target) :=
    runs_use htable hm' hset' htwo rfl fun _ _ _ => rfl
  by_cases hmax : n = maxScore
  · subst hmax
    obtain ⟨t, hrun, htarget⟩ : ∃ t, Runs m table (useBody setNumber target (.call main)) s t ∧
        t.scores target = some lapsed := runs_use_wrapping_max htable hm hset htwo
    refine ⟨t, _, hrun, hfree, iff_of_false ?_ fun h => h rfl⟩
    rintro rfl
    -- the root is not negative
    rw [finish_scores_target] at htarget
    have hroot := (root_spec (n := maxScore) (by decide)).1
    rw [Option.some.inj htarget] at hroot
    exact absurd hroot (by decide)
  · have hrun : Runs m table (useBody setNumber target (.call main)) s (finish s n target) :=
      runs_use htable hm hset htwo (Store.wrapping_of_inScoreRange hn)
        (keeps_of_ne_max (fun _ => Store.wrapping_of_inScoreRange) hn hmax)
    exact ⟨_, _, hrun, hfree, iff_of_true rfl hmax⟩

end

end Packwright.Sqrt
