import Packwright.Proofs.Meaning

/-!
# Running a switch

The tests of a switch stand one after the other, and each reads the score anew. So the cases that run
form a cascade: the case whose label is the value of the score, and then, if that case has moved the
score to a greater label, the case of that label, and so on.

## Main definitions

- `Enters` — the cases that a run enters, in order
- `Cascade` — cases that run one after the other, each with a greater label than the last

## Main results

- `Cascade.append_iff` — a cascade over a range is one over its first part, then one over the rest
- `cascades_rangeTest` — the test of a range runs a cascade over its labels
- `switch_runs_one_case_iff` — when a switch runs one case only
-/

namespace Packwright

variable {W : Type}

/-- The score has a value from `low` to `high`. -/
def State.ScoreIn (s : State W) (score : Score) (low high : Int) : Prop :=
  ∃ v, s.scores score = some v ∧ low ≤ v ∧ v ≤ high

/-- A run of commands with the cases that it enters, in order. What happens inside a case is not
looked at, functions that are no cases are followed. -/
inductive Enters (m : Machine W) (table : Table) (isCase : ResourceLocation → Prop) :
    List Command → State W → List ResourceLocation → State W → Prop
  | nil {s : State W} : Enters m table isCase [] s [] s
  | skip {clauses : List Clause} {body : Command} {rest : List Command} {s u : State W}
    {ran : List ResourceLocation} (h : clauses.all (·.holds m s) = false)
    (hrest : Enters m table isCase rest s ran u) :
    Enters m table isCase (.guarded clauses body :: rest) s ran u
  | pass {clauses : List Clause} {body : Command} {rest : List Command} {s u : State W}
    {ran : List ResourceLocation} (h : clauses.all (·.holds m s) = true)
    (hrest : Enters m table isCase (body :: rest) s ran u) :
    Enters m table isCase (.guarded clauses body :: rest) s ran u
  | enter {target : ResourceLocation} {rest : List Command} {s t u : State W}
    {ran : List ResourceLocation} (hcase : isCase target) (hrun : Runs m table [.call target] s t)
    (hrest : Enters m table isCase rest t ran u) :
    Enters m table isCase (.call target :: rest) s (target :: ran) u
  | inside {target : ResourceLocation} {body rest : List Command} {s u : State W}
    {ran : List ResourceLocation} (hcase : ¬ isCase target) (hbody : table target = some body)
    (hrest : Enters m table isCase (body ++ rest) s ran u) :
    Enters m table isCase (.call target :: rest) s ran u

section

variable {m : Machine W} {table : Table} {isCase : ResourceLocation → Prop}
  {ran : List ResourceLocation} {s u : State W} {rest : List Command}

/-- What enters cases is a run. -/
theorem Enters.runs {cs : List Command} (h : Enters m table isCase cs s ran u) :
    Runs m table cs s u := by
  induction h with
  | nil => exact runs_nil_iff.mpr rfl
  | skip h _ ih =>
    rw [runs_cons_iff]
    exact ⟨_, runs_guarded_iff.mpr (by rw [if_neg (by simp [h])]), ih⟩
  | pass h _ ih =>
    obtain ⟨t, hbody, hrest⟩ := runs_cons_iff.mp ih
    rw [runs_cons_iff]
    exact ⟨t, runs_guarded_iff.mpr (by rwa [if_pos h]), hrest⟩
  | enter _ hrun _ ih =>
    rw [runs_cons_iff]
    exact ⟨_, hrun, ih⟩
  | inside _ hbody _ ih =>
    obtain ⟨t, hinside, hrest⟩ := runs_append_iff.mp ih
    rw [runs_cons_iff]
    exact ⟨t, (runs_call_iff hbody).mpr hinside, hrest⟩

theorem enters_guarded_iff {clauses : List Clause} {body : Command} :
    Enters m table isCase (.guarded clauses body :: rest) s ran u ↔
      if clauses.all (·.holds m s) then Enters m table isCase (body :: rest) s ran u
      else Enters m table isCase rest s ran u := by
  constructor
  · intro h
    cases h with
    | skip hclauses hrest => rwa [if_neg (by simp [hclauses])]
    | pass hclauses hrest => rwa [if_pos hclauses]
  · intro h
    split at h
    · next hclauses => exact .pass hclauses h
    · next hclauses => exact .skip (by simpa using hclauses) h

theorem enters_case_iff {target : ResourceLocation} (hcase : isCase target) :
    Enters m table isCase (.call target :: rest) s ran u ↔
      ∃ t ran', Runs m table [.call target] s t ∧ ran = target :: ran' ∧
        Enters m table isCase rest t ran' u := by
  constructor
  · intro h
    cases h with
    | enter _ hrun hrest => exact ⟨_, _, hrun, rfl, hrest⟩
    | inside hno => exact absurd hcase hno
  · rintro ⟨t, ran', hrun, rfl, hrest⟩
    exact .enter hcase hrun hrest

theorem enters_inside_iff {target : ResourceLocation} {body : List Command}
    (hcase : ¬ isCase target) (hbody : table target = some body) :
    Enters m table isCase (.call target :: rest) s ran u ↔
      Enters m table isCase (body ++ rest) s ran u := by
  constructor
  · intro h
    cases h with
    | enter hyes => exact absurd hyes hcase
    | inside _ hbody' hrest =>
      rw [hbody] at hbody'
      rwa [Option.some.inj hbody']
  · exact .inside hcase hbody

end

/-! ### Cascades -/

/-- Cases with labels from `low` to `high` run one after the other, each because the score has its
label. -/
inductive Cascade (m : Machine W) (table : Table) (score : Score) (caseAt : Int → ResourceLocation)
    (high : Int) : Int → State W → List Int → State W → Prop
  | done {low : Int} {s : State W} (h : ¬ s.ScoreIn score low high) :
    Cascade m table score caseAt high low s [] s
  | next {low v : Int} {s t u : State W} {labels : List Int} (hv : s.scores score = some v)
    (hlow : low ≤ v) (hhigh : v ≤ high) (hrun : Runs m table [.call (caseAt v)] s t)
    (hrest : Cascade m table score caseAt high (v + 1) t labels u) :
    Cascade m table score caseAt high low s (v :: labels) u

section

variable {m : Machine W} {table : Table} {score : Score} {caseAt : Int → ResourceLocation}
  {low mid high v : Int} {s u : State W} {labels : List Int}

theorem cascade_done_iff (h : ¬ s.ScoreIn score low high) :
    Cascade m table score caseAt high low s labels u ↔ labels = [] ∧ u = s := by
  constructor
  · intro hcascade
    cases hcascade with
    | done => exact ⟨rfl, rfl⟩
    | next hv hlow hhigh => exact absurd ⟨_, hv, hlow, hhigh⟩ h
  · rintro ⟨rfl, rfl⟩
    exact .done h

theorem cascade_next_iff (hv : s.scores score = some v) (hlow : low ≤ v) (hhigh : v ≤ high) :
    Cascade m table score caseAt high low s labels u ↔
      ∃ t later, Runs m table [.call (caseAt v)] s t ∧ labels = v :: later ∧
        Cascade m table score caseAt high (v + 1) t later u := by
  constructor
  · intro hcascade
    cases hcascade with
    | done h => exact absurd ⟨v, hv, hlow, hhigh⟩ h
    | next hv' _ _ hrun hrest =>
      obtain rfl := Option.some.inj (hv.symm.trans hv')
      exact ⟨_, _, hrun, rfl, hrest⟩
  · rintro ⟨t, later, hrun, rfl, hrest⟩
    exact .next hv hlow hhigh hrun hrest

/-- A cascade over a range is one over its first part, then one over the rest. -/
theorem Cascade.append_iff (hmid : low ≤ mid + 1) (hle : mid ≤ high) :
    Cascade m table score caseAt high low s labels u ↔
      ∃ t first later, Cascade m table score caseAt mid low s first t ∧
        Cascade m table score caseAt high (mid + 1) t later u ∧ labels = first ++ later := by
  constructor
  · intro h
    induction h with
    | @done low s h =>
      refine ⟨s, [], [], .done ?_, .done ?_, rfl⟩
      · rintro ⟨v, hv, hlow, hv'⟩
        exact h ⟨v, hv, hlow, hv'.trans hle⟩
      · rintro ⟨v, hv, hlow, hv'⟩
        exact h ⟨v, hv, hmid.trans hlow, hv'⟩
    | @next low v s t u labels hv hlow hhigh hrun hrest ih =>
      by_cases hv' : v ≤ mid
      · obtain ⟨t', first, later, hfirst, hlater, rfl⟩ := ih (by omega)
        exact ⟨t', v :: first, later, .next hv hlow hv' hrun hfirst, hlater, rfl⟩
      · refine ⟨s, [], v :: labels, .done ?_, .next hv (by omega) hhigh hrun hrest, rfl⟩
        rintro ⟨w, hw, -, hw'⟩
        obtain rfl := Option.some.inj (hv.symm.trans hw)
        exact hv' hw'
  · rintro ⟨t, first, later, hfirst, hlater, rfl⟩
    induction hfirst with
    | @done low s h =>
      by_cases hin : s.ScoreIn score (mid + 1) high
      · obtain ⟨v, hv, hlow, hhigh⟩ := hin
        obtain ⟨t, later', hrun, rfl, hrest⟩ := (cascade_next_iff hv hlow hhigh).mp hlater
        exact .next hv (by omega) hhigh hrun hrest
      · obtain ⟨rfl, rfl⟩ := (cascade_done_iff hin).mp hlater
        refine .done ?_
        rintro ⟨v, hv, hlow, hhigh⟩
        by_cases hv' : v ≤ mid
        · exact h ⟨v, hv, hlow, hv'⟩
        · exact hin ⟨v, hv, by omega, hhigh⟩
    | @next low v s t u labels hv hlow hhigh hrun hrest ih =>
      exact .next hv hlow (hhigh.trans hle) hrun (ih (by omega) hlater)

end

/-! ### Names of ranges -/

theorem minus_not_mem_repr (n : Nat) : '-' ∉ n.repr.toList := by
  intro h
  rw [Nat.toList_repr] at h
  have hdigit := Nat.isDigit_of_mem_toDigits (by omega) (by omega) h
  revert hdigit
  decide

theorem repr_ne_empty (n : Nat) : n.repr.toList ≠ [] := by
  rw [Nat.toList_repr]
  exact Nat.toDigits_ne_nil

/-- An integer is written without a minus behind its first character, and not with nothing. -/
theorem toString_int_tail (n : Int) :
    (toString n).toList ≠ [] ∧ '-' ∉ (toString n).toList.tail := by
  rw [Int.toString_eq_repr, Int.repr_eq_if]
  split
  · exact ⟨repr_ne_empty _, fun h => minus_not_mem_repr _ (List.mem_of_mem_tail h)⟩
  · rw [String.toList_append]
    exact ⟨by simp, minus_not_mem_repr _⟩

/-- The name of a proper range is that of no label. -/
theorem Dispatch.name_ne_label {d : Dispatch} (h : d.low < d.high) (label : Int) :
    d.name ≠ toString label := by
  intro hname
  rw [Dispatch.name, if_neg (by omega)] at hname
  have hlist := congrArg String.toList hname
  simp only [String.toList_append] at hlist
  obtain ⟨c, cs, hlow⟩ := List.exists_cons_of_ne_nil (toString_int_tail d.low).1
  refine (toString_int_tail label).2 ?_
  rw [← hlist, hlow]
  simp

theorem Dispatch.Ranged.low_le_high {d : Dispatch} (h : d.Ranged) : d.low ≤ d.high := by
  induction d with
  | leaf label => exact le_rfl
  | node low high left right ihleft ihright =>
    obtain ⟨hlow, hmid, hhigh, hleft, hright⟩ := h
    have hl := ihleft hleft
    have hr := ihright hright
    simp only [Dispatch.low, Dispatch.high]
    omega

/-- The function of a proper range is that of no case. -/
theorem rangeTarget_ne_leaf {space : String} {id : Nat} {d : Dispatch} (h : d.low < d.high)
    (label : Int) : rangeTarget space id d ≠ rangeTarget space id (.leaf label) := by
  intro heq
  have hpath : Compile.rangePath id d = Compile.rangePath id (.leaf label) :=
    congrArg ResourceLocation.path heq
  rw [rangePath_leaf] at hpath
  have htext := congrArg FunctionPath.text hpath
  simp only [Compile.rangePath, Feature.path, FunctionPath.generated, String.append_assoc,
    String.append_right_inj] at htext
  exact d.name_ne_label h label htext

/-! ### Tests of ranges -/

theorem rangeTest_holds (m : Machine W) (s : State W) (score : Score) (low high : Int) :
    ([(⟨false, .inRange score (.ofBounds low high)⟩ : Clause)].all (·.holds m s)) = true ↔
      s.ScoreIn score low high := by
  have hcontains : ∀ v, (ScoreRange.ofBounds low high).contains m v = true ↔ low ≤ v ∧ v ≤ high := by
    intro v
    unfold ScoreRange.ofBounds
    split
    · simp only [ScoreRange.contains, decide_eq_true_eq]
      omega
    · simp [ScoreRange.contains]
  unfold State.ScoreIn
  cases hscore : s.scores score with
  | none => simp [Clause.holds, Test.holds, hscore]
  | some v => simp [Clause.holds, Test.holds, hscore, hcontains]

/-- The commands run a cascade over the labels from `low` to `high`, whatever stands behind them. -/
structure Cascades (m : Machine W) (table : Table) (isCase : ResourceLocation → Prop) (score : Score)
    (caseAt : Int → ResourceLocation) (low high : Int) (cs : List Command) : Prop where
  enters : ∀ {rest : List Command} {ran : List ResourceLocation} {t u : State W},
    Enters m table isCase (cs ++ rest) t ran u ↔
      ∃ t' labels ran', Cascade m table score caseAt high low t labels t' ∧
        ran = labels.map caseAt ++ ran' ∧ Enters m table isCase rest t' ran' u
  runs : ∀ {t u : State W}, Runs m table cs t u →
    ∃ labels, Cascade m table score caseAt high low t labels u

/-- A call behind the test of a range. -/
def rangeTestOf (score : Score) (low high : Int) (target : ResourceLocation) : Command :=
  .guarded [⟨false, .inRange score (.ofBounds low high)⟩] (.call target)

section

variable {m : Machine W} {table : Table} {isCase : ResourceLocation → Prop} {score : Score}
  {caseAt : Int → ResourceLocation} {low mid high : Int} {target : ResourceLocation}
  {rest : List Command} {t u : State W} {ran : List ResourceLocation}

theorem enters_test_skip (hout : ¬ t.ScoreIn score low high) :
    Enters m table isCase (rangeTestOf score low high target :: rest) t ran u ↔
      Enters m table isCase rest t ran u := by
  rw [← rangeTest_holds m] at hout
  rw [rangeTestOf, enters_guarded_iff, if_neg hout]

theorem enters_test_pass (hin : t.ScoreIn score low high) :
    Enters m table isCase (rangeTestOf score low high target :: rest) t ran u ↔
      Enters m table isCase (.call target :: rest) t ran u := by
  rw [← rangeTest_holds m] at hin
  rw [rangeTestOf, enters_guarded_iff, if_pos hin]

theorem runs_test_skip (hout : ¬ t.ScoreIn score low high) :
    Runs m table [rangeTestOf score low high target] t u ↔ u = t := by
  rw [← rangeTest_holds m] at hout
  rw [rangeTestOf, runs_guarded_iff, if_neg hout]

theorem runs_test_pass (hin : t.ScoreIn score low high) :
    Runs m table [rangeTestOf score low high target] t u ↔ Runs m table [.call target] t u := by
  rw [← rangeTest_holds m] at hin
  rw [rangeTestOf, runs_guarded_iff, if_pos hin]

/-- Where the score is outside a range, its test and a cascade over it do nothing. -/
theorem enters_outside (hout : ¬ t.ScoreIn score low high) :
    Enters m table isCase ([rangeTestOf score low high target] ++ rest) t ran u ↔
      ∃ t' labels ran', Cascade m table score caseAt high low t labels t' ∧
        ran = labels.map caseAt ++ ran' ∧ Enters m table isCase rest t' ran' u := by
  rw [List.singleton_append, enters_test_skip hout]
  simp only [cascade_done_iff hout]
  constructor
  · exact fun h => ⟨t, [], ran, ⟨rfl, rfl⟩, rfl, h⟩
  · rintro ⟨t', labels, ran', ⟨rfl, rfl⟩, rfl, h⟩
    exact h

/-- The test of a single label runs its case when the score has that label. -/
theorem Cascades.leaf {label : Int} (hcase : isCase (caseAt label)) :
    Cascades m table isCase score caseAt label label
      [rangeTestOf score label label (caseAt label)] := by
  have hend : ∀ t' : State W, ¬ t'.ScoreIn score (label + 1) label := by
    rintro t' ⟨w, -, hw, hw'⟩
    omega
  constructor
  · intro rest ran t u
    by_cases hin : t.ScoreIn score label label
    · rw [List.singleton_append, enters_test_pass hin, enters_case_iff hcase]
      obtain ⟨v, hv, hlow, hhigh⟩ := hin
      obtain rfl : v = label := by omega
      simp only [cascade_next_iff hv hlow hhigh, cascade_done_iff (hend _)]
      constructor
      · rintro ⟨t', ran', hrun, rfl, hrest⟩
        exact ⟨t', [v], ran', ⟨t', [], hrun, rfl, rfl, rfl⟩, rfl, hrest⟩
      · rintro ⟨t', labels, ran', ⟨t'', later, hrun, rfl, rfl, rfl⟩, rfl, hrest⟩
        exact ⟨t', ran', hrun, rfl, hrest⟩
    · exact enters_outside hin
  · intro t u hrun
    by_cases hin : t.ScoreIn score label label
    · rw [runs_test_pass hin] at hrun
      obtain ⟨v, hv, hlow, hhigh⟩ := hin
      obtain rfl : v = label := by omega
      exact ⟨[v], .next hv hlow hhigh hrun (.done (hend u))⟩
    · rw [runs_test_skip hin] at hrun
      subst hrun
      exact ⟨[], .done hin⟩

/-- Ranges that follow one another. -/
theorem Cascades.append {cs ds : List Command} (hmid : low ≤ mid + 1) (hle : mid ≤ high)
    (h : Cascades m table isCase score caseAt low mid cs)
    (h' : Cascades m table isCase score caseAt (mid + 1) high ds) :
    Cascades m table isCase score caseAt low high (cs ++ ds) := by
  constructor
  · intro rest ran t u
    rw [List.append_assoc, h.enters]
    simp only [h'.enters, Cascade.append_iff hmid hle]
    constructor
    · rintro ⟨t₁, first, ran₁, hfirst, rfl, t₂, later, ran₂, hlater, rfl, hrest⟩
      exact ⟨t₂, first ++ later, ran₂, ⟨t₁, first, later, hfirst, hlater, rfl⟩, by simp, hrest⟩
    · rintro ⟨t₂, labels, ran₂, ⟨t₁, first, later, hfirst, hlater, rfl⟩, rfl, hrest⟩
      exact ⟨t₁, first, _, hfirst, by simp, t₂, later, ran₂, hlater, rfl, hrest⟩
  · intro t u hrun
    obtain ⟨t₁, hcs, hds⟩ := runs_append_iff.mp hrun
    obtain ⟨first, hfirst⟩ := h.runs hcs
    obtain ⟨later, hlater⟩ := h'.runs hds
    exact ⟨first ++ later, (Cascade.append_iff hmid hle).mpr ⟨t₁, first, later, hfirst, hlater, rfl⟩⟩

/-- What commands enter that run a cascade. -/
theorem Cascades.enters_iff {cs : List Command}
    (h : Cascades m table isCase score caseAt low high cs) :
    Enters m table isCase cs t ran u ↔
      ∃ labels, Cascade m table score caseAt high low t labels u ∧ ran = labels.map caseAt := by
  rw [← List.append_nil cs, h.enters]
  constructor
  · rintro ⟨t', labels, ran', hcascade, rfl, hnil⟩
    cases hnil
    exact ⟨labels, hcascade, by simp⟩
  · rintro ⟨labels, hcascade, rfl⟩
    exact ⟨u, labels, [], hcascade, by simp, .nil⟩

/-- Nothing but cascades ends. -/
theorem Cascades.runs_iff {cs : List Command}
    (h : Cascades m table isCase score caseAt low high cs) :
    Runs m table cs t u ↔ ∃ ran, Enters m table isCase cs t ran u := by
  constructor
  · intro hrun
    obtain ⟨labels, hlabels⟩ := h.runs hrun
    exact ⟨_, h.enters_iff.mpr ⟨labels, hlabels, rfl⟩⟩
  · rintro ⟨ran, henters⟩
    exact henters.runs

/-- Outside the range nothing is entered. -/
theorem Cascades.enters_none {cs : List Command}
    (h : Cascades m table isCase score caseAt low high cs) (hout : ¬ t.ScoreIn score low high) :
    Enters m table isCase cs t ran u ↔ ran = [] ∧ u = t := by
  rw [h.enters_iff]
  simp only [cascade_done_iff hout]
  constructor
  · rintro ⟨labels, ⟨rfl, rfl⟩, rfl⟩
    exact ⟨rfl, rfl⟩
  · rintro ⟨rfl, rfl⟩
    exact ⟨[], ⟨rfl, rfl⟩, rfl⟩

/-- Inside the range the case of the value is entered first, and a cascade over greater labels
follows. -/
theorem Cascades.enters_first {cs : List Command} {v : Int}
    (h : Cascades m table isCase score caseAt low high cs) (hv : t.scores score = some v)
    (hlow : low ≤ v) (hhigh : v ≤ high) :
    Enters m table isCase cs t ran u ↔
      ∃ t' later, Runs m table [.call (caseAt v)] t t' ∧
        Cascade m table score caseAt high (v + 1) t' later u ∧
        ran = caseAt v :: later.map caseAt := by
  rw [h.enters_iff]
  simp only [cascade_next_iff hv hlow hhigh]
  constructor
  · rintro ⟨labels, ⟨t', later, hrun, rfl, hlater⟩, rfl⟩
    exact ⟨t', later, hrun, hlater, rfl⟩
  · rintro ⟨t', later, hrun, hlater, rfl⟩
    exact ⟨v :: later, ⟨t', later, hrun, rfl, hlater⟩, rfl⟩

/-- A function of tests behind the test of the whole range. -/
theorem Cascades.call {body : List Command} (hcase : ¬ isCase target)
    (hbody : table target = some body) (h : Cascades m table isCase score caseAt low high body) :
    Cascades m table isCase score caseAt low high [rangeTestOf score low high target] := by
  constructor
  · intro rest ran t u
    by_cases hin : t.ScoreIn score low high
    · rw [List.singleton_append, enters_test_pass hin, enters_inside_iff hcase hbody, h.enters]
    · exact enters_outside hin
  · intro t u hrun
    by_cases hin : t.ScoreIn score low high
    · rw [runs_test_pass hin, runs_call_iff hbody] at hrun
      exact h.runs hrun
    · rw [runs_test_skip hin] at hrun
      subst hrun
      exact ⟨[], .done hin⟩

end

section

variable {m : Machine W} {table : Table} {space : String} {id : Nat} {score : Score}
  {isCase : ResourceLocation → Prop} {has : ResourceLocation → List Command → Prop}

/-- The location of a case. -/
abbrev caseTarget (space : String) (id : Nat) (label : Int) : ResourceLocation :=
  rangeTarget space id (.leaf label)

theorem Cascades.halves {left right : Dispatch} (hfit : right.low = left.high + 1)
    (hleft : left.Ranged) (hright : right.Ranged)
    (ihleft : Cascades m table isCase score (caseTarget space id) left.low left.high
      [rangeTestIn space id score left])
    (ihright : Cascades m table isCase score (caseTarget space id) right.low right.high
      [rangeTestIn space id score right]) :
    Cascades m table isCase score (caseTarget space id) left.low right.high
      ([left, right].map (rangeTestIn space id score)) := by
  have hl := hleft.low_le_high
  have hr := hright.low_le_high
  exact Cascades.append (by omega) (by omega) ihleft (hfit ▸ ihright)

/-- The test of a range runs a cascade over its labels. -/
theorem cascades_rangeTest (hfound : ∀ target body, has target body → table target = some body)
    (hranges : ∀ d : Dispatch, d.low < d.high → ¬ isCase (rangeTarget space id d)) {d : Dispatch}
    (hstored : d.Stored has space id score) (hranged : d.Ranged)
    (hcases : ∀ label ∈ d.labels, isCase (caseTarget space id label)) :
    Cascades m table isCase score (caseTarget space id) d.low d.high
      [rangeTestIn space id score d] := by
  induction hstored with
  | leaf label => exact .leaf (hcases label (by simp [Dispatch.labels]))
  | @node low high left right hbody _ _ ihleft ihright =>
    obtain ⟨rfl, hfit, rfl, hleft, hright⟩ := hranged
    rw [Dispatch.labels, List.forall_mem_append] at hcases
    refine .call (hranges _ ?_) (hfound _ _ hbody)
      (.halves hfit hleft hright (ihleft hleft hcases.1) (ihright hright hcases.2))
    have hl := hleft.low_le_high
    have hr := hright.low_le_high
    show left.low < right.high
    omega

/-- The tests of a switch run a cascade over all its labels. -/
theorem cascades_parts (hfound : ∀ target body, has target body → table target = some body)
    (hranges : ∀ d : Dispatch, d.low < d.high → ¬ isCase (rangeTarget space id d)) {d : Dispatch}
    (hstored : ∀ part ∈ d.parts, part.Stored has space id score) (hranged : d.Ranged)
    (hcases : ∀ label ∈ d.labels, isCase (caseTarget space id label)) :
    Cascades m table isCase score (caseTarget space id) d.low d.high
      (d.parts.map (rangeTestIn space id score)) := by
  cases d with
  | leaf label => exact .leaf (hcases label (by simp [Dispatch.labels]))
  | node low high left right =>
    obtain ⟨rfl, hfit, rfl, hleft, hright⟩ := hranged
    rw [Dispatch.labels, List.forall_mem_append] at hcases
    exact .halves hfit hleft hright
      (cascades_rangeTest hfound hranges (hstored left (by simp [Dispatch.parts])) hleft hcases.1)
      (cascades_rangeTest hfound hranges (hstored right (by simp [Dispatch.parts])) hright hcases.2)

end

theorem Dispatch.Ranged.mem_labels {d : Dispatch} (h : d.Ranged) {v : Int} :
    v ∈ d.labels ↔ d.low ≤ v ∧ v ≤ d.high := by
  induction d with
  | leaf label =>
    simp only [Dispatch.labels, List.mem_singleton, Dispatch.low, Dispatch.high]
    omega
  | node low high left right ihleft ihright =>
    obtain ⟨rfl, hfit, rfl, hleft, hright⟩ := h
    have hl := hleft.low_le_high
    have hr := hright.low_le_high
    rw [Dispatch.labels, List.mem_append, ihleft hleft, ihright hright]
    show _ ↔ left.low ≤ v ∧ v ≤ right.high
    omega

/-! ### Whole switches -/

/-- The location of a case of the switch that is compiled next. -/
def Session.caseTarget (s : Session) (label : Int) : ResourceLocation :=
  Packwright.caseTarget s.settings.space (s.pack.generated.peekId Feature.switchCase.name) label

/-- The location is that of a case. -/
def Session.IsCase (s : Session) (cases : List Case) (target : ResourceLocation) : Prop :=
  ∃ c ∈ cases, target = s.caseTarget c.label

/-- Functions are found after a switch. -/
theorem switch_found {depth : Nat} {s s' : Session} {keyword : Token} {rest : List Token}
    {cs : List Command} (hs : s.Sound anyCalls)
    (hrun : (Compile.switch (Compile.block depth) keyword rest).outcome s = (.ok cs, s')) :
    ∀ target body, s'.Has target body → s'.pack.table target = some body := by
  have hmeets := Compile.switch_meets (Compile.block_emits depth) hs
    (anyCalls_includes s (keyword :: rest))
  obtain ⟨hemitted, -⟩ := hmeets.of_ok hrun
  exact fun _ _ => hemitted.sound.loweredTable.found

/-- The commands of a switch run a cascade over its labels. -/
theorem switch_cascades {depth : Nat} {s s' : Session} {keyword : Token} {rest : List Token}
    {cs : List Command} (hs : s.Sound anyCalls)
    (hrun : (Compile.switch (Compile.block depth) keyword rest).outcome s = (.ok cs, s')) :
    ∃ (score : Score) (cases : List Case) (low high : Int), ReadsSwitch s.scope rest score cases ∧
      (∀ c ∈ cases, ∃ body, s'.Has (s.caseTarget c.label) body ∧
        Compile.CaseCompiled (Compile.block depth) c body) ∧
      (∀ v, (∃ c ∈ cases, c.label = v) ↔ low ≤ v ∧ v ≤ high) ∧
      ∀ (W : Type) (m : Machine W) (table : Table),
        (∀ target body, s'.Has target body → table target = some body) →
        Cascades m table (s.IsCase cases) score s.caseTarget low high cs := by
  have hmeets := Compile.switch_meets (Compile.block_emits depth) hs
    (anyCalls_includes s (keyword :: rest))
  obtain ⟨hemitted, score, cases, d, hreads, hlowered⟩ := hmeets.of_ok hrun
  have hspace : s'.settings.space = s.settings.space := by rw [hemitted.grows.settings]
  rw [hspace] at hlowered
  refine ⟨score, cases, d.low, d.high, hreads, hlowered.bodies, fun v => ?_, ?_⟩
  · rw [← hlowered.ranged.mem_labels, hlowered.labels, List.mem_map]
  · intro W m table hfound
    rw [hlowered.commands]
    refine cascades_parts hfound ?_ hlowered.stored hlowered.ranged ?_
    · rintro d hd ⟨c, -, heq⟩
      exact rangeTarget_ne_leaf hd c.label heq
    · intro label hlabel
      rw [hlowered.labels] at hlabel
      obtain ⟨c, hc, rfl⟩ := List.mem_map.mp hlabel
      exact ⟨c, hc, rfl⟩

/-- When a switch runs one case only. Its tests read the score anew, one after the other. If the value
of the score is no label, nothing runs. If it is a label, the case of that label runs first. It is the
only one if and only if it leaves the score at no greater label; otherwise the case of that label runs
as well. -/
theorem switch_runs_one_case_iff {depth : Nat} {s s' : Session} {keyword : Token}
    {rest : List Token} {cs : List Command} (hs : s.Sound anyCalls)
    (hrun : (Compile.switch (Compile.block depth) keyword rest).outcome s = (.ok cs, s')) :
    ∃ (score : Score) (cases : List Case), ReadsSwitch s.scope rest score cases ∧
      (∀ c ∈ cases, ∃ body, s'.Has (s.caseTarget c.label) body ∧
        Compile.CaseCompiled (Compile.block depth) c body) ∧
      ∀ (W : Type) (m : Machine W) (table : Table),
        (∀ target body, s'.Has target body → table target = some body) → ∀ t : State W,
        (∀ u, Runs m table cs t u ↔ ∃ ran, Enters m table (s.IsCase cases) cs t ran u) ∧
        ((∀ c ∈ cases, t.scores score ≠ some c.label) →
          ∀ ran u, Enters m table (s.IsCase cases) cs t ran u ↔ ran = [] ∧ u = t) ∧
        ∀ c ∈ cases, t.scores score = some c.label →
          (∀ ran u, Enters m table (s.IsCase cases) cs t ran u →
            ∃ t', Runs m table [.call (s.caseTarget c.label)] t t') ∧
          ∀ t', Runs m table [.call (s.caseTarget c.label)] t t' →
            ((∀ c' ∈ cases, c.label < c'.label → t'.scores score ≠ some c'.label) →
              ∀ ran u, Enters m table (s.IsCase cases) cs t ran u ↔
                ran = [s.caseTarget c.label] ∧ u = t') ∧
            ∀ c' ∈ cases, c.label < c'.label → t'.scores score = some c'.label →
              ∀ ran u, Enters m table (s.IsCase cases) cs t ran u →
                ∃ later, ran = s.caseTarget c.label :: s.caseTarget c'.label :: later := by
  obtain ⟨score, cases, low, high, hreads, hbodies, hlabels, hcascades⟩ := switch_cascades hs hrun
  refine ⟨score, cases, hreads, hbodies, fun W m table hfound t => ?_⟩
  have hcascade := hcascades W m table hfound
  refine ⟨fun u => hcascade.runs_iff, fun hno ran u => hcascade.enters_none ?_, fun c hc hv => ?_⟩
  · rintro ⟨v, hv, hin⟩
    obtain ⟨c, hc, rfl⟩ := (hlabels v).mpr hin
    exact hno c hc hv
  obtain ⟨hlow, hhigh⟩ := (hlabels c.label).mp ⟨c, hc, rfl⟩
  simp only [hcascade.enters_first hv hlow hhigh]
  refine ⟨fun ran u ⟨t', _, hcase, _⟩ => ⟨t', hcase⟩, fun t' hcase => ⟨fun hno ran u => ?_, ?_⟩⟩
  · have hout : ¬ t'.ScoreIn score (c.label + 1) high := by
      rintro ⟨v, hv', hgreater, hin⟩
      obtain ⟨c', hc', rfl⟩ := (hlabels v).mpr ⟨by omega, hin⟩
      exact hno c' hc' (by omega) hv'
    constructor
    · rintro ⟨t'', later, hcase', hlater, rfl⟩
      obtain rfl := hcase.unique hcase'
      obtain ⟨rfl, rfl⟩ := (cascade_done_iff hout).mp hlater
      exact ⟨rfl, rfl⟩
    · rintro ⟨rfl, rfl⟩
      exact ⟨u, [], hcase, .done hout, rfl⟩
  · rintro c' hc' hgreater hv' ran u ⟨t'', later, hcase', hlater, rfl⟩
    obtain rfl := hcase.unique hcase'
    obtain ⟨-, hhigh'⟩ := (hlabels c'.label).mp ⟨c', hc', rfl⟩
    obtain ⟨t₂, later', -, rfl, -⟩ := (cascade_next_iff hv' (by omega) hhigh').mp hlater
    exact ⟨_, rfl⟩

/-- A switch whose first case moves the score to the label of its second. -/
def movingKeyword : Token := ⟨.word, ⟨0, 6, ⟨1, 1⟩⟩, "switch"⟩

def movingHead : Token := ⟨.group .round, ⟨7, 11, ⟨1, 8⟩⟩, "($x)"⟩

def movingBody : Token :=
  ⟨.group .curly, ⟨12, 48, ⟨1, 13⟩⟩, "{ case 1: $x = 2; case 2: say two; }"⟩

/-- The switch reads `$x` and has the labels one and two. -/
theorem moving_reads {score : Score} {cases : List Case}
    (h : ReadsSwitch {} [movingHead, movingBody] score cases) :
    score = .ofVariable "$x" ∧ cases.map Case.label = [1, 2] := by
  obtain ⟨head, braces, r, htokens, hscore, hread, raw, hraw, rfl⟩ := h
  obtain ⟨rfl, hbraces⟩ := List.cons.inj htokens
  obtain rfl : movingBody = braces := (List.cons.inj hbraces).1
  have hparse : Score.parseIn? {} (Text.trim (movingHead.inner?.getD "")) =
      some (.ofVariable "$x") := by
    decide +kernel
  have hlabels : ((movingBody.tokenizeInner .required).bind fun r =>
      (r.statements.foldlM addCaseStatement []).map (·.map Case.label)) = .ok [1, 2] := by
    decide +kernel
  rw [hread] at hlabels
  change (r.statements.foldlM addCaseStatement []).map (·.map Case.label) = .ok [1, 2] at hlabels
  rw [hraw] at hlabels
  refine ⟨Option.some.inj (hscore.symm.trans hparse), ?_⟩
  rw [List.map_map]
  exact Except.ok.inj hlabels

/-- A machine that does nothing. -/
def idle : Machine Unit := ⟨fun _ s => some s, fun _ _ => false, fun _ _ => false⟩

theorem moving_runs_two_cases :
    ∃ (cs : List Command) (s' : Session) (cases : List Case),
      (Session.new {}).Sound anyCalls ∧
      (Compile.switch (Compile.block 9) movingKeyword [movingHead, movingBody]).outcome
        (Session.new {}) = (.ok cs, s') ∧
      ReadsSwitch {} [movingHead, movingBody] (.ofVariable "$x") cases ∧
      cases.map Case.label = [1, 2] ∧
      ∀ t : State Unit, t.scores (.ofVariable "$x") = some 1 →
        (∃ u, Runs idle s'.pack.table cs t u) ∧
        ∀ ran u, Enters idle s'.pack.table ((Session.new {}).IsCase cases) cs t ran u →
          ∃ later, ran =
            (Session.new {}).caseTarget 1 :: (Session.new {}).caseTarget 2 :: later := by
  have heval : ((Compile.switch (Compile.block 9) movingKeyword [movingHead, movingBody]).outcome
        (Session.new {})).1 = .ok [
          rangeTestOf (.ofVariable "$x") 1 1 ((Session.new {}).caseTarget 1),
          rangeTestOf (.ofVariable "$x") 2 2 ((Session.new {}).caseTarget 2)] ∧
      ((Compile.switch (Compile.block 9) movingKeyword [movingHead, movingBody]).outcome
        (Session.new {})).2.pack.table ((Session.new {}).caseTarget 1) =
          some [.set (.ofVariable "$x") 2] ∧
      ((Compile.switch (Compile.block 9) movingKeyword [movingHead, movingBody]).outcome
        (Session.new {})).2.pack.table ((Session.new {}).caseTarget 2) =
          some [.written "say two"] := by
    decide +kernel
  have hsound : (Session.new {}).Sound anyCalls := Session.new_sound _ _
  -- the outcome is named, so that nothing evaluates it again
  generalize hrun : (Compile.switch (Compile.block 9) movingKeyword [movingHead, movingBody]).outcome
    (Session.new {}) = result at heval
  obtain ⟨hok, hone, htwo⟩ := heval
  obtain ⟨value, s'⟩ := result
  obtain rfl : value = _ := hok
  obtain ⟨score, cases, hreads, -, hcases⟩ := switch_runs_one_case_iff hsound hrun
  obtain ⟨rfl, hlabels⟩ := moving_reads hreads
  refine ⟨_, s', cases, hsound, rfl, hreads, hlabels, fun t ht => ?_⟩
  obtain ⟨c₁, hc₁, hlabel₁⟩ : ∃ c ∈ cases, c.label = 1 := by
    rw [← List.mem_map, hlabels]
    decide
  obtain ⟨c₂, hc₂, hlabel₂⟩ : ∃ c ∈ cases, c.label = 2 := by
    rw [← List.mem_map, hlabels]
    decide
  obtain ⟨hruns, -, hfirst⟩ := hcases Unit idle s'.pack.table (switch_found hsound hrun) t
  have hmove : Runs idle s'.pack.table [.call ((Session.new {}).caseTarget 1)] t
      (t.set (.ofVariable "$x") 2) :=
    (runs_call_iff hone).mpr ⟨0, by simp⟩
  have hsay : Runs idle s'.pack.table [.call ((Session.new {}).caseTarget 2)]
      (t.set (.ofVariable "$x") 2) (t.set (.ofVariable "$x") 2) :=
    (runs_call_iff htwo).mpr ⟨0, by simp [Command.run, idle]⟩
  have hmoved : (t.set (.ofVariable "$x") 2).scores (.ofVariable "$x") = some 2 := by simp
  constructor
  · refine ⟨t.set (.ofVariable "$x") 2, (hruns _).mpr
      ⟨[(Session.new {}).caseTarget 1, (Session.new {}).caseTarget 2], ?_⟩⟩
    rw [enters_test_pass ⟨1, ht, by omega, by omega⟩]
    refine .enter ⟨c₁, hc₁, by rw [hlabel₁]⟩ hmove ?_
    rw [enters_test_pass ⟨2, hmoved, by omega, by omega⟩]
    exact .enter ⟨c₂, hc₂, by rw [hlabel₂]⟩ hsay .nil
  · intro ran u henters
    obtain ⟨-, hnext⟩ := hfirst c₁ hc₁ (by rw [ht, hlabel₁])
    obtain ⟨-, hsecond⟩ := hnext (t.set (.ofVariable "$x") 2) (by rwa [hlabel₁])
    have hran := hsecond c₂ hc₂ (by omega) (by rw [hmoved, hlabel₂]) ran u henters
    rwa [hlabel₁, hlabel₂] at hran

end Packwright
