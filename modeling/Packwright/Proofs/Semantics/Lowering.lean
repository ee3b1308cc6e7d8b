import Packwright.Proofs.Semantics.Program

/-!
# Lowered programs

A program of structured control flow is lowered to commands without jumps. Loops and long bodies
become functions of a table; the arms of a chain behind the first test a flag that each arm raises
when it has run. The relation says which commands a program may be lowered to, whatever produced
them. Lowered commands end exactly when the program ends, in a state that agrees with its end off
flags.

## Main definitions

- `Command.Plain` — commands that test no flag
- `Lowered` — the commands that a program may be lowered to

## Main results

- `Lowered.blind` — flags do not influence lowered commands
- `Lowered.matches` — lowered commands have the ends of their program
-/

namespace Packwright

variable {W : Type}

/-- The command tests no flag. -/
def Command.Plain : Command → Prop
  | .guarded clauses body => (∀ l ∈ clauses, l.test.FlagFree) ∧ body.Plain
  | _ => True

/-- No earlier arm of the chain has run. -/
def notTaken : Clause := ⟨false, .inRange ifElseFlag (.exactly 0)⟩

/-- Where lowered commands stand: on their own, or as later arms of a chain, which test its flag. -/
inductive Stage where
  | own
  | laterArms
  deriving DecidableEq

/-- The commands that a program may be lowered to, where `has` tells the functions of the table. -/
inductive Lowered (has : ResourceLocation → List Command → Prop) :
    Stage → Program → List Command → Prop
  | commands {cs : List Command} (hplain : ∀ c ∈ cs, c.Plain) : Lowered has .own (.commands cs) cs
  | seq {p q : Program} {cs ds : List Command} (hp : Lowered has .own p cs)
    (hq : Lowered has .own q ds) : Lowered has .own (.seq p q) (cs ++ ds)
  | call {p : Program} {target : ResourceLocation} {body : List Command}
    (hbody : has target body) (hp : Lowered has .own p body) : Lowered has .own p [.call target]
  | nothing {g : Guard} {p q : Program} (hp : Lowered has .own p []) (hq : Lowered has .own q []) :
    Lowered has .own (.choose g p q) []
  | guarded {g : Guard} {p q : Program} {only : Command} (n : Nat)
    (hp : Lowered has .own p [only]) (hq : Lowered has .own q []) :
    Lowered has .own (.choose g p q) ((g.rendered n).guardedCommands only)
  | loop {g : Guard} {p : Program} {target : ResourceLocation} {body : List Command} (n : Nat)
    (hbody : has target (body ++ (g.rendered n).guardedCommands (.call target)))
    (hp : Lowered has .own p body) :
    Lowered has .own (.repeatWhile g p) ((g.rendered n).guardedCommands (.call target))
  | chain {g : Guard} {p q : Program} {target : ResourceLocation} {body ds : List Command} (n : Nat)
    (hbody : has target (body ++ [Command.set ifElseFlag 1])) (hp : Lowered has .own p body)
    (hq : Lowered has .laterArms q ds) :
    Lowered has .own (.choose g p q)
      (.set ifElseFlag 0 :: ((g.rendered n).guardedCommands (.call target) ++ ds))
  | noArm {q : Program} (hq : Lowered has .own q []) : Lowered has .laterArms q []
  | otherwise {p : Program} {target : ResourceLocation} {body : List Command}
    (hbody : has target body) (hp : Lowered has .own p body) :
    Lowered has .laterArms p [.guarded [notTaken] (.call target)]
  | lastArm {g : Guard} {p q : Program} {target : ResourceLocation} {body : List Command} (n : Nat)
    (hbody : has target body) (hp : Lowered has .own p body) (hq : Lowered has .own q []) :
    Lowered has .laterArms (.choose g p q)
      ((g.rendered n).before ++ [Command.guarded (notTaken :: (g.rendered n).clauses) (.call target)])
  | arm {g : Guard} {p q : Program} {target : ResourceLocation} {body ds : List Command} (n : Nat)
    (hbody : has target (body ++ [Command.set ifElseFlag 1])) (hp : Lowered has .own p body)
    (hq : Lowered has .laterArms q ds) :
    Lowered has .laterArms (.choose g p q)
      ((g.rendered n).before ++
        [Command.guarded (notTaken :: (g.rendered n).clauses) (.call target)] ++ ds)

/-- A larger table keeps what is lowered. -/
theorem Lowered.mono {has has' : ResourceLocation → List Command → Prop} {stage : Stage}
    {p : Program} {cs : List Command} (h : Lowered has stage p cs)
    (hle : ∀ target body, has target body → has' target body) : Lowered has' stage p cs := by
  induction h with
  | commands hplain => exact .commands hplain
  | seq _ _ ihp ihq => exact .seq ihp ihq
  | call hbody _ ihp => exact .call (hle _ _ hbody) ihp
  | nothing _ _ ihp ihq => exact .nothing ihp ihq
  | guarded n _ _ ihp ihq => exact .guarded n ihp ihq
  | loop n hbody _ ihp => exact .loop n (hle _ _ hbody) ihp
  | chain n hbody _ _ ihp ihq => exact .chain n (hle _ _ hbody) ihp ihq
  | noArm _ ihq => exact .noArm ihq
  | otherwise hbody _ ihp => exact .otherwise (hle _ _ hbody) ihp
  | lastArm n hbody _ _ ihp ihq => exact .lastArm n (hle _ _ hbody) ihp ihq
  | arm n hbody _ _ ihp ihq => exact .arm n (hle _ _ hbody) ihp ihq

/-! ### The flag of a chain -/

section

variable {m : Machine W}

theorem notTaken_holds {s : State W} {v : Int} (h : s.scores ifElseFlag = some v) :
    notTaken.holds m s = decide (v = 0) := by
  simp [notTaken, Clause.holds, Test.holds, h, ScoreRange.contains]

theorem notTaken_ignores : notTaken.Ignores m isLogicFlag := by
  intro s t hst
  have hflag : s.scores ifElseFlag = t.scores ifElseFlag :=
    hst.2 ifElseFlag fun ⟨k, hk⟩ => ifElseFlag_ne_logicFlag k hk
  simp only [notTaken, Clause.holds, Test.holds, hflag]

/-- Commands of a condition do not touch the flag of a chain. -/
theorem flag_kept {s t : State W} (h : s.AgreeOff isLogicFlag t) :
    t.scores ifElseFlag = s.scores ifElseFlag :=
  (h.2 ifElseFlag fun ⟨k, hk⟩ => ifElseFlag_ne_logicFlag k hk).symm

theorem agree_of_logic {s t : State W} (h : s.AgreeOff isLogicFlag t) : s.AgreeOff isFlag t :=
  h.mono fun _ => Or.inr

end

namespace Guard

variable {m : Machine W}

/-- A command behind a guard. -/
theorem run_guardedCommands (hm : m.IgnoresFlags) (g : Guard) (n : Nat) (s : State W) :
    ∃ s₁, s.AgreeOff isLogicFlag s₁ ∧
      ∀ (call : ResourceLocation → State W → Option (State W)) (only : Command),
        runCommands m call ((g.rendered n).guardedCommands only) s =
          if g.passes m s then only.run m call s₁ else some s₁ := by
  obtain ⟨s₁, hs₁, hrun⟩ := g.run_guarded hm n s
  refine ⟨s₁, hs₁, fun call only => ?_⟩
  have h := hrun call [] only fun l hl => absurd hl (List.not_mem_nil)
  simpa only [List.nil_append, List.all_nil, Bool.true_and, Rendered.guardedCommands,
    Rendered.guard] using h

/-- A command behind a guard and the flag of a chain. -/
theorem run_laterArm (hm : m.IgnoresFlags) (g : Guard) (n : Nat) {s : State W} {v : Int}
    (hv : s.scores ifElseFlag = some v) :
    ∃ s₁, s.AgreeOff isLogicFlag s₁ ∧
      ∀ (call : ResourceLocation → State W → Option (State W)) (only : Command),
        runCommands m call ((g.rendered n).before ++
            [Command.guarded (notTaken :: (g.rendered n).clauses) only]) s =
          if decide (v = 0) && g.passes m s then only.run m call s₁ else some s₁ := by
  obtain ⟨s₁, hs₁, hrun⟩ := g.run_guarded hm n s
  refine ⟨s₁, hs₁, fun call only => ?_⟩
  have h := hrun call [notTaken] only fun l hl => List.mem_singleton.mp hl ▸ notTaken_ignores
  simpa only [List.singleton_append, List.all_cons, List.all_nil, Bool.and_true,
    notTaken_holds hv] using h

end Guard

/-- Once the flag of a chain is raised, its later arms do nothing. -/
theorem Lowered.skipped {m : Machine W} (hm : m.IgnoresFlags)
    {has : ResourceLocation → List Command → Prop} {q : Program} {ds : List Command}
    (h : Lowered has .laterArms q ds) {s : State W} {v : Int}
    (hv : s.scores ifElseFlag = some v) (hne : v ≠ 0) :
    ∃ s', s.AgreeOff isLogicFlag s' ∧
      ∀ call : ResourceLocation → State W → Option (State W),
        runCommands m call ds s = some s' := by
  generalize hstage : Stage.laterArms = stage at h
  induction h generalizing s with
  | noArm => exact ⟨s, .refl _ s, fun call => rfl⟩
  | otherwise =>
    refine ⟨s, .refl _ s, fun call => ?_⟩
    have htest : ([notTaken].all (·.holds m s)) = false := by
      simp [notTaken_holds hv, hne]
    rw [runCommands_singleton, run_guarded, htest]
    rfl
  | @lastArm g _ _ target _ n _ _ _ =>
    obtain ⟨s₁, hs₁, hrun⟩ := g.run_laterArm hm n hv
    refine ⟨s₁, hs₁, fun call => ?_⟩
    rw [hrun call, decide_eq_false hne, Bool.false_and]
    rfl
  | @arm g _ _ target _ ds n _ _ _ _ ihq =>
    obtain ⟨s₁, hs₁, hrun⟩ := g.run_laterArm hm n hv
    obtain ⟨s', hs', hrest⟩ := ihq ((flag_kept hs₁).trans hv) rfl
    refine ⟨s', hs₁.trans hs', fun call => ?_⟩
    rw [runCommands_append, hrun call, decide_eq_false hne, Bool.false_and]
    exact hrest call
  | _ => cases hstage

/-! ### Flags do not influence lowered commands -/

section

variable {m : Machine W} {call : ResourceLocation → State W → Option (State W)}

theorem rel_bind {a b : Option (State W)} {f g : State W → Option (State W)}
    (h : Option.Rel (State.AgreeOff isFlag) a b)
    (hfg : ∀ s t, s.AgreeOff isFlag t → Option.Rel (State.AgreeOff isFlag) (f s) (g t)) :
    Option.Rel (State.AgreeOff isFlag) (a.bind f) (b.bind g) := by
  cases h with
  | some hst => exact hfg _ _ hst
  | none => exact .none

/-- Calls do not depend on flags. -/
def BlindCalls (call : ResourceLocation → State W → Option (State W)) : Prop :=
  ∀ (target : ResourceLocation) {s t : State W}, s.AgreeOff isFlag t →
    Option.Rel (State.AgreeOff isFlag) (call target s) (call target t)

theorem all_holds_congr (hm : m.IgnoresFlags) {clauses : List Clause}
    (hfree : ∀ l ∈ clauses, l.test.FlagFree) {s t : State W} (hst : s.AgreeOff isFlag t) :
    clauses.all (·.holds m s) = clauses.all (·.holds m t) := by
  rw [Bool.eq_iff_iff, List.all_eq_true, List.all_eq_true]
  constructor
  · intro h l hl
    rw [← hm.ignores (hfree l hl) s t hst]
    exact h l hl
  · intro h l hl
    rw [hm.ignores (hfree l hl) s t hst]
    exact h l hl

/-- A command that tests no flag does not depend on flags when calls do not. -/
theorem run_blind (hm : m.IgnoresFlags) (hcall : BlindCalls call) (c : Command) (hc : c.Plain)
    {s t : State W} (hst : s.AgreeOff isFlag t) :
    Option.Rel (State.AgreeOff isFlag) (c.run m call s) (c.run m call t) := by
  induction c with
  | set score value =>
    rw [run_set, run_set]
    exact .some (hst.set_both score value)
  | call target =>
    rw [run_call, run_call]
    exact hcall target hst
  | guarded clauses body ih =>
    rw [run_guarded, run_guarded, all_holds_congr hm hc.1 hst]
    split
    · exact ih hc.2
    · exact .some hst
  | _ =>
    rw [run_eq_act _ s (by simp) (by simp) (by simp), run_eq_act _ t (by simp) (by simp) (by simp)]
    exact hm.act _ hst

theorem runCommands_blind (hm : m.IgnoresFlags) (hcall : BlindCalls call) (cs : List Command)
    (hcs : ∀ c ∈ cs, c.Plain) {s t : State W} (hst : s.AgreeOff isFlag t) :
    Option.Rel (State.AgreeOff isFlag) (runCommands m call cs s) (runCommands m call cs t) := by
  induction cs generalizing s t with
  | nil => exact .some hst
  | cons c cs ih =>
    rw [runCommands_cons, runCommands_cons]
    refine rel_bind (run_blind hm hcall c (hcs c (List.mem_cons_self ..)) hst) fun s' t' h => ?_
    exact ih (fun d hd => hcs d (List.mem_cons_of_mem _ hd)) h

/-- Behind an arm of a chain: if it has run, its call has raised the flag; if not, the flag is still
down. Later commands that do not depend on flags but for this one are blind in both cases. -/
theorem blind_behind_arm (hcall : BlindCalls call) {target : ResourceLocation}
    (hraise : ∀ {s s' : State W}, call target s = some s' → s'.scores ifElseFlag = some 1)
    {front ds : List Command} {b : Bool} {s s₁ t t₁ : State W}
    (hs : runCommands m call front s = if b then call target s₁ else some s₁)
    (ht : runCommands m call front t = if b then call target t₁ else some t₁)
    (h₁ : s₁.AgreeOff isFlag t₁) {v : Int} (hs₁ : s₁.scores ifElseFlag = some v)
    (ht₁ : t₁.scores ifElseFlag = some v)
    (hds : ∀ {v : Int} {s t : State W}, s.AgreeOff isFlag t → s.scores ifElseFlag = some v →
      t.scores ifElseFlag = some v →
      Option.Rel (State.AgreeOff isFlag) (runCommands m call ds s) (runCommands m call ds t)) :
    Option.Rel (State.AgreeOff isFlag) (runCommands m call (front ++ ds) s)
      (runCommands m call (front ++ ds) t) := by
  rw [runCommands_append, runCommands_append, hs, ht]
  cases b with
  | false => exact hds h₁ hs₁ ht₁
  | true =>
    have hrel := hcall target h₁
    have hs' : ∀ s', call target s₁ = some s' → s'.scores ifElseFlag = some 1 := fun _ => hraise
    have ht' : ∀ t', call target t₁ = some t' → t'.scores ifElseFlag = some 1 := fun _ => hraise
    simp only [↓reduceIte]
    generalize call target s₁ = a at hrel hs' ⊢
    generalize call target t₁ = b at hrel ht' ⊢
    cases hrel with
    | none => exact .none
    | some hagree => exact hds hagree (hs' _ rfl) (ht' _ rfl)

/-- Lowered commands do not depend on flags when calls do not. Later arms of a chain depend on its
flag, so it must be the same on both sides there. -/
theorem Lowered.blind {has : ResourceLocation → List Command → Prop} (hm : m.IgnoresFlags)
    (hcall : BlindCalls call)
    (hraise : ∀ {target : ResourceLocation} {body : List Command},
      has target (body ++ [Command.set ifElseFlag 1]) →
      ∀ {s s' : State W}, call target s = some s' → s'.scores ifElseFlag = some 1)
    {stage : Stage} {p : Program} {cs : List Command} (h : Lowered has stage p cs)
    {s t : State W} (hst : s.AgreeOff isFlag t)
    (hflag : stage = .laterArms →
      ∃ v, s.scores ifElseFlag = some v ∧ t.scores ifElseFlag = some v) :
    Option.Rel (State.AgreeOff isFlag) (runCommands m call cs s) (runCommands m call cs t) := by
  -- a guarded call on its own: the guard passes on both sides or on none
  have hguarded : ∀ (g : Guard) (n : Nat) (only : Command)
      (honly : ∀ {s t : State W}, s.AgreeOff isFlag t →
        Option.Rel (State.AgreeOff isFlag) (only.run m call s) (only.run m call t))
      {s t : State W}, s.AgreeOff isFlag t → Option.Rel (State.AgreeOff isFlag)
        (runCommands m call ((g.rendered n).guardedCommands only) s)
        (runCommands m call ((g.rendered n).guardedCommands only) t) := by
    intro g n only honly s t hst
    obtain ⟨s₁, hs₁, hs⟩ := g.run_guardedCommands hm n s
    obtain ⟨t₁, ht₁, ht⟩ := g.run_guardedCommands hm n t
    have h₁ : s₁.AgreeOff isFlag t₁ :=
      ((agree_of_logic hs₁).symm.trans hst).trans (agree_of_logic ht₁)
    rw [hs, ht, g.passes_congr hm hst]
    split
    · exact honly h₁
    · exact .some h₁
  induction h generalizing s t with
  | commands hplain => exact runCommands_blind hm hcall _ hplain hst
  | seq _ _ ihp ihq =>
    rw [runCommands_append, runCommands_append]
    exact rel_bind (ihp hst (by simp)) fun s' t' h => ihq h (by simp)
  | call =>
    rw [runCommands_singleton, runCommands_singleton, run_call, run_call]
    exact hcall _ hst
  | nothing => exact .some hst
  | guarded n _ _ ihp =>
    refine hguarded _ n _ (fun {s t} h => ?_) hst
    have honly := ihp h (by simp)
    rwa [runCommands_singleton, runCommands_singleton] at honly
  | loop n =>
    refine hguarded _ n _ (fun {s t} h => ?_) hst
    rw [run_call, run_call]
    exact hcall _ h
  | @chain g p q target body ds n hbody _ _ _ ihq =>
    have hst₀ := hst.set_both ifElseFlag 0
    obtain ⟨s₁, hs₁, hs⟩ := g.run_guardedCommands hm n (s.set ifElseFlag 0)
    obtain ⟨t₁, ht₁, ht⟩ := g.run_guardedCommands hm n (t.set ifElseFlag 0)
    have h₁ : s₁.AgreeOff isFlag t₁ :=
      ((agree_of_logic hs₁).symm.trans hst₀).trans (agree_of_logic ht₁)
    simp only [runCommands_cons, run_set, Option.bind_some]
    refine blind_behind_arm (b := g.passes m (s.set ifElseFlag 0)) hcall (hraise hbody) ?_ ?_ h₁
      ((flag_kept hs₁).trans (State.set_scores_self ..))
      ((flag_kept ht₁).trans (State.set_scores_self ..)) fun h hs ht => ihq h fun _ => ⟨_, hs, ht⟩
    · rw [hs, run_call]
    · rw [ht, run_call, g.passes_congr hm hst₀]
  | noArm => exact .some hst
  | otherwise =>
    obtain ⟨v, hs, ht⟩ := hflag rfl
    rw [runCommands_singleton, runCommands_singleton, run_guarded, run_guarded]
    simp only [List.all_cons, List.all_nil, Bool.and_true, notTaken_holds hs, notTaken_holds ht]
    split
    · rw [run_call, run_call]
      exact hcall _ hst
    · exact .some hst
  | @lastArm g p q target body n =>
    obtain ⟨v, hs, ht⟩ := hflag rfl
    obtain ⟨s₁, hs₁, hsrun⟩ := g.run_laterArm hm n hs
    obtain ⟨t₁, ht₁, htrun⟩ := g.run_laterArm hm n ht
    have h₁ : s₁.AgreeOff isFlag t₁ :=
      ((agree_of_logic hs₁).symm.trans hst).trans (agree_of_logic ht₁)
    rw [hsrun, htrun, g.passes_congr hm hst]
    split
    · rw [run_call, run_call]
      exact hcall _ h₁
    · exact .some h₁
  | @arm g p q target body ds n hbody _ _ _ ihq =>
    obtain ⟨v, hs, ht⟩ := hflag rfl
    obtain ⟨s₁, hs₁, hsrun⟩ := g.run_laterArm hm n hs
    obtain ⟨t₁, ht₁, htrun⟩ := g.run_laterArm hm n ht
    have h₁ : s₁.AgreeOff isFlag t₁ :=
      ((agree_of_logic hs₁).symm.trans hst).trans (agree_of_logic ht₁)
    refine blind_behind_arm (b := decide (v = 0) && g.passes m s) hcall (hraise hbody) ?_ ?_ h₁
      ((flag_kept hs₁).trans hs) ((flag_kept ht₁).trans ht)
      fun h hs ht => ihq h fun _ => ⟨_, hs, ht⟩
    · rw [hsrun, run_call]
    · rw [htrun, run_call, g.passes_congr hm hst]

end

/-- A table of lowered functions, which has at least those that lowered commands rely on. -/
structure LoweredTable (has : ResourceLocation → List Command → Prop) (table : Table) : Prop where
  found : ∀ {target : ResourceLocation} {body : List Command}, has target body →
    table target = some body
  lowered : ∀ {target : ResourceLocation} {body : List Command}, table target = some body →
    ∃ p, Lowered has .own p body

namespace LoweredTable

variable {m : Machine W} {has : ResourceLocation → List Command → Prop} {table : Table}

/-- The function of an arm raises the flag at its end. -/
theorem raises (htable : LoweredTable has table) (depth : Nat) {target : ResourceLocation}
    {body : List Command} (hbody : has target (body ++ [Command.set ifElseFlag 1])) {s s' : State W}
    (h : table.call m depth target s = some s') : s'.scores ifElseFlag = some 1 := by
  cases depth with
  | zero => simp [Table.call] at h
  | succ depth =>
    rw [Table.call_succ_of_some (htable.found hbody), runCommands_append,
      Option.bind_eq_some_iff] at h
    obtain ⟨s₁, -, hset⟩ := h
    rw [runCommands_singleton, run_set] at hset
    rw [← Option.some.inj hset, State.set_scores_self]

/-- Flags do not influence calls, however deep. -/
theorem blindCalls (htable : LoweredTable has table) (hm : m.IgnoresFlags) (depth : Nat) :
    BlindCalls (table.call m depth) := by
  induction depth with
  | zero =>
    intro target s t _
    exact .none
  | succ depth ih =>
    intro target s t hst
    cases hbody : table target with
    | none =>
      rw [Table.call_succ_of_none hbody, Table.call_succ_of_none hbody]
      exact hm.act _ hst
    | some body =>
      obtain ⟨p, hp⟩ := htable.lowered hbody
      rw [Table.call_succ_of_some hbody, Table.call_succ_of_some hbody]
      exact hp.blind hm ih (htable.raises depth) hst (by simp)

/-- Commands that test no flag have matching ends from states that agree off flags. -/
theorem matches_plain (htable : LoweredTable has table) (hm : m.IgnoresFlags) {cs : List Command}
    (hcs : ∀ c ∈ cs, c.Plain) {s t : State W} (hst : s.AgreeOff isFlag t) :
    Matches (Runs m table cs s) (Runs m table cs t) := by
  have hrel := fun depth => runCommands_blind hm (htable.blindCalls hm depth) cs hcs hst
  constructor
  · rintro s' ⟨depth, hrun⟩
    have h := hrel depth
    rw [hrun] at h
    generalize hb : runCommands m (table.call m depth) cs t = b at h
    cases h with
    | some hagree => exact ⟨_, ⟨depth, hb⟩, hagree⟩
  · rintro t' ⟨depth, hrun⟩
    have h := hrel depth
    rw [hrun] at h
    generalize ha : runCommands m (table.call m depth) cs s = a at h
    cases h with
    | some hagree => exact ⟨_, ⟨depth, ha⟩, hagree⟩

end LoweredTable

/-! ### Lowered commands have the ends of their program -/

section

variable {m : Machine W} {has : ResourceLocation → List Command → Prop} {table : Table}

theorem Guard.runs_guardedCommands (hm : m.IgnoresFlags) (table : Table) (g : Guard) (n : Nat)
    (s : State W) :
    ∃ s₁, s.AgreeOff isLogicFlag s₁ ∧ ∀ (only : Command) (s' : State W),
      Runs m table ((g.rendered n).guardedCommands only) s s' ↔
        if g.passes m s then Runs m table [only] s₁ s' else s' = s₁ := by
  obtain ⟨s₁, hs₁, hrun⟩ := g.run_guardedCommands hm n s
  refine ⟨s₁, hs₁, fun only s' => ?_⟩
  simp only [Runs, hrun, runCommands_singleton]
  split <;> simp [eq_comm]

theorem Guard.runs_laterArm (hm : m.IgnoresFlags) (table : Table) (g : Guard) (n : Nat)
    {s : State W} (hs : s.scores ifElseFlag = some 0) :
    ∃ s₁, s.AgreeOff isLogicFlag s₁ ∧ ∀ (only : Command) (s' : State W),
      Runs m table ((g.rendered n).before ++
          [Command.guarded (notTaken :: (g.rendered n).clauses) only]) s s' ↔
        if g.passes m s then Runs m table [only] s₁ s' else s' = s₁ := by
  obtain ⟨s₁, hs₁, hrun⟩ := g.run_laterArm hm n hs
  refine ⟨s₁, hs₁, fun only s' => ?_⟩
  simp only [Runs, hrun, runCommands_singleton, decide_true, Bool.true_and]
  split <;> simp [eq_comm]

/-- An arm that has run raises the flag, and then the later arms do nothing. -/
theorem Lowered.matches_arm (hm : m.IgnoresFlags) {target : ResourceLocation}
    {body ds : List Command} {q : Program}
    (hbody : table target = some (body ++ [Command.set ifElseFlag 1]))
    (hq : Lowered has .laterArms q ds) {s : State W} {B : State W → Prop}
    (hp : Matches (Runs m table body s) B) :
    Matches (fun s' => ∃ s₂, Runs m table [.call target] s s₂ ∧ Runs m table ds s₂ s') B := by
  have hskip : ∀ s₁ : State W, ∃ s₂, s₁.AgreeOff isFlag s₂ ∧
      Runs m table ds (s₁.set ifElseFlag 1) s₂ := by
    intro s₁
    obtain ⟨s₂, hs₂, hrun⟩ := hq.skipped hm (State.set_scores_self s₁ ifElseFlag 1) one_ne_zero
    refine ⟨s₂, ?_, 0, hrun _⟩
    exact ((State.AgreeOff.refl _ s₁).set_right (Or.inl rfl) 1).trans (agree_of_logic hs₂)
  have hcall : ∀ s₂, Runs m table [.call target] s s₂ ↔
      ∃ s₁, Runs m table body s s₁ ∧ s₂ = s₁.set ifElseFlag 1 := by
    intro s₂
    rw [runs_call_iff hbody, runs_append_iff]
    simp only [runs_set_iff]
  constructor
  · rintro s' ⟨s₂, hcalled, hrest⟩
    obtain ⟨s₁, hs₁, rfl⟩ := (hcall s₂).mp hcalled
    obtain ⟨t', ht', hagree⟩ := hp.forth s₁ hs₁
    obtain ⟨s₂, hs₂, hrun⟩ := hskip s₁
    obtain rfl := hrest.unique hrun
    exact ⟨t', ht', hs₂.symm.trans hagree⟩
  · rintro t' ht'
    obtain ⟨s₁, hs₁, hagree⟩ := hp.back t' ht'
    obtain ⟨s₂, hs₂, hrun⟩ := hskip s₁
    exact ⟨s₂, ⟨_, (hcall _).mpr ⟨s₁, hs₁, rfl⟩, hrun⟩, hs₂.symm.trans hagree⟩

/-- A function that ends with a guarded call of itself runs rounds of its body behind the guard. -/
theorem Lowered.matches_loop (hm : m.IgnoresFlags) {g : Guard} (hg : g.condition.NegatesSingles)
    (n : Nat) {target : ResourceLocation} {body : List Command}
    (hbody : table target =
      some (body ++ (g.rendered n).guardedCommands (.call target)))
    {S : State W → State W → Prop}
    (hp : ∀ {s t : State W}, s.AgreeOff isFlag t → Matches (Runs m table body s) (S t))
    {s t : State W} (hst : s.AgreeOff isFlag t) :
    Matches (Runs m table ((g.rendered n).guardedCommands (.call target)) s)
      (Loop (fun s => g.holds m s) S t) := by
  constructor
  · rintro s' ⟨depth, hrun⟩
    -- every round calls the function once more, so the depth of calls bounds the rounds
    induction depth generalizing s t with
    | zero =>
      obtain ⟨s₁, hs₁, heq⟩ := g.run_guardedCommands hm n s
      rw [heq, g.passes_eq_holds m s hg, run_call] at hrun
      split at hrun
      · simp [Table.call] at hrun
      · next hfalse =>
        obtain rfl := Option.some.inj hrun
        rw [Bool.not_eq_true, g.holds_congr hm hg hst] at hfalse
        exact ⟨t, .done hfalse, (agree_of_logic hs₁).symm.trans hst⟩
    | succ depth ih =>
      obtain ⟨s₁, hs₁, heq⟩ := g.run_guardedCommands hm n s
      rw [heq, g.passes_eq_holds m s hg, run_call] at hrun
      split at hrun
      · next htrue =>
        rw [g.holds_congr hm hg hst] at htrue
        rw [Table.call_succ_of_some hbody, runCommands_append, Option.bind_eq_some_iff] at hrun
        obtain ⟨s₂, hround, hrest⟩ := hrun
        obtain ⟨t₂, ht₂, hagree⟩ :=
          (hp ((agree_of_logic hs₁).symm.trans hst)).forth s₂ ⟨depth, hround⟩
        obtain ⟨t', ht', hagree'⟩ := ih hagree hrest
        exact ⟨t', .again htrue ht₂ ht', hagree'⟩
      · next hfalse =>
        obtain rfl := Option.some.inj hrun
        rw [Bool.not_eq_true, g.holds_congr hm hg hst] at hfalse
        exact ⟨t, .done hfalse, (agree_of_logic hs₁).symm.trans hst⟩
  · intro t' hloop
    induction hloop generalizing s with
    | @done t hfalse =>
      obtain ⟨s₁, hs₁, hiff⟩ := g.runs_guardedCommands hm table n s
      refine ⟨s₁, (hiff _ s₁).mpr ?_, (agree_of_logic hs₁).symm.trans hst⟩
      rw [g.passes_eq_holds m s hg, g.holds_congr hm hg hst, hfalse]
      simp
    | @again t t₂ u htrue hround _ ih =>
      obtain ⟨s₁, hs₁, hiff⟩ := g.runs_guardedCommands hm table n s
      obtain ⟨s₂, hs₂, hagree⟩ := (hp ((agree_of_logic hs₁).symm.trans hst)).back t₂ hround
      obtain ⟨s', hs', hagree'⟩ := ih hagree
      refine ⟨s', (hiff _ s').mpr ?_, hagree'⟩
      rw [g.passes_eq_holds m s hg, g.holds_congr hm hg hst, htrue, if_pos rfl,
        runs_call_iff hbody, runs_append_iff]
      exact ⟨s₂, hs₂, hs'⟩

/-- The ends of a choice are those of the program that the guard selects. -/
theorem Matches.choose {A : State W → Prop} {g : Guard} {p q : Program} {t : State W}
    (hp : g.holds m t = true → Matches A (p.Ends m table t))
    (hq : ¬ g.holds m t = true → Matches A (q.Ends m table t)) :
    Matches A ((Program.choose g p q).Ends m table t) := by
  by_cases hg : g.holds m t = true
  · exact (hp hg).congr (fun s' => Iff.rfl) (fun t' => by rw [Program.Ends, if_pos hg])
  · exact (hq hg).congr (fun s' => Iff.rfl) (fun t' => by rw [Program.Ends, if_neg hg])

/-- Lowered commands end exactly when their program ends, in states that agree off flags. Later arms
of a chain stand for their program as long as the flag is down. -/
theorem Lowered.matches (hm : m.IgnoresFlags) (htable : LoweredTable has table) {stage : Stage}
    {p : Program} {cs : List Command} (h : Lowered has stage p cs) (hp : p.NegatesSingles)
    {s t : State W} (hst : s.AgreeOff isFlag t)
    (hflag : stage = .laterArms → s.scores ifElseFlag = some 0) :
    Matches (Runs m table cs s) (p.Ends m table t) := by
  induction h generalizing s t with
  | commands hplain => exact htable.matches_plain hm hplain hst
  | seq _ _ ihp ihq =>
    refine ((ihp hp.1 hst (by simp)).bind fun s₁ t₁ h₁ => ihq hp.2 h₁ (by simp)).congr
      (fun s' => runs_append_iff) (fun t' => Iff.rfl)
  | call hbody _ ihp =>
    exact (ihp hp hst (by simp)).congr (fun s' => runs_call_iff (htable.found hbody))
      (fun t' => Iff.rfl)
  | @nothing g p q _ _ ihp ihq =>
    exact .choose (fun _ => ihp hp.2.1 hst (by simp)) (fun _ => ihq hp.2.2 hst (by simp))
  | @guarded g p q only n _ _ ihp ihq =>
    obtain ⟨s₁, hs₁, hiff⟩ := g.runs_guardedCommands hm table n s
    have h₁ : s₁.AgreeOff isFlag t := (agree_of_logic hs₁).symm.trans hst
    simp only [g.passes_eq_holds m s hp.1, g.holds_congr hm hp.1 hst] at hiff
    refine .choose (fun htrue => ?_) (fun hfalse => ?_)
    · refine (ihp hp.2.1 h₁ (by simp)).congr (fun s' => ?_) (fun t' => Iff.rfl)
      rw [hiff, if_pos htrue]
    · refine (ihq hp.2.2 h₁ (by simp)).congr (fun s' => ?_) (fun t' => Iff.rfl)
      rw [hiff, if_neg hfalse, runs_nil_iff]
  | loop n hbody _ ihp =>
    exact Lowered.matches_loop hm hp.1 n (htable.found hbody) (fun h => ihp hp.2 h (by simp)) hst
  | @chain g p q target body ds n hbody _ hq ihp ihq =>
    obtain ⟨s₁, hs₁, hiff⟩ := g.runs_guardedCommands hm table n (s.set ifElseFlag 0)
    have h₀ : (s.set ifElseFlag 0).AgreeOff isFlag t :=
      (((State.AgreeOff.refl _ s).set_right (Or.inl rfl) 0).symm.trans hst)
    have h₁ : s₁.AgreeOff isFlag t := (agree_of_logic hs₁).symm.trans h₀
    simp only [g.passes_eq_holds m _ hp.1, g.holds_congr hm hp.1 h₀] at hiff
    have hrun : ∀ s', Runs m table
        (.set ifElseFlag 0 :: ((g.rendered n).guardedCommands (.call target) ++ ds)) s s' ↔
        ∃ s₂, (if g.holds m t then Runs m table [.call target] s₁ s₂ else s₂ = s₁) ∧
          Runs m table ds s₂ s' := by
      intro s'
      rw [runs_cons_iff]
      simp only [runs_set_iff, exists_eq_left, runs_append_iff, hiff]
    refine .choose (fun htrue => ?_) (fun hfalse => ?_)
    · refine (Lowered.matches_arm hm (htable.found hbody) hq
        (ihp hp.2.1 h₁ (by simp))).congr (fun s' => ?_) (fun t' => Iff.rfl)
      rw [hrun]
      simp only [if_pos htrue]
    · have hdown : s₁.scores ifElseFlag = some 0 :=
        (flag_kept hs₁).trans (State.set_scores_self ..)
      refine (ihq hp.2.2 h₁ fun _ => hdown).congr (fun s' => ?_) (fun t' => Iff.rfl)
      rw [hrun]
      simp only [if_neg hfalse, exists_eq_left]
  | noArm _ ihq => exact ihq hp hst (by simp)
  | @otherwise p target body hbody _ ihp =>
    refine (ihp hp hst (by simp)).congr (fun s' => ?_) (fun t' => Iff.rfl)
    have htest : [notTaken].all (·.holds m s) = true := by
      simp [notTaken_holds (hflag rfl)]
    rw [runs_guarded_iff, if_pos htest, runs_call_iff (htable.found hbody)]
  | @lastArm g p q target body n hbody _ _ ihp ihq =>
    obtain ⟨s₁, hs₁, hiff⟩ := g.runs_laterArm hm table n (hflag rfl)
    have h₁ : s₁.AgreeOff isFlag t := (agree_of_logic hs₁).symm.trans hst
    simp only [g.passes_eq_holds m s hp.1, g.holds_congr hm hp.1 hst] at hiff
    refine .choose (fun htrue => ?_) (fun hfalse => ?_)
    · refine (ihp hp.2.1 h₁ (by simp)).congr (fun s' => ?_) (fun t' => Iff.rfl)
      rw [hiff, if_pos htrue, runs_call_iff (htable.found hbody)]
    · refine (ihq hp.2.2 h₁ (by simp)).congr (fun s' => ?_) (fun t' => Iff.rfl)
      rw [hiff, if_neg hfalse, runs_nil_iff]
  | @arm g p q target body ds n hbody _ hq ihp ihq =>
    obtain ⟨s₁, hs₁, hiff⟩ := g.runs_laterArm hm table n (hflag rfl)
    have h₁ : s₁.AgreeOff isFlag t := (agree_of_logic hs₁).symm.trans hst
    simp only [g.passes_eq_holds m s hp.1, g.holds_congr hm hp.1 hst] at hiff
    refine .choose (fun htrue => ?_) (fun hfalse => ?_)
    · refine (Lowered.matches_arm hm (htable.found hbody) hq
        (ihp hp.2.1 h₁ (by simp))).congr (fun s' => ?_) (fun t' => Iff.rfl)
      rw [runs_append_iff]
      simp only [hiff, if_pos htrue]
    · have hdown : s₁.scores ifElseFlag = some 0 := (flag_kept hs₁).trans (hflag rfl)
      refine (ihq hp.2.2 h₁ fun _ => hdown).congr (fun s' => ?_) (fun t' => Iff.rfl)
      rw [runs_append_iff]
      simp only [hiff, if_neg hfalse, exists_eq_left]

end

end Packwright
