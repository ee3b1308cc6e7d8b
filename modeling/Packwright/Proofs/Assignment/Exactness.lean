import Packwright.Proofs.Assignment.Spacing
import Packwright.Proofs.Semantics.Arithmetic
import Packwright.Proofs.Session.Accounts

/-!
# Integers that change a score

An integer literal is added to a score or taken away from it by one command. The amount in the command is never
negative, so the sign of the literal decides between adding and taking away; the least score has no such amount
and goes through a constant. The other operators always take the literal through a constant.

## Main definitions

- `Operator.changed` — what `+=` and `-=` make of a value
- `Operator.throughConstant`, `Operator.nativeCode` — the other operators, and their codes in commands
- `Pack.HeldIn` — the registered constants have their values
- `ChangesExactly` — a command that adds an integer to a score, or takes it away

## Main results

- `changesExactly_command` — the command of `+=` and `-=`
- `integers_change_exactly` — assignments with an integer literal
-/

namespace Packwright

/-- What `+=` and `-=` make of a value. -/
def Operator.changed (o : Operator) (v n : Int) : Int := if o = .subtract then v - n else v + n

/-- The operators that take every integer through a constant. -/
def Operator.throughConstant : List Operator := [.multiply, .divide, .modulo, .min, .max, .atMost, .atLeast]

/-- The code of an operator in a command. A command has `<` and `>` for the lesser and the greater value. -/
def Operator.nativeCode : Operator → String
  | .atMost => "<"
  | .atLeast => ">"
  | o => o.symbol

/-- The registered constants have their values. -/
def Pack.HeldIn {W : Type} (p : Pack) (st : State W) : Prop :=
  ∀ k ∈ p.constants, st.scores (.ofConstant k) = some k

/-- The command adds an integer to the target, or takes it away. -/
structure ChangesExactly (o : Operator) (target : Score) (n : Int) (p : Pack) (c : Command) : Prop where
  /-- An amount that is added or taken away is a score and not negative. -/
  amount : ∀ score k, c = .add score k ∨ c = .remove score k → 0 ≤ (k : Int) ∧ (k : Int) ≤ maxScore
  /-- A constant is registered. -/
  constant : ∀ score operation k, c = .operate score operation (.ofConstant k) → k ∈ p.constants
  /-- Where constants have their values, the command changes the target as told, and nothing else. -/
  effect : ∀ {W : Type} {m : Machine W} {table : Table} {st st' : State W}, m.Computes .wrapping →
    m.Counts .wrapping → p.HeldIn st → (Runs m table [c] st st' ↔
      st' = st.set target ((o.changed ((st.scores target).getD 0) n).bmod 4294967296))

section

variable {left literal text : List Char} {target : Score} {o : Operator}

theorem mem_registerConstant (p : Pack) (n : Int) : n ∈ (p.registerConstant n).constants := by
  rw [Pack.constants_registerConstant]
  split
  · assumption
  · exact List.mem_append_right _ (List.mem_singleton_self n)

theorem Score.ofConstant_inj {n k : Int} : Score.ofConstant n = Score.ofConstant k ↔ n = k := by
  refine ⟨fun h => Int.repr_inj.mp (Score.mk.inj h).1, fun h => by rw [h]⟩

/-- An amount of the other sign is counted the other way. -/
theorem changed_of_counted (ho : o = .add ∨ o = .subtract) (v n : Int) :
    o.changed v n = if decide (o = .add) = decide (0 ≤ n) then v + n.natAbs else v - n.natAbs := by
  rcases ho with rfl | rfl
  · show v + n = _
    by_cases hn : 0 ≤ n
    · rw [if_pos (by simp [hn])]
      omega
    · rw [if_neg (by simp [hn])]
      omega
  · show v - n = _
    by_cases hn : 0 ≤ n
    · rw [if_neg (by simp [hn])]
      omega
    · rw [if_pos (by simp [hn])]
      omega

/-- An amount that is a score is counted without a constant. -/
theorem changesExactly_counted (ho : o = .add ∨ o = .subtract) (target : Score) {n : Int}
    (hn : (n.natAbs : Int) ≤ maxScore) (p : Pack) : ChangesExactly o target n p
      (if decide (o = .add) = decide (0 ≤ n) then .add target n.natAbs else .remove target n.natAbs) := by
  refine ⟨fun score k hk => ?_, fun score operation k hk => ?_, fun hcomputes hcounts hheld => ?_⟩
  · have hamount : k = n.natAbs := by
      split at hk <;> rcases hk with hk | hk <;> cases hk <;> rfl
    exact ⟨Int.natCast_nonneg k, hamount ▸ hn⟩
  · split at hk <;> cases hk
  · rw [changed_of_counted ho]
    split
    · simp [hcounts.runs_add_iff hn, Store.wrapping]
    · simp [hcounts.runs_remove_iff hn, Store.wrapping]

/-- An integer that is held by a registered constant is added or taken away as a score. -/
theorem changesExactly_constant (ho : o = .add ∨ o = .subtract) (target : Score) {n : Int} {p : Pack}
    (hn : n ∈ p.constants) : ChangesExactly o target n p (.operate target o.operation (.ofConstant n)) := by
  refine ⟨nofun, fun score operation k hk => ?_, fun hcomputes hcounts hheld => ?_⟩
  · rwa [Score.ofConstant_inj.mp (Command.operate.inj hk).2.2] at hn
  · have hvalue : ∀ v : Int, o.operation.value? v n = some (o.changed v n) := by
      rcases ho with rfl | rfl <;> exact fun _ => rfl
    simp [hcomputes.runs_operate_iff (hheld n hn) (hvalue _), Store.wrapping]

/-- The command of `+=` and `-=`; only the least score is counted through a constant. -/
theorem changesExactly_command (ho : o = .add ∨ o = .subtract) (target : Score) (n : Int) (s : Session) :
    ∃ c, o.command target (.int n) = .ok c ∧ ChangesExactly o target n (o.registering (.ok (.int n)) s).pack c := by
  refine ⟨_, Operator.command_int ho target n, ?_⟩
  rw [Operator.registering_int ho]
  by_cases hlarge : (n.natAbs : Int) > maxScore
  · rw [if_pos hlarge, if_pos hlarge]
    exact changesExactly_constant ho target (mem_registerConstant s.pack n)
  · rw [if_neg hlarge, if_neg hlarge]
    exact changesExactly_counted ho target (Int.not_lt.mp hlarge) s.pack

theorem command_throughConstant (ho : o ∈ Operator.throughConstant) (target : Score) (n : Int) (s : Session) :
    o.command target (.int n) = .ok (.operate target o.operation (.ofConstant n)) ∧
      o.registering (.ok (.int n)) s = { s with pack := s.pack.registerConstant n } ∧
      o.operation.code = o.nativeCode := by
  fin_cases ho <;> exact ⟨rfl, rfl, rfl⟩

/-- An assignment with an integer literal fails with a syntax error if the literal is no score, and becomes one
command if it is. With `+=` and `-=` the command adds the integer to the score or takes it away; with the other
operators it computes with a registered constant. -/
theorem integers_change_exactly (ho : o = .add ∨ o = .subtract ∨ o ∈ Operator.throughConstant)
    (hleft : ScoreWord left target) (hliteral : isIntegerText (String.ofList literal) = true)
    (htext : AssignmentText left o literal text) {level : Level} (hlevel : ∀ path, level ≠ .inClass path)
    (k : Cursor) (rest : List Char) :
    ∃ st : Statement, IsStatementAt k text rest st ∧ ∀ (inner : Compile.Block) (s : Session),
      let n := integerValue (String.ofList literal)
      let outcome := (Compile.construct inner level (.single st)).outcome s
      (inScoreRange n = false → ∃ f, outcome = (.error (.fault f), s) ∧ f.isSyntaxError = true) ∧
      (inScoreRange n = true → ∃ c s', outcome = (.ok [c], s') ∧
        (o = .add ∨ o = .subtract → ChangesExactly o (target.resolveIn s.scope) n s'.pack c) ∧
        (o ∈ Operator.throughConstant → n ∈ s'.pack.constants ∧ ∃ operation : Operation,
          c = .operate (target.resolveIn s.scope) operation (.ofConstant n) ∧
            operation.code = o.nativeCode)) := by
  obtain ⟨st, first, t, v, hst, ht, hv, hcompile⟩ := htext.exists_statement hleft (.integer hliteral) k rest
  have hbinary : o.isBinary = true := by
    rcases ho with rfl | rfl | ho
    · rfl
    · rfl
    · fin_cases ho <;> rfl
  have hcheck : level.check .variableChange first = .ok () := by
    cases level with
    | top | body => rfl
    | inClass path => exact absurd rfl (hlevel path)
  have houtcome : ∀ {x : Except Cause Operand} (inner : Compile.Block) {s : Session},
      OperandText s.scope literal x → (Compile.construct inner level (.single st)).outcome s =
        (v.locate ((x.bind (o.command (target.resolveIn s.scope))).map ([·])), o.registering x s) := by
    intro x inner s hx
    rw [hcompile, hcheck]
    exact Compile.operation_outcome hbinary hleft hx ht hv inner
  refine ⟨st, hst, fun inner s => ⟨fun hout => ?_, fun hin => ?_⟩⟩
  · exact ⟨_, houtcome inner (.outOfRange hliteral hout), rfl⟩
  · have hvalue := houtcome inner (s := s) (.integer hliteral hin)
    rcases or_assoc.mpr ho with hsum | hconstant
    · obtain ⟨c, hc, hchanges⟩ := changesExactly_command hsum (target.resolveIn s.scope)
        (integerValue (String.ofList literal)) s
      rw [Except.bind, hc] at hvalue
      refine ⟨c, _, hvalue, fun _ => hchanges, fun hconstant => ?_⟩
      rcases hsum with rfl | rfl <;> exact absurd hconstant (by decide)
    · obtain ⟨hc, hregistering, hcode⟩ := command_throughConstant hconstant (target.resolveIn s.scope)
        (integerValue (String.ofList literal)) s
      rw [Except.bind, hc, hregistering] at hvalue
      refine ⟨_, _, hvalue, fun hsum => ?_, fun _ => ⟨mem_registerConstant s.pack _, _, rfl, hcode⟩⟩
      rcases hsum with rfl | rfl <;> exact absurd hconstant (by decide)

end

/-- The least score is taken away through a constant, and its negative is no score. -/
theorem least_score_taken_away :
    ScoreWord "$x".toList (.ofVariable "$x") ∧ isIntegerText "-2147483648" = true ∧
    (∃ st : Statement, IsStatementAt ⟨0, Position.start⟩ "$x-=-2147483648".toList [] st ∧
      ∀ inner, ∃ c s', (Compile.construct inner .body (.single st)).outcome (Session.new {}) = (.ok [c], s') ∧
        ChangesExactly .subtract (.ofVariable "$x") (-2147483648) s'.pack c ∧
        ∀ {table : Table} {st st' : State Unit}, s'.pack.HeldIn st → st.scores (.ofVariable "$x") = some 5 →
          (Runs (Machine.counting .wrapping) table [c] st st' ↔ st' = st.set (.ofVariable "$x") (-2147483643))) ∧
    ∃ st : Statement, IsStatementAt ⟨0, Position.start⟩ "$x += 2147483648".toList [] st ∧
      ∀ inner, ∃ f, (Compile.construct inner .body (.single st)).outcome (Session.new {}) =
        (.error (.fault f), Session.new {}) ∧ f.isSyntaxError = true := by
  have hspace : ∀ c ∈ [' '], Text.isBlank c = true := List.forall_mem_singleton.mpr (by decide)
  have hnegative : AssignmentText "$x".toList .subtract "-2147483648".toList "$x-=-2147483648".toList :=
    @AssignmentText.plain _ _ _ [] [] nofun nofun
  have hpositive : AssignmentText "$x".toList .add "2147483648".toList "$x += 2147483648".toList :=
    @AssignmentText.plain _ _ _ [' '] [' '] hspace hspace
  have hbody : ∀ path, Level.body ≠ .inClass path := nofun
  obtain ⟨st, hst, hleast⟩ := integers_change_exactly (.inr (.inl rfl)) scoreWord_x (by decide)
    hnegative hbody ⟨0, Position.start⟩ []
  obtain ⟨st', hst', hlarge⟩ := integers_change_exactly (.inl rfl) scoreWord_x (by decide) hpositive hbody
    ⟨0, Position.start⟩ []
  refine ⟨scoreWord_x, by decide, ⟨st, hst, fun inner => ?_⟩, st', hst', fun inner =>
    (hlarge inner (Session.new {})).1 (by decide)⟩
  obtain ⟨c, s', houtcome, hchanges, -⟩ := (hleast inner (Session.new {})).2 (by decide)
  have hexact : ChangesExactly .subtract (.ofVariable "$x") (-2147483648) s'.pack c := hchanges (.inr rfl)
  refine ⟨c, s', houtcome, hexact, fun hheld hx => ?_⟩
  rw [hexact.effect (Machine.counting_computes _) (Machine.counting_counts _) hheld, hx]
  rfl

end Packwright
