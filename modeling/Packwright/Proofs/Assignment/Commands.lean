import Packwright.Proofs.Assignment.Words
import Packwright.Proofs.Session.Outcomes

/-!
# The command of an assignment

An operator between a score and a value becomes one command, or fails at the value. Which of both, and what the
pack gets besides, depends on the texts of the two sides and on the renamings in force, not on the places of the
tokens.

## Main definitions

- `OperandText` — what a value stands for in a scope
- `Operator.needsConstant`, `Operator.command` — the command of an operator, and whether an integer goes through
  a constant

## Main results

- `Compile.operation_outcome` — what becomes of an operator between a score and a value
-/

namespace Packwright

/-! ### Values -/

/-- What a value stands for in a scope; a literal that is no score stands for nothing. -/
inductive OperandText (scope : Scope) : List Char → Except Cause Operand → Prop
  | integer {cs : List Char} (h : isIntegerText (String.ofList cs) = true)
    (hin : inScoreRange (integerValue (String.ofList cs)) = true) :
    OperandText scope cs (.ok (.int (integerValue (String.ofList cs))))
  | outOfRange {cs : List Char} (h : isIntegerText (String.ofList cs) = true)
    (hout : inScoreRange (integerValue (String.ofList cs)) = false) :
    OperandText scope cs (.error (.scoreOutOfRange (String.ofList cs)))
  | score {cs : List Char} {score : Score} (h : ScoreWord cs score) :
    OperandText scope cs (.ok (.score (score.resolveIn scope)))

/-- A result whose failure is located at a token. -/
def Token.locate {α : Type} (t : Token) (x : Except Cause α) : Except Failure α :=
  x.mapError fun cause => .fault (t.fault cause)

section

variable {scope : Scope} {cs left right : List Char} {x : Except Cause Operand}

theorem ValueWord.exists_operandText (h : ValueWord cs) (scope : Scope) : ∃ x, OperandText scope cs x := by
  cases h with
  | integer h =>
    cases hin : inScoreRange (integerValue (String.ofList cs)) with
    | true => exact ⟨_, .integer h hin⟩
    | false => exact ⟨_, .outOfRange h hin⟩
  | score h => exact ⟨_, .score h⟩

theorem OperandText.valueWord (h : OperandText scope cs x) : ValueWord cs := by
  cases h with
  | integer h | outOfRange h => exact .integer h
  | score h => exact .score h

end

/-! ### Commands -/

namespace Operator

/-- Whether an integer on the right goes through a constant. Amounts of a score or less are added and taken away
without one. -/
def needsConstant (o : Operator) (n : Int) : Bool :=
  match o with
  | .assign | .copyTo | .swap => false
  | .add | .subtract => (n.natAbs : Int) > maxScore
  | _ => true

/-- The command of an operator between a score and a value. The two operators that give the right side a value
need a score there. -/
def command (o : Operator) (target : Score) : Operand → Except Cause Command
  | .score s => .ok (if o = .copyTo then .operate s .assign target else .operate target o.operation s)
  | .int n =>
    if o = .copyTo ∨ o = .swap then .error (.needsScore o.symbol)
    else if o = .assign then .ok (.set target n)
    else if o.needsConstant n then .ok (.operate target o.operation (.ofConstant n))
    else .ok (if decide (o = .add) = decide (0 ≤ n) then .add target n.natAbs else .remove target n.natAbs)

/-- A session once the constant of a value is registered, if it needs one. -/
def registering (o : Operator) (x : Except Cause Operand) (s : Session) : Session :=
  match x with
  | .ok (.int n) => if o.needsConstant n then { s with pack := s.pack.registerConstant n } else s
  | _ => s

theorem command_int {o : Operator} (ho : o = .add ∨ o = .subtract) (target : Score) (n : Int) :
    o.command target (.int n) =
      .ok (if (n.natAbs : Int) > maxScore then .operate target o.operation (.ofConstant n)
        else if decide (o = .add) = decide (0 ≤ n) then .add target n.natAbs else .remove target n.natAbs) := by
  have hneeds : o.needsConstant n = decide ((n.natAbs : Int) > maxScore) := by rcases ho with rfl | rfl <;> rfl
  have hcommand : o.command target (.int n) =
      if o.needsConstant n then .ok (.operate target o.operation (.ofConstant n))
      else .ok (if decide (o = .add) = decide (0 ≤ n) then .add target n.natAbs else .remove target n.natAbs) := by
    rcases ho with rfl | rfl <;> rfl
  rw [hcommand, hneeds]
  by_cases hlarge : (n.natAbs : Int) > maxScore
  · rw [if_pos (decide_eq_true hlarge), if_pos hlarge]
  · rw [if_neg (by simpa using hlarge), if_neg hlarge]

theorem registering_int {o : Operator} (ho : o = .add ∨ o = .subtract) (n : Int) (s : Session) :
    o.registering (.ok (.int n)) s =
      if (n.natAbs : Int) > maxScore then { s with pack := s.pack.registerConstant n } else s := by
  have hneeds : o.needsConstant n = decide ((n.natAbs : Int) > maxScore) := by rcases ho with rfl | rfl <;> rfl
  simp only [registering, hneeds, decide_eq_true_eq]

end Operator

namespace Compile

variable {left right : List Char} {target : Score} {o : Operator} {x : Except Cause Operand} {t v : Token}
  {s : Session}

theorem score_outcome (h : ScoreWord left target) (t : Token) (s : Session) :
    (score (String.ofList left) t).outcome s = (.ok (target.resolveIn s.scope), s) := by
  have hscore : (score? (String.ofList left)).outcome s = (.ok (some (target.resolveIn s.scope)), s) := by
    show ((Except.ok (Score.parseIn? s.scope (String.ofList left)), s) : Except Failure _ × Session) = _
    rw [Score.parseIn?, h.parse?]
    rfl
  unfold score
  rw [outcome_bind, hscore]
  rfl

/-- A value is read as what it stands for. -/
theorem operand_outcome (h : OperandText s.scope right x) (hv : v.shape = (.word, right)) (o : Operator)
    (t : Token) : (operand o t [v]).outcome s = (v.locate (x.map (v, ·)), s) := by
  have hword := Token.word?_of_shape hv
  have hsingle : checkSingle v [] = pure () := by
    unfold checkSingle
    rw [hword, Option.bind_some, String.toList_ofList, h.valueWord.find]
  simp only [operand, hsingle, pure_bind]
  cases h with
  | integer h hin =>
    have hvalue : v.scoreValue = .ok (some (integerValue (String.ofList right))) := by
      simp only [Token.scoreValue, hword, scoreValue, h, hin, if_true]
    rw [hvalue]
    rfl
  | outOfRange h hout =>
    have hvalue : v.scoreValue = .error (v.fault (.scoreOutOfRange (String.ofList right))) := by
      simp [Token.scoreValue, hword, scoreValue, h, hout]
    rw [hvalue]
    rfl
  | score h =>
    have hvalue : v.scoreValue = .ok none := by
      simp [Token.scoreValue, hword, scoreValue, h.not_integer]
    rw [hvalue]
    simp only [ofExcept, pure_bind]
    rw [outcome_get_bind, hword, Option.bind_some, Score.parseIn?, h.parse?]
    rfl

/-- A value on the right of an assignment is taken as one. -/
theorem isValueToken_value (h : ValueWord right) (hv : v.shape = (.word, right)) (scope : Scope) :
    isValueToken scope v = true := by
  obtain ⟨hkind, htext⟩ := Prod.mk.inj hv
  have hhead : Operator.head v.text.toList = right := by rw [htext, Operator.head, h.find]
  unfold isValueToken
  rw [hhead, hkind]
  cases h with
  | integer h => simp [h]
  | score h => simp [Score.parseIn?, h.parse?]

/-- An integer is added or taken away by one command, through a constant or not. -/
theorem addition_outcome (ho : o = .add ∨ o = .subtract) (target : Score) (n : Int) (s : Session) :
    ∃ c, o.command target (.int n) = .ok c ∧
      (addition target o (.int n)).outcome s = (.ok c, o.registering (.ok (.int n)) s) := by
  refine ⟨_, Operator.command_int ho target n, ?_⟩
  rw [Operator.registering_int ho]
  by_cases hlarge : (n.natAbs : Int) > maxScore
  · simp only [addition, if_pos hlarge]
    rfl
  · simp only [addition, if_neg hlarge]
    split <;> rfl

/-- An operator between a score and a value becomes one command, or fails at the value. -/
theorem operation_outcome (ho : o.isBinary = true) (hleft : ScoreWord left target)
    (hright : OperandText s.scope right x) (ht : t.shape = (.word, left)) (hv : v.shape = (.word, right))
    (block : Block) : (operation block ⟨t, o, [v]⟩).outcome s =
      (v.locate ((x.bind (o.command (target.resolveIn s.scope))).map ([·])), o.registering x s) := by
  have htext : t.text = String.ofList left :=
    String.toList_injective (by rw [(Prod.mk.inj ht).2, String.toList_ofList])
  have hscore := score_outcome hleft t s
  have hvalue := isValueToken_value hright.valueWord hv s.scope
  have hoperand := operand_outcome hright hv
  have hadditions := fun ho n => addition_outcome (o := o) ho (target.resolveIn s.scope) n s
  unfold operation
  simp only [htext]
  rw [outcome_bind, hscore]
  cases o with
  | increment | decrement => cases ho
  | assign =>
    show (assignment block _ t [v]).outcome s = _
    simp only [assignment]
    rw [outcome_get_bind, if_pos hvalue, outcome_bind, hoperand]
    cases hright <;> rfl
  | copyTo | swap =>
    show (operand _ t [v] >>= _).outcome s = _
    rw [outcome_bind, hoperand]
    cases hright <;> rfl
  | add | subtract =>
    show (operand _ t [v] >>= _).outcome s = _
    rw [outcome_bind, hoperand]
    cases hright with
    | outOfRange | score => rfl
    | integer =>
      obtain ⟨c, hcommand, haddition⟩ := hadditions (by simp) (integerValue (String.ofList right))
      show (addition (target.resolveIn s.scope) _ (.int (integerValue (String.ofList right))) >>= _).outcome s = _
      rw [outcome_bind, haddition]
      simp only [Except.bind, hcommand]
      rfl
  | _ =>
    show (operand _ t [v] >>= _).outcome s = _
    rw [outcome_bind, hoperand]
    cases hright <;> rfl

end Compile

end Packwright
