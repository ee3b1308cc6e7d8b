import Packwright.Proofs.Session.Loops
import Packwright.Proofs.Session.Numbering

/-!
# Variables inside loops

The variable that a `for` declares has a holder of its own inside the loop. Which holder a name has
at some place of a text depends only on the loops around that place: it is that of the innermost loop
that declares the name, and the name itself if there is none. Whatever the compiler reads with the
renamings of the loops around a place, it reads as without renamings, but for the holders of
variables.

## Main definitions

- `ForLoop`, `ForLoop.declared?`, `ForLoop.holder` — a loop, its variable and the holder of that variable
- `holderIn` — the holder of a name inside loops
- `scopeOf` — the renamings inside loops
- `Score.within`, `Rendered.within`, `Bindings.within` — what is written, with the holders that it has
  inside loops

## Main results

- `resolve?_scopeOf` — the renamings inside loops give the holder of the innermost one
- `Score.parseIn?_scopeOf`, `Condition.rendering_scopeOf`, `Builtin.bind_scopeOf` — scores, conditions and
  arguments inside loops
- `ForLoop.holder_inj` — loops with different numbers have no holder in common
-/

namespace Packwright

/-! ### Loops -/

/-- A `for`: its number, and the tokens of the first part of its head. -/
structure ForLoop where
  id : Nat
  header : List Token
  deriving DecidableEq, Repr

namespace ForLoop

/-- The variable that the loop declares: the name that its head starts with, behind a `let`. -/
def declared? (l : ForLoop) : Option String :=
  match l.header with
  | first :: second :: _ => if first.isWord "let" then leadingVariable? second.text else none
  | _ => none

/-- The holder that the loop gives to its variable. -/
def holder (l : ForLoop) (name : String) : String :=
  "$__for_" ++ toString l.id ++ "__" ++ String.ofList (name.toList.drop 1)

end ForLoop

/-- The holder of a name inside loops, of which the innermost comes first. -/
def holderIn : List ForLoop → String → String
  | [], name => name
  | l :: outer, name => if l.declared? = some name then l.holder name else holderIn outer name

/-- The renamings inside loops, of which the innermost comes first. -/
def scopeOf : List ForLoop → Scope
  | [] => {}
  | l :: outer => loopScope (scopeOf outer) l.id l.header

theorem loopScope_eq (scope : Scope) (l : ForLoop) : loopScope scope l.id l.header =
    match l.declared? with
    | some name => scope.push.bind name (l.holder name)
    | none => scope.push := by
  obtain ⟨id, _ | ⟨first, _ | ⟨second, rest⟩⟩⟩ := l
  · rfl
  · rfl
  · simp only [loopScope, ForLoop.declared?]
    split <;> rfl

/-- The innermost loop that declares a name renames it. -/
theorem resolve?_scopeOf (loops : List ForLoop) (name : String) :
    ((scopeOf loops).resolve? name).getD name = holderIn loops name := by
  induction loops with
  | nil => rfl
  | cons l outer ih =>
    rw [scopeOf, loopScope_eq, holderIn]
    cases hdeclared : l.declared? with
    | none => simpa [Scope.resolve?, Scope.push] using ih
    | some declared =>
      by_cases hname : declared = name
      · subst hname
        simp [Scope.resolve?, Scope.push, Scope.bind]
      · have hother : (name == declared) = false := by simpa using Ne.symm hname
        rw [if_neg (by simpa using hname), ← ih]
        simp [Scope.resolve?, Scope.push, Scope.bind, List.lookup, hother]

/-! ### Scores -/

namespace Score

/-- The score that is meant inside loops: the holder of a variable is renamed. -/
def within (loops : List ForLoop) (s : Score) : Score :=
  if s.isVariable then { s with holder := holderIn loops s.holder } else s

theorem resolveIn_scopeOf (loops : List ForLoop) (s : Score) :
    s.resolveIn (scopeOf loops) = s.within loops := by
  unfold resolveIn within
  rw [resolve?_scopeOf]

theorem parseIn?_empty (text : String) : parseIn? {} text = parse? text := by
  have hsame : ∀ s : Score, s.resolveIn {} = s := by
    intro s
    unfold resolveIn
    split <;> rfl
  rw [parseIn?, funext hsame, Option.map_id']

/-- A score inside loops is the one that is written, with the holder of its variable. -/
theorem parseIn?_scopeOf (loops : List ForLoop) (text : String) :
    parseIn? (scopeOf loops) text = (parse? text).map (within loops) := by
  rw [parseIn?, funext (resolveIn_scopeOf loops)]

@[simp] theorem within_logicFlag (loops : List ForLoop) (n : Nat) :
    (logicFlag n).within loops = logicFlag n := by
  have hflag : (logicFlag n).isVariable = false := by
    simp [isVariable, logicFlag, ofVariable, Text.startsWith, List.isPrefixOf]
  rw [within, hflag]
  rfl

end Score

/-! ### Conditions -/

/-- The test with the holders that its variables have inside loops. -/
def Test.within (loops : List ForLoop) : Test → Test
  | .inRange score range => .inRange (score.within loops) range
  | .compare score relation other => .compare (score.within loops) relation (other.within loops)
  | .written text => .written text

/-- The clause with the holders that its variables have inside loops. -/
def Clause.within (loops : List ForLoop) (c : Clause) : Clause := { c with test := c.test.within loops }

namespace Command

/-- The command with the holders that its variables have inside loops. -/
def within (loops : List ForLoop) : Command → Command
  | .set score value => .set (score.within loops) value
  | .add score amount => .add (score.within loops) amount
  | .remove score amount => .remove (score.within loops) amount
  | .get score => .get (score.within loops)
  | .reset score => .reset (score.within loops)
  | .operate target operation source =>
    .operate (target.within loops) operation (source.within loops)
  | .guarded clauses body => .guarded (clauses.map (Clause.within loops)) (body.within loops)
  | .store target body => .store (target.within loops) (body.within loops)
  | .forPlayers objective body => .forPlayers objective (body.within loops)
  | c => c

end Command

/-- The rendered condition with the holders that its variables have inside loops. -/
def Rendered.within (loops : List ForLoop) (r : Rendered) : Rendered :=
  ⟨r.before.map (Command.within loops), r.clauses.map (Clause.within loops)⟩

namespace Clause

variable (loops : List ForLoop)

theorem ofComparison?_scopeOf (score : Score) (c : Comparison) (right : String) :
    ofComparison? (scopeOf loops) (score.within loops) c right =
      (ofComparison? {} score c right).map (within loops) := by
  unfold ofComparison?
  rw [Score.parseIn?_empty, Score.parseIn?_scopeOf]
  dsimp only
  split
  · rfl
  · split
    · rfl
    · rw [Option.map_map, Option.map_map]
      rfl

theorem ofMatches?_scopeOf (text : String) :
    ofMatches? (scopeOf loops) text = (ofMatches? {} text).map (within loops) := by
  unfold ofMatches?
  cases Text.splitOnce " matches ".toList text.toList with
  | none => rfl
  | some parts =>
    obtain ⟨left, right⟩ := parts
    simp only [Option.bind_eq_bind, Option.bind_some, Score.parseIn?_empty, Score.parseIn?_scopeOf]
    cases Score.parse? (String.ofList left) <;> rfl

theorem ofSides?_scopeOf (left : List Char) (c : Comparison) (right : List Char) :
    ofSides? (scopeOf loops) left c right = (ofSides? {} left c right).map (within loops) := by
  unfold ofSides?
  rw [Score.parseIn?_empty, Score.parseIn?_scopeOf]
  cases Score.parse? (String.ofList left) with
  | none => rfl
  | some score => exact ofComparison?_scopeOf loops score c _

theorem readPlain_scopeOf (text : String) :
    readPlain (scopeOf loops) text = (readPlain {} text).map (within loops) := by
  unfold readPlain
  rcases Comparison.find text.toList with e | _ | ⟨left, c, right⟩
  · rfl
  · rw [Score.parseIn?_empty, Score.parseIn?_scopeOf]
    cases Score.parse? text <;> rfl
  · show Except.ok _ = Except.ok _
    rw [ofSides?_scopeOf]
    cases ofSides? {} left c right <;> rfl

theorem read_scopeOf (text : String) :
    read (scopeOf loops) text = (read {} text).map (within loops) := by
  unfold read
  split
  · rfl
  split
  · rfl
  · rw [ofMatches?_scopeOf, readPlain_scopeOf]
    cases ofMatches? {} text <;> rfl

end Clause

namespace Rendered

variable (loops : List ForLoop) (r s : Rendered)

theorem within_and : (r.and s).within loops = (r.within loops).and (s.within loops) := by
  simp [within, and]

theorem within_negate : r.negate.within loops = (r.within loops).negate := by
  simp [within, negate, Clause.within, Clause.negate]

theorem within_guardedCommands (c : Command) :
    (r.guardedCommands c).map (Command.within loops) =
      (r.within loops).guardedCommands (c.within loops) := by
  simp [within, guardedCommands, guard, Command.within]

end Rendered

namespace Condition

mutual

/-- A condition inside loops is rendered as elsewhere, but for the holders of variables. -/
theorem rendering_scopeOf (loops : List ForLoop) : (c : Condition) →
    c.rendering (scopeOf loops) = Rendered.within loops <$> c.rendering {}
  | .leaf tokens => by
    rw [rendering, rendering, leafClause, leafClause, Clause.read_scopeOf]
    cases Clause.read {} (leafText tokens) <;> rfl
  | .all body => renderingAll_scopeOf loops body
  | .not body => by
    simp only [rendering, rendering_scopeOf loops body, map_bind, bind_map_left, map_pure,
      Rendered.within_negate]
  | .any body => by
    simp only [rendering, renderingAny_scopeOf loops _ body, map_bind, bind_map_left, map_pure]
    simp [Rendered.within, Command.within, Clause.within, Test.within]

theorem renderingAll_scopeOf (loops : List ForLoop) : (body : List Condition) →
    renderingAll (scopeOf loops) body = Rendered.within loops <$> renderingAll {} body
  | [] => rfl
  | c :: rest => by
    simp only [renderingAll, rendering_scopeOf loops c, renderingAll_scopeOf loops rest, map_bind,
      bind_map_left, map_pure, Rendered.within_and]

theorem renderingAny_scopeOf (loops : List ForLoop) (flag : Nat) : (body : List Condition) →
    renderingAny (scopeOf loops) (logicFlag flag) body =
      List.map (Command.within loops) <$> renderingAny {} (logicFlag flag) body
  | [] => rfl
  | c :: rest => by
    simp only [renderingAny, rendering_scopeOf loops c, renderingAny_scopeOf loops flag rest,
      map_bind, bind_map_left, map_pure, List.map_append, Rendered.within_guardedCommands]
    simp [Command.within]

end

end Condition

/-! ### Arguments -/

/-- The value with the holder that its variable has inside loops. -/
def Value.within (loops : List ForLoop) : Value → Value
  | .score s => .score (s.within loops)
  | v => v

/-- The argument with the holder that its variable has inside loops. -/
def Bound.within (loops : List ForLoop) (b : Bound) : Bound := { b with value := b.value.within loops }

/-- The arguments with the holders that their variables have inside loops. -/
def Bindings.within (loops : List ForLoop) (args : Bindings) : Bindings :=
  { args with values := args.values.map (Bound.within loops) }

theorem ParamKind.convert?_scopeOf (loops : List ForLoop) (a : Argument) (k : ParamKind) :
    k.convert? (scopeOf loops) a = (k.convert? {} a).map (Value.within loops) := by
  have hscore : (a.word?.bind (Score.parseIn? (scopeOf loops))).map Value.score =
      ((a.word?.bind (Score.parseIn? {})).map Value.score).map (Value.within loops) := by
    rw [funext (Score.parseIn?_scopeOf loops), funext Score.parseIn?_empty]
    cases a.word? with
    | none => rfl
    | some word => cases hword : Score.parse? word <;> simp [hword, Value.within]
  cases k with
  | integer => cases h : a.int? <;> simp [convert?, h, Value.within]
  | number => cases h : a.word?.bind finiteDecimal? <;> simp [convert?, h, Value.within]
  | score => exact hscore
  | scoreOrInteger =>
    simp only [convert?, hscore]
    cases a.int? <;> rfl
  | text => cases a <;> rfl
  | selector => cases h : a.word?.filter isSelector <;> simp [convert?, h, Value.within]
  | objective =>
    cases h : (a.string?.or a.word?).filter isObjectiveName <;> simp [convert?, h, Value.within]
  | arrow => cases h : a.arrow? <;> simp [convert?, h, Value.within]

theorem ParamKind.within_default? (loops : List ForLoop) (k : ParamKind) (text : String) :
    (k.default? text).map (Value.within loops) = k.default? text := by
  cases k with
  | integer =>
    simp only [default?]
    split <;> rfl
  | number => cases h : Decimal.parse? text <;> simp [default?, h, Value.within]
  | _ => rfl

theorem mapM_map {α β γ ε : Type} {f : α → Except ε β} {g : α → Except ε γ} {h : β → γ}
    (hfg : ∀ a, g a = (f a).map h) (l : List α) : l.mapM g = (l.mapM f).map (List.map h) := by
  induction l with
  | nil => rfl
  | cons a l ih =>
    rw [List.mapM_cons, List.mapM_cons, hfg, ih]
    cases f a with
    | error e => rfl
    | ok b => cases l.mapM f <;> rfl

namespace Builtin

theorem bindParam_scopeOf (loops : List ForLoop) (b : Builtin) (args : Arguments)
    (indexed : Param × Nat) : b.bindParam (scopeOf loops) args indexed =
      (b.bindParam {} args indexed).map (Bound.within loops) := by
  unfold bindParam
  dsimp only
  split
  · rw [ParamKind.convert?_scopeOf]
    cases indexed.1.kind.convert? {} _ <;> rfl
  · split
    · rfl
    · next d _ =>
      have hdefault := indexed.1.kind.within_default? loops d
      split
      · next v hv =>
        rw [hv] at hdefault
        have hsame : v.within loops = v := Option.some.inj hdefault
        simp only [Except.map, Bound.within, hsame]
      · rfl

/-- The arguments of a call inside loops are those of the call elsewhere, but for the holders of
variables. -/
theorem bind_scopeOf (loops : List ForLoop) (b : Builtin) (args : Arguments) :
    b.bind (scopeOf loops) args = (b.bind {} args).map (Bindings.within loops) := by
  unfold bind
  rw [mapM_map (b.bindParam_scopeOf loops args)]
  cases b.checkCount args with
  | error f => rfl
  | ok =>
    cases args.keywords.forM (b.checkKeyword args) with
    | error f => rfl
    | ok => cases b.params.zipIdx.mapM (b.bindParam {} args) <;> rfl

end Builtin

/-! ### Holders -/

namespace ForLoop

theorem toList_holder (l : ForLoop) (name : String) : (l.holder name).toList =
    "$__for_".toList ++ ((toString l.id).toList ++ '_' :: '_' :: name.toList.drop 1) := by
  simp [holder]

/-- Loops with different numbers have no holder in common. -/
theorem holder_inj {l l' : ForLoop} {name name' : String} (h : l.holder name = l'.holder name') :
    l.id = l'.id := by
  have hdigits : ∀ n : Nat, '_' ∉ (toString n).toList :=
    fun n hmem => absurd (isDigit_of_mem_toString hmem) (by decide)
  have htexts := congrArg String.toList h
  rw [toList_holder, toList_holder] at htexts
  have hnumber := (append_separator_inj (hdigits _) (hdigits _)
    (List.append_cancel_left htexts)).1
  exact Nat.repr_inj.mp (String.toList_inj.mp hnumber)

end ForLoop

end Packwright
