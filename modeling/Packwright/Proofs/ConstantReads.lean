import Mathlib.Data.Set.Insert
import Packwright.Proofs.Semantics.Flags
import Packwright.Session.Flow

/-!
# Constants that commands read

A command reads a constant if one of its operands is written as the score that holds the constant. The
scores that the user names, the flags and the scores of the square root are written otherwise.

## Main definitions

- `needAll` — what the elements of a list need
- `Score.constants`, `Test.constants`, `Command.constants`, `Rendered.constants` — the constants that
  are read

## Main results

- `Score.constants_ofConstant` — the score of a constant is written like that of no other constant
- `Score.UserHeld.constants` — scores of the user are no constants
- `Condition.constants_render` — rendered conditions read no constants
-/

namespace Packwright

/-! ### Needs of lists -/

section

variable {α : Type} (needs : α → Set Int)

/-- What the elements of a list need. -/
def needAll (l : List α) : Set Int := {n | ∃ a ∈ l, n ∈ needs a}

@[simp] theorem needAll_nil : needAll needs [] = ∅ := by simp [needAll]

@[simp] theorem needAll_cons (a : α) (l : List α) :
    needAll needs (a :: l) = needs a ∪ needAll needs l := by
  ext n
  simp [needAll]

@[simp] theorem needAll_append (l l' : List α) :
    needAll needs (l ++ l') = needAll needs l ∪ needAll needs l' := by
  induction l with
  | nil => simp
  | cons a l ih => rw [List.cons_append, needAll_cons, needAll_cons, ih, Set.union_assoc]

variable {needs}

theorem needAll_mono {l l' : List α} (h : l ⊆ l') : needAll needs l ⊆ needAll needs l' :=
  fun _ ⟨a, ha, hn⟩ => ⟨a, h ha, hn⟩

theorem needAll_eq_empty {l : List α} (h : ∀ a ∈ l, needs a = ∅) : needAll needs l = ∅ :=
  Set.eq_empty_of_forall_notMem fun _ ⟨a, ha, hn⟩ => (h a ha ▸ hn : _ ∈ (∅ : Set Int))

end

/-! ### Scores -/

/-- A number is written with a digit or a minus in front. -/
theorem exists_head_repr (n : Int) :
    ∃ c, n.repr.toList.head? = some c ∧ (c.isDigit = true ∨ c = '-') := by
  have hnat : ∀ m : Nat, ∃ c, m.repr.toList.head? = some c ∧ c.isDigit = true := by
    intro m
    obtain ⟨c, cs, htext⟩ : ∃ c cs, m.repr.toList = c :: cs :=
      List.exists_cons_of_ne_nil (by rw [Nat.toList_repr]; exact Nat.toDigits_ne_nil)
    have hmem : c ∈ Nat.toDigits 10 m := by
      rw [← Nat.toList_repr, htext]
      exact List.mem_cons_self ..
    exact ⟨c, by rw [htext]; rfl, Nat.isDigit_of_mem_toDigits (by omega) (by omega) hmem⟩
  rw [Int.repr_eq_if]
  split
  · obtain ⟨c, hhead, hdigit⟩ := hnat n.toNat
    exact ⟨c, hhead, .inl hdigit⟩
  · exact ⟨'-', by simp, .inr rfl⟩

namespace Score

/-- The constants whose score is written as this one is. -/
def constants (s : Score) : Set Int := {n | s.render = (ofConstant n).render}

theorem constants_ofConstant (n : Int) : (ofConstant n).constants = {n} := by
  ext m
  constructor
  · intro h
    have htext : n.repr ++ " " ++ constantObjective = m.repr ++ " " ++ constantObjective := h
    rw [String.append_left_inj, String.append_left_inj] at htext
    exact (Int.repr_inj.mp htext).symm
  · rintro rfl
    rfl

/-- A holder that does not begin as a number does is no constant. -/
theorem constants_eq_empty {s : Score} {c : Char} (h : s.holder.toList.head? = some c)
    (hdigit : c.isDigit = false) (hminus : c ≠ '-') : s.constants = ∅ := by
  refine Set.eq_empty_of_forall_notMem fun n hn => ?_
  obtain ⟨d, hhead, hd⟩ := exists_head_repr n
  have htexts := congrArg (fun text => text.toList.head?) (show s.render = _ from hn)
  have hleft : s.render.toList.head? = some c := by
    simp [render, List.head?_append, h]
  have hright : (ofConstant n).render.toList.head? = some d := by
    show (n.repr ++ " " ++ constantObjective).toList.head? = some d
    simp [List.head?_append, hhead]
  have hsame : c = d := Option.some.inj (hleft.symm.trans (htexts.trans hright))
  subst hsame
  rcases hd with hd | hd
  · exact absurd hd (by simp [hdigit])
  · exact hminus hd

/-- Scores of the user are no constants. -/
theorem UserHeld.constants {s : Score} (h : s.UserHeld) : s.constants = ∅ := by
  rcases h with h | h
  · exact constants_eq_empty h (by decide) (by decide)
  · exact constants_eq_empty h (by decide) (by decide)

@[simp] theorem constants_ifElseFlag : ifElseFlag.constants = ∅ :=
  constants_eq_empty (c := '_') (by decide) (by decide) (by decide)

@[simp] theorem constants_logicFlag (n : Nat) : (logicFlag n).constants = ∅ :=
  constants_eq_empty (c := '_') (by simp [logicFlag, ofVariable]) (by decide) (by decide)

end Score

/-! ### Commands -/

/-- The constants that a test reads, unless it is taken as written. -/
def Test.constants : Test → Set Int
  | .inRange score _ => score.constants
  | .compare score _ other => score.constants ∪ other.constants
  | .written _ => ∅

/-- The constants that clauses read. -/
abbrev clauseConstants : List Clause → Set Int := needAll fun c => c.test.constants

namespace Command

/-- The constants that a command reads, unless it is taken as written. -/
def constants : Command → Set Int
  | .set score _ | .add score _ | .remove score _ | .get score | .reset score => score.constants
  | .operate target _ source => target.constants ∪ source.constants
  | .guarded clauses body => clauseConstants clauses ∪ body.constants
  | .store target body => target.constants ∪ body.constants
  | .forPlayers _ body => body.constants
  | .written _ | .declare .. | .random .. | .call _ => ∅

end Command

/-- The constants that commands read. -/
abbrev commandConstants : List Command → Set Int := needAll Command.constants

namespace Rendered

/-- The constants that a rendered condition reads. -/
def constants (r : Rendered) : Set Int := commandConstants r.before ∪ clauseConstants r.clauses

theorem constants_guardedCommands (r : Rendered) (c : Command) :
    commandConstants (r.guardedCommands c) = r.constants ∪ c.constants := by
  simp [guardedCommands, guard, constants, Command.constants, Set.union_assoc]

theorem constants_and (r s : Rendered) : (r.and s).constants = r.constants ∪ s.constants := by
  simp only [constants, and, needAll_append]
  exact Set.union_union_union_comm ..

theorem constants_negate (r : Rendered) : r.negate.constants = r.constants := by
  unfold constants negate
  congr 1
  ext n
  simp [needAll, Clause.negate]

end Rendered

/-! ### Conditions -/

namespace Clause

variable {scope : Scope}

/-- A comparison that the user writes reads no constants. -/
theorem constants_ofText (hscope : scope.UserHeld) (text : String) :
    (ofText scope text).test.constants = ∅ := by
  have hheld := ofText_userHeld hscope text
  cases htest : (ofText scope text).test with
  | inRange score range =>
    rw [htest] at hheld
    exact Score.UserHeld.constants hheld
  | compare score relation other =>
    rw [htest] at hheld
    rw [Test.constants, hheld.1.constants, hheld.2.constants, Set.union_empty]
  | written text => rfl

end Clause

namespace Condition

variable {scope : Scope}

mutual

/-- A rendered condition reads no constants. -/
theorem constants_render (hscope : scope.UserHeld) :
    (c : Condition) → (n : Nat) → (c.render scope n).1.constants = ∅
  | .leaf tokens, n => by
    simp [render, Rendered.constants, Clause.constants_ofText hscope]
  | .all body, n => constants_renderAll hscope body n
  | .not body, n => (Rendered.constants_negate _).trans (constants_render hscope body n)
  | .any body, n => by
    have hbody := constants_renderAny hscope n body (n + 1)
    simp [render, Rendered.constants, Command.constants, Test.constants, hbody]

theorem constants_renderAll (hscope : scope.UserHeld) :
    (body : List Condition) → (n : Nat) → (renderAll scope body n).1.constants = ∅
  | [], n => by simp [renderAll, Rendered.constants]
  | c :: rest, n => by
    rw [renderAll]
    simp only [Rendered.constants_and, constants_render hscope c n,
      constants_renderAll hscope rest _, Set.union_empty]

theorem constants_renderAny (hscope : scope.UserHeld) (flag : Nat) :
    (body : List Condition) → (n : Nat) →
      commandConstants (renderAny scope (logicFlag flag) body n).1 = ∅
  | [], n => by simp [renderAny]
  | c :: rest, n => by
    rw [renderAny]
    simp only [needAll_append, Rendered.constants_guardedCommands, constants_render hscope c n,
      constants_renderAny hscope flag rest _, Command.constants, Score.constants_logicFlag,
      Set.union_empty]

end

end Condition

end Packwright
