import Mathlib
import Packwright.Proofs.Condition.Rendering
import Packwright.Proofs.Semantics.Machine
import Packwright.Session.Flow

/-!
# Flags

The compiler keeps flags of its own among the scores: one that records whether an arm of a chain
ran, and one for each disjunction. Scores that the user names never are flags, because their
holders begin with `$` or `@`; so the comparisons of a condition read no flag unless they are passed
on as written.

## Main definitions

- `isFlag`, `isLogicFlag`, `logicFlags` — the flags, those of disjunctions, a range of them
- `Score.UserHeld`, `Scope.UserHeld` — scores and renamings of the user
- `Machine.IgnoresFlags` — commands and tests of the user do not depend on flags

## Main results

- `Score.parseIn?_userHeld`, `Clause.ofText_userHeld` — the scores that the user names, in a statement
  and in a comparison
- `Clause.ofText_ignores` — the clause of a comparison reads no flag
-/

namespace Packwright

/-! ### The flags of disjunctions -/

/-- The flags with numbers from `low` up to but not including `high`. -/
def logicFlags (low high : Nat) (score : Score) : Prop :=
  ∃ k, low ≤ k ∧ k < high ∧ score = logicFlag k

/-- The flags of disjunctions. -/
def isLogicFlag (score : Score) : Prop := ∃ k, score = logicFlag k

/-- The flags of the compiler. -/
def isFlag (score : Score) : Prop := score = ifElseFlag ∨ isLogicFlag score

theorem logicFlag_inj {j k : Nat} : logicFlag j = logicFlag k ↔ j = k := by
  constructor
  · intro h
    have htext : "__logic__" ++ toString j = "__logic__" ++ toString k :=
      congrArg Score.holder h
    rw [String.append_right_inj, Nat.toString_eq_repr, Nat.toString_eq_repr] at htext
    exact Nat.repr_inj.mp htext
  · rintro rfl
    rfl

theorem logicFlags_logicFlag {low high k : Nat} :
    logicFlags low high (logicFlag k) ↔ low ≤ k ∧ k < high := by
  constructor
  · rintro ⟨j, hlow, hhigh, heq⟩
    obtain rfl := logicFlag_inj.mp heq
    exact ⟨hlow, hhigh⟩
  · rintro ⟨hlow, hhigh⟩
    exact ⟨k, hlow, hhigh, rfl⟩

theorem isLogicFlag_of_logicFlags {low high : Nat} {score : Score}
    (h : logicFlags low high score) : isLogicFlag score :=
  let ⟨k, _, _, heq⟩ := h
  ⟨k, heq⟩

theorem logicFlags_mono {low low' high high' : Nat} (hlow : low' ≤ low) (hhigh : high ≤ high')
    {score : Score} (h : logicFlags low high score) : logicFlags low' high' score := by
  obtain ⟨k, hk, hk', rfl⟩ := h
  exact ⟨k, by omega, by omega, rfl⟩

theorem ifElseFlag_ne_logicFlag (k : Nat) : ifElseFlag ≠ logicFlag k := by
  intro h
  have htext : "__if_else__" = "__logic__" ++ toString k := congrArg Score.holder h
  have hlist := congrArg String.toList htext
  simp at hlist

/-! ### Scores of the user -/

/-- The holder begins as those that the user names. -/
def Score.UserHeld (score : Score) : Prop :=
  score.holder.toList.head? = some '$' ∨ score.holder.toList.head? = some '@'

/-- Variables are renamed to holders that begin as those of the user. -/
def Scope.UserHeld (scope : Scope) : Prop :=
  ∀ frame ∈ scope.frames, ∀ b ∈ frame, b.2.toList.head? = some '$'

theorem Score.UserHeld.not_isFlag {score : Score} (h : score.UserHeld) : ¬ isFlag score := by
  rintro (rfl | ⟨k, rfl⟩)
  · simp [Score.UserHeld, ifElseFlag, Score.ofVariable] at h
  · simp [Score.UserHeld, logicFlag, Score.ofVariable] at h

theorem Scope.UserHeld.empty : ({} : Scope).UserHeld := by
  intro frame hframe
  simp at hframe

theorem Scope.UserHeld.push {scope : Scope} (h : scope.UserHeld) : scope.push.UserHeld := by
  intro frame hframe b hb
  rcases List.mem_cons.mp hframe with rfl | hframe
  · simp at hb
  · exact h frame hframe b hb

theorem Scope.UserHeld.pop {scope : Scope} (h : scope.UserHeld) : scope.pop.UserHeld :=
  fun frame hframe => h frame (List.mem_of_mem_tail hframe)

theorem Scope.UserHeld.bind {scope : Scope} (h : scope.UserHeld) (name : String) {holder : String}
    (hholder : holder.toList.head? = some '$') : (scope.bind name holder).UserHeld := by
  unfold Scope.bind
  split
  · exact h
  · next first rest hframes =>
    intro frame hframe b hb
    have hmem : ∀ frame ∈ first :: rest, ∀ b ∈ frame, b.2.toList.head? = some '$' :=
      hframes ▸ h
    rcases List.mem_cons.mp hframe with rfl | hframe
    · rcases List.mem_cons.mp hb with rfl | hb
      · exact hholder
      · exact hmem first (List.mem_cons_self ..) b hb
    · exact hmem frame (List.mem_cons_of_mem _ hframe) b hb

theorem Scope.UserHeld.resolve? {scope : Scope} (h : scope.UserHeld) {name holder : String}
    (hresolve : scope.resolve? name = some holder) : holder.toList.head? = some '$' := by
  obtain ⟨b, hb, hkey⟩ : ∃ b ∈ scope.frames.flatten, b.2 = holder := by
    rw [Scope.resolve?] at hresolve
    obtain ⟨l₁, l₂, hsplit, -⟩ := List.lookup_eq_some_iff.mp hresolve
    exact ⟨(name, holder), by simp [hsplit], rfl⟩
  obtain ⟨frame, hframe, hmem⟩ := List.mem_flatten.mp hb
  exact hkey ▸ h frame hframe b hmem

theorem Score.parse?_userHeld {source : String} {score : Score}
    (h : Score.parse? source = some score) : score.UserHeld := by
  unfold Score.parse? at h
  split at h
  · split at h
    · obtain rfl := Option.some.inj h
      exact .inl (by simp [Score.ofVariable])
    · simp at h
  · obtain ⟨⟨objective, target⟩, -, h⟩ := Option.bind_eq_some_iff.mp h
    simp only [Bool.and_eq_true] at h
    split at h
    · next hcheck =>
      obtain rfl := Option.some.inj h
      have htarget := hcheck.2
      simp only [Score.isTarget, Bool.and_eq_true, Bool.or_eq_true, decide_eq_true_eq] at htarget
      rcases htarget.1 with hhead | hhead
      · exact .inr (by simpa using hhead)
      · exact .inl (by simpa using hhead)
    · simp at h

/-- A score that the user names is held as the user's scores are. -/
theorem Score.parseIn?_userHeld {scope : Scope} (hscope : scope.UserHeld) {source : String}
    {score : Score} (h : Score.parseIn? scope source = some score) : score.UserHeld := by
  obtain ⟨plain, hplain, rfl⟩ := Option.map_eq_some_iff.mp h
  have hheld := Score.parse?_userHeld hplain
  unfold Score.resolveIn
  split
  · cases hresolve : scope.resolve? plain.holder with
    | none => exact hheld
    | some holder => exact .inl (hscope.resolve? hresolve)
  · exact hheld

/-! ### Tests and commands of the user -/

/-- The test reads no flag, unless it is taken as written. -/
def Test.FlagFree : Test → Prop
  | .inRange score _ => ¬ isFlag score
  | .compare score _ other => ¬ isFlag score ∧ ¬ isFlag other
  | .written _ => True

/-- The scores in the test are those of the user, unless it is taken as written. -/
def Test.UserHeld : Test → Prop
  | .inRange score _ => score.UserHeld
  | .compare score _ other => score.UserHeld ∧ other.UserHeld
  | .written _ => True

theorem Test.UserHeld.flagFree {t : Test} (h : t.UserHeld) : t.FlagFree := by
  cases t with
  | inRange score range => exact Score.UserHeld.not_isFlag h
  | compare score relation other => exact ⟨h.1.not_isFlag, h.2.not_isFlag⟩
  | written text => exact trivial

theorem Clause.ofComparison?_userHeld {scope : Scope} (hscope : scope.UserHeld) {score : Score}
    (hscore : score.UserHeld) {relation : Comparison} {right : String} {c : Clause}
    (h : Clause.ofComparison? scope score relation right = some c) : c.test.UserHeld := by
  unfold Clause.ofComparison? at h
  simp only at h
  split at h
  · obtain rfl := Option.some.inj h
    exact hscore
  · split at h
    · obtain rfl := Option.some.inj h
      exact hscore
    · obtain ⟨other, hother, rfl⟩ := Option.map_eq_some_iff.mp h
      exact ⟨hscore, Score.parseIn?_userHeld hscope hother⟩

theorem Clause.ofMatches?_userHeld {scope : Scope} (hscope : scope.UserHeld) {text : String}
    {c : Clause} (h : Clause.ofMatches? scope text = some c) : c.test.UserHeld := by
  obtain ⟨⟨left, right⟩, -, h⟩ := Option.bind_eq_some_iff.mp h
  obtain ⟨score, hscore, h⟩ := Option.bind_eq_some_iff.mp h
  obtain rfl := Option.some.inj h
  exact Score.parseIn?_userHeld hscope hscore

/-- The clause of a comparison reads the scores of the user, unless it is taken as written. -/
theorem Clause.ofText_userHeld {scope : Scope} (hscope : scope.UserHeld) (text : String) :
    (Clause.ofText scope text).test.UserHeld :=
  Clause.ofText_induction (P := (·.test.UserHeld)) (fun _ _ _ _ => trivial)
    (fun _ hranged => Clause.ofMatches?_userHeld hscope hranged)
    (fun _ _ _ _ _ _ hscore hcompared =>
      Clause.ofComparison?_userHeld hscope (Score.parseIn?_userHeld hscope hscore) hcompared)
    (fun _ hscore => Score.parseIn?_userHeld hscope hscore) trivial

variable {W : Type}

/-- What the machine is left to do does not depend on flags; it may overwrite them. -/
structure Machine.IgnoresFlags (m : Machine W) : Prop where
  act : ∀ (c : Command) {s t : State W}, s.AgreeOff isFlag t →
    Option.Rel (State.AgreeOff isFlag) (m.act c s) (m.act c t)
  test : ∀ (text : String) {s t : State W}, s.AgreeOff isFlag t → m.test text s = m.test text t

theorem Machine.IgnoresFlags.ignores {m : Machine W} (hm : m.IgnoresFlags) {c : Clause}
    (hfree : c.test.FlagFree) : c.Ignores m isFlag := by
  intro s t hst
  obtain ⟨negated, test⟩ := c
  cases test with
  | inRange score range => simp only [Clause.holds, Test.holds, hst.2 score hfree]
  | compare score relation other =>
    simp only [Clause.holds, Test.holds, hst.2 score hfree.1, hst.2 other hfree.2]
  | written text => simp only [Clause.holds, Test.holds, hm.test text hst]

/-- The clause of a comparison reads no flag. -/
theorem Clause.ofText_ignores {m : Machine W} (hm : m.IgnoresFlags) {scope : Scope}
    (hscope : scope.UserHeld) (text : String) : (Clause.ofText scope text).Ignores m isFlag :=
  hm.ignores (Clause.ofText_userHeld hscope text).flagFree

theorem Clause.Ignores.mono {m : Machine W} {F G : Score → Prop} {c : Clause}
    (h : c.Ignores m G) (hle : ∀ score, F score → G score) : c.Ignores m F :=
  fun s t hst => h s t (hst.mono hle)

end Packwright
