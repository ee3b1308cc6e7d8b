import Packwright.Condition.Parser
import Packwright.Proofs.Token.Tiling

/-!
# How long tokens are

The tokens of a text are together no longer than the text, and the inside of a group is two characters
shorter than the group. What is read inside a group is therefore always shorter than the group.

## Main definitions

- `Token.Within`, `Statement.Within` — groups with less than so many characters inside

## Main results

- `tokenize_weight` — the tokens of a text
- `Token.tokenizeInner_weight`, `Token.Within.tokenizeInner` — what is read inside a group
-/

namespace Packwright

open Condition (weight)

/-! ### Tokens in a row -/

namespace Condition

@[simp] theorem weight_nil : weight [] = 0 := rfl

@[simp] theorem weight_cons (t : Token) (tokens : List Token) :
    weight (t :: tokens) = t.length + weight tokens := rfl

@[simp] theorem weight_append (xs ys : List Token) : weight (xs ++ ys) = weight xs + weight ys := by
  induction xs with
  | nil => simp
  | cons t xs ih => rw [List.cons_append, weight_cons, weight_cons, ih, Nat.add_assoc]

theorem length_le_weight {t : Token} {tokens : List Token} (ht : t ∈ tokens) :
    t.length ≤ weight tokens := by
  obtain ⟨before, after, rfl⟩ := List.append_of_mem ht
  simp only [weight_append, weight_cons]
  omega

end Condition

/-- Gaps between tokens only make a text longer. -/
theorem Tiles.weight_le {k : Cursor} {tokens : List Token} {text : List Char}
    (h : Tiles k tokens text) : weight tokens ≤ text.length := by
  induction h with
  | nil => exact Nat.zero_le _
  | cons _ _ _ ih =>
    simp only [Condition.weight_cons, List.length_append, Token.length]
    omega

section

variable {terminator : Terminator} {start : Position} {source : String} {r : Reading}
  {st : Statement} {t : Token} {n : Nat}

/-- The tokens of a text are together no longer than the text. -/
theorem tokenize_weight (h : tokenize terminator start source = .ok r) :
    weight r.tokens ≤ source.toList.length :=
  (tokenize_tiles h).weight_le

/-- A statement is no longer than all statements together. -/
theorem Reading.weight_le (hst : st ∈ r.statements) : weight st.tokens ≤ weight r.tokens := by
  obtain ⟨before, after, hstatements⟩ := List.append_of_mem hst
  simp only [Reading.tokens, hstatements, List.flatMap_append, List.flatMap_cons,
    Condition.weight_append]
  omega

/-! ### Groups -/

namespace Token

/-- The brackets of a group are two characters. -/
theorem length_of_inner? {inner : String} (h : t.inner? = some inner) :
    t.length = inner.toList.length + 2 := by
  unfold inner? at h
  split at h
  · next htext =>
    obtain rfl := Option.some.inj h
    simp [Token.length, htext]
  · cases h

/-- What is read inside a group is shorter than the group. -/
theorem tokenizeInner_weight (h : t.tokenizeInner terminator = .ok r) :
    weight r.tokens + 2 ≤ t.length := by
  unfold tokenizeInner at h
  split at h
  · next hinner =>
    rw [length_of_inner? hinner]
    exact Nat.add_le_add_right (tokenize_weight h) 2
  · cases h

/-- Fewer than so many characters stand between the brackets, if the token is a group. -/
def Within (n : Nat) (t : Token) : Prop := ∀ inner ∈ t.inner?, inner.toList.length < n

theorem Within.mono {k : Nat} (h : t.Within n) (hle : n ≤ k) : t.Within k :=
  fun inner hinner => Nat.lt_of_lt_of_le (h inner hinner) hle

/-- A word is no group, and neither is the rest of one. -/
theorem within_of_word (h : t.kind = .word) : t.Within n := by
  intro inner hinner
  rw [inner?, h] at hinner
  cases hinner

theorem within_tailFrom (t : Token) (k : Nat) : ∀ u ∈ t.tailFrom k, u.Within n := by
  intro u hu
  unfold tailFrom splitAt? at hu
  split at hu
  · next hsplit =>
    rw [List.mem_singleton.mp hu]
    split at hsplit
    · obtain ⟨-, rfl⟩ := Prod.mk.inj (Option.some.inj hsplit)
      exact within_of_word rfl
    · cases hsplit
  · cases hu

end Token

/-- The rest of a word in front of other tokens adds no group to them. -/
theorem Token.within_tailFrom_append (t : Token) (k : Nat) {tokens : List Token}
    (h : ∀ u ∈ tokens, u.Within n) : ∀ u ∈ t.tailFrom k ++ tokens, u.Within n :=
  List.forall_mem_append.mpr ⟨t.within_tailFrom k, h⟩

/-- Fewer than so many characters stand between the brackets of each group. -/
def Statement.Within (n : Nat) (st : Statement) : Prop := ∀ t ∈ st.tokens, t.Within n

/-- Groups that are no longer than `n` have less than that inside. -/
theorem Statement.within_of_weight (h : weight st.tokens ≤ n) : st.Within n := by
  intro t ht inner hinner
  have hlength := Token.length_of_inner? hinner
  have hweight := Condition.length_le_weight ht
  omega

/-- The statements of a text have nothing longer than the text between brackets. -/
theorem tokenize_within (h : tokenize terminator start source = .ok r) :
    ∀ st ∈ r.statements, st.Within source.toList.length :=
  fun _ hst => Statement.within_of_weight (Nat.le_trans (Reading.weight_le hst) (tokenize_weight h))

/-- With each group that is opened, less stands between brackets. -/
theorem Token.Within.tokenizeInner (ht : t.Within n) (h : t.tokenizeInner terminator = .ok r) :
    ∃ k < n, ∀ st ∈ r.statements, st.Within k := by
  unfold Token.tokenizeInner at h
  split at h
  · next inner hinner => exact ⟨_, ht inner hinner, tokenize_within h⟩
  · cases h

end

end Packwright
