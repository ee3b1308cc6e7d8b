import Mathlib.Algebra.GroupWithZero.Nat
import Packwright.Diagnostic.Failure
import Packwright.Proofs.Searches
import Packwright.Proofs.Token.Covering
import Packwright.Proofs.Token.Weight

/-!
# Conditions of any depth

Where bodies, conditions and files can nest, a step takes a bound on how deep it goes. A step ends
where it does not reach its bound, and another one with a higher bound then does the same.

The operands of a connective, what is behind a `!`, and the inside of a round group all have fewer
characters than what they are taken from. So a condition is read to its end within as many nested
steps as it has characters, and a higher bound makes no difference.

## Main definitions

- `Ends` — a step that reaches no bound, and one with higher bounds that does the same

## Main results

- `Ends.bind`, `Ends.mapM`, `Ends.forM` — one step after another
- `Condition.splitFrom_weight`, `Condition.negated?_weight` — operands are shorter
- `Condition.parseWithin_ends` — every bound above the number of characters will do
- `Condition.parse_ends` — the condition in a round group
-/

namespace Packwright

section

/-! ### Steps that reach no bound -/

variable {σ α β : Type}

/-- From every state the second step does what the first one does. The first one reaches no bound, and
what it gives satisfies `P`. -/
def Ends (m m' : ExceptT Failure (StateM σ) α) (P : α → Prop := fun _ => True) : Prop :=
  ∀ s, m'.run.run s = m.run.run s ∧
    match (m.run.run s).1 with
    | .ok a => P a
    | .error e => e ≠ .exhausted

section

variable {m m' : ExceptT Failure (StateM σ) α} {P Q : α → Prop}

theorem Ends.lasts (h : Ends m m' P) (s : σ) : (m.run.run s).1 ≠ .error .exhausted := by
  intro hexhausted
  have hm := (h s).2
  rw [hexhausted] at hm
  exact hm rfl

/-- What a step gives satisfies what is known of it. -/
theorem Ends.of_ok (h : Ends m m' P) {s s' : σ} {a : α} (hrun : m.run.run s = (.ok a, s')) : P a := by
  have hm := (h s).2
  rw [hrun] at hm
  exact hm

theorem Ends.same (h : Ends m m' P) : m' = m := funext fun s => (h s).1

theorem Ends.mono (h : Ends m m' P) (hPQ : ∀ a, P a → Q a) : Ends m m' Q := by
  intro s
  obtain ⟨hsame, hm⟩ := h s
  refine ⟨hsame, ?_⟩
  generalize (m.run.run s).1 = result at hm ⊢
  cases result with
  | ok a => exact hPQ a hm
  | error e => exact hm

theorem ends_pure {a : α} (h : P a) :
    Ends (pure a : ExceptT Failure (StateM σ) α) (pure a) P :=
  fun _ => ⟨rfl, h⟩

theorem ends_throw {e : Failure} (h : e ≠ .exhausted) :
    Ends (throw e : ExceptT Failure (StateM σ) α) (throw e) P :=
  fun _ => ⟨rfl, h⟩

theorem ends_get : Ends (get : ExceptT Failure (StateM σ) σ) get :=
  fun _ => ⟨rfl, trivial⟩

theorem ends_set (s : σ) : Ends (set s : ExceptT Failure (StateM σ) PUnit) (set s) :=
  fun _ => ⟨rfl, trivial⟩

theorem ends_modify (f : σ → σ) : Ends (modify f : ExceptT Failure (StateM σ) PUnit) (modify f) :=
  fun _ => ⟨rfl, trivial⟩

/-- One step after another. -/
theorem Ends.bind {f f' : α → ExceptT Failure (StateM σ) β} {R : β → Prop} (h : Ends m m' P)
    (hf : ∀ a, P a → Ends (f a) (f' a) R) : Ends (m >>= f) (m' >>= f') R := by
  intro s
  obtain ⟨hsame, hm⟩ := h s
  simp only [ExceptT.run_bind, StateT.run_bind, hsame]
  generalize m.run.run s = result at hm ⊢
  obtain ⟨value, s'⟩ := result
  cases value with
  | ok a => exact hf a hm s'
  | error e => exact ⟨rfl, hm⟩

theorem Ends.mapM {f f' : α → ExceptT Failure (StateM σ) β} {R : β → Prop} {l : List α}
    (hf : ∀ a ∈ l, Ends (f a) (f' a) R) : Ends (l.mapM f) (l.mapM f') fun bs => ∀ b ∈ bs, R b := by
  induction l with
  | nil => exact ends_pure fun b hb => nomatch hb
  | cons a l ih =>
    obtain ⟨ha, hl⟩ := List.forall_mem_cons.mp hf
    rw [List.mapM_cons, List.mapM_cons]
    refine ha.bind fun b hb => (ih hl).bind fun bs hbs => ?_
    exact ends_pure (List.forall_mem_cons.mpr ⟨hb, hbs⟩)

theorem Ends.forM {f f' : α → ExceptT Failure (StateM σ) PUnit} {l : List α}
    (hf : ∀ a ∈ l, Ends (f a) (f' a)) : Ends (l.forM f) (l.forM f') := by
  induction l with
  | nil => exact ends_pure trivial
  | cons a l ih =>
    obtain ⟨ha, hl⟩ := List.forall_mem_cons.mp hf
    rw [List.forM_eq_forM, List.forM_cons, List.forM_cons]
    exact ha.bind fun _ _ => ih hl

end

end

namespace Noting

variable {α β : Type} {P : α → Prop}

theorem ends_fail (f : Fault) : Ends (fail f : Noting α) (fail f) P := ends_throw fun h => nomatch h

theorem ends_note (warnings : List Warning) : Ends (note warnings) (note warnings) := ends_modify _

/-- What a step that notes nothing gives is known of what follows. -/
theorem ends_ofExcept (x : Except Fault α) : Ends (ofExcept x) (ofExcept x) fun a => x = .ok a := by
  cases x with
  | ok a => exact ends_pure rfl
  | error fault => exact ends_fail fault

end Noting

namespace Condition

/-! ### Shorter operands -/

/-- The operands of a connective have together fewer characters than what is split, by at least one
for each connective. -/
theorem splitFrom_weight {symbol : String} (hsymbol : symbol ≠ "") {last : Option Token}
    {current tokens : List Token} {parts : List (List Token)}
    (h : splitFrom symbol last current tokens = .ok parts) :
    (parts.map weight).sum + parts.length ≤ weight current + weight tokens + 1 := by
  induction tokens generalizing last current parts with
  | nil =>
    unfold splitFrom at h
    split at h
    · cases h
    · obtain rfl := Except.ok.inj h
      simp
  | cons t rest ih =>
    unfold splitFrom at h
    split at h
    · next hword =>
      -- the connective itself is in no operand
      have hlength : 1 ≤ t.length := by
        unfold Token.isWord at hword
        rw [Token.length, (decide_eq_true_eq.mp (Bool.and_eq_true_iff.mp hword).2)]
        have hne : symbol.toList ≠ [] := fun hnil => hsymbol (String.toList_eq_nil_iff.mp hnil)
        exact List.length_pos_iff.mpr hne
      split at h
      · cases h
      · cases h
      · obtain ⟨more, hmore, rfl⟩ := exists_of_map_ok h
        have hrest := ih hmore
        simp only [weight_nil, List.map_cons, List.sum_cons, List.length_cons, weight_cons] at hrest ⊢
        omega
    · have hrest := ih h
      simp only [weight_append, weight_cons, weight_nil] at hrest ⊢
      omega

/-- Each of several operands is shorter than what is split. -/
theorem splitAt_weight {symbol : String} (hsymbol : symbol ≠ "") {tokens : List Token}
    {parts : List (List Token)} (h : splitAt symbol tokens = .ok parts) (hparts : 2 ≤ parts.length) :
    ∀ part ∈ parts, weight part < weight tokens := by
  intro part hpart
  have hsum := splitFrom_weight hsymbol h
  obtain ⟨before, after, rfl⟩ := List.append_of_mem hpart
  simp only [weight_nil, List.map_append, List.map_cons, List.sum_append, List.sum_cons] at hsum
  omega

theorem weight_tailFrom {t : Token} {k : Nat} (ht : 1 ≤ t.length) : weight (t.tailFrom k) < t.length := by
  unfold Token.tailFrom Token.splitAt?
  split
  · next hsplit =>
    split at hsplit
    · next c front d back _ hcut =>
      obtain ⟨-, rfl⟩ := Prod.mk.inj (Option.some.inj hsplit)
      obtain ⟨htext, -⟩ := Text.append_of_splitBytes hcut
      have hlength : t.length = (front.length + 1) + (back.length + 1) := by
        rw [Token.length, htext, List.length_append, List.length_cons, List.length_cons]
      rw [weight_cons, weight_nil, Nat.add_zero, hlength, Token.length, String.toList_ofList,
        List.length_cons]
      omega
    · cases hsplit
  · exact ht

/-- What is behind a `!` is shorter than what begins with it. -/
theorem negated?_weight {first : Token} {rest operand : List Token}
    (h : negated? first rest = some operand) : weight operand < weight (first :: rest) := by
  have hword : ∀ c cs, first.word?.map String.toList = some (c :: cs) → 1 ≤ first.length := by
    intro c cs hmap
    obtain ⟨w, hw, htext⟩ := Option.map_eq_some_iff.mp hmap
    unfold Token.word? at hw
    split at hw
    · rw [Token.length, Option.some.inj hw, htext]
      simp
    · cases hw
  unfold negated? at h
  rw [weight_cons]
  split at h
  · next hfirst =>
    obtain rfl := Option.some.inj h
    have hpositive := hword _ _ hfirst
    omega
  · next hfirst =>
    have htail := weight_tailFrom (k := 1) (hword _ _ hfirst)
    split at h
    · cases h
    · obtain rfl := Option.some.inj h
      rw [weight_append]
      omega
  · cases h

/-! ### Bounds -/

theorem checkLiteral_ne_exhausted (tokens : List Token) (last : Token) :
    checkLiteral tokens last ≠ .error .exhausted := by
  intro h
  unfold checkLiteral at h
  rcases hfind : Comparison.find (joinTokens tokens).toList with e | found
  · simp only [hfind] at h
    cases Comparison.eq_crash_of_find hfind
    cases h
  · simp only [hfind, bind, Except.bind] at h
    repeat' split at h
    all_goals cases h

theorem parseLeaf_ends (first : Token) (rest : List Token) :
    Ends (parseLeaf first rest) (parseLeaf first rest) := by
  unfold parseLeaf
  refine (Noting.ends_ofExcept _).bind fun _ _ => ?_
  split
  · exact ends_pure trivial
  · next failure hfailure =>
    refine ends_throw fun hexhausted => ?_
    exact checkLiteral_ne_exhausted _ _ (hexhausted ▸ hfailure)

/-- The tokens inside a group are shorter than the group. -/
theorem parseGroup_ends {read read' : Position → List Token → Noting Condition} {group : Token}
    (hread : ∀ p tokens, weight tokens < group.length → Ends (read p tokens) (read' p tokens)) :
    Ends (parseGroup read group) (parseGroup read' group) := by
  unfold parseGroup
  split
  · refine (Noting.ends_ofExcept _).bind fun reading hreading => ?_
    refine (Noting.ends_note _).bind fun _ _ => ?_
    have hweight := Token.tokenizeInner_weight hreading
    split
    · exact Noting.ends_fail _
    · next s hs =>
      have hmem : s ∈ reading.statements := hs ▸ List.mem_singleton_self s
      have hle := Reading.weight_le hmem
      exact hread _ _ (by omega)
    · exact Noting.ends_fail _
  · exact Noting.ends_fail _

/-- Every bound above the number of characters will do. -/
theorem parseWithin_ends {depth depth' : Nat} (at_ : Position) {tokens : List Token}
    (h : weight tokens < depth) (h' : weight tokens < depth') :
    Ends (parseWithin depth at_ tokens) (parseWithin depth' at_ tokens) := by
  -- each nested step reads fewer characters
  induction depth generalizing depth' at_ tokens with
  | zero => omega
  | succ depth ih =>
    obtain ⟨depth', rfl⟩ : ∃ d, depth' = d + 1 := ⟨depth' - 1, by omega⟩
    have hshorter : ∀ at_ {operand}, weight operand < weight tokens →
        Ends (parseWithin depth at_ operand) (parseWithin depth' at_ operand) := by
      intro at_ operand hoperand
      exact ih at_ (by omega) (by omega)
    cases tokens with
    | nil => exact Noting.ends_fail _
    | cons first rest =>
      unfold parseWithin
      refine (Noting.ends_ofExcept _).bind fun ors hors => ?_
      split
      · have hparts := splitAt_weight (by decide) hors (by simp)
        exact (Ends.mapM fun part hpart => hshorter at_ (hparts part hpart)).bind fun _ _ =>
          ends_pure trivial
      · refine (Noting.ends_ofExcept _).bind fun ands hands => ?_
        split
        · have hparts := splitAt_weight (by decide) hands (by simp)
          exact (Ends.mapM fun part hpart => hshorter at_ (hparts part hpart)).bind fun _ _ =>
            ends_pure trivial
        · split
          · exact Noting.ends_fail _
          · next hnegated =>
            exact (hshorter at_ (negated?_weight hnegated)).bind fun _ _ => ends_pure trivial
          · split
            · refine parseGroup_ends fun p inner hinner => hshorter p ?_
              rw [weight_cons]
              omega
            · exact parseLeaf_ends first rest

theorem parseTokens_ends (at_ : Position) (tokens : List Token) :
    Ends (parseTokens at_ tokens) (parseTokens at_ tokens) :=
  parseWithin_ends at_ (Nat.lt_succ_self _) (Nat.lt_succ_self _)

/-- Reading the condition in a group reaches no bound. -/
theorem parse_ends (group : Token) : Ends (parse group) (parse group) :=
  parseGroup_ends fun p tokens _ => parseTokens_ends p tokens

end Condition

end Packwright
