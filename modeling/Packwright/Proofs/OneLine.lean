import Packwright.Proofs.Binding
import Packwright.Proofs.PrivateCalls

/-!
# Texts on one line

A text is unbroken if it has no line feed. What the compiler spells itself is unbroken, and so is
what it takes over from the user as a score, a selector, a name or joined tokens. Only a text
parameter of a built-in function is taken over as it is.

## Main definitions

- `Unbroken` — a text without line feeds
- `Scope.Unbroken` — renamings to unbroken holders
- `ParamKind.Shields` — what a kind of parameter lets through

## Main results

- `unbroken_joinTokens` — the text of tokens
- `Score.unbroken_parseIn?`, `Clause.unbroken_ofText` — scores and tests
- `Builtin.bind_shields` — bound arguments
-/

namespace Packwright

/-- The text has no line feed. -/
def Unbroken (s : String) : Prop := '\n' ∉ s.toList

instance (s : String) : Decidable (Unbroken s) := inferInstanceAs (Decidable (¬_))

/-! ### Pieces of text -/

@[simp] theorem unbroken_append {a b : String} : Unbroken (a ++ b) ↔ Unbroken a ∧ Unbroken b := by
  simp [Unbroken]

@[simp] theorem unbroken_ofList {cs : List Char} : Unbroken (String.ofList cs) ↔ '\n' ∉ cs := by
  simp [Unbroken]

theorem Unbroken.of_subset {s : String} {cs : List Char} (h : Unbroken s) (hcs : cs ⊆ s.toList) :
    Unbroken (String.ofList cs) :=
  unbroken_ofList.mpr fun hmem => h (hcs hmem)

/-- A text of characters that a test accepts, where the test refuses a line feed. -/
theorem not_mem_of_all {test : Char → Bool} {cs : List Char} (h : cs.all test = true)
    (htest : test '\n' = false) : '\n' ∉ cs := by
  intro hmem
  rw [List.all_eq_true.mp h _ hmem] at htest
  cases htest

theorem not_mem_of_isBlank {cs : List Char} (h : (!cs.any Text.isBlank) = true) : '\n' ∉ cs := by
  intro hmem
  rw [List.any_eq_true.mpr ⟨'\n', hmem, by decide⟩] at h
  cases h

@[simp] theorem unbroken_repr (n : Nat) : Unbroken n.repr := by
  intro h
  rw [Nat.toList_repr] at h
  have hdigit := Nat.isDigit_of_mem_toDigits (by omega) (by omega) h
  revert hdigit
  decide

@[simp] theorem unbroken_repr_int (n : Int) : Unbroken n.repr := by
  rw [Int.repr_eq_if]
  split
  · exact unbroken_repr _
  · exact unbroken_append.mpr ⟨by decide, unbroken_repr _⟩

namespace Text

theorem trimList_subset (cs : List Char) : trimList cs ⊆ cs := by
  intro c hc
  rw [trimList, trimRight, List.mem_reverse] at hc
  have hfront := (List.dropWhile_sublist _).subset hc
  exact (List.dropWhile_sublist _).subset (List.mem_reverse.mp hfront)

theorem splitOnce_subset {mark cs before after : List Char}
    (h : splitOnce mark cs = some (before, after)) : before ⊆ cs ∧ after ⊆ cs := by
  induction cs generalizing before with
  | nil =>
    simp only [splitOnce, Option.ite_none_right_eq_some, Option.some.injEq, Prod.mk.injEq] at h
    obtain ⟨-, rfl, rfl⟩ := h
    exact ⟨List.Subset.refl _, List.Subset.refl _⟩
  | cons c rest ih =>
    rw [splitOnce] at h
    split at h
    · next hafter =>
      obtain ⟨rfl, rfl⟩ := Prod.mk.inj (Option.some.inj h)
      refine ⟨List.nil_subset _, ?_⟩
      rw [List.isPrefixOf?_eq_some_iff_append_eq] at hafter
      exact hafter ▸ List.subset_append_right _ _
    · obtain ⟨⟨front, back⟩, hrest, heq⟩ := Option.map_eq_some_iff.mp h
      obtain ⟨rfl, rfl⟩ := Prod.mk.inj heq
      obtain ⟨hfront, hback⟩ := ih hrest
      exact ⟨List.cons_subset_cons c hfront, List.subset_cons_of_subset c hback⟩

theorem unbroken_trim {s : String} (h : Unbroken s) : Unbroken (trim s) :=
  h.of_subset (trimList_subset _)

theorem unbroken_after? {mark text rest : String} (h : Unbroken text)
    (hrest : after? mark text = some rest) : Unbroken rest := by
  obtain ⟨cs, hcs, rfl⟩ := Option.map_eq_some_iff.mp hrest
  rw [List.isPrefixOf?_eq_some_iff_append_eq] at hcs
  exact h.of_subset (hcs ▸ List.subset_append_right _ _)

theorem unbroken_joinWith {separator : String} (hseparator : Unbroken separator) {l : List String}
    (h : ∀ s ∈ l, Unbroken s) : Unbroken (joinWith separator l) := by
  fun_induction joinWith separator l with
  | case1 => decide
  | case2 s => exact h s (List.mem_singleton_self s)
  | case3 s rest _ ih =>
    obtain ⟨hs, hrest⟩ := List.forall_mem_cons.mp h
    simp [hs, hseparator, ih hrest]

end Text

theorem mem_joinBy {text : Token → List Char} {tokens : List Token} {c : Char}
    (h : c ∈ joinBy text tokens) : c = ' ' ∨ ∃ t ∈ tokens, c ∈ text t := by
  fun_induction joinBy text tokens with
  | case1 => cases h
  | case2 t => exact .inr ⟨t, List.mem_singleton_self t, h⟩
  | case3 t next rest ih =>
    rcases List.mem_append.mp h with h | h
    · rcases List.mem_append.mp h with h | h
      · exact .inr ⟨t, List.mem_cons_self .., h⟩
      · split at h
        · cases h
        · exact .inl (List.mem_singleton.mp h)
    · rcases ih h with h | ⟨t', ht', h⟩
      · exact .inl h
      · exact .inr ⟨t', List.mem_cons_of_mem _ ht', h⟩

/-- Joined tokens stand on one line, whatever stands in their strings and groups. -/
@[simp] theorem unbroken_joinTokens (tokens : List Token) : Unbroken (joinTokens tokens) := by
  rw [joinTokens, unbroken_ofList]
  intro h
  rcases mem_joinBy h with h | ⟨t, -, h⟩
  · exact absurd h (by decide)
  · -- in a token every line feed was replaced
    obtain ⟨c, -, hc⟩ := List.mem_flatMap.mp h
    split at hc
    · exact absurd hc (by decide)
    · next hne => exact hne (List.mem_singleton.mp hc).symm

@[simp] theorem Json.Codec.unbroken_quote (codec : Json.Codec) (s : String) : Unbroken (codec.quote s) :=
  codec.quote_unbroken s

theorem toLower_ne_feed {c : Char} (h : c ≠ '\n') : c.toLower ≠ '\n' := by
  unfold Char.toLower
  split
  · next hupper =>
    intro heq
    have hsum : (c.toNat + 32) % 4294967296 = 10 := by
      simpa using congrArg (fun d : Char => d.val.toNat) heq
    have hlow : 65 ≤ c.toNat := hupper.1
    have hhigh : c.toNat ≤ 90 := hupper.2
    omega
  · exact h

theorem isFunctionChar_ascii {c : Char} (h : isFunctionChar c = true) : c.toNat < 128 := by
  simp only [isFunctionChar, Char.isAlphanum, Char.isAlpha, Char.isUpper, Char.isLower,
    Char.isDigit, Bool.or_eq_true, Bool.and_eq_true, decide_eq_true_eq] at h
  rcases h with ((((h | h) | h) | rfl) | rfl) | rfl
  · exact (show c.toNat ≤ 90 from h.2).trans_lt (by decide)
  · exact (show c.toNat ≤ 122 from h.2).trans_lt (by decide)
  · exact (show c.toNat ≤ 57 from h.2).trans_lt (by decide)
  all_goals decide

/-- The path of a name of a function. -/
theorem FunctionPath.unbroken_ofName {name : String} (h : isFunctionName name = true) :
    Unbroken (FunctionPath.ofName name).text := by
  simp only [isFunctionName, Bool.and_eq_true] at h
  have hchars := List.all_eq_true.mp h.2
  rw [FunctionPath.ofName, unbroken_ofList, Text.lowercase,
    lowercaseAfter_of_ascii fun c hc => isFunctionChar_ascii (hchars c hc)]
  intro hmem
  obtain ⟨low, hlow, hfeed⟩ := List.mem_flatMap.mp hmem
  obtain ⟨c, hc, rfl⟩ := List.mem_map.mp hlow
  split at hfeed
  · exact absurd hfeed (by decide)
  · refine toLower_ne_feed ?_ (List.mem_singleton.mp hfeed).symm
    rintro rfl
    exact absurd (hchars _ hc) (by decide)

@[simp] theorem Feature.unbroken_path (f : Feature) {name : String} :
    Unbroken (f.path name).text ↔ Unbroken name := by
  cases f <;> simp +decide [Feature.path, FunctionPath.generated]

/-! ### Scores -/

/-- Variables are renamed to unbroken holders. -/
def Scope.Unbroken (scope : Scope) : Prop :=
  ∀ frame ∈ scope.frames, ∀ pair ∈ frame, Packwright.Unbroken pair.2

namespace Scope

variable {scope : Scope}

theorem Unbroken.resolve? (h : scope.Unbroken) {name holder : String}
    (hholder : scope.resolve? name = some holder) : Packwright.Unbroken holder := by
  obtain ⟨front, back, heq, -⟩ := List.lookup_eq_some_iff.mp hholder
  have hmem : (name, holder) ∈ scope.frames.flatten := by simp [heq]
  obtain ⟨frame, hframe, hpair⟩ := List.mem_flatten.mp hmem
  exact h frame hframe _ hpair

theorem Unbroken.push (h : scope.Unbroken) : scope.push.Unbroken := by
  simpa [Scope.Unbroken, Scope.push] using h

theorem Unbroken.pop (h : scope.Unbroken) : scope.pop.Unbroken :=
  fun frame hframe => h frame (List.mem_of_mem_tail hframe)

theorem Unbroken.bind (h : scope.Unbroken) {holder : String} (hholder : Packwright.Unbroken holder)
    (name : String) : (scope.bind name holder).Unbroken := by
  unfold Scope.bind
  split
  · exact h
  · next hframes =>
    simp only [Scope.Unbroken, hframes, List.forall_mem_cons] at h ⊢
    exact ⟨⟨hholder, h.1⟩, h.2⟩

end Scope

namespace Score

theorem unbroken_render {s : Score} :
    Unbroken s.render ↔ Unbroken s.holder ∧ Unbroken s.objective := by
  simp +decide [Score.render]

@[simp] theorem unbroken_ofVariable {holder : String} :
    Unbroken (Score.ofVariable holder).render ↔ Unbroken holder := by
  simp +decide [Score.unbroken_render, Score.ofVariable]

@[simp] theorem unbroken_ofConstant (n : Int) : Unbroken (Score.ofConstant n).render := by
  simp +decide [Score.unbroken_render, Score.ofConstant]

/-- A score that is read has no blanks. -/
theorem unbroken_parse? {source : String} {s : Score} (h : parse? source = some s) :
    Unbroken s.render := by
  unfold parse? at h
  split at h
  · simp only [Option.ite_none_right_eq_some, Bool.and_eq_true, Option.some.injEq] at h
    obtain ⟨⟨-, hname⟩, rfl⟩ := h
    have hrest := not_mem_of_all hname (by decide)
    simp +decide [hrest]
  · obtain ⟨⟨objective, target⟩, -, h⟩ := Option.bind_eq_some_iff.mp h
    simp only [Option.ite_none_right_eq_some, Bool.and_eq_true, isTarget] at h
    obtain ⟨⟨⟨-, hobjective⟩, -, htarget⟩, h⟩ := h
    obtain rfl := Option.some.inj h
    have hfront := not_mem_of_all hobjective (by decide)
    have hback := not_mem_of_isBlank htarget
    simp [unbroken_render, hfront, hback]

variable {scope : Scope}

theorem unbroken_parseIn? (hscope : scope.Unbroken) {source : String} {s : Score}
    (h : parseIn? scope source = some s) : Unbroken s.render := by
  obtain ⟨s, hs, rfl⟩ := Option.map_eq_some_iff.mp h
  have hparsed := unbroken_render.mp (unbroken_parse? hs)
  unfold resolveIn
  split
  · rw [unbroken_render]
    refine ⟨?_, hparsed.2⟩
    cases hholder : scope.resolve? s.holder with
    | none => exact hparsed.1
    | some holder => exact hscope.resolve? hholder
  · exact unbroken_render.mpr hparsed

end Score

/-! ### Tests -/

@[simp] theorem Comparison.unbroken_native (c : Comparison) : Unbroken c.native := by
  cases c <;> decide

@[simp] theorem Operation.unbroken_code (o : Operation) : Unbroken o.code := by
  cases o <;> decide

theorem ScoreRange.unbroken_render {range : ScoreRange}
    (h : ∀ text ∈ range.writtenTexts, Unbroken text) : Unbroken range.render := by
  cases range with
  | written text => exact h text (List.mem_singleton_self text)
  | exactly n | atLeast n | atMost n | between low high => simp +decide [ScoreRange.render]

theorem ScoreRange.unbroken_ofBounds (low high : Int) :
    Unbroken (ScoreRange.ofBounds low high).render := by
  refine unbroken_render ?_
  unfold ofBounds
  split <;> simp [writtenTexts]

theorem Comparison.unbroken_range? {c : Comparison} {n : Int} {negated : Bool} {range : ScoreRange}
    (h : c.range? n = some (negated, range)) : Unbroken range.render := by
  have hown : range.writtenTexts = [] := by
    unfold Comparison.range? at h
    grind [ScoreRange.writtenTexts]
  exact ScoreRange.unbroken_render (by simp [hown])

theorem Comparison.find_subset {cs left right : List Char} {c : Comparison}
    (h : Comparison.find cs = .ok (some (left, c, right))) : right ⊆ cs := by
  unfold Comparison.find at h
  split at h
  · cases h
  · cases h
  · cases h
    exact List.drop_subset _ _

namespace Clause

variable {scope : Scope}

@[simp] theorem unbroken_render {c : Clause} : Unbroken c.render ↔ Unbroken c.test.render := by
  unfold render
  split <;> simp +decide

theorem unbroken_ofComparison? (hscope : scope.Unbroken) {score : Score}
    (hscore : Unbroken score.render) {c : Comparison} {right : String} (hright : Unbroken right)
    {clause : Clause}
    (h : ofComparison? scope score c right = some clause) : Unbroken clause.render := by
  unfold ofComparison? at h
  simp only at h
  split at h
  · next hrange =>
    obtain ⟨n, -, hrange⟩ := Option.bind_eq_some_iff.mp hrange
    obtain rfl := Option.some.inj h
    have htext := Comparison.unbroken_range? hrange
    simp +decide [Test.render, hscore, htext]
  · split at h
    · obtain rfl := Option.some.inj h
      simp +decide [Test.render, hscore, ScoreRange.render, hright]
    · obtain ⟨other, hother, rfl⟩ := Option.map_eq_some_iff.mp h
      have hother := Score.unbroken_parseIn? hscope hother
      simp +decide [Test.render, hscore, hother]

theorem unbroken_ofMatches? (hscope : scope.Unbroken) {text : String} (htext : Unbroken text)
    {clause : Clause} (h : ofMatches? scope text = some clause) : Unbroken clause.render := by
  obtain ⟨⟨left, right⟩, hsplit, h⟩ := Option.bind_eq_some_iff.mp h
  obtain ⟨score, hscore, h⟩ := Option.bind_eq_some_iff.mp h
  obtain rfl := Option.some.inj h
  have hscore := Score.unbroken_parseIn? hscope hscore
  have hright : '\n' ∉ Text.trimList right := fun hmem =>
    htext ((Text.splitOnce_subset hsplit).2 (Text.trimList_subset _ hmem))
  simp +decide [Test.render, ScoreRange.render, hscore, hright]

/-- The clause of an unbroken text is unbroken. -/
theorem unbroken_ofText (hscope : scope.Unbroken) {text : String} (htext : Unbroken text) :
    Unbroken (ofText scope text).render := by
  refine ofText_induction (P := (Unbroken ·.render)) (fun keyword body negated hbody => ?_)
    (fun clause hranged => unbroken_ofMatches? hscope htext hranged)
    (fun left sign right score clause hfound hscore hcompared => ?_) (fun score hscore => ?_) ?_
  · simpa [Test.render] using Text.unbroken_trim (Text.unbroken_after? htext hbody)
  · refine unbroken_ofComparison? hscope (Score.unbroken_parseIn? hscope hscore) ?_ hcompared
    exact htext.of_subset fun d hd => Comparison.find_subset hfound (Text.trimList_subset _ hd)
  · have hscore := Score.unbroken_parseIn? hscope hscore
    simp +decide [Test.render, ScoreRange.render, hscore]
  · simpa [Test.render] using htext

end Clause

/-! ### Arguments -/

/-- What a kind of parameter keeps out of a value: line feeds, except in a text. -/
def ParamKind.Shields : ParamKind → Value → Prop
  | .text, _ => True
  | _, .text t => Unbroken t
  | _, .score s => Unbroken s.render
  | _, _ => True

theorem unbroken_of_isIdentifier {s : String} (h : isIdentifier s = true) : Unbroken s := by
  unfold isIdentifier at h
  unfold Unbroken
  generalize s.toList = cs at h ⊢
  cases cs with
  | nil => cases h
  | cons c rest =>
    obtain ⟨hstart, hrest⟩ := Bool.and_eq_true_iff.mp h
    rintro (_ | ⟨_, hmem⟩)
    · exact absurd hstart (by decide)
    · exact not_mem_of_all hrest (by decide) hmem

theorem unbroken_of_isSelector {s : String} (h : isSelector s = true) : Unbroken s := by
  rcases Bool.or_eq_true_iff.mp h with h | h
  · exact not_mem_of_isBlank (Bool.and_eq_true_iff.mp h).2
  · exact unbroken_of_isIdentifier h

theorem unbroken_of_isObjectiveName {s : String} (h : isObjectiveName s = true) : Unbroken s :=
  not_mem_of_all (Bool.and_eq_true_iff.mp h).2 (by decide)

theorem ParamKind.convert?_shields {scope : Scope} (hscope : scope.Unbroken) {kind : ParamKind}
    {a : Argument} {v : Value} (h : kind.convert? scope a = some v) : kind.Shields v := by
  cases kind with
  | text => trivial
  | integer | number | arrow =>
    obtain ⟨w, -, rfl⟩ := Option.map_eq_some_iff.mp h
    trivial
  | score =>
    obtain ⟨s, hs, rfl⟩ := Option.map_eq_some_iff.mp h
    obtain ⟨word, -, hs⟩ := Option.bind_eq_some_iff.mp hs
    exact Score.unbroken_parseIn? hscope hs
  | scoreOrInteger =>
    rcases Option.or_eq_some_iff.mp h with h | ⟨-, h⟩
    · obtain ⟨n, -, rfl⟩ := Option.map_eq_some_iff.mp h
      trivial
    · obtain ⟨s, hs, rfl⟩ := Option.map_eq_some_iff.mp h
      obtain ⟨word, -, hs⟩ := Option.bind_eq_some_iff.mp hs
      exact Score.unbroken_parseIn? hscope hs
  | selector =>
    obtain ⟨t, ht, rfl⟩ := Option.map_eq_some_iff.mp h
    exact unbroken_of_isSelector (Option.filter_eq_some_iff.mp ht).2
  | objective =>
    obtain ⟨t, ht, rfl⟩ := Option.map_eq_some_iff.mp h
    exact unbroken_of_isObjectiveName (Option.filter_eq_some_iff.mp ht).2

theorem ParamKind.default?_shields {kind : ParamKind} {d : String} (hd : Unbroken d) {v : Value}
    (h : kind.default? d = some v) : kind.Shields v := by
  cases kind with
  | integer =>
    simp only [ParamKind.default?, Option.ite_none_right_eq_some, Option.some.injEq] at h
    obtain ⟨-, rfl⟩ := h
    trivial
  | number =>
    obtain ⟨n, -, rfl⟩ := Option.map_eq_some_iff.mp h
    trivial
  | text => trivial
  | selector | objective =>
    obtain rfl := Option.some.inj h
    exact hd
  | score | scoreOrInteger | arrow => cases h

/-- The values of a call let line feeds through only in texts. -/
def Bindings.Shield (b : Builtin) (args : Bindings) : Prop :=
  ∀ name kind, b.Declares name kind → ∀ v, args.get name = .ok v → kind.Shields v

/-- The value of a parameter that takes no free text. -/
theorem Bindings.Shield.text {b : Builtin} {args : Bindings} (h : args.Shield b) {name t : String}
    (hdeclared : b.Declares name .selector ∨ b.Declares name .objective)
    (ht : args.text name = .ok t) : Unbroken t := by
  obtain ⟨v, hv, ht⟩ := exists_of_bind_ok ht
  cases v with
  | text t' =>
    obtain rfl := Except.ok.inj ht
    rcases hdeclared with hdeclared | hdeclared
    · exact h name _ hdeclared _ hv
    · exact h name _ hdeclared _ hv
  | _ => cases ht

namespace Builtin

variable {b : Builtin} {scope : Scope} {args : Arguments}

/-- Every default stands on one line. -/
theorem unbroken_default (b : Builtin) : ∀ p ∈ b.params, ∀ d ∈ p.default?, Unbroken d := by
  cases b <;> decide

/-- Binding lets line feeds through only in texts. -/
theorem bind_shields (hscope : scope.Unbroken) {bound : Bindings}
    (h : b.bind scope args = .ok bound) : bound.Shield b := by
  rintro name kind ⟨p, hp, rfl, rfl⟩ v hv
  obtain ⟨q, hq, hname, horigin⟩ := of_get_bind h hv
  -- the value that is found under the name was bound to this very parameter
  obtain rfl := b.eq_of_params_name p hp q hq hname.symm
  rcases horigin with ⟨a, -, -, hv⟩ | ⟨d, hd, hv⟩
  · exact ParamKind.convert?_shields hscope hv
  · exact ParamKind.default?_shields (b.unbroken_default p hp d hd) hv

end Builtin

end Packwright
