import Packwright.Proofs.Session.Loops

/-!
# Compiled switches

The cases of a switch have consecutive labels. Their bodies are registered first, then the ranges of
labels with the tests inside them, so that every test finds its function.

## Main definitions

- `Dispatch.labels`, `Dispatch.Ranged` — the labels of a tree of ranges, and ranges that fit
- `TestsRange` — commands that choose among the labels of a range

## Main results

- `dispatchTree_ranged` — the tree over some labels has just these, in order
- `Compile.collectCases_meets` — labels are consecutive
- `Compile.switch_meets` — what a switch emits
-/

namespace Packwright

/-! ### Trees of ranges -/

/-- The labels of a range in order. -/
def Dispatch.labels : Dispatch → List Int
  | .leaf label => [label]
  | .node _ _ left right => left.labels ++ right.labels

/-- The ranges that are tested for a range: its halves, or itself when it is a single label. -/
def Dispatch.parts : Dispatch → List Dispatch
  | .leaf label => [.leaf label]
  | .node _ _ left right => [left, right]

/-- Each range is put together from two that follow one another. -/
def Dispatch.Ranged : Dispatch → Prop
  | .leaf _ => True
  | .node low high left right => left.low = low ∧ right.low = left.high + 1 ∧ right.high = high ∧
    left.Ranged ∧ right.Ranged

/-- The location of the function of a range. -/
def rangeTarget (space : String) (id : Nat) (d : Dispatch) : ResourceLocation :=
  (Compile.rangePath id d).inSpace space

/-- The test of a range: its function is called when the score lies in it. -/
def rangeTestIn (space : String) (id : Nat) (score : Score) (d : Dispatch) : Command :=
  .guarded [⟨false, .inRange score (.ofBounds d.low d.high)⟩] (.call (rangeTarget space id d))

theorem rangePath_leaf (id : Nat) (label : Int) :
    Compile.rangePath id (.leaf label) = Feature.switchCase.path (toString id ++ "/" ++ toString label) := by
  simp [Compile.rangePath, Dispatch.name, Dispatch.low, Dispatch.high]

/-- The `count` labels from `low` on. -/
def labelsFrom (low : Int) (count : Nat) : List Int :=
  (List.range count).map fun i : Nat => low + (i : Int)

theorem labelsFrom_append (low : Int) (m n : Nat) :
    labelsFrom low m ++ labelsFrom (low + m) n = labelsFrom low (m + n) := by
  simp only [labelsFrom, List.range_add, List.map_append, List.map_map]
  congr 1
  apply List.map_congr_left
  intro i _
  simp only [Function.comp_apply]
  omega

theorem labelsFrom_succ (low : Int) (n : Nat) :
    labelsFrom low (n + 1) = labelsFrom low n ++ [low + n] := by
  simp [labelsFrom, List.range_succ]

/-- A tree over labels has just these, in ranges that fit. -/
theorem dispatchWithin_ranged (depth : Nat) (low : Int) (count : Nat) (hpos : 0 < count)
    (hdepth : count ≤ depth) :
    (dispatchWithin depth low count).low = low ∧
      (dispatchWithin depth low count).high = low + count - 1 ∧
      (dispatchWithin depth low count).Ranged ∧
      (dispatchWithin depth low count).labels = labelsFrom low count := by
  induction depth generalizing low count with
  | zero => omega
  | succ depth ih =>
    unfold dispatchWithin
    split
    · obtain rfl : count = 1 := by omega
      exact ⟨rfl, by simp [Dispatch.high], trivial, by simp [Dispatch.labels, labelsFrom]⟩
    · next hlarge =>
      simp only
      obtain ⟨hlow₁, hhigh₁, hranged₁, hlabels₁⟩ := ih low (count / 2) (by omega) (by omega)
      obtain ⟨hlow₂, hhigh₂, hranged₂, hlabels₂⟩ :=
        ih (low + (count / 2 : Nat)) (count - count / 2) (by omega) (by omega)
      refine ⟨rfl, rfl, ⟨hlow₁, by rw [hlow₂, hhigh₁]; omega, by rw [hhigh₂]; omega, hranged₁,
        hranged₂⟩, ?_⟩
      rw [Dispatch.labels, hlabels₁, hlabels₂, labelsFrom_append]
      congr 1
      omega

theorem dispatchTree_ranged (low : Int) {count : Nat} (hpos : 0 < count) :
    (dispatchTree low count).low = low ∧ (dispatchTree low count).high = low + count - 1 ∧
      (dispatchTree low count).Ranged ∧ (dispatchTree low count).labels = labelsFrom low count :=
  dispatchWithin_ranged count low count hpos le_rfl

/-! ### The cases of a body -/

/-- The labels of the cases are consecutive. -/
def Consecutive (cases : List Case) : Prop :=
  ∃ low, cases.map Case.label = labelsFrom low cases.length

theorem labelValue_eq {cases : List Case} {head : CaseHead} {n : Int}
    (h : labelValue cases head = .ok n) :
    cases = [] ∨ ∃ last, cases.getLast? = some last ∧ n = last.label + 1 := by
  by_cases hnil : cases = []
  · exact .inl hnil
  refine .inr ?_
  have hne : cases.isEmpty = false := by simpa using hnil
  obtain ⟨last, hlast⟩ : ∃ last, cases.getLast? = some last :=
    ⟨_, List.getLast?_eq_some_getLast hnil⟩
  refine ⟨last, hlast, ?_⟩
  unfold labelValue expectedLabel at h
  rw [hlast] at h
  simp only [hne] at h
  split at h
  · cases h
  · next expected hexpected =>
    have hvalue : expected = last.label + 1 := by
      split at hexpected
      · exact (Option.some.inj hexpected).symm
      · cases hexpected
    split at h
    · exact (Except.ok.inj h).symm.trans hvalue
    · split at h
      · cases h
      · cases h
      · split at h
        · cases h
        · next hsame =>
          obtain rfl := Except.ok.inj h
          simp only [Bool.not_false, Bool.true_and, decide_not, Bool.not_eq_true',
            decide_eq_false_iff_not, not_not] at hsame
          exact hsame.trans hvalue

theorem Consecutive.append {cases : List Case} (h : Consecutive cases) {label : Int}
    (statements : List Statement)
    (hlabel : cases = [] ∨ ∃ last, cases.getLast? = some last ∧ label = last.label + 1) :
    Consecutive (cases ++ [⟨label, statements⟩]) := by
  rcases hlabel with rfl | ⟨last, hlast, rfl⟩
  · exact ⟨label, by simp [labelsFrom]⟩
  · obtain ⟨low, hlow⟩ := h
    obtain ⟨front, rfl⟩ := List.getLast?_eq_some_iff.mp hlast
    refine ⟨low, ?_⟩
    rw [List.map_append, List.map_singleton, List.length_append, List.length_singleton,
      labelsFrom_succ, hlow]
    have hvalue : last.label = low + front.length := by
      rw [List.map_append, List.map_singleton, List.length_append, List.length_singleton,
        labelsFrom_succ] at hlow
      simpa using (List.append_inj' hlow rfl).2
    rw [hvalue, List.length_append, List.length_singleton]
    congr 2
    push_cast
    omega

theorem labels_addToLast (s : Statement) (cases : List Case) :
    (addToLast s cases).map Case.label = cases.map Case.label := by
  unfold addToLast
  split
  · next hnone =>
    rw [List.getLast?_eq_none_iff.mp hnone]
  · next last hlast =>
    obtain ⟨front, rfl⟩ := List.getLast?_eq_some_iff.mp hlast
    simp

theorem mem_statements_addToLast {s : Statement} {cases : List Case} {c : Case}
    (hc : c ∈ addToLast s cases) {st : Statement} (hst : st ∈ c.statements) :
    st = s ∨ ∃ c' ∈ cases, st ∈ c'.statements := by
  unfold addToLast at hc
  split at hc
  · simp at hc
  · next last hlast =>
    obtain ⟨front, rfl⟩ := List.getLast?_eq_some_iff.mp hlast
    rw [List.dropLast_concat, List.mem_append, List.mem_singleton] at hc
    rcases hc with hc | rfl
    · exact .inr ⟨c, List.mem_append_left _ hc, hst⟩
    · rcases List.mem_append.mp hst with hst | hst
      · exact .inr ⟨last, List.mem_append_right _ (List.mem_singleton_self _), hst⟩
      · exact .inl (List.mem_singleton.mp hst)

/-- A case as it is compiled: its breaks are left out. -/
def Case.withoutBreaks (c : Case) : Case :=
  { c with statements := (dropFinalBreak c.statements).filter fun st => !isBreak st }

/-- The cases that the statements of a body mean. -/
def ReadsCases (statements : List Statement) (cases : List Case) : Prop :=
  ∃ raw, statements.foldlM addCaseStatement [] = .ok raw ∧ cases = raw.map Case.withoutBreaks

/-- The statements of cases satisfy a condition. -/
def StatementsSatisfy (P : Statement → Prop) (cases : List Case) : Prop :=
  ∀ c ∈ cases, ∀ st ∈ c.statements, P st

section

variable {U : UserCalls} {s : Session}

theorem splitCase_includes {keyword : Token} {tokens : List Token} {head : CaseHead}
    (hin : U.Includes s tokens) (h : splitCase keyword tokens = .ok head) :
    U.Includes s head.rest := by
  unfold splitCase at h
  split at h
  · cases h
  · split at h
    · obtain rfl := Except.ok.inj h
      exact hin.tailFrom _
    · split at h
      · cases h
      · split at h
        · obtain rfl := Except.ok.inj h
          exact hin.tail.tailFrom _
        · cases h

theorem addCaseStatement_ok {cases cases' : List Case} {st : Statement} (hcases : Consecutive cases)
    (hin : StatementsSatisfy (fun st => U.Includes s st.tokens) cases) (hst : U.Includes s st.tokens)
    (h : addCaseStatement cases st = .ok cases') :
    Consecutive cases' ∧ StatementsSatisfy (fun st => U.Includes s st.tokens) cases' := by
  unfold addCaseStatement at h
  split at h
  · obtain rfl := Except.ok.inj h
    exact ⟨hcases, hin⟩
  · next first rest htokens =>
    rw [htokens] at hst
    split at h
    · rcases hsplit : splitCase first rest with _ | head
      · rw [hsplit] at h
        cases h
      rw [hsplit] at h
      rcases hlabel : labelValue cases head with _ | label
      · simp only [hlabel, bind, Except.bind] at h
        cases h
      simp only [hlabel, bind, Except.bind, pure, Except.pure] at h
      obtain rfl := Except.ok.inj h
      refine ⟨hcases.append _ (labelValue_eq hlabel), fun c hc st hst' => ?_⟩
      rcases List.mem_append.mp hc with hc | hc
      · exact hin c hc st hst'
      · rw [List.mem_singleton.mp hc] at hst'
        split at hst'
        · simp at hst'
        · rw [List.mem_singleton.mp hst']
          exact splitCase_includes hst.tail hsplit
    · split at h
      · cases h
      · obtain rfl := Except.ok.inj h
        refine ⟨?_, fun c hc st' hst' => ?_⟩
        · obtain ⟨low, hlow⟩ := hcases
          have hlength := congrArg List.length (labels_addToLast st cases)
          rw [List.length_map, List.length_map] at hlength
          exact ⟨low, by rw [labels_addToLast, hlow, hlength]⟩
        · rcases mem_statements_addToLast hc hst' with rfl | ⟨c', hc', hst'⟩
          · rw [htokens]
            exact hst
          · exact hin c' hc' st' hst'

theorem foldlM_addCaseStatement_ok (statements : List Statement) {cases cases' : List Case}
    (hcases : Consecutive cases)
    (hin : StatementsSatisfy (fun st => U.Includes s st.tokens) cases)
    (hstatements : ∀ st ∈ statements, U.Includes s st.tokens)
    (h : statements.foldlM addCaseStatement cases = .ok cases') :
    Consecutive cases' ∧ StatementsSatisfy (fun st => U.Includes s st.tokens) cases' := by
  refine foldlM_keeps (P := fun cases => Consecutive cases ∧
    StatementsSatisfy (fun st => U.Includes s st.tokens) cases) ?_ ⟨hcases, hin⟩ h
  intro cases st cases' hst hkept hadd
  exact addCaseStatement_ok hkept.1 hkept.2 (hstatements st hst) hadd

end

namespace Compile

variable {U : UserCalls} {block : Block} {base s : Session} {E : Session → Prop}

theorem forM_warn_meets (l : List Statement) (notice : Notice) :
    (l.forM fun st => warn notice st.span.position).Meets s
      (fun _ s' => s.Quiet s' ∧ s'.pack = s.pack) E := by
  induction l generalizing s with
  | nil => exact ⟨.refl s, rfl⟩
  | cons st l ih =>
    rw [List.forM_eq_forM, List.forM_cons, warn, meets_bind, meets_modify]
    exact ih.mono (fun _ s' h => ⟨(quiet_warnings s _).trans h.1, h.2⟩) fun _ h => h

theorem mem_dropFinalBreak {statements : List Statement} {st : Statement}
    (h : st ∈ dropFinalBreak statements) : st ∈ statements := by
  unfold dropFinalBreak at h
  split at h
  · split at h
    · exact List.mem_of_mem_dropLast h
    · exact h
  · exact h

theorem mem_withoutBreaks {c : Case} {st : Statement} (h : st ∈ c.withoutBreaks.statements) :
    st ∈ c.statements :=
  mem_dropFinalBreak (List.mem_filter.mp h).1

theorem mapM_dropBreaks_meets (cases : List Case) :
    (cases.mapM dropBreaks).Meets s (fun cases' s' => s.Quiet s' ∧ s'.pack = s.pack ∧
      cases' = cases.map Case.withoutBreaks) E := by
  induction cases generalizing s with
  | nil =>
    rw [List.mapM_nil]
    exact ⟨.refl s, rfl, rfl⟩
  | cons c rest ih =>
    rw [List.mapM_cons]
    unfold dropBreaks
    simp only [bind_assoc, pure_bind]
    refine (forM_warn_meets _ _).bind (fun _ h => h) fun _ s₁ h₁ => ?_
    refine ih.bind (fun _ h => h) fun rest' s₂ h₂ => ?_
    obtain ⟨hq₂, hpack₂, rfl⟩ := h₂
    exact ⟨h₁.1.trans hq₂, hpack₂.trans h₁.2, rfl⟩

/-- The cases of a body have consecutive labels. -/
theorem collectCases_meets {statements : List Statement}
    (hin : ∀ st ∈ statements, U.Includes s st.tokens) :
    (collectCases statements).Meets s (fun cases s' => s.Quiet s' ∧ s'.pack = s.pack ∧
      ReadsCases statements cases ∧ Consecutive cases ∧
      StatementsSatisfy (fun st => U.Includes s' st.tokens) cases) s.Quiet := by
  unfold collectCases
  rw [meets_bind]
  refine meets_ofExcept (.refl s) fun raw hraw => ?_
  have hstart : Consecutive [] := ⟨0, rfl⟩
  obtain ⟨⟨low, hlow⟩, hstatements⟩ :=
    foldlM_addCaseStatement_ok statements hstart (by simp [StatementsSatisfy]) hin hraw
  refine (mapM_dropBreaks_meets raw).mono (fun cases s' h => ?_) fun _ h => h
  obtain ⟨hq, hpack, rfl⟩ := h
  refine ⟨hq, hpack, ⟨raw, hraw, rfl⟩, ⟨low, ?_⟩, fun c hc st hst => ?_⟩
  · rw [List.map_map, List.length_map, ← hlow]
    rfl
  · obtain ⟨c', hc', rfl⟩ := List.mem_map.mp hc
    exact (hstatements c' hc' st (mem_withoutBreaks hst)).grows hq.grows

/-! ### The functions of the cases -/

/-- The commands are those of the case, compiled in some session. -/
def CaseCompiled (block : Block) (c : Case) (body : List Command) : Prop :=
  ∃ before after, (block c.statements).outcome before = (.ok body, after)

theorem registerCases_meets (hblock : BlockEmits U block) (id : Nat) (cases : List Case)
    {targets : List ResourceLocation} (hs : s.Sound U)
    (hin : StatementsSatisfy (fun st => U.Includes s st.tokens) cases)
    (hcovered : base.Covers s targets) :
    (registerCases block id cases).Meets s
      (fun _ s' => Advanced U base s ((cases.map Case.label).map
          (fun label => rangeTarget s'.settings.space id (.leaf label)) ++ targets) s' ∧
        ∀ c ∈ cases, ∃ body, s'.Has (rangeTarget s'.settings.space id (.leaf c.label)) body ∧
          CaseCompiled block c body)
      (Broken U s) := by
  induction cases generalizing s targets with
  | nil => exact ⟨.refl hs hcovered, by simp⟩
  | cons c rest ih =>
    obtain ⟨hc, hrest⟩ := List.forall_mem_cons.mp hin
    unfold registerCases
    refine (hblock s c.statements hs hc).with_outcome.bind (fun _ h => h) fun commands s₁ h₁ => ?_
    obtain ⟨hrun, p, -, hemitted⟩ := h₁
    refine (register_meets _ _ _).bind (fun s' h => h.1 ▸ hemitted.broken) fun path s₂ h₂ => ?_
    obtain ⟨rfl, hadds⟩ := h₂
    have hstored := ((Advanced.refl hs hcovered).emitted hemitted).adds hadds
      (hemitted.safe.grows hadds.grows)
    refine (ih hstored.sound (fun c hc st hst => (hrest c hc st hst).grows hstored.grows)
      hstored.covered).mono (fun _ s' h => ?_) fun s' h => h.after hstored.grows
    obtain ⟨hadvanced, hbodies⟩ := h
    refine ⟨(hadvanced.after hstored.grows hstored.scope hstored.load).mono fun target htarget => ?_,
      List.forall_mem_cons.mpr ⟨⟨commands, ?_, s, s₁, hrun⟩, hbodies⟩⟩
    · rw [hadvanced.grows.settings] at htarget ⊢
      rw [List.map_cons, List.map_cons, List.cons_append, rangeTarget, rangePath_leaf]
      exact List.perm_middle.mem_iff.mp htarget
    · rw [rangeTarget, rangePath_leaf, hadvanced.grows.settings]
      exact hadvanced.grows.has hadds.has

/-! ### The tests of the ranges -/

end Compile

/-- Every range of more than one label has a function with the tests of its halves. -/
inductive Dispatch.Stored (has : ResourceLocation → List Command → Prop) (space : String) (id : Nat)
    (score : Score) : Dispatch → Prop
  | leaf (label : Int) : Stored has space id score (.leaf label)
  | node {low high : Int} {left right : Dispatch}
    (hbody : has (rangeTarget space id (.node low high left right))
      ([left, right].map (rangeTestIn space id score)))
    (hleft : left.Stored has space id score) (hright : right.Stored has space id score) :
    Stored has space id score (.node low high left right)

theorem Dispatch.Stored.mono {has has' : ResourceLocation → List Command → Prop} {space : String}
    {id : Nat} {score : Score} {d : Dispatch} (h : d.Stored has space id score)
    (hle : ∀ target body, has target body → has' target body) : d.Stored has' space id score := by
  induction h with
  | leaf label => exact .leaf label
  | node hbody _ _ ihleft ihright => exact .node (hle _ _ hbody) ihleft ihright

/-- The functions of ranges are there and are found by their tests. -/
structure RangesStored (U : UserCalls) (base s : Session) (space : String) (id : Nat)
    (score : Score) (ranges : List Dispatch) (targets : List ResourceLocation)
    (s' : Session) : Prop where
  stored : ∀ d ∈ ranges, d.Stored s'.Has space id score
  registered : ∀ d ∈ ranges, s'.Registered (Compile.rangePath id d)
  advanced : Advanced U base s (ranges.map (rangeTarget space id) ++ targets) s'

section

variable {U : UserCalls} {base s s₁ s' : Session} {space : String} {id : Nat} {score : Score}
  {ranges : List Dispatch} {targets : List ResourceLocation}

theorem plain_rangeTests (hscore : ¬ isFlag score) (ranges : List Dispatch) :
    ∀ c ∈ ranges.map (rangeTestIn space id score), c.Plain := by
  intro c hc
  obtain ⟨d, -, rfl⟩ := List.mem_map.mp hc
  exact ⟨by simpa [Test.FlagFree] using hscore, trivial⟩

theorem calls_rangeTests (score : Score) (ranges : List Dispatch) :
    (ranges.map (rangeTestIn space id score)).flatMap Command.calls =
      ranges.map (rangeTarget space id) := by
  induction ranges with
  | nil => rfl
  | cons d rest ih =>
    rw [List.map_cons, List.flatMap_cons, ih]
    rfl

theorem resolves_rangeTests (hspace : s.settings.space = space)
    (hregistered : ∀ d ∈ ranges, s.Registered (Compile.rangePath id d)) :
    ∀ c ∈ ranges.map (rangeTestIn space id score), s.Resolves U c := by
  intro c hc target htarget
  obtain ⟨d, hd, rfl⟩ := List.mem_map.mp hc
  rw [List.mem_singleton.mp htarget, rangeTarget, ← hspace]
  exact ⟨Compile.rangePath id d, rfl, .inl (hregistered d hd)⟩

end

namespace Compile

variable {U : UserCalls} {base s : Session} {space : String} {id : Nat} {score : Score}

/-- A range with the functions below it becomes a function, unless it is a single label. -/
theorem registerRange_meets (hscore : ¬ isFlag score) (hspace : s.settings.space = space)
    (hs : s.Sound U) (d : Dispatch) {targets : List ResourceLocation}
    (hregistered : ∀ label ∈ d.labels, s.Registered (rangePath id (.leaf label)))
    (hcovered : base.Covers s
      (d.labels.map (fun label => rangeTarget space id (.leaf label)) ++ targets))
    (hinner : ∀ low high left right, d = .node low high left right →
      (rangeTests id score d).Meets s (fun cs s' =>
        cs = [left, right].map (rangeTestIn space id score) ∧
          RangesStored U base s space id score [left, right] targets s') (Broken U s)) :
    (registerRange id d (rangeTests id score d)).Meets s
      (fun _ s' => RangesStored U base s space id score [d] targets s') (Broken U s) := by
  cases d with
  | leaf label =>
    refine ⟨?_, ?_, .refl hs hcovered⟩
    · simpa using .leaf label
    · simpa [Dispatch.labels] using hregistered
  | node low high left right =>
    refine (hinner low high left right rfl).bind (fun _ h => h) fun cs s₁ h₁ => ?_
    obtain ⟨rfl, hstored, hfound, hadvanced⟩ := h₁
    refine (register_meets _ _ _).bind (fun s' h => h.1 ▸ ⟨hadvanced.grows, hadvanced.sound⟩)
      fun path s₂ h₂ => ?_
    obtain ⟨rfl, hadds⟩ := h₂
    have hspace₂ : s₂.settings.space = space := by
      rw [hadds.settings, hadvanced.grows.settings, hspace]
    have hsafe : s₂.Safe U ([left, right].map (rangeTestIn space id score)) :=
      ⟨⟨_, .commands (plain_rangeTests hscore _)⟩,
        resolves_rangeTests hspace₂ fun d hd => hadds.grows.registered (hfound d hd)⟩
    have hhas : s₂.Has (rangeTarget space id (.node low high left right)) _ := hspace₂ ▸ hadds.has
    rw [← calls_rangeTests score] at hadvanced
    have hbelow : ∀ d ∈ [left, right], d.Stored s₂.Has space id score :=
      fun d hd => (hstored d hd).mono fun _ _ => hadds.grows.has
    refine ⟨?_, ?_, hspace₂ ▸ hadvanced.adds hadds hsafe⟩
    · rw [List.forall_mem_singleton]
      exact .node hhas (hbelow left (by simp)) (hbelow right (by simp))
    · rw [List.forall_mem_singleton]
      exact hadds.has.registered

/-- The tests of a range, with the functions below it. -/
theorem rangeTests_meets (hscore : ¬ isFlag score) (d : Dispatch)
    (hspace : s.settings.space = space) (hs : s.Sound U) {targets : List ResourceLocation}
    (hregistered : ∀ label ∈ d.labels, s.Registered (rangePath id (.leaf label)))
    (hcovered : base.Covers s
      (d.labels.map (fun label => rangeTarget space id (.leaf label)) ++ targets)) :
    (rangeTests id score d).Meets s (fun cs s' =>
      cs = d.parts.map (rangeTestIn space id score) ∧
        RangesStored U base s space id score d.parts targets s') (Broken U s) := by
  induction d generalizing s targets with
  | leaf label =>
    subst hspace
    refine ⟨rfl, ?_, ?_, .refl hs hcovered⟩
    · simpa [Dispatch.parts] using .leaf label
    · simpa [Dispatch.parts, Dispatch.labels] using hregistered
  | node low high left right ihleft ihright =>
    rw [Dispatch.labels, List.forall_mem_append] at hregistered
    rw [Dispatch.labels, List.map_append, List.append_assoc] at hcovered
    unfold rangeTests
    refine (registerRange_meets hscore hspace hs left hregistered.1 hcovered
      fun low high left₁ right₁ hleft => ?_).bind (fun _ h => h) fun _ s₁ h₁ => ?_
    · subst hleft
      exact ihleft hspace hs hregistered.1 hcovered
    have hspace₁ : s₁.settings.space = space := by rw [h₁.advanced.grows.settings, hspace]
    have hregistered₁ : ∀ label ∈ right.labels, s₁.Registered (rangePath id (.leaf label)) :=
      fun label hlabel => h₁.advanced.grows.registered (hregistered.2 label hlabel)
    have hcovered₁ : base.Covers s₁
        (right.labels.map (fun label => rangeTarget space id (.leaf label)) ++
          (rangeTarget space id left :: targets)) :=
      h₁.advanced.covered.mono fun target htarget => List.perm_middle.symm.mem_iff.mp htarget
    simp only [rangeTest, bind_assoc, pure_bind]
    rw [meets_bind, meets_call]
    refine (registerRange_meets hscore hspace₁ h₁.advanced.sound right hregistered₁ hcovered₁
      fun low high left₁ right₁ hright => ?_).bind (fun s' h => h.after h₁.advanced.grows)
      fun _ s₂ h₂ => ?_
    · subst hright
      exact ihright hspace₁ h₁.advanced.sound hregistered₁ hcovered₁
    have hspace₂ : s₂.settings.space = space := by rw [h₂.advanced.grows.settings, hspace₁]
    rw [meets_bind, meets_call, meets_pure, hspace₁, hspace₂]
    refine ⟨rfl, ?_, ?_, ?_⟩
    · intro d hd
      rcases List.mem_cons.mp hd with rfl | hd
      · exact (h₁.stored d (by simp)).mono fun _ _ => h₂.advanced.grows.has
      · exact h₂.stored d hd
    · intro d hd
      rcases List.mem_cons.mp hd with rfl | hd
      · exact h₂.advanced.grows.registered (h₁.registered d (by simp))
      · exact h₂.registered d hd
    · refine (h₂.advanced.after h₁.advanced.grows h₁.advanced.scope h₁.advanced.load).mono ?_
      exact fun target htarget => (List.Perm.swap ..).mem_iff.mp htarget

/-! ### Whole switches -/

end Compile

/-- The score and the cases that the tokens of a switch mean. -/
def ReadsSwitch (scope : Scope) (rest : List Token) (score : Score) (cases : List Case) : Prop :=
  ∃ (head braces : Token) (r : Reading), rest = [head, braces] ∧
    Score.parseIn? scope (Text.trim (head.inner?.getD "")) = some score ∧
    braces.tokenizeInner .required = .ok r ∧ ReadsCases r.statements cases

/-- The commands of a switch: its cases have functions, and the ranges of labels are tested. -/
structure SwitchLowered (block : Compile.Block) (has : ResourceLocation → List Command → Prop)
    (space : String) (id : Nat) (score : Score) (cases : List Case) (d : Dispatch)
    (cs : List Command) : Prop where
  ranged : d.Ranged
  labels : d.labels = cases.map Case.label
  bodies : ∀ c ∈ cases, ∃ body, has (rangeTarget space id (.leaf c.label)) body ∧
    Compile.CaseCompiled block c body
  stored : ∀ part ∈ d.parts, part.Stored has space id score
  commands : cs = d.parts.map (rangeTestIn space id score)

/-- The labels of cases go from that of the first one to that of the last one. -/
theorem Consecutive.labels {cases : List Case} (h : Consecutive cases) {first last : Case}
    (hfirst : cases.head? = some first) (hlast : cases.getLast? = some last) :
    cases.map Case.label = labelsFrom first.label cases.length ∧
      (last.label - first.label + 1).toNat = cases.length := by
  obtain ⟨low, hlow⟩ := h
  obtain ⟨n, hn⟩ : ∃ n, cases.length = n + 1 := by
    cases cases with
    | nil => simp at hfirst
    | cons c rest => exact ⟨rest.length, rfl⟩
  rw [hn] at hlow ⊢
  have hhead : first.label = low := by
    have h := congrArg List.head? hlow
    rw [List.head?_map, hfirst] at h
    simpa [labelsFrom, List.range_succ_eq_map] using h
  have htail : last.label = low + n := by
    have h := congrArg List.getLast? hlow
    rw [List.getLast?_map, hlast, labelsFrom_succ] at h
    simpa using h
  exact ⟨by rw [hlow, hhead], by omega⟩

/-- The tree over the labels of cases. -/
theorem Consecutive.tree {cases : List Case} (h : Consecutive cases) {first last : Case}
    (hfirst : cases.head? = some first) (hlast : cases.getLast? = some last) :
    (dispatchTree first.label (last.label - first.label + 1).toNat).Ranged ∧
      (dispatchTree first.label (last.label - first.label + 1).toNat).labels =
        cases.map Case.label := by
  obtain ⟨hlabels, hcount⟩ := h.labels hfirst hlast
  have hsome : 0 < cases.length := List.length_pos_of_mem (List.mem_of_head? hfirst)
  obtain ⟨-, -, hranged, htree⟩ := dispatchTree_ranged first.label hsome
  rw [hcount]
  exact ⟨hranged, htree.trans hlabels.symm⟩

namespace Compile

variable {U : UserCalls} {block : Block} {s : Session}

-- reading a score computes on characters, which unification must not look into
attribute [local irreducible] switchScore

theorem switchScore_meets (head : Token) :
    (switchScore head).Meets s (fun score s' => s = s' ∧
      Score.parseIn? s.scope (Text.trim (head.inner?.getD "")) = some score) s.Quiet := by
  unfold switchScore score?
  simp only [bind_assoc, pure_bind, meets_bind, meets_get]
  cases Score.parseIn? s.scope (Text.trim (head.inner?.getD "")) with
  | none => exact .refl s
  | some score => exact ⟨rfl, rfl⟩

theorem tokenizeInner_pack (terminator : Terminator) (t : Token) :
    (tokenizeInner terminator t).Meets s (fun _ s' => s'.pack = s.pack) (fun _ => True) := by
  unfold tokenizeInner
  split
  · unfold tokenize
    rw [meets_bind]
    exact meets_ofExcept trivial fun r _ => rfl
  · trivial

/-- A switch is compiled to tests of ranges that find the functions of its cases. -/
theorem switch_meets (hblock : BlockEmits U block) (hs : s.Sound U) {keyword : Token}
    {rest : List Token} (hin : U.Includes s (keyword :: rest)) :
    (switch block keyword rest).Meets s
      (fun cs s' => Emitted U s (.commands cs) cs s' ∧
        ∃ (score : Score) (cases : List Case) (d : Dispatch),
          ReadsSwitch s.scope rest score cases ∧
          SwitchLowered block s'.Has s'.settings.space
            (s.pack.generated.peekId Feature.switchCase.name) score cases d cs)
      (Broken U s) := by
  unfold switch
  split
  · next head braces =>
    split
    · exact .refl hs
    split
    · exact .refl hs
    refine (switchScore_meets head).bind (fun s' hq => .quiet hs hq) fun score s₀ h₀ => ?_
    obtain ⟨rfl, hscore⟩ := h₀
    refine ((tokenizeInner_meets _ braces).and (tokenizeInner_pack _ braces)).bind
      (fun s' hq => .quiet hs hq) fun statements s₁ h₁ => ?_
    obtain ⟨⟨hq₁, r, hread, rfl⟩, hpack₁⟩ := h₁
    have hin₁ : ∀ st ∈ r.statements, U.Includes s₁ st.tokens :=
      fun st hst => ((hin.group (by simp) hread) st hst).grows hq₁.grows
    refine (collectCases_meets hin₁).bind (fun s' hq => .quiet hs (hq₁.trans hq))
      fun cases s₂ h₂ => ?_
    obtain ⟨hq₂, hpack₂, hcases, hconsecutive, hstatements⟩ := h₂
    split
    · next first last hfirst hlast =>
      refine (takeId_meets _).bind
        (fun s' hq => .quiet hs ((hq₁.trans hq₂).trans hq)) fun id s₃ h₃ => ?_
      obtain ⟨h₃, hid⟩ := h₃
      rw [hpack₂, hpack₁] at hid
      refine (debug_meets _).bind
        (fun s' hq => .quiet hs (((hq₁.trans hq₂).trans h₃).trans hq)) fun _ s₄ h₄ => ?_
      have hq₄ : s.Quiet s₄ := ((hq₁.trans hq₂).trans h₃).trans h₄
      refine (registerCases_meets hblock id cases (hs.quiet hq₄)
        (fun c hc st hst => (hstatements c hc st hst).grows (h₃.trans h₄).grows)
        (.refl s₄ [])).bind (fun s' h => h.after hq₄.grows) fun _ s₅ h₅ => ?_
      obtain ⟨hadvanced, hbodies⟩ := h₅
      obtain ⟨hranged, hlabels⟩ := hconsecutive.tree hfirst hlast
      unfold dispatch
      generalize dispatchTree first.label (last.label - first.label + 1).toNat = d
        at hranged hlabels ⊢
      rw [← hlabels] at hadvanced
      have hregistered : ∀ label ∈ d.labels, s₅.Registered (rangePath id (.leaf label)) := by
        intro label hlabel
        rw [hlabels] at hlabel
        obtain ⟨c, hc, rfl⟩ := List.mem_map.mp hlabel
        obtain ⟨body, hhas, -⟩ := hbodies c hc
        exact hhas.registered
      have hflag : ¬ isFlag score := (Score.parseIn?_userHeld hs.scope hscore).not_isFlag
      refine (rangeTests_meets hflag d rfl hadvanced.sound hregistered hadvanced.covered).mono
        (fun cs s' h => ?_) fun s' h => h.after (hq₄.grows.trans hadvanced.grows)
      obtain ⟨rfl, hstored, hfound, hadvanced'⟩ := h
      have hspace : s'.settings.space = s₅.settings.space := by rw [hadvanced'.grows.settings]
      rw [← hid]
      refine ⟨?_, score, cases, d, ⟨head, braces, r, rfl, hscore, hread, hcases⟩,
        hranged, hlabels, fun c hc => ?_, hspace ▸ hstored, hspace ▸ rfl⟩
      · have htotal := hadvanced'.after (hq₄.grows.trans hadvanced.grows)
          (hadvanced.scope.trans hq₄.scope) (hadvanced.load.trans hq₄.userLoad)
        refine ⟨htotal.grows, htotal.sound, htotal.scope, htotal.load,
          .commands (plain_rangeTests hflag _), resolves_rangeTests hspace hfound, ?_⟩
        rw [calls_rangeTests]
        refine fun e he => (htotal.covered e he).imp (fun hold => hq₄.entries ▸ hold) ?_
        rw [List.append_nil]
        exact fun hnew => hnew
      · obtain ⟨body, hhas, hcompiled⟩ := hbodies c hc
        exact ⟨body, hspace ▸ hadvanced'.grows.has hhas, hcompiled⟩
    · exact .quiet hs (hq₁.trans hq₂)
  · exact .refl hs

end Compile

end Packwright
