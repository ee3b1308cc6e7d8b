import Packwright.Proofs.Census.Gains
import Packwright.Proofs.Session.Ranges

/-!
# Chains, loops and switches become what is counted

Every chain, loop and switch becomes as many commands as its census tells, and the session gains the
items of the census, as long as this holds of the bodies inside. The count of commands is carried along
because it decides which arms of a chain need a function.

## Main definitions

- `Branch.shape` — what a census knows of an arm
- `Compile.CountsBlock` — bodies become what is counted

## Main results

- `Compile.gains_elseBranches`, `Compile.counts_chainCommands` — the arms of a chain, and what is made of
  them
- `Compile.counts_chain`, `Compile.counts_whileLoop`, `Compile.counts_doWhile`, `Compile.counts_forLoop` —
  chains and loops
- `Compile.gains_registerCases`, `Compile.gains_rangeTests`, `Compile.counts_switch` — switches
-/

namespace Packwright

/-- How many commands prepare the condition of an arm, if it has one, and how many its body has. -/
def Branch.shape (arm : Branch) : Arm := ⟨arm.condition.map (·.before.length), arm.body.length⟩

namespace Census

@[simp] theorem reading_ok {ε α β : Type} [Inhabited β] (a : α) (count : α → β) :
    reading (.ok a : Except ε α) count = count a := rfl

/-- The final `else` is dropped for the same arms. -/
theorem dropEmptyElse_shape (arms : List Branch) :
    (Compile.dropEmptyElse arms).map Branch.shape = dropEmptyElse (arms.map Branch.shape) := by
  unfold Compile.dropEmptyElse dropEmptyElse
  rw [List.getLast?_map, List.length_map]
  cases arms.getLast? with
  | none => rfl
  | some last =>
    obtain ⟨condition, body⟩ := last
    cases condition with
    | some c => rfl
    | none =>
      cases body with
      | cons command more => rfl
      | nil =>
        show List.map _ (if 1 < arms.length then _ else _) = if 1 < arms.length then _ else _
        split
        · rw [List.map_dropLast]
        · rfl

end Census

namespace Compile

variable {block : Block} {counter : Census.Counter}

/-- Bodies become what is counted. -/
def CountsBlock (block : Block) (counter : Census.Counter) : Prop :=
  ∀ statements, (block statements).Counts (counter statements)

theorem gains_body (hblock : CountsBlock block counter) (t : Token) :
    (body block t).Counts (Census.body counter t) := by
  unfold body
  split
  · refine (gains_tokenizeInner _ t).next fun statements hread => ?_
    obtain ⟨r, hr, rfl⟩ := hread
    rw [Census.body, hr]
    exact hblock r.statements
  · exact gains_failAt

/-! ### Chains -/

theorem gains_ifBranch (hblock : CountsBlock block counter) (keyword : Token) (rest : List Token) :
    (ifBranch block keyword rest).Gains (Census.ifArm counter keyword rest).2 0
      fun arm => arm.shape = (Census.ifArm counter keyword rest).1 := by
  refine gains_ofExcept fun parts hparts => ?_
  rw [Census.ifArm, hparts, Census.reading_ok]
  refine (gains_condition parts.1).next fun c hc => ?_
  refine (gains_body hblock parts.2).last fun commands hcommands => gains_pure ?_
  rw [Branch.shape, Option.map_some, hc, hcommands]

theorem gains_elseBranch (hblock : CountsBlock block counter) (closed : Bool) (keyword : Token)
    (rest : List Token) :
    (elseBranch block closed keyword rest).Gains (Census.elseArm counter rest).2 0
      fun arm => arm.shape = (Census.elseArm counter rest).1 := by
  unfold elseBranch
  split
  · exact gains_failAt
  cases rest with
  | nil => exact gains_failAt
  | cons next more =>
    by_cases hfinal : (more.isEmpty && next.isGroup .curly) = true
    · simp only [Census.elseArm, hfinal, if_true]
      refine (gains_body hblock next).last fun commands hcommands => gains_pure ?_
      rw [Branch.shape, Option.map_none, hcommands]
    · simp only [Census.elseArm, hfinal]
      by_cases hif : next.isWord "if" = true
      · rw [if_pos hif]
        exact gains_ifBranch hblock next more
      · rw [if_neg hif]
        exact gains_failAt

/-- The arms of the `else` statements come behind those that were read before. -/
theorem gains_elseBranches (hblock : CountsBlock block counter) (statements : List Statement)
    (arms : List Branch) :
    (elseBranches block arms statements).Gains ((Census.elseArms counter statements).flatMap Prod.snd) 0
      fun all => all.map Branch.shape =
        arms.map Branch.shape ++ (Census.elseArms counter statements).map Prod.fst := by
  induction statements generalizing arms with
  | nil => exact gains_pure (by rw [Census.elseArms, List.map_nil, List.append_nil])
  | cons s rest ih =>
    unfold elseBranches Census.elseArms
    cases s.tokens with
    | nil => exact ih arms
    | cons keyword tokens =>
      refine (gains_elseBranch hblock _ keyword tokens).then fun arm harm => ?_
      refine (ih _).mono fun all hall => ?_
      rw [hall, List.map_append, List.map_singleton, harm, List.append_assoc, List.map_cons]
      rfl

theorem length_armCommands (first : Bool) (arm : Branch) (callArm : Command) :
    (armCommands first arm.condition callArm).length = arm.shape.preparations.getD 0 + 1 := by
  obtain ⟨condition, body⟩ := arm
  cases condition with
  | none => rfl
  | some c => cases first <;> simp [armCommands, Rendered.guardedCommands, Branch.shape]

/-- Each of several arms gets a function. -/
theorem gains_armsCommands (first : Bool) (arms : List Branch) :
    (armsCommands first arms).Gains (List.replicate arms.length .arm) 0 fun cs =>
      cs.length = (arms.map fun arm => arm.shape.preparations.getD 0 + 1).sum := by
  induction arms generalizing first with
  | nil => exact gains_pure rfl
  | cons arm rest ih =>
    rw [List.length_cons, List.replicate_succ]
    refine (gains_allocateNext .arm rfl rfl (fun _ => rfl) _).then fun path _ => ?_
    refine (gains_call path).next fun callArm _ => (ih false).last fun more hmore => gains_pure ?_
    rw [List.length_append, length_armCommands, hmore, List.map_cons, List.sum_cons]

theorem counts_singleArm (c : Rendered) (commands : List Command) :
    (singleArm c commands).Counts (Census.singleArm c.before.length commands.length) := by
  match commands with
  | [] => exact gains_pure rfl
  | [only] => exact gains_pure (by simp [Rendered.guardedCommands, Census.singleArm])
  | _ :: _ :: _ =>
    refine (gains_allocateNext .arm rfl rfl (fun _ => rfl) _).last fun path _ => ?_
    refine (gains_call path).next fun callArm _ => gains_pure ?_
    simp [Rendered.guardedCommands, Census.singleArm]

theorem counts_chainCommands (arms : List Branch) :
    (chainCommands arms).Counts (Census.ofArms (arms.map Branch.shape)) := by
  unfold chainCommands Census.ofArms
  rw [← Census.dropEmptyElse_shape]
  generalize dropEmptyElse arms = kept
  match kept with
  | [⟨some c, commands⟩] => exact counts_singleArm c commands
  | [⟨none, _⟩] => exact gains_fail
  | [] =>
    refine (gains_armsCommands true []).last fun commands hcommands => gains_pure ?_
    rw [List.length_cons, hcommands]
    rfl
  | ⟨condition, body⟩ :: second :: rest =>
    have hmany : (armsCommands true (⟨condition, body⟩ :: second :: rest) >>=
        fun commands => pure (.set ifElseFlag 0 :: commands) : Compile (List Command)).Counts
        ⟨((Branch.mk condition body :: second :: rest).map
            fun arm => arm.shape.preparations.getD 0 + 1).sum + 1,
          List.replicate (rest.length + 2) .arm⟩ := by
      refine (gains_armsCommands true _).last fun commands hcommands => gains_pure ?_
      rw [List.length_cons, hcommands]
    have hshapes : ((⟨condition, body⟩ :: second :: rest).map Branch.shape).map
        (fun arm => arm.preparations.getD 0 + 1) =
        (Branch.mk condition body :: second :: rest).map
          fun arm => arm.shape.preparations.getD 0 + 1 := List.map_map
    rw [← hshapes] at hmany
    cases condition <;> simpa using hmany

theorem counts_chain (hblock : CountsBlock block counter) (keyword : Token) (rest : List Token)
    (elses : List Statement) :
    (chain block keyword rest elses).Counts (Census.chain counter keyword rest elses) := by
  unfold chain Census.chain
  simp only [List.flatMap_cons, List.append_assoc]
  refine (gains_ifBranch hblock keyword rest).then fun first hfirst => ?_
  refine (gains_elseBranches hblock elses [first]).then fun arms harms => ?_
  rw [List.map_cons, ← hfirst, ← List.singleton_append, ← List.map_singleton, ← harms]
  exact counts_chainCommands arms

/-! ### Loops -/

theorem counts_whileLoop (hblock : CountsBlock block counter) (keyword : Token) (rest : List Token) :
    (whileLoop block keyword rest).Counts (Census.whileLoop counter keyword rest) := by
  refine gains_ofExcept fun parts hparts => ?_
  rw [Census.whileLoop, hparts, Census.reading_ok]
  refine gains_takeId .whileLoop rfl rfl fun id => ?_
  refine (gains_condition parts.1).next fun c hc => (gains_call _).next fun again _ => ?_
  rw [← List.append_nil (Census.body counter parts.2).items]
  refine (gains_body hblock parts.2).bind fun commands _ => ?_
  refine (gains_allocate rfl _ _).last fun _ _ => gains_pure ?_
  rw [Rendered.guardedCommands, List.length_append, hc, List.length_singleton]

theorem counts_doWhile (hblock : CountsBlock block counter) (keyword : Token) (rest : List Token)
    (tail : Option Statement) :
    (doWhile block keyword rest tail).Counts (Census.doWhile counter rest) := by
  unfold doWhile
  split
  · next braces =>
    refine gains_takeId .doWhile rfl rfl fun id => ?_
    rw [← List.append_nil (Census.body counter braces).items]
    refine (gains_body hblock braces).bind fun commands _ => ?_
    split
    · refine gains_ofExcept fun head _ => (gains_condition head).next fun c _ => ?_
      refine (gains_call _).next fun again _ => ?_
      exact (gains_allocate rfl _ _).last fun _ _ => gains_pure rfl
    · exact gains_failAt
  · exact gains_failAt

theorem gains_bindLoopVariable (id : Nat) (tokens : List Token) :
    (bindLoopVariable id tokens).Gains [] := by
  unfold bindLoopVariable
  split
  · split
    · split
      · exact (gains_debug _).next fun _ _ => gains_modify fun _ => .of_same rfl rfl rfl
      · exact gains_pure trivial
    · exact gains_pure trivial
  · exact gains_pure trivial

theorem gains_inScope {α : Type} {m : Compile α} {items : List Item}
    {extra : Feature → Multiset String} {P : α → Prop} (h : m.Gains items extra P) :
    (inScope m).Gains items extra P := by
  refine ⟨fun s => meets_inScope.mpr ?_⟩
  refine (h.meets { s with scope := s.scope.push }).mono (fun a s' h' => ⟨?_, h'.2⟩) fun s' h' => h'
  exact h'.1.within (.of_same rfl rfl rfl) (.of_same rfl rfl rfl)

theorem counts_forParts (hblock : CountsBlock block counter) (id : Nat) (init test step : Statement)
    (head braces : Token) :
    (forParts block id init test step head braces).Gains
      ((counter [init]).items ++ ((counter [step]).items ++ (Census.body counter braces).items))
      (Pi.single .forLoop {toString id})
      fun cs => cs.length = (Census.forParts counter init test step head braces).commands := by
  refine (gains_bindLoopVariable id _).next fun _ _ => ?_
  refine (hblock [init]).then fun initCommands hinit => ?_
  refine (gains_ofNoting _).next fun tree htree => (gains_render tree).next fun c hc => ?_
  refine (hblock [step]).then fun stepCommands _ => (gains_call _).next fun again _ => ?_
  rw [← List.append_nil (Census.body counter braces).items]
  refine Gains.then (gains_body hblock braces) fun commands _ => ?_
  refine (gains_allocate rfl _ _).last fun _ _ => gains_pure ?_
  rw [List.length_append, hinit, Rendered.guardedCommands, List.length_append, hc,
    List.length_singleton, Census.forParts, Census.noting_eq htree]

theorem counts_forLoop (hblock : CountsBlock block counter) (keyword : Token) (rest : List Token) :
    (forLoop block keyword rest).Counts (Census.forLoop counter keyword rest) := by
  refine gains_ofExcept fun parts hparts => ?_
  rw [Census.forLoop, hparts, Census.reading_ok]
  refine (gains_tokenizeInner .optional parts.1).next fun statements hread => ?_
  obtain ⟨r, hr, rfl⟩ := hread
  rw [hr, Census.reading_ok]
  generalize r.statements = statements
  rcases statements with _ | ⟨init, _ | ⟨test, _ | ⟨step, _ | ⟨extra, more⟩⟩⟩⟩
  case cons.cons.cons.nil =>
    refine gains_takeId .forLoop rfl rfl fun id => gains_inScope ?_
    rw [zero_add]
    exact counts_forParts hblock id init test step parts.1 parts.2
  all_goals exact gains_failAt

/-! ### Switches -/

theorem gains_collectCases (statements : List Statement) :
    (collectCases statements).Gains [] 0
      fun cases => ReadsCases statements cases ∧ Consecutive cases := by
  refine ⟨fun s => (collectCases_meets fun st _ => anyCalls_includes s st.tokens).mono
    (fun cases s' h => ?_) fun s' h => ?_⟩
  · obtain ⟨hquiet, hpack, hreads, hconsecutive, -⟩ := h
    exact ⟨.of_same hquiet.settings (by rw [hpack]) hquiet.sqrtEmitted, hreads, hconsecutive⟩
  · exact fun hs => hs.quiet h

/-- The cases of a switch are registered each by its label. -/
theorem gains_registerCases (hblock : CountsBlock block counter) (id : Nat) (cases : List Case) :
    (registerCases block id cases).Gains (cases.flatMap fun c => (counter c.statements).items)
      (Pi.single .switchCase
        ((cases.map Case.label).map fun label => toString id ++ "/" ++ toString label)) := by
  induction cases with
  | nil => exact (Pi.single_zero (M := fun _ => Multiset String) Feature.switchCase).symm ▸
      gains_pure trivial
  | cons c rest ih =>
    rw [List.map_cons, List.map_cons, ← Multiset.cons_coe, ← Multiset.singleton_add, Pi.single_add]
    refine (hblock c.statements).then fun commands _ => ?_
    exact (gains_register rfl _ commands).due fun _ _ => ih

theorem gains_rangeTest (id : Nat) (score : Score) (d : Dispatch) :
    (rangeTest id score d).Gains [] :=
  (gains_call _).next fun _ _ => gains_pure trivial

/-- The ranges inside a range are registered each by its bounds, and the range itself behind them. -/
theorem gains_rangeTests (id : Nat) (score : Score) (d : Dispatch) :
    (rangeTests id score d).Gains []
        (Pi.single .switchCase
          ((d.parts.flatMap Dispatch.nodes).map fun d => toString id ++ "/" ++ d.name))
        (fun cs => cs.length = d.parts.length) ∧
      (registerRange id d (rangeTests id score d)).Gains []
        (Pi.single .switchCase (d.nodes.map fun d => toString id ++ "/" ++ d.name)) := by
  have hnone : (Pi.single Feature.switchCase ((([] : List String)) : Multiset String) :
      Feature → Multiset String) = 0 := Pi.single_zero _
  induction d with
  | leaf label =>
    constructor
    · show Gains _ [] (Pi.single Feature.switchCase (([] : List String) : Multiset String)) _
      rw [hnone]
      exact (gains_rangeTest id score _).next fun _ _ => gains_pure rfl
    · show Gains _ [] (Pi.single Feature.switchCase (([] : List String) : Multiset String)) _
      rw [hnone]
      exact gains_pure trivial
  | node low high left right ihleft ihright =>
    have htests : (rangeTests id score (.node low high left right)).Gains []
        (Pi.single .switchCase
          ((left.nodes ++ right.nodes).map fun d => toString id ++ "/" ++ d.name))
        (fun cs => cs.length = 2) := by
      rw [List.map_append, ← Multiset.coe_add, Pi.single_add]
      refine ihleft.2.due fun _ _ => (gains_rangeTest _ _ _).next fun testLeft _ => ?_
      refine ihright.2.last fun _ _ => (gains_rangeTest _ _ _).next fun testRight _ => ?_
      exact gains_pure rfl
    constructor
    · simpa [Dispatch.parts] using htests
    · rw [Dispatch.nodes, List.map_append, ← Multiset.coe_add, Pi.single_add]
      exact htests.due fun tests _ => (gains_register rfl _ tests).last fun _ _ => gains_pure trivial

end Compile

/-- The whole range of a switch has one part, or two if there are several labels. -/
theorem length_parts_dispatchTree (low : Int) {count : Nat} (hcount : 0 < count) :
    (dispatchTree low count).parts.length = min count 2 := by
  obtain ⟨n, rfl⟩ : ∃ n, count = n + 1 := ⟨count - 1, by omega⟩
  unfold dispatchTree dispatchWithin
  split
  · next hsingle =>
    rw [Dispatch.parts, List.length_singleton]
    omega
  · next hlarge =>
    simp only [Dispatch.parts, List.length_cons, List.length_nil]
    omega

namespace Compile

variable {block : Block} {counter : Census.Counter}

-- reading a score computes on characters, which unification must not look into
attribute [local irreducible] score? switchScore

theorem gains_score? {α : Type} {items : List Item} {extra : Feature → Multiset String}
    {P : α → Prop} {text : String} {f : Option Score → Compile α}
    (hf : ∀ found, (f found).Gains items extra P) : (score? text >>= f).Gains items extra P := by
  unfold score?
  exact gains_get fun s => hf _

theorem gains_switchScore (head : Token) : (switchScore head).Gains [] := by
  unfold switchScore
  refine gains_score? fun found => ?_
  cases found with
  | some s => exact gains_pure trivial
  | none => exact gains_failAt

theorem counts_switch (hblock : CountsBlock block counter) (keyword : Token) (rest : List Token) :
    (switch block keyword rest).Counts (Census.switch counter rest) := by
  unfold switch
  split
  · next head braces =>
    split
    · exact gains_failAt
    split
    · exact gains_failAt
    refine (gains_switchScore head).next fun score _ => ?_
    refine (gains_tokenizeInner .required braces).next fun statements hread => ?_
    obtain ⟨r, hr, rfl⟩ := hread
    refine (gains_collectCases r.statements).next fun cases hcases => ?_
    obtain ⟨⟨raw, hraw, rfl⟩, hconsecutive⟩ := hcases
    rw [Census.switch, hr, Census.reading_ok, hraw, Census.reading_ok]
    split
    · next first last hfirst hlast =>
      obtain ⟨hlabels, hcount⟩ := hconsecutive.labels hfirst hlast
      have hsome : 0 < raw.length := by
        rw [← List.length_map (f := Case.withoutBreaks)]
        exact List.length_pos_of_mem (List.mem_of_head? hfirst)
      obtain ⟨first', hfirst', rfl⟩ : ∃ c, raw.head? = some c ∧ c.withoutBreaks = first := by
        rwa [List.head?_map, Option.map_eq_some_iff] at hfirst
      rw [List.length_map] at hlabels hcount
      have hsame : first'.withoutBreaks.label = first'.label := rfl
      rw [hsame] at hlabels hcount ⊢
      simp only [Census.ofCases, hfirst']
      refine gains_takeId (.switch first'.label raw.length) rfl rfl fun id => ?_
      refine (gains_debug _).next fun _ _ => ?_
      have hboth := (gains_registerCases hblock id (raw.map Case.withoutBreaks)).bind fun _ _ =>
        (gains_rangeTests id score (dispatchTree first'.label raw.length)).1
      rw [hlabels, List.append_nil, List.flatMap_map, ← Pi.single_add, Multiset.coe_add,
        length_parts_dispatchTree _ hsome] at hboth
      rw [zero_add, dispatch, hcount]
      exact hboth
    · exact gains_failAt
  · exact gains_failAt

end Compile

end Packwright
