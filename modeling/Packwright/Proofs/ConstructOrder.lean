import Mathlib.Tactic.MkIffOfInductiveProp
import Packwright.Proofs.Session.Loops
import Packwright.Proofs.Session.Parking
import Packwright.Proofs.Session.TopLevel

/-!
# Constructs in place

The statements of a block that compiles split into constructs in only one way, and the block does
what the constructs do one after the other. A block with an `else` that no chain waits for, or with
a `do` that its `while` does not follow, never compiles.

## Main definitions

- `IsConstruct`, `SplitsInto` — the statements of one construct, and of a block
- `Stray` — statements with an `else` or a `do` that is no part of a construct
- `Compile.eachInPlace` — compiles groups of statements, each as a block of its own

## Main results

- `SplitsInto.unique` — there is only one way to split statements
- `Compile.blockAt_eq_eachInPlace` — a block does what its constructs do
- `Compile.complete_of_blockAt` — what is split off a block that compiles is complete
- `constructs_emitted_in_place` — blocks at any level
-/

namespace Packwright

/-! ### Groups of statements -/

/-- Whether an `else` has a condition: `else if (...) { ... }`. -/
def Statement.hasCondition (s : Statement) : Bool :=
  match s.tokens with
  | [_, next, head, body] => next.isWord "if" && head.isGroup .round && body.isGroup .curly
  | _ => false

/-- Whether a `while` can end a `do`: `while (...)`. -/
def Statement.endsDo (s : Statement) : Bool :=
  match s.tokens with
  | [_, head] => head.isGroup .round
  | _ => false

/-- The statements of one construct. Only the last `else` of a chain may lack a condition. -/
inductive IsConstruct : List Statement → Prop
  | chain {first : Statement} {elses : List Statement} (hfirst : first.kind = .ifBranch)
    (helses : ∀ e ∈ elses, e.kind = .elseBranch)
    (hconditions : ∀ e ∈ elses.dropLast, e.hasCondition = true) : IsConstruct (first :: elses)
  | doWhile {first w : Statement} (hfirst : first.kind = .doLoop) (hw : w.kind = .whileLoop)
    (hcondition : w.endsDo = true) : IsConstruct [first, w]
  | single {s : Statement} (hif : s.kind ≠ .ifBranch) (helse : s.kind ≠ .elseBranch)
    (hdo : s.kind ≠ .doLoop) : IsConstruct [s]

/-- The statements are those of the groups, and each group is a construct. -/
structure SplitsInto (statements : List Statement) (groups : List (List Statement)) : Prop where
  flatten : groups.flatten = statements
  constructs : ∀ g ∈ groups, IsConstruct g

/-- The statements end in a chain that an `else` can go on with. -/
def EndsInChain (statements : List Statement) : Prop :=
  ∃ (before : List Statement) (first : Statement) (elses : List Statement),
    statements = before ++ first :: elses ∧ first.kind = .ifBranch ∧
      ∀ e ∈ elses, e.kind = .elseBranch ∧ e.hasCondition = true

/-- The statements begin with the `while` of a `do`. -/
def BeginsWithWhile (statements : List Statement) : Prop :=
  ∃ w rest, statements = w :: rest ∧ w.kind = .whileLoop ∧ w.endsDo = true

/-- Some `else` does not go on with a chain directly in front of it, or some `do` does not have its
`while` directly behind it. -/
@[mk_iff]
inductive Stray : List Statement → Prop
  | looseElse {front back : List Statement} {e : Statement} (he : e.kind = .elseBranch)
    (hfront : ¬ EndsInChain front) : Stray (front ++ e :: back)
  | openDo {front back : List Statement} {d : Statement} (hd : d.kind = .doLoop)
    (hback : ¬ BeginsWithWhile back) : Stray (front ++ d :: back)

theorem EndsInChain.append {l : List Statement} (h : EndsInChain l) (front : List Statement) :
    EndsInChain (front ++ l) := by
  obtain ⟨before, first, elses, rfl, h⟩ := h
  exact ⟨front ++ before, first, elses, by simp, h⟩

theorem not_endsInChain_nil : ¬ EndsInChain [] := by
  rintro ⟨before, first, elses, h, -⟩
  simp at h

theorem BeginsWithWhile.append {l : List Statement} (h : BeginsWithWhile l)
    (back : List Statement) : BeginsWithWhile (l ++ back) := by
  obtain ⟨w, rest, rfl, h⟩ := h
  exact ⟨w, rest ++ back, rfl, h⟩

/-- What is stray in two lists together is stray in one of them. -/
theorem Stray.of_append {a b : List Statement} (h : Stray (a ++ b)) : Stray a ∨ Stray b := by
  rcases (stray_iff _).mp h with
    ⟨front, back, e, he, hfront, hl⟩ | ⟨front, back, d, hd, hback, hl⟩
  · rcases List.append_eq_append_iff.mp hl with ⟨front', rfl, rfl⟩ | ⟨behind, rfl, hb⟩
    · exact .inr (.looseElse he fun h => hfront (h.append a))
    · cases behind with
      | nil =>
        obtain rfl : e :: back = b := hb
        have hloose : Stray ([] ++ e :: back) := .looseElse he not_endsInChain_nil
        exact .inr hloose
      | cons e' behind =>
        obtain ⟨rfl, rfl⟩ := List.cons.inj hb
        exact .inl (.looseElse he hfront)
  · rcases List.append_eq_append_iff.mp hl with ⟨front', rfl, rfl⟩ | ⟨behind, rfl, hb⟩
    · exact .inr (.openDo hd hback)
    · cases behind with
      | nil =>
        obtain rfl : d :: back = b := hb
        have hopen : Stray ([] ++ d :: back) := .openDo hd hback
        exact .inr hopen
      | cons d' behind =>
        obtain ⟨rfl, rfl⟩ := List.cons.inj hb
        exact .inl (.openDo hd fun h => hback (h.append b))

/-- Where nothing is an `else` or a `do`, nothing is stray. -/
theorem not_stray_of_kinds {l : List Statement}
    (h : ∀ s ∈ l, s.kind ≠ .elseBranch ∧ s.kind ≠ .doLoop) : ¬ Stray l := by
  rintro (⟨he, -⟩ | ⟨hd, -⟩)
  · exact (h _ (by simp)).1 he
  · exact (h _ (by simp)).2 hd

/-- Each `else` of a chain stands behind arms with conditions. -/
theorem chain_not_stray {first : Statement} {elses : List Statement}
    (hfirst : first.kind = .ifBranch) (helses : ∀ e ∈ elses, e.kind = .elseBranch)
    (hconditions : ∀ e ∈ elses.dropLast, e.hasCondition = true) : ¬ Stray (first :: elses) := by
  intro h
  rcases (stray_iff _).mp h with ⟨front, back, e, he, hfront, hl⟩ | ⟨front, back, d, hd, -, hl⟩
  · rcases List.cons_eq_append_iff.mp hl with ⟨rfl, hl⟩ | ⟨front', rfl, rfl⟩
    · obtain ⟨rfl, rfl⟩ := List.cons.inj hl
      simp [hfirst] at he
    · refine hfront ⟨[], first, front', rfl, hfirst, fun e' he' => ?_⟩
      -- arms in front of `e` are not the last one
      have hmem : e' ∈ (front' ++ e :: back).dropLast := by
        rw [List.dropLast_append_of_ne_nil (List.cons_ne_nil _ _)]
        exact List.mem_append_left _ he'
      exact ⟨helses e' (List.mem_append_left _ he'), hconditions e' hmem⟩
  · have hmem : d ∈ first :: elses := by simp [hl]
    rcases List.mem_cons.mp hmem with rfl | hmem
    · simp [hfirst] at hd
    · simp [helses d hmem] at hd

theorem doWhile_not_stray {first w : Statement} (hfirst : first.kind = .doLoop)
    (hw : w.kind = .whileLoop) (hcondition : w.endsDo = true) : ¬ Stray [first, w] := by
  intro h
  rcases (stray_iff _).mp h with ⟨front, back, e, he, -, hl⟩ | ⟨front, back, d, hd, hback, hl⟩
  · have hmem : e ∈ [first, w] := by simp [hl]
    rcases List.mem_pair.mp hmem with rfl | rfl
    · simp [hfirst] at he
    · simp [hw] at he
  · rcases List.cons_eq_append_iff.mp hl with ⟨rfl, htail⟩ | ⟨front', rfl, htail⟩
    · obtain ⟨rfl, rfl⟩ := List.cons.inj htail
      exact hback ⟨w, [], rfl, hw, hcondition⟩
    · have hmem : d ∈ [w] := by simp [htail]
      obtain rfl := List.mem_singleton.mp hmem
      simp [hw] at hd

/-- Nothing in a construct is stray. -/
theorem IsConstruct.not_stray {g : List Statement} (hg : IsConstruct g) : ¬ Stray g := by
  cases hg with
  | chain hfirst helses hconditions => exact chain_not_stray hfirst helses hconditions
  | doWhile hfirst hw hcondition => exact doWhile_not_stray hfirst hw hcondition
  | single hif helse hdo =>
    exact not_stray_of_kinds (List.forall_mem_singleton.mpr ⟨helse, hdo⟩)

/-- Nothing in a list that splits into constructs is stray. -/
theorem SplitsInto.not_stray {statements : List Statement} {groups : List (List Statement)}
    (h : SplitsInto statements groups) : ¬ Stray statements := by
  obtain ⟨rfl, hgroups⟩ := h
  induction groups with
  | nil => exact not_stray_of_kinds (by simp)
  | cons g groups ih =>
    obtain ⟨hg, hgroups⟩ := List.forall_mem_cons.mp hgroups
    intro h
    exact h.of_append.elim hg.not_stray (ih hgroups)

/-! ### Complete constructs -/

/-- The construct has all that it needs, and no arm stands behind one without a condition. -/
def Construct.Complete : Construct → Prop
  | .chain _ elses => ∀ e ∈ elses.dropLast, e.hasCondition = true
  | .doWhile _ tail => ∃ w, tail = some w ∧ w.endsDo = true
  | .single s => s.kind ≠ .elseBranch

theorem Construct.Complete.whole {c : Construct} (h : c.Complete) : c.Whole := by
  cases c with
  | chain => trivial
  | doWhile first tail =>
    obtain ⟨w, rfl, -⟩ := h
    exact Option.some_ne_none w
  | single => exact h

/-- The statements of a construct are those of one that is complete. -/
theorem isConstruct_iff {g : List Statement} :
    IsConstruct g ↔ ∃ c : Construct, c.statements = g ∧ c.Fits ∧ c.Complete := by
  constructor
  · rintro (⟨hfirst, helses, hconditions⟩ | ⟨hfirst, hw, hcondition⟩ | ⟨hif, helse, hdo⟩)
    · exact ⟨.chain _ _, rfl, ⟨hfirst, helses⟩, hconditions⟩
    · exact ⟨.doWhile _ (some _), rfl, ⟨hfirst, by simpa using hw⟩, _, rfl, hcondition⟩
    · exact ⟨.single _, rfl, ⟨hif, hdo⟩, helse⟩
  · rintro ⟨c, rfl, hfits, hcomplete⟩
    cases c with
    | chain first elses => exact .chain hfits.1 hfits.2 hcomplete
    | doWhile first tail =>
      obtain ⟨w, rfl, hcondition⟩ := hcomplete
      exact .doWhile hfits.1 (hfits.2 w rfl) hcondition
    | single s => exact .single hfits.1 hcomplete hfits.2

/-- A list is split into the statements of its constructs, if these are complete. -/
theorem splitsInto_iff {statements : List Statement} {groups : List (List Statement)} :
    SplitsInto statements groups ↔
      groups = (constructs statements).map Construct.statements ∧
        ∀ c ∈ constructs statements, c.Complete := by
  constructor
  · rintro ⟨rfl, hgroups⟩
    have hexists : ∃ cs : List Construct, cs.map Construct.statements = groups ∧
        (∀ c ∈ cs, c.Fits) ∧ ∀ c ∈ cs, c.Complete := by
      induction groups with
      | nil => exact ⟨[], rfl, by simp, by simp⟩
      | cons g groups ih =>
        obtain ⟨hg, hgroups'⟩ := List.forall_mem_cons.mp hgroups
        obtain ⟨c, rfl, hfits, hcomplete⟩ := isConstruct_iff.mp hg
        obtain ⟨cs, rfl, hfits', hcomplete'⟩ := ih hgroups'
        exact ⟨c :: cs, rfl, List.forall_mem_cons.mpr ⟨hfits, hfits'⟩,
          List.forall_mem_cons.mpr ⟨hcomplete, hcomplete'⟩⟩
    obtain ⟨cs, rfl, hfits, hcomplete⟩ := hexists
    rw [← List.flatMap_def, constructs_of_whole hfits fun c hc => (hcomplete c hc).whole]
    exact ⟨rfl, hcomplete⟩
  · rintro ⟨rfl, hcomplete⟩
    refine ⟨?_, ?_⟩
    · rw [← List.flatMap_def, statements_constructs]
    · rintro g hg
      obtain ⟨c, hc, rfl⟩ := List.mem_map.mp hg
      exact isConstruct_iff.mpr ⟨c, rfl, constructs_fit statements c hc, hcomplete c hc⟩

/-- There is only one way to split statements into constructs. -/
theorem SplitsInto.unique {statements : List Statement} {groups groups' : List (List Statement)}
    (h : SplitsInto statements groups) (h' : SplitsInto statements groups') : groups' = groups := by
  rw [(splitsInto_iff.mp h).1, (splitsInto_iff.mp h').1]

/-! ### Constructs that compile -/

namespace Compile

variable {inner : Block} {importer : Importer} {level : Level} {out out' : List Command}
  {s t : Session}

theorem headAndBody_groups {keyword head braces : Token}
    (h : headAndBody keyword [head, braces] = .ok (head, braces)) :
    head.isGroup .round = true ∧ braces.isGroup .curly = true := by
  simp only [headAndBody] at h
  split at h
  · cases h
  · next hround =>
    split at h
    · cases h
    · next hcurly => exact ⟨by simpa using hround, by simpa using hcurly⟩

theorem doWhileHead_group {keyword head : Token} {rest : List Token}
    (h : doWhileHead keyword rest = .ok head) : rest = [head] ∧ head.isGroup .round = true := by
  rcases rest with _ | ⟨first, _ | ⟨extra, rest⟩⟩
  · cases h
  · simp only [doWhileHead] at h
    split at h
    · next hround =>
      cases h
      exact ⟨rfl, hround⟩
    · cases h
  · simp only [doWhileHead] at h
    split at h <;> cases h

/-- An arm is read only in a chain that goes on, and then its condition is where it has to be. -/
theorem elseBranch_eq_ok {closed : Bool} {e : Statement} {keyword : Token} {rest : List Token}
    (htokens : e.tokens = keyword :: rest) {arm : Branch}
    (h : (elseBranch inner closed keyword rest).outcome s = (.ok arm, t)) :
    closed = false ∧ (arm.condition.isNone = false → e.hasCondition = true) := by
  unfold elseBranch at h
  cases closed with
  | true => cases h
  | false =>
    refine ⟨rfl, fun hsome => ?_⟩
    rw [if_neg Bool.false_ne_true] at h
    rcases rest with _ | ⟨next, more⟩
    · cases h
    · simp only at h
      split at h
      · -- a final `else` is an arm without a condition
        obtain ⟨commands, s₁, -, harm⟩ := outcome_bind_eq_ok.mp h
        obtain rfl := Except.ok.inj (Prod.mk.inj harm).1
        cases hsome
      · split at h
        · next hword =>
          obtain ⟨⟨head, braces⟩, s₁, hread, -⟩ := outcome_bind_eq_ok.mp h
          have hgroups := (outcome_ofExcept_eq_ok.mp hread).1
          obtain rfl := headAndBody_mem hgroups
          obtain ⟨hround, hcurly⟩ := headAndBody_groups hgroups
          simp [Statement.hasCondition, htokens, hword, hround, hcurly]
        · cases h

theorem elseBranches_cons_eq_ok {e : Statement} {keyword : Token} {tokens : List Token}
    (htokens : e.tokens = keyword :: tokens) {rest : List Statement} {arms arms' : List Branch} :
    (elseBranches inner arms (e :: rest)).outcome s = (.ok arms', t) ↔
      ∃ arm s₁, (elseBranch inner ((arms.getLast?.map (·.condition.isNone)).getD false) keyword
          tokens).outcome s = (.ok arm, s₁) ∧
        (elseBranches inner (arms ++ [arm]) rest).outcome s₁ = (.ok arms', t) := by
  simp only [elseBranches, htokens]
  exact outcome_bind_eq_ok

/-- Each `else` but the last one has a condition. -/
theorem elseBranches_conditions {elses : List Statement}
    (helses : ∀ e ∈ elses, e.kind = .elseBranch) {arms arms' : List Branch}
    (h : (elseBranches inner arms elses).outcome s = (.ok arms', t)) :
    ∀ e ∈ elses.dropLast, e.hasCondition = true := by
  induction elses generalizing arms s with
  | nil => simp
  | cons e rest ih =>
    obtain ⟨he, hrest⟩ := List.forall_mem_cons.mp helses
    obtain ⟨keyword, tokens, htokens⟩ := Statement.exists_tokens he (by decide)
    obtain ⟨arm, s₁, harm, hrun⟩ := (elseBranches_cons_eq_ok htokens).mp h
    cases rest with
    | nil => simp
    | cons e' rest =>
      -- the next arm finds the chain open, so this one has a condition
      obtain ⟨he', -⟩ := List.forall_mem_cons.mp hrest
      obtain ⟨keyword', tokens', htokens'⟩ := Statement.exists_tokens he' (by decide)
      obtain ⟨arm', s₂, harm', -⟩ := (elseBranches_cons_eq_ok htokens').mp hrun
      have hopen : arm.condition.isNone = false := by
        simpa using (elseBranch_eq_ok htokens' harm').1
      rw [List.dropLast_cons_of_ne_nil (List.cons_ne_nil _ _)]
      exact List.forall_mem_cons.mpr ⟨(elseBranch_eq_ok htokens harm).2 hopen, ih hrest hrun⟩

/-- A construct that compiles is complete. -/
theorem complete_of_construct {c : Construct} (hfits : c.Fits) {commands : List Command}
    (h : (construct inner level c).outcome s = (.ok commands, t)) : c.Complete := by
  have hwhole := whole_of_construct hfits h
  cases c with
  | chain first elses =>
    obtain ⟨keyword, tokens, htokens⟩ := Statement.exists_tokens hfits.1 (by decide)
    rw [construct_chain htokens] at h
    obtain ⟨_, _, -, h⟩ := outcome_bind_eq_ok.mp h
    obtain ⟨arm, _, -, h⟩ := outcome_bind_eq_ok.mp h
    obtain ⟨arms, _, h, -⟩ := outcome_bind_eq_ok.mp h
    exact elseBranches_conditions hfits.2 h
  | doWhile first tail =>
    obtain ⟨w, rfl⟩ := Option.ne_none_iff_exists'.mp hwhole
    obtain ⟨keyword, tokens, htokens⟩ := Statement.exists_tokens hfits.1 (by decide)
    obtain ⟨keyword', tokens', htokens'⟩ := Statement.exists_tokens (hfits.2 w rfl) (by decide)
    rw [construct_doWhile htokens] at h
    obtain ⟨_, _, -, h⟩ := outcome_bind_eq_ok.mp h
    obtain ⟨d, _, -, h⟩ := outcome_bind_eq_ok.mp h
    simp only [restOfDo, Option.map_some, htokens'] at h
    obtain ⟨head, _, hhead, -⟩ := outcome_bind_eq_ok.mp h
    obtain ⟨rfl, hround⟩ := doWhileHead_group (outcome_ofExcept_eq_ok.mp hhead).1
    exact ⟨w, rfl, by simp [Statement.endsDo, htokens', hround]⟩
  | single => exact hwhole

/-- Constructs that compile in turn are complete. -/
theorem complete_of_inTurn {cs : List Construct} (hfits : ∀ c ∈ cs, c.Fits)
    (h : (inTurn inner importer level out cs).outcome s = (.ok out', t)) :
    ∀ c ∈ cs, c.Complete := by
  induction cs generalizing out s with
  | nil => simp
  | cons c rest ih =>
    obtain ⟨hc, hrest⟩ := List.forall_mem_cons.mp hfits
    by_cases himport : level = .top → c.import? = none
    · rw [inTurn_cons himport] at h
      obtain ⟨commands, s₁, hconstruct, hrun⟩ := outcome_bind_eq_ok.mp h
      exact List.forall_mem_cons.mpr ⟨complete_of_construct hc hconstruct, ih hrest hrun⟩
    · obtain ⟨rfl, hsome⟩ := Classical.not_imp.mp himport
      obtain ⟨⟨keyword, tokens⟩, hsome⟩ := Option.ne_none_iff_exists'.mp hsome
      obtain ⟨rfl, hkind⟩ := Construct.exists_of_import? hsome
      rw [inTurn_top, topConstructs_import_eq_ok hsome] at h
      obtain ⟨target, s₁, -, -, hrun⟩ := h
      rw [← inTurn_top] at hrun
      refine List.forall_mem_cons.mpr ⟨?_, ih hrest hrun⟩
      show Statement.kind _ ≠ .elseBranch
      rw [hkind]
      decide

/-- What is split off a block that compiles is complete. -/
theorem complete_of_blockAt {depth : Nat} {statements : List Statement}
    (h : (blockAt depth importer level statements).outcome s = (.ok out, t)) :
    ∀ c ∈ constructs statements, c.Complete := by
  rw [blockAt_eq_onePass, onePass_eq_inTurn] at h
  exact complete_of_inTurn (constructs_fit statements) h

/-! ### Groups in place -/

/-- Compiles groups of statements one after the other, each as a block of its own, and puts their
commands together. -/
def eachInPlace (depth : Nat) (importer : Importer) (level : Level)
    (groups : List (List Statement)) : Compile (List Command) := do
  let parts ← groups.mapM (blockAt depth importer level)
  return parts.flatten

/-- The statements of a whole construct are compiled as the construct is. -/
theorem blockAt_statements (depth : Nat) {c : Construct} (hfits : c.Fits) (hwhole : c.Whole)
    (hc : level = .top → c.import? = none) :
    blockAt depth importer level c.statements = construct (block depth) level c := by
  have hconstructs : constructs c.statements = [c] := by
    have h := constructs_of_whole (List.forall_mem_singleton.mpr hfits)
      (List.forall_mem_singleton.mpr hwhole)
    rwa [List.flatMap_singleton] at h
  rw [blockAt_eq_onePass, onePass_eq_inTurn, hconstructs, inTurn_cons hc]
  simp [inTurn]

theorem inTurn_eq_mapM (depth : Nat) {cs : List Construct} (hfits : ∀ c ∈ cs, c.Fits)
    (hwhole : ∀ c ∈ cs, c.Whole) (hcs : ∀ c ∈ cs, level = .top → c.import? = none) :
    inTurn (block depth) importer level out cs =
      (cs.map Construct.statements).mapM (blockAt depth importer level) >>= fun parts =>
        pure (out ++ parts.flatten) := by
  induction cs generalizing out with
  | nil => simp [inTurn]
  | cons c rest ih =>
    obtain ⟨hc, hfits⟩ := List.forall_mem_cons.mp hfits
    obtain ⟨hc', hwhole⟩ := List.forall_mem_cons.mp hwhole
    obtain ⟨himport, hcs⟩ := List.forall_mem_cons.mp hcs
    rw [inTurn_cons himport, List.map_cons, List.mapM_cons,
      blockAt_statements depth hc hc' himport]
    simp [ih hfits hwhole hcs]

/-- A block without imports does what its constructs do, one after the other. -/
theorem blockAt_eq_eachInPlace (depth : Nat) (importer : Importer) (level : Level)
    {statements : List Statement} {groups : List (List Statement)}
    (himports : ∀ st ∈ statements, st.kind ≠ .importFile) (h : SplitsInto statements groups) :
    blockAt depth importer level statements = eachInPlace depth importer level groups := by
  obtain ⟨rfl, hcomplete⟩ := splitsInto_iff.mp h
  have hnone : ∀ c ∈ constructs statements, c.import? = none := by
    intro c hc
    refine Construct.import?_eq_none fun st hst => himports st ?_
    rw [← statements_constructs statements]
    exact List.mem_flatMap.mpr ⟨c, hc, hst⟩
  rw [blockAt_eq_onePass, onePass_eq_inTurn, eachInPlace,
    inTurn_eq_mapM depth (constructs_fit statements) (fun c hc => (hcomplete c hc).whole)
      fun c hc _ => hnone c hc]
  simp

end Compile

/-- A block is compiled as in one pass, in which the arms of a chain and the body of a `do` wait for
the statements behind them. If it compiles, its statements split into constructs in exactly one way;
without imports, the constructs one after the other give the same commands and lead to the same
session. A block in which an `else` or a `do` is stray never compiles. -/
theorem constructs_emitted_in_place (depth : Nat) (importer : Compile.Importer) (level : Level)
    (statements : List Statement) :
    Compile.blockAt depth importer level statements =
        Compile.onePass (Compile.block depth) importer level statements ∧
      (∀ (s t : Session) (commands : List Command),
        (Compile.blockAt depth importer level statements).outcome s = (.ok commands, t) →
        ∃ groups, SplitsInto statements groups ∧
          (∀ groups', SplitsInto statements groups' → groups' = groups) ∧
          ((∀ st ∈ statements, st.kind ≠ .importFile) →
            (Compile.eachInPlace depth importer level groups).outcome s = (.ok commands, t))) ∧
      (Stray statements → ∀ (s t : Session) (commands : List Command),
        (Compile.blockAt depth importer level statements).outcome s ≠ (.ok commands, t)) := by
  have hsplits : ∀ {s t : Session} {commands : List Command},
      (Compile.blockAt depth importer level statements).outcome s = (.ok commands, t) →
      SplitsInto statements ((constructs statements).map Construct.statements) :=
    fun hrun => splitsInto_iff.mpr ⟨rfl, Compile.complete_of_blockAt hrun⟩
  refine ⟨Compile.blockAt_eq_onePass depth importer level statements, ?splits, ?never⟩
  case splits =>
    intro s t commands hrun
    refine ⟨_, hsplits hrun, fun groups' h' => (hsplits hrun).unique h', fun himports => ?_⟩
    rwa [← Compile.blockAt_eq_eachInPlace depth importer level himports (hsplits hrun)]
  case never =>
    intro hstray s t commands hrun
    exact (hsplits hrun).not_stray hstray

/-- The statements of a text, if it can be read. -/
def statementsOf (text : String) : List Statement :=
  match tokenize .required Position.start text with
  | .ok r => r.statements
  | .error _ => []

/-- A chain with all kinds of arms, a `do` with its `while`, and a `while` of its own. -/
def mixedBody : List Statement :=
  statementsOf ("say a; if ($x == 1) \x7b say b; say c; \x7d else if ($x == 2) \x7b say d; \x7d " ++
    "else \x7b say e; \x7d do \x7b say f; \x7d while ($x < 3); while ($x > 5) \x7b f(); \x7d say g;")

/-- A `do` without its `while`. -/
def openBody : List Statement := statementsOf "do \x7b say a; \x7d say b; while ($x < 3) \x7b f(); \x7d"

theorem mixed_emitted_in_place :
    (∀ st ∈ mixedBody, st.kind ≠ .importFile) ∧ Stray openBody ∧
      (∃ commands t groups,
        (Compile.blockAt 2 (Compile.importFile ⟨[]⟩) .body mixedBody).outcome (Session.new {}) =
          (.ok commands, t) ∧ commands.length = 8 ∧
        groups.map List.length = [1, 3, 2, 1, 1] ∧ SplitsInto mixedBody groups ∧
        (Compile.eachInPlace 2 (Compile.importFile ⟨[]⟩) .body groups).outcome (Session.new {}) =
          (.ok commands, t)) ∧
      ∀ commands t, (Compile.blockAt 2 (Compile.importFile ⟨[]⟩) .body openBody).outcome
        (Session.new {}) ≠ (.ok commands, t) := by
  have hstray : Stray openBody := by
    have hbody : openBody = [] ++ openBody[0]! :: [openBody[1]!, openBody[2]!] ∧
        openBody[0]!.kind = .doLoop ∧ openBody[1]!.kind ≠ .whileLoop := by
      decide +kernel
    obtain ⟨hsplit, hdo, hnext⟩ := hbody
    rw [hsplit]
    refine .openDo hdo ?_
    rintro ⟨w, rest, hback, hw, -⟩
    obtain ⟨rfl, -⟩ := List.cons.inj hback
    exact hnext hw
  -- The body is read once for all that is asked of it.
  have hbody : (∀ st ∈ mixedBody, st.kind ≠ .importFile) ∧
      ((Compile.blockAt 2 (Compile.importFile ⟨[]⟩) .body mixedBody).outcome
        (Session.new {})).1.map List.length = .ok 8 ∧
      ((constructs mixedBody).map Construct.statements).map List.length = [1, 3, 2, 1, 1] := by
    decide +kernel
  obtain ⟨himports, hruns, hlengths⟩ := hbody
  obtain ⟨-, hmixed, -⟩ :=
    constructs_emitted_in_place 2 (Compile.importFile ⟨[]⟩) .body mixedBody
  obtain ⟨-, -, hopen⟩ := constructs_emitted_in_place 2 (Compile.importFile ⟨[]⟩) .body openBody
  refine ⟨himports, hstray, ?_, fun commands t => hopen hstray _ t commands⟩
  rcases hrun : (Compile.blockAt 2 (Compile.importFile ⟨[]⟩) .body mixedBody).outcome
      (Session.new {}) with ⟨e | commands, t⟩
  · rw [hrun] at hruns
    cases hruns
  · rw [hrun] at hruns
    obtain ⟨groups, hsplits, -, hgroups⟩ := hmixed _ _ _ hrun
    have hlength : groups.map List.length = [1, 3, 2, 1, 1] := by
      rw [(splitsInto_iff.mp hsplits).1, hlengths]
    exact ⟨commands, t, groups, rfl, Except.ok.inj hruns, hlength, hsplits, hgroups himports⟩

end Packwright
