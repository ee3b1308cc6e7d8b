import Mathlib.Data.List.Sort
import Packwright.Project.Artifact
import Packwright.Proofs.AppendOnly
import Packwright.Proofs.Objectives
import Packwright.Proofs.Session.SuppliesFiles

/-!
# Constants are initialised before use

The load function begins with a set-up: it declares the objectives, each of them once, and then sets
each constant once. Whatever a session has compiled, and whether or not it failed, every constant that
a command reads is among those that are set.

## Main definitions

- `Pack.SetUp` — what the set-up of a load function relies on

## Main results

- `Session.after_supplied`, `Session.after_setUp` — what holds of the packs of a session
- `constants_of_session` — the constants of a session
-/

namespace Packwright

/-! ### Set-up -/

namespace Pack

/-- No objective is declared twice and no constant set twice, and there is an objective for
constants. -/
structure SetUp (p : Pack) : Prop where
  objectives : (p.objectives.map Objective.name).Nodup
  constants : p.constants.Nodup
  declared : p.constants ≠ [] → constantObjective ∈ p.objectives.map Objective.name

variable {p q : Pack}

theorem SetUp.of_same (h : p.SetUp) (hobjectives : q.objectives = p.objectives)
    (hconstants : q.constants = p.constants) : q.SetUp := by
  refine ⟨?_, ?_, ?_⟩
  · rw [hobjectives]
    exact h.objectives
  · rw [hconstants]
    exact h.constants
  · rw [hobjectives, hconstants]
    exact h.declared

theorem SetUp.declare (h : p.SetUp) (name criteria : String) : (p.declare name criteria).SetUp := by
  have hobjectives : (p.declare name criteria).objectives =
      declareAll p.objectives [⟨name, criteria⟩] := p.objectives_declare name criteria
  refine ⟨?_, ?_, ?_⟩
  · rw [hobjectives]
    exact nodup_declareAll _ h.objectives
  · rw [p.constants_declare]
    exact h.constants
  · rw [p.constants_declare, hobjectives]
    exact fun hsome => List.map_subset _ (subset_declareAll _ _) (h.declared hsome)

/-- The first constant brings its objective along. -/
theorem SetUp.registerConstant (h : p.SetUp) (n : Int) : (p.registerConstant n).SetUp := by
  have hobjectives := p.objectives_registerConstant n
  refine ⟨?_, ?_, fun hsome => ?_⟩
  · rw [hobjectives]
    exact nodup_declareAll _ h.objectives
  · rw [p.constants_registerConstant]
    split
    · exact h.constants
    · next hnew => exact List.nodup_append.mpr ⟨h.constants, List.nodup_singleton n,
        fun m hm m' hm' heq => hnew (List.mem_singleton.mp hm' ▸ heq ▸ hm)⟩
  · rw [hobjectives]
    by_cases hnone : p.constants = []
    · have hfirst : requests (Traced.firstConstant p (p.registerConstant n)) =
          [⟨constantObjective, "dummy"⟩] := by
        rw [Traced.firstConstant, if_pos ⟨hnone, hsome⟩]
        rfl
      rw [hfirst]
      exact mem_name_declareOne _ _
    · exact List.map_subset _ (subset_declareAll _ _) (h.declared hnone)

theorem SetUp.extendFunction (h : p.SetUp) (path : FunctionPath) (commands : List Command) :
    (p.extendFunction path commands).SetUp := by
  unfold Pack.extendFunction
  split <;> exact h.of_same rfl rfl

theorem SetUp.change (h : p.SetUp) (hchange : p.Change q) : q.SetUp := by
  cases hchange with
  | count | generate | define | resource => exact h.of_same rfl rfl
  | declare name criteria => exact h.declare name criteria
  | constant n => exact h.registerConstant n
  | tick commands => exact h.extendFunction tickPath commands

theorem empty_setUp (space : String) : (Pack.empty space).SetUp :=
  ⟨List.nodup_singleton _, List.nodup_nil, fun h => absurd rfl h⟩

theorem empty_supplied (space : String) : (Pack.empty space).Supplied :=
  ⟨List.forall_mem_singleton.mpr (by simp), List.forall_mem_nil _⟩

/-! ### Load functions -/

/-- The set-up sets every constant once. -/
theorem SetUp.sortedConstants (h : p.SetUp) :
    p.sortedConstants.Nodup ∧ ∀ n, n ∈ p.sortedConstants ↔ n ∈ p.constants :=
  ⟨(List.mergeSort_perm ..).nodup_iff.mpr h.constants, fun _ => List.mem_mergeSort⟩

theorem length_setupCommands (p : Pack) : p.setupCommands.length = p.setupLength := by
  simp [setupCommands, setupLength, sortedConstants]

theorem render_setConstant (n : Int) : (Command.set (.ofConstant n) n).render =
    "scoreboard players set " ++ n.repr ++ " __int__ " ++ n.repr := by
  show "scoreboard players set " ++ (n.repr ++ " " ++ constantObjective) ++ " " ++ n.repr = _
  have hmiddle : " __int__ " = " " ++ constantObjective ++ " " := rfl
  simp only [hmiddle, String.append_assoc]

/-- The lines of the set-up. -/
theorem render_setupCommands (p : Pack) : p.setupCommands.map Command.render =
    p.objectives.map (fun o => "scoreboard objectives add " ++ o.name ++ " " ++ o.criteria) ++
      p.sortedConstants.map
        (fun n => "scoreboard players set " ++ n.repr ++ " __int__ " ++ n.repr) := by
  rw [setupCommands, List.map_append, List.map_map, List.map_map]
  exact congrArg (_ ++ ·) (List.map_congr_left fun n _ => render_setConstant n)

/-- The set-up reads a constant only where it sets it. -/
theorem constants_setupCommands (p : Pack) : commandConstants p.setupCommands ⊆ p.known := by
  rintro n ⟨c, hc, hn⟩
  rcases List.mem_append.mp hc with hc | hc
  · obtain ⟨o, -, rfl⟩ := List.mem_map.mp hc
    exact absurd hn (Set.notMem_empty n)
  · obtain ⟨k, hk, rfl⟩ := List.mem_map.mp hc
    have hsame : n ∈ (Score.ofConstant k).constants := hn
    rw [Score.constants_ofConstant, Set.mem_singleton_iff] at hsame
    exact hsame ▸ List.mem_mergeSort.mp hk

theorem Supplied.userLoad (h : p.Supplied) : commandConstants p.userLoad ⊆ p.known := by
  unfold Pack.userLoad Pack.function?
  cases hload : p.functions.find? (·.path = loadPath) with
  | none => exact (needAll_nil _).trans_subset (Set.empty_subset _)
  | some f => exact h.functions f (List.mem_of_find?_eq_some hload)

/-- The written functions read no constant but those that are set. -/
theorem Supplied.writtenFunctions (h : p.Supplied) :
    ∀ f ∈ p.writtenFunctions, commandConstants f.commands ⊆ p.known := by
  have hall : ∀ f ∈ p.allFunctions, commandConstants f.commands ⊆ p.known := by
    refine List.forall_mem_append.mpr ⟨fun f hf => ?_, List.forall_mem_map.mpr fun e he => ?_⟩
    · exact h.functions f (List.mem_mergeSort.mp hf)
    · exact h.generated e (List.mem_mergeSort.mp he)
  refine List.forall_mem_cons.mpr ⟨?_, fun f hf => hall f (List.mem_of_mem_filter hf)⟩
  show commandConstants (p.setupCommands ++ p.userLoad) ⊆ p.known
  simp only [needAll_append]
  exact Set.union_subset p.constants_setupCommands h.userLoad

end Pack

/-! ### Sessions -/

theorem Compile.supplies_step {m : Compile Unit} (hm : ∀ given, m.Supplies given) :
    ∀ given, (step m).Supplies given := by
  refine supplies_iff_outcome.mpr fun s hs => ?_
  rw [step_outcome]
  split
  · have hstays := supplies_iff_outcome.mp hm s hs
    exact ⟨⟨hstays.supplied.scope, hstays.supplied.pack⟩, hstays.known⟩
  · exact .refl hs

theorem Task.supplies (t : Task) : ∀ given, t.compile.Supplies given := by
  cases t with
  | text files name source =>
    exact Compile.supplies_step (Compile.supplies_source (Compile.supplies_importWithin files _) _ _)
  | file files path =>
    exact Compile.supplies_step fun given => Compile.supplies_importWithin files _ given path none
  | entry files =>
    exact fun given => Compile.supplies_get fun _ _ => Compile.supplies_step
      (fun given => Compile.supplies_importWithin files _ given _ none) given

theorem Session.tracks_setUp : Session.Tracks fun s s' => s.pack.SetUp → s'.pack.SetUp where
  trans h h' := h' ∘ h
  builds hbuilds h := by
    obtain ⟨-, -, hchanges⟩ := hbuilds
    exact hchanges.head_induction_on (motive := fun p _ => p.SetUp → _) id
      (fun hchange _ ih hp => ih (hp.change hchange)) h
  load s out h := h.extendFunction loadPath out
  begun _ _ := id

namespace Session

variable {s : Session}

/-- What all tasks keep, those that fail as well. -/
theorem after_supplied (h : s.Supplied) (tasks : List Task) : (s.after tasks).Supplied := by
  induction tasks generalizing s with
  | nil => exact h
  | cons t rest ih => exact ih (Compile.supplies_iff_outcome.mp t.supplies s h).supplied

theorem after_setUp (h : s.pack.SetUp) (tasks : List Task) : (s.after tasks).pack.SetUp := by
  induction tasks generalizing s with
  | nil => exact h
  | cons t rest ih => exact ih (t.tracked tracks_setUp s h)

end Session

/-- Constants are initialised before they are used. Whatever tasks a session has done, and whether or
not they failed, every constant that a command of a written function reads is registered. The load
function is the set-up, whose length is known, and behind it the commands of the user. The set-up
declares objectives of distinct names, one of them for constants if there are any, and then sets each
registered constant exactly once. -/
theorem constants_of_session (settings : Settings) (tasks : List Task) :
    let p := ((Session.new settings).after tasks).pack
    (∀ f ∈ p.writtenFunctions, ∀ c ∈ f.commands, ∀ n ∈ c.constants, n ∈ p.constants) ∧
    (p.loadCommands = p.setupCommands ++ p.userLoad ∧ p.setupCommands.length = p.setupLength) ∧
    p.setupCommands.map Command.render =
      p.objectives.map (fun o => "scoreboard objectives add " ++ o.name ++ " " ++ o.criteria) ++
        p.sortedConstants.map
          (fun n => "scoreboard players set " ++ n.repr ++ " __int__ " ++ n.repr) ∧
    (p.objectives.map Objective.name).Nodup ∧
    (p.constants ≠ [] → "__int__" ∈ p.objectives.map Objective.name) ∧
    p.sortedConstants.Nodup ∧ ∀ n, n ∈ p.sortedConstants ↔ n ∈ p.constants := by
  intro p
  have hsupplied : p.Supplied :=
    (Session.after_supplied ⟨Scope.UserHeld.empty, Pack.empty_supplied _⟩ tasks).pack
  have hsetUp : p.SetUp := Session.after_setUp (Pack.empty_setUp _) tasks
  refine ⟨fun f hf c hc n hn => hsupplied.writtenFunctions f hf ⟨c, hc, hn⟩,
    ⟨rfl, p.length_setupCommands⟩, p.render_setupCommands, hsetUp.objectives, hsetUp.declared,
    hsetUp.sortedConstants⟩

/-- A text with a square root and two products by the same factor. -/
def productsText : String := "$r = Math.sqrt(9); $r *= 7; $s *= 7;"

example : let p := ((Session.new {}).after [.text {} "main" productsText]).pack
    p.constants = [2, 7] ∧ p.objectives.map Objective.name = ["__variable__", "__int__"] := by
  decide +kernel

end Packwright
