import Packwright.Proofs.Meaning
import Packwright.Proofs.PrivateCalls
import Packwright.Proofs.Session.Steady

/-!
# Generated names are fresh

Whatever tasks a session is given, and whether or not they fail, no generated function is registered
twice and no promise inside the program is broken. So the functions of a pack have different paths,
unless the user has put one into the reserved segment, which is warned about.

## Main results

- `Session.next_leads`, `Session.after_leads` — what one task and all tasks lead to
- `Session.Separate.allFunctions_nodup` — the functions of a pack have different paths
- `names_stay_distinct` — no task ends in a broken promise, and paths stay different
-/

namespace Packwright

/-! ### Tasks -/

theorem Task.steady_compile (t : Task) : t.compile.Steady := by
  have himporter : ∀ files, Compile.SteadyImporter (Compile.importFile files) :=
    fun files => Compile.steady_importWithin files _
  cases t with
  | text files name source =>
    exact Compile.steady_step (Compile.steady_source (himporter files) name source)
  | file files path => exact Compile.steady_step (himporter files path none)
  | entry files =>
    exact Compile.steady_get.bind fun s _ => Compile.steady_step (himporter files _ none)

namespace Session

theorem next_leads {s : Session} (hs : s.Counted) (t : Task) : s.Leads (s.next t) :=
  (Compile.keeps_iff.mp (t.steady_compile s hs)).1

/-- Tasks only use new numbers, whether or not they fail. -/
theorem after_leads {s : Session} (hs : s.Counted) (tasks : List Task) : s.Leads (s.after tasks) := by
  induction tasks generalizing s with
  | nil => exact .refl s
  | cons t rest ih =>
    have hnext := next_leads hs t
    exact hnext.trans (ih (hnext.counted hs))

theorem new_counted (settings : Settings) : (Session.new settings).Counted := by
  intro e he
  cases he

theorem new_separate (settings : Settings) : (Session.new settings).Separate where
  distinct := List.nodup_singleton _
  warned path hpath hprivate := by
    rw [List.mem_singleton.mp hpath] at hprivate
    cases hprivate

end Session

/-- A fault of a task is regular. -/
theorem Task.fault_regular {s : Session} (hs : s.Counted) {t : Task} {f : Fault}
    (h : (t.compile.outcome s).1 = .error (.fault f)) : f.cause.isRegular = true := by
  obtain ⟨-, -, hregular⟩ := Compile.keeps_iff.mp (t.steady_compile s hs)
  exact hregular (.fault f) h

/-! ### Paths -/

theorem Feature.isPrivate_path (f : Feature) (name : String) : (f.path name).isPrivate = true := by
  unfold FunctionPath.isPrivate Text.startsWith
  rw [Bool.or_eq_true, List.isPrefixOf_iff_prefix]
  refine .inr ⟨(f.name ++ "/" ++ name).toList, ?_⟩
  simp [Feature.path, FunctionPath.generated]

namespace Session

variable {U : UserCalls} {s : Session}

/-- Generated functions have different paths. -/
theorem Sound.generated_nodup (h : s.Sound U) :
    (s.pack.generated.inOrder.map PackFunction.path).Nodup := by
  have hsorted : s.pack.generated.sorted.Perm s.entries := List.mergeSort_perm ..
  rw [Registry.inOrder, List.map_map, (hsorted.map _).nodup_iff]
  exact h.keys.of_map.map_on fun e he e' he' hpath => h.path_unique he he' hpath

theorem Sound.isPrivate_of_mem (h : s.Sound U) {path : FunctionPath}
    (hpath : path ∈ s.pack.generated.inOrder.map PackFunction.path) : path.isPrivate = true := by
  rw [Registry.inOrder, List.map_map] at hpath
  obtain ⟨e, he, rfl⟩ := List.mem_map.mp hpath
  obtain ⟨f, -, hf⟩ := h.paths e (List.mem_mergeSort.mp he)
  rw [Function.comp_apply, hf]
  exact f.isPrivate_path e.1.2

/-- The functions of a pack have different paths if none of the user's is in the reserved segment. -/
theorem Separate.allFunctions_nodup (hs : s.Separate) (hsound : s.Sound U) (hwarned : ¬s.Warned) :
    (s.pack.allFunctions.map PackFunction.path).Nodup := by
  have hsorted : (s.pack.sortedFunctions.map PackFunction.path).Perm s.paths :=
    (List.mergeSort_perm ..).map _
  rw [Pack.allFunctions, List.map_append, List.nodup_append]
  refine ⟨hsorted.nodup_iff.mpr hs.distinct, hsound.generated_nodup, fun path huser other hother => ?_⟩
  rintro rfl
  exact hwarned (hs.warned path (hsorted.mem_iff.mp huser) (hsound.isPrivate_of_mem hother))

end Session

/-! ### Names stay distinct -/

/-- Whatever tasks a session has done, and whether or not they failed, no next task ends in a broken
promise inside the program or in a generated function that is registered already. The functions of
the pack have different paths, unless a function in the reserved segment was warned about. -/
theorem names_stay_distinct (settings : Settings) (tasks : List Task) :
    (∀ (t : Task) (f : Fault),
      (t.compile.outcome ((Session.new settings).after tasks)).1 = .error (.fault f) →
        f.kind ≠ .internal ∧ ∀ path, f.cause ≠ .privateDefined path) ∧
      ((∀ w ∈ ((Session.new settings).after tasks).warnings, ∀ path,
          w.notice ≠ .privateFunction path) →
        (((Session.new settings).after tasks).pack.allFunctions.map PackFunction.path).Nodup) := by
  have hnew := Session.new_counted settings
  have hleads := Session.after_leads hnew tasks
  have hsound := Session.after_sound (Session.new_sound (.inTexts fun _ => False) settings) tasks
  refine ⟨fun t f hfault => ?_, fun hquiet => ?_⟩
  · exact Cause.isRegular_iff.mp (Task.fault_regular (hleads.counted hnew) hfault)
  · refine (hleads.separate (Session.new_separate settings)).allFunctions_nodup hsound ?_
    rintro ⟨w, hw, path, hnotice⟩
    exact hquiet w hw path hnotice

/-- A loop whose body fails when the loop has its number, a switch over negative labels, and a square
root before another loop. -/
def mixedTasks : List Task :=
  [.text {} "main" "while ($x == 1) \x7b break; \x7d",
    .text {} "main"
      "switch ($x) \x7b case -5: say a; case -4: say b; case -3: say c; case -2: say d; \x7d",
    .text {} "main" "$y = Math.sqrt($x); while ($x == 1) \x7b say e; \x7d"]

/-- What `mixedTasks` generate: the number 0 of the first loop is lost. -/
def mixedNames : List (String × String) :=
  [("switch_case", "0/-5"), ("switch_case", "0/-4"), ("switch_case", "0/-3"), ("switch_case", "0/-2"),
    ("switch_case", "0/-5--4"), ("switch_case", "0/-3--2"), ("math_sqrt", "main"),
    ("math_sqrt", "newton_raphson"), ("while_loop", "1")]

/-- A task that fails whatever was done before. -/
def bareTask : Task := .text {} "main" "do \x7b say f; \x7d"

/-- The fault of `bareTask`. -/
def bareFault : Fault := ⟨.doWithoutWhile, some ⟨"main", 1, 1, "do \x7b say f; \x7d"⟩⟩

theorem mixed_names_distinct :
    ((bareTask.compile.outcome ((Session.new {}).after mixedTasks)).1 = .error (.fault bareFault) ∧
      bareFault.kind ≠ .internal ∧ ∀ path, bareFault.cause ≠ .privateDefined path) ∧
    ((Session.new {}).after mixedTasks).entries.map Prod.fst = mixedNames ∧
      ((Session.new {}).after mixedTasks).warnings = [] ∧
      (((Session.new {}).after mixedTasks).pack.allFunctions.map PackFunction.path).Nodup := by
  obtain ⟨hregular, hnodup⟩ := names_stay_distinct {} mixedTasks
  -- One evaluation of the session serves all three facts.
  have hrun : (bareTask.compile.outcome ((Session.new {}).after mixedTasks)).1 =
        .error (.fault bareFault) ∧
      ((Session.new {}).after mixedTasks).entries.map Prod.fst = mixedNames ∧
      ((Session.new {}).after mixedTasks).warnings = [] := by decide +kernel
  obtain ⟨hfault, hnames, hwarnings⟩ := hrun
  refine ⟨⟨hfault, hregular bareTask bareFault hfault⟩, hnames, hwarnings, hnodup ?_⟩
  rw [hwarnings]
  intro w hw
  cases hw

end Packwright
