import Packwright.Project.Artifact
import Packwright.Proofs.Session.NeatFiles

/-!
# One line for each command

The file of a function has one line for each command as long as no command has a line feed in it.
Whatever tasks a session has done, and whether or not they failed, a line feed stands in a command
only where the user gave it to a built-in function: in the text of a particle, or in the criteria of
an objective, which the load function declares.

## Main definitions

- `Command.DeclaresBroken` — commands that declare an objective with broken criteria

## Main results

- `PackFunction.length_lines_eq_iff` — the lines of a file and its commands
- `Session.after_neat` — what all tasks keep
- `line_feeds_only_from_texts` — the commands that take more than one line
-/

namespace Packwright

/-! ### Lines of a file -/

/-- What stands before a line feed, and the lines behind it. -/
theorem Text.length_linesFrom (current line rest : List Char) :
    (linesFrom current (line ++ '\n' :: rest)).length =
      line.count '\n' + 1 + (lines rest).length := by
  induction line generalizing current with
  | nil => simp [linesFrom, lines, Nat.add_comm]
  | cons c line ih =>
    by_cases hc : c = '\n'
    · simp [linesFrom, hc, ih]
      omega
    · simp [linesFrom, hc, ih]

namespace PackFunction

theorem renderCommands_cons (c : Command) (rest : List Command) :
    (renderCommands (c :: rest)).toList =
      c.render.toList ++ '\n' :: (renderCommands rest).toList := by
  simp [renderCommands]

theorem length_le_lines (commands : List Command) :
    commands.length ≤ (Text.lines (renderCommands commands).toList).length := by
  induction commands with
  | nil => exact Nat.zero_le _
  | cons c rest ih =>
    rw [renderCommands_cons, Text.lines, Text.length_linesFrom, List.length_cons]
    omega

/-- A file has one line for each command exactly if every command is unbroken. -/
theorem length_lines_eq_iff (commands : List Command) :
    (Text.lines (renderCommands commands).toList).length = commands.length ↔
      ∀ c ∈ commands, Unbroken c.render := by
  induction commands with
  | nil => simp [renderCommands, Text.lines, Text.linesFrom]
  | cons c rest ih =>
    have hle := length_le_lines rest
    rw [renderCommands_cons, Text.lines, Text.length_linesFrom, List.length_cons,
      List.forall_mem_cons, ← ih, Unbroken, ← List.count_eq_zero]
    omega

end PackFunction

/-! ### Tasks -/

theorem Compile.tidy_step {m : Compile Unit} (hm : m.Tidy) : (step m).Tidy := by
  refine tidy_iff_outcome.mpr fun s hs => ?_
  rw [step_outcome]
  split
  · have hafter := tidy_iff_outcome.mp hm s hs
    exact ⟨hafter.space, hafter.scope, hafter.pack⟩
  · exact hs

theorem Task.tidy_compile (t : Task) : t.compile.Tidy := by
  cases t with
  | text files name source =>
    exact Compile.tidy_step (Compile.tidy_source (Compile.tidy_importWithin files _) name source)
  | file files path => exact Compile.tidy_step (Compile.tidy_importWithin files _ path none)
  | entry files =>
    exact Compile.tidy_get.bind fun _ _ =>
      Compile.tidy_step (Compile.tidy_importWithin files _ _ none)

theorem unbroken_of_validateSpace {space : String} (h : validateSpace space = .ok ()) :
    Unbroken space := by
  unfold validateSpace at h
  split at h
  · cases h
  · split at h
    · cases h
    · next hnone =>
      intro hmem
      have hallowed : isSpaceChar '\n' = true := by
        simpa using List.find?_eq_none.mp hnone '\n' hmem
      exact absurd hallowed (by decide)

namespace Session

variable {s : Session}

/-- What one task keeps. -/
theorem next_neat (h : s.Neat) (t : Task) : (s.next t).Neat :=
  Compile.tidy_iff_outcome.mp t.tidy_compile s h

/-- What all tasks keep. -/
theorem after_neat (h : s.Neat) (tasks : List Task) : (s.after tasks).Neat := by
  induction tasks generalizing s with
  | nil => exact h
  | cons t rest ih => exact ih (next_neat h t)

/-- Without a namespace that is allowed no task does anything. -/
theorem after_of_refused {fault : Fault} (h : validateSpace s.settings.space = .error fault)
    (tasks : List Task) : s.after tasks = s := by
  have hstep : ∀ m : Compile Unit, ((Compile.step m).outcome s).2 = s := by
    intro m
    rw [Compile.step_outcome, h]
  have hnext : ∀ t, s.next t = s := by
    rintro (⟨files, name, source⟩ | ⟨files, path⟩ | files)
    · exact hstep _
    · exact hstep _
    · rw [next, Task.compile, Compile.outcome_compileEntry]
      exact hstep _
  induction tasks with
  | nil => rfl
  | cons t rest ih =>
    show (s.next t).after rest = s
    rw [hnext t, ih]

/-- The pack of a session is neat at every time. -/
theorem after_new_neat (settings : Settings) (tasks : List Task) :
    ((Session.new settings).after tasks).pack.Neat := by
  -- calls are spelled with the namespace, which is checked before anything is compiled
  cases hspace : validateSpace settings.space with
  | ok _ =>
    refine (after_neat ⟨unbroken_of_validateSpace hspace, ?_, Pack.empty_neat _⟩ tasks).pack
    exact fun frame hframe => absurd hframe (List.not_mem_nil)
  | error fault =>
    rw [after_of_refused hspace]
    exact Pack.empty_neat _

end Session

/-! ### Load functions -/

namespace Command

/-- The command declares an objective whose criteria have a line feed. -/
def DeclaresBroken (c : Command) : Prop :=
  ∃ objective criteria, ¬Unbroken criteria ∧ c = .declare objective criteria

theorem unbroken_declare {objective criteria : String} :
    Unbroken (Command.declare objective criteria).render ↔
      Unbroken objective ∧ Unbroken criteria := by
  show Unbroken ("scoreboard objectives add " ++ objective ++ " " ++ criteria) ↔ _
  simp +decide

theorem not_unbroken_of_declaresBroken {c : Command} (h : c.DeclaresBroken) :
    ¬Unbroken c.render := by
  obtain ⟨objective, criteria, hcriteria, rfl⟩ := h
  exact fun hline => hcriteria (unbroken_declare.mp hline).2

theorem not_unbroken_iff {c : Command} (h : c.Neat ∨ Unbroken c.render ∨ c.DeclaresBroken) :
    ¬Unbroken c.render ↔ c.DrawsBroken ∨ c.DeclaresBroken := by
  refine ⟨fun hline => ?_, fun hbroken => ?_⟩
  · rcases h with h | h | h
    · exact .inl (h.resolve_left hline)
    · exact absurd h hline
    · exact .inr h
  · exact hbroken.elim not_unbroken_of_drawsBroken not_unbroken_of_declaresBroken

end Command

theorem Pack.Neat.setupCommands {p : Pack} (h : p.Neat) :
    ∀ c ∈ p.setupCommands, Unbroken c.render ∨ c.DeclaresBroken := by
  refine List.forall_mem_append.mpr ⟨List.forall_mem_map.mpr fun o ho => ?_,
    List.forall_mem_map.mpr fun n _ => ?_⟩
  · by_cases hcriteria : Unbroken o.criteria
    · exact .inl (Command.unbroken_declare.mpr ⟨h.objectives o ho, hcriteria⟩)
    · exact .inr ⟨_, _, hcriteria, rfl⟩
  · have hline : (Command.set (.ofConstant n) n).Neat := Command.neat_of_scores rfl (by simp)
    exact hline.imp id fun ⟨_, _, _, _, _, hcore⟩ => by cases hcore

/-- The commands of the load function. -/
theorem Pack.Neat.loadCommands {p : Pack} (h : p.Neat) :
    ∀ c ∈ p.loadCommands, c.Neat ∨ Unbroken c.render ∨ c.DeclaresBroken := by
  refine List.forall_mem_append.mpr ⟨fun c hc => .inr (h.setupCommands c hc), fun c hc => .inl ?_⟩
  unfold Pack.userLoad Pack.function? at hc
  cases hload : p.functions.find? (·.path = loadPath) with
  | none =>
    rw [hload] at hc
    cases hc
  | some f =>
    rw [hload] at hc
    exact h.functions f (List.mem_of_find?_eq_some hload) c hc

theorem Pack.Neat.allFunctions {p : Pack} (h : p.Neat) :
    ∀ f ∈ p.allFunctions, NeatCommands f.commands := by
  refine List.forall_mem_append.mpr ⟨fun f hf => ?_, List.forall_mem_map.mpr fun e he => ?_⟩
  · exact h.functions f (List.mem_mergeSort.mp hf)
  · exact h.generated e (List.mem_mergeSort.mp he)

/-- The functions that are written, the load function with its set-up. -/
theorem Pack.Neat.writtenFunctions {p : Pack} (h : p.Neat) :
    ∀ f ∈ p.writtenFunctions, ∀ c ∈ f.commands,
      c.Neat ∨ Unbroken c.render ∨ c.DeclaresBroken := by
  refine List.forall_mem_cons.mpr ⟨h.loadCommands, fun f hf c hc => .inl ?_⟩
  exact h.allFunctions f (List.mem_of_mem_filter hf) c hc

/-- Which commands take more than one line. Whatever tasks a session has done, and whether or not they
failed, a line feed stands in a stored command exactly if the command draws a particle with a line
feed in its text, and in a command of the load function moreover if it declares an objective with a
line feed in its criteria. The file of a function has one line for each command exactly if it has no
such command.

A line ends at a line feed. A carriage return that stands alone in a string or a group is taken over into
a command as it is; it ends no line, so it counts for nothing here. -/
theorem line_feeds_only_from_texts (settings : Settings) (tasks : List Task) :
    (∀ f ∈ ((Session.new settings).after tasks).pack.allFunctions, ∀ c ∈ f.commands,
      ('\n' ∈ c.render.toList ↔ c.DrawsBroken)) ∧
    (∀ c ∈ ((Session.new settings).after tasks).pack.loadCommands,
      ('\n' ∈ c.render.toList ↔ c.DrawsBroken ∨ c.DeclaresBroken)) ∧
    ∀ f ∈ ((Session.new settings).after tasks).pack.writtenFunctions,
      ((Text.lines f.render.toList).length = f.commands.length ↔
        ∀ c ∈ f.commands, ¬(c.DrawsBroken ∨ c.DeclaresBroken)) := by
  have hneat := Session.after_new_neat settings tasks
  refine ⟨fun f hf c hc => ?_, fun c hc => ?_, fun f hf => ?_⟩
  · exact not_not.symm.trans (hneat.allFunctions f hf c hc).not_unbroken_iff
  · exact not_not.symm.trans (Command.not_unbroken_iff (hneat.loadCommands c hc))
  · refine (PackFunction.length_lines_eq_iff f.commands).trans (forall₂_congr fun c hc => ?_)
    exact not_not.symm.trans
      (not_congr (Command.not_unbroken_iff (hneat.writtenFunctions f hf c hc)))

/-- An objective whose criteria have a line feed. -/
def crackedTasks : List Task := [.text {} "main" "Scoreboard.add(deaths, \"a\\nb\");"]

/-- A command with a line feed in a string. -/
def spelledTasks : List Task := [.text {} "main" "say \"a\\nb\";"]

theorem criteria_take_two_lines :
    let cracked := ((Session.new {}).after crackedTasks).pack
    let spelled := ((Session.new {}).after spelledTasks).pack
    (Command.declare "deaths" "a\nb" ∈ cracked.loadCommands ∧
      '\n' ∈ (Command.declare "deaths" "a\nb").render.toList ∧
      (Text.lines (PackFunction.renderCommands cracked.loadCommands).toList).length ≠
        cracked.loadCommands.length) ∧
    Command.written "say a\\nb" ∈ spelled.loadCommands ∧
      '\n' ∉ (Command.written "say a\\nb").render.toList ∧
      (Text.lines (PackFunction.renderCommands spelled.loadCommands).toList).length =
        spelled.loadCommands.length := by
  have hcracked : ((Session.new {}).after crackedTasks).pack.loadCommands =
      [.declare "__variable__" "dummy", .declare "deaths" "a\nb"] := by decide +kernel
  have hspelled : ((Session.new {}).after spelledTasks).pack.loadCommands =
      [.declare "__variable__" "dummy", .written "say a\\nb"] := by decide +kernel
  have hbroken : (Command.declare "deaths" "a\nb").DeclaresBroken := ⟨_, _, by decide, rfl⟩
  obtain ⟨-, hload, hfile⟩ := line_feeds_only_from_texts {} crackedTasks
  obtain ⟨-, hload', hfile'⟩ := line_feeds_only_from_texts {} spelledTasks
  have hmem : Command.declare "deaths" "a\nb" ∈
      ((Session.new {}).after crackedTasks).pack.loadCommands := by simp [hcracked]
  have hmem' : Command.written "say a\\nb" ∈
      ((Session.new {}).after spelledTasks).pack.loadCommands := by simp [hspelled]
  have hclean : ∀ c ∈ ((Session.new {}).after spelledTasks).pack.loadCommands,
      ¬(c.DrawsBroken ∨ c.DeclaresBroken) := by
    intro c hc
    rw [← hload' c hc]
    rw [hspelled] at hc
    revert c
    decide
  refine ⟨⟨hmem, (hload _ hmem).mpr (.inr hbroken), fun hlines => ?_⟩, hmem', ?_, ?_⟩
  · exact (hfile _ (List.mem_cons_self ..)).mp hlines _ hmem (.inr hbroken)
  · exact fun hline => hclean _ hmem' ((hload' _ hmem').mp hline)
  · exact (hfile' _ (List.mem_cons_self ..)).mpr hclean

end Packwright
