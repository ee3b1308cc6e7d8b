import Packwright.Proofs.Census
import Packwright.Proofs.Constants
import Packwright.Proofs.Meaning
import Packwright.Proofs.Semantics.SquareRoot

/-!
# Square roots in packs

A statement that assigns a square root becomes five commands, which call the two functions of the square
root. In every pack that has these functions the commands end with the integer square root of the
operand in the target, as long as values of any size are kept. Where only scores are kept, the greatest
score is the one number with another result, because the first sum does not fit.

## Main definitions

- `Operand.asValue`, `Operand.read` — operands as arguments, and their values in a state
- `Sqrt.argument?` — what stands in the brackets of a square root
- `Sqrt.Emits` — the commands that a statement becomes

## Main results

- `Session.sqrt_defined` — packs know both functions, and the constant that they divide by
- `Compile.operation_emits` — the commands of a statement
- `root_of_integer` — the result when values of any size are kept
- `root_within_scores_iff` — the numbers whose root can be computed with scores
-/

namespace Packwright

namespace Operand

/-- The operand as the value of a parameter. -/
def asValue : Operand → Value
  | int n => .int n
  | score s => .score s

/-- The number that an operand stands for in a state, if it has one. -/
def read {W : Type} (t : State W) : Operand → Option Int
  | int n => some n
  | score s => t.scores s

end Operand

/-! ### Packs -/

namespace Sqrt

/-- Where the function that begins a round is. -/
def mainAt (settings : Settings) : ResourceLocation :=
  (Feature.mathSqrt.path mainName).inSpace settings.space

/-- Where the function that computes an estimate is. -/
def stepAt (settings : Settings) : ResourceLocation :=
  (Feature.mathSqrt.path stepName).inSpace settings.space

end Sqrt

/-- Whatever a session has done, a pack with a function of the square root has both, and sets the
constant that they divide by. -/
theorem Session.sqrt_defined {settings : Settings} {tasks : List Task} {s : Session}
    (hs : s = (Session.new settings).after tasks) (hmain : "main" ∈ s.names .mathSqrt) :
    Sqrt.Defines s.pack.table (Sqrt.mainAt settings) (Sqrt.stepAt settings) ∧
      2 ∈ s.pack.constants := by
  have hnew := Session.new_sound (.inTexts fun _ => False) settings
  have hsettings : s.settings = settings := hs ▸ (Session.after_grows hnew tasks).settings
  have hrooted : s.Rooted := hs ▸ Session.after_rooted settings tasks
  have hsound := hs ▸ Session.after_sound hnew tasks
  have hfamily : s.ofFamily .mathSqrt = Sqrt.entries settings.space := by
    rw [Session.names, hrooted] at hmain
    rw [hrooted, ← hsettings]
    cases hemitted : s.sqrtEmitted with
    | true => rfl
    | false =>
      rw [hemitted] at hmain
      exact absurd hmain (Multiset.notMem_zero _)
  have hmem : ∀ e ∈ Sqrt.entries settings.space, e ∈ s.entries :=
    fun e he => List.mem_of_mem_filter (hfamily ▸ he)
  have hfirst := hmem _ (List.mem_cons_self ..)
  have hsecond := hmem _ (List.mem_cons_of_mem _ (List.mem_singleton_self _))
  refine ⟨⟨?_, ?_⟩, ?_⟩
  · exact hsound.loweredTable.found ⟨_, hfirst, by rw [← hsettings]; rfl, rfl⟩
  · exact hsound.loweredTable.found ⟨_, hsecond, by rw [← hsettings]; rfl, rfl⟩
  · have hsupplied : s.Supplied := hs ▸ Session.after_supplied
      ⟨Scope.UserHeld.empty, Pack.empty_supplied _⟩ tasks
    refine hsupplied.pack.generated _ hsecond
      ⟨.operate Sqrt.estimate .divide (.ofConstant 2), by simp [Sqrt.stepBody], .inr ?_⟩
    exact Score.constants_ofConstant 2 ▸ Set.mem_singleton 2

/-! ### Statements -/

/-- A call of a built-in function is its name with a group behind it. -/
theorem Statement.tokens_of_builtin {st : Statement} {b : Builtin} (h : st.kind = .builtin b) :
    ∃ name group, st.tokens = [name, group] ∧ name.word? = some b.name := by
  unfold Statement.kind at h
  split at h
  · cases h
  · next w hword =>
    split at h
    · next k hk =>
      subst h
      unfold StatementKind.ofWord? at hk
      split at hk <;> cases hk
    · split at h
      · cases h
      · split at h
        · next hshape =>
          obtain ⟨name, group, htokens⟩ : ∃ name group, st.tokens = [name, group] := by
            unfold isCallShape at hshape
            split at hshape
            · exact ⟨_, _, ‹_›⟩
            · cases hshape
          split at h
          · next b' hname =>
            obtain rfl := StatementKind.builtin.inj h
            have hnamed : b'.name = w := by simpa using List.find?_some hname
            refine ⟨name, group, htokens, ?_⟩
            rw [hnamed, ← hword, Statement.keyword?, htokens]
            rfl
          · cases h
        · cases h

namespace Sqrt

/-- The value that is given to a square root, from its name and the group behind it. -/
def argument? (scope : Scope) : List Token → Option Value
  | [_, group] =>
    match ((Arguments.parse group).run.run []).1 with
    | .ok args => ((Builtin.mathSqrt.bind scope args).bind (·.get "value")).toOption
    | .error _ => none
  | _ => none

/-- The command that sets the number to an operand. -/
def setNumber : Operand → Command
  | .int n => .set number n
  | .score s => .operate number .assign s

/-- The commands take the root of an operand into a score, and the operand is what the tokens of the call
give. -/
structure Emits (s : Session) (right : List Token) (score : Score) (operand : Operand)
    (cs : List Command) : Prop where
  argument : argument? s.scope right = some operand.asValue
  commands : cs = useBody (setNumber operand) score (.call (mainAt s.settings))

/-- The number is set to what the operand stands for. -/
theorem runs_setNumber_iff {W : Type} {m : Machine W} {store : Store} {table : Table}
    (hm : m.Computes store) {operand : Operand} {t t' : State W} {n : Int}
    (hread : operand.read t = some n) (hkept : store n = some n) :
    Runs m table [setNumber operand] t t' ↔ t' = t.set number n := by
  cases operand with
  | int k =>
    obtain rfl := Option.some.inj hread
    exact runs_set_iff
  | score s =>
    rw [setNumber, hm.runs_operate_iff hread rfl]
    simp [hkept]

end Sqrt

namespace Compile

variable {block : Block} {s : Session}

theorem sqrt_emits (args : Bindings) (score : Score) :
    (sqrt args score).Meets s (fun cs _ => ∃ operand : Operand,
      args.get "value" = .ok operand.asValue ∧
        cs = Sqrt.useBody (Sqrt.setNumber operand) score (.call (Sqrt.mainAt s.settings)))
      fun _ => True := by
  refine (gains_emitSqrt s).bind (fun _ _ => trivial) fun _ s₁ _ => ?_
  cases args.get "value" with
  | error f => exact trivial
  | ok value =>
    cases value with
    | int n => exact ⟨.int n, rfl, rfl⟩
    | score x => exact ⟨.score x, rfl, rfl⟩
    | _ => exact trivial

theorem builtin_emits (name group : Token) (score : Score) :
    (builtin block .mathSqrt name [group] (some score)).Meets s
      (fun cs _ => ∃ operand, Sqrt.Emits s [name, group] score operand cs) fun _ => True := by
  show (ofNoting (Arguments.parse group) >>= fun _ => _).Meets s _ _
  refine (ofNoting_meets _).bind (fun _ _ => trivial) fun args s₁ h₁ => ?_
  obtain ⟨hquiet, warnings, hargs⟩ := h₁
  rw [meets_bind, meets_get, meets_bind]
  refine meets_ofExcept trivial fun bound hbound => ?_
  refine (debug_meets _).bind (fun _ => id) fun _ s₂ h₂ => ?_
  refine (sqrt_emits bound score).mono (fun cs s' h => ?_) fun _ => id
  obtain ⟨operand, hvalue, rfl⟩ := h
  refine ⟨operand, ?_, by rw [h₂.settings, hquiet.settings]⟩
  rw [hquiet.scope] at hbound
  simp only [Sqrt.argument?, hargs, hbound, Except.bind, hvalue, Except.toOption]

/-- The name of the square root is no value, and no operator stands in front of it. -/
theorem not_value_sqrt {name : Token} (hname : name.word? = some Builtin.mathSqrt.name)
    (scope : Scope) : isValueToken scope name = false ∧ leadingOperator? name = none := by
  have htext : name.text = Builtin.mathSqrt.name := by
    unfold Token.word? at hname
    split at hname
    · exact Option.some.inj hname
    · cases hname
  constructor
  · have hvalue : (isIntegerText (String.ofList (Operator.head Builtin.mathSqrt.name.toList)) ||
        (Score.parseIn? {} (String.ofList (Operator.head Builtin.mathSqrt.name.toList))).isSome) =
        false := by
      decide +kernel
    rw [isValueToken_scope, isValueToken, htext]
    exact (Bool.and_eq_false_iff).mpr (.inr hvalue)
  · rw [leadingOperator?, hname, Option.bind_some]
    decide +kernel

/-- A statement that assigns a square root becomes the commands of the root of its operand. -/
theorem operation_emits {a : Assignment} (hassign : a.operator = .assign)
    (hroot : (Statement.mk a.right).kind = .builtin .mathSqrt) :
    (operation block a).Meets s (fun cs _ => ∃ score operand,
      Score.parseIn? s.scope a.target.text = some score ∧ Sqrt.Emits s a.right score operand cs)
      fun _ => True := by
  obtain ⟨name, group, hright, hname⟩ := Statement.tokens_of_builtin hroot
  change a.right = [name, group] at hright
  obtain ⟨hvalue, hleading⟩ := not_value_sqrt hname s.scope
  rw [hright] at hroot ⊢
  unfold operation score score?
  simp only [bind_assoc, pure_bind, meets_bind, meets_get]
  cases Score.parseIn? s.scope a.target.text with
  | none => exact trivial
  | some score =>
    rw [meets_pure, hassign, hright]
    unfold assignment
    rw [meets_bind, meets_get, hvalue]
    simp only [hleading, hroot, Bool.false_eq_true, if_false]
    refine (builtin_emits name group score).mono (fun cs _ h => ?_) fun _ => id
    obtain ⟨operand, hemits⟩ := h
    exact ⟨score, operand, rfl, hemits⟩

end Compile

/-! ### Results -/

/-- The commands are those of a statement that assigns a square root, compiled in a session with the
settings; and the pack that tasks lead to under these settings has the functions. -/
structure Sqrt.Compiled (settings : Settings) (tasks : List Task) (s : Session) (a : Assignment)
    (cs : List Command) : Prop where
  operator : a.operator = .assign
  call : (Statement.mk a.right).kind = .builtin .mathSqrt
  session : s.settings = settings
  commands : ∃ block, ((Compile.operation block a).outcome s).1 = .ok cs
  functions : "main" ∈ ((Session.new settings).after tasks).names .mathSqrt

/-- The constants of a pack are set. -/
def State.HasConstants {W : Type} (t : State W) (p : Pack) : Prop :=
  ∀ k ∈ p.constants, t.scores (.ofConstant k) = some k

section

variable {settings : Settings} {tasks : List Task} {s : Session} {a : Assignment}
  {cs : List Command}

theorem Sqrt.Compiled.emits (h : Compiled settings tasks s a cs) :
    ∃ score operand, Score.parseIn? s.scope a.target.text = some score ∧
      Emits s a.right score operand cs := by
  obtain ⟨block, hrun⟩ := h.commands
  exact (Compile.operation_emits h.operator h.call).of_ok (Prod.ext hrun rfl)

/-- The commands of `$r = Math.sqrt(N)` end, when values of any size are kept and the constants of the
pack are set. They leave the integer square root of the operand in the target, or a negative operand
itself, and change no other score than the target and the three of the functions. -/
theorem root_of_integer (h : Sqrt.Compiled settings tasks s a cs) :
    let p := ((Session.new settings).after tasks).pack
    ∃ (target : Score) (operand : Operand), Score.parseIn? s.scope a.target.text = some target ∧
      Sqrt.argument? s.scope a.right = some operand.asValue ∧
      ∀ (W : Type) (m : Machine W) (t : State W) (n : Int), m.Computes .unbounded →
        t.HasConstants p → operand.read t = some n →
        ∃ t', Runs m p.table cs t t' ∧ t.AgreeOff (Sqrt.Writes target) t' ∧
          (n < 0 → t'.scores target = some n) ∧
          (0 ≤ n → ∃ r, t'.scores target = some r ∧
            0 ≤ r ∧ r * r ≤ n ∧ n < (r + 1) * (r + 1)) := by
  intro p
  obtain ⟨target, operand, htarget, hemits⟩ := h.emits
  obtain ⟨hdefines, htwo⟩ := Session.sqrt_defined rfl h.functions
  refine ⟨target, operand, htarget, hemits.argument, fun W m t n hm hset hread => ?_⟩
  refine ⟨Sqrt.finish t n target, ?_, Sqrt.agreeOff_finish t n target, fun hn => ?_, fun hn => ?_⟩
  · rw [hemits.commands, h.session]
    have hnumber : ∀ t', Runs m p.table [Sqrt.setNumber operand] t t' ↔ t' = t.set Sqrt.number n :=
      fun _ => Sqrt.runs_setNumber_iff hm hread rfl
    exact Sqrt.runs_use hdefines hm hnumber (hset 2 htwo) rfl fun _ _ _ => rfl
  · rw [Sqrt.finish_scores_target, Sqrt.root, if_pos hn]
  · exact ⟨Sqrt.root n, Sqrt.finish_scores_target t n target, Sqrt.root_spec hn⟩

/-- A text that assigns the square root of a variable. -/
def rootText : String := "$r = Math.sqrt($n);"

/-- The statement of the text. -/
def rootAssignment : Assignment where
  target := ⟨.word, ⟨0, 2, ⟨1, 1⟩⟩, "$r"⟩
  operator := .assign
  right := [⟨.word, ⟨5, 14, ⟨1, 6⟩⟩, "Math.sqrt"⟩, ⟨.group .round, ⟨14, 18, ⟨1, 15⟩⟩, "($n)"⟩]

/-- The commands of the statement. -/
def rootCommands : List Command :=
  Sqrt.useBody (Sqrt.setNumber (.score (.ofVariable "$n"))) (.ofVariable "$r")
    (.call (Sqrt.mainAt {}))

/-- A state in which the variable has a value, and the constant that the functions need. -/
def rootState (n : Int) : State Unit :=
  ((State.mk (fun _ => none) ()).set (.ofConstant 2) 2).set (.ofVariable "$n") n

/-- The pack of the text. -/
def rootPack : Pack := ((Session.new {}).after [.text {} "main" rootText]).pack

theorem compiled_rootText :
    Sqrt.Compiled {} [.text {} "main" rootText] (Session.new {}) rootAssignment rootCommands where
  operator := rfl
  call := by decide +kernel
  session := rfl
  commands := ⟨Compile.block 0, by decide +kernel⟩
  functions := by decide +kernel

theorem hasConstants_rootState (n : Int) : (rootState n).HasConstants rootPack := by
  have hconstants : rootPack.constants = [2] := by decide +kernel
  intro k hk
  rw [hconstants, List.mem_singleton] at hk
  subst hk
  exact (State.set_scores_of_ne _ _ (by decide)).trans (State.set_scores_self ..)

theorem read_rootState {target : Score} {operand : Operand}
    (htarget : Score.parseIn? (Session.new {}).scope rootAssignment.target.text = some target)
    (hoperand : Sqrt.argument? (Session.new {}).scope rootAssignment.right = some operand.asValue)
    (n : Int) : .ofVariable "$r" = target ∧ operand.read (rootState n) = some n := by
  have hparsed : Score.parseIn? (Session.new {}).scope rootAssignment.target.text =
        some (.ofVariable "$r") ∧
      Sqrt.argument? (Session.new {}).scope rootAssignment.right =
        some (Operand.score (.ofVariable "$n")).asValue := by
    decide +kernel
  refine ⟨Option.some.inj (hparsed.1.symm.trans htarget), ?_⟩
  have hvalue := Option.some.inj (hparsed.2.symm.trans hoperand)
  cases operand with
  | int k => cases hvalue
  | score x =>
    obtain rfl := Value.score.inj hvalue
    exact State.set_scores_self ..

theorem root_of_seventeen : ∃ t', Runs (Machine.computing .unbounded) rootPack.table rootCommands
    (rootState 17) t' ∧ t'.scores (.ofVariable "$r") = some 4 := by
  obtain ⟨target, operand, htarget, hoperand, hruns⟩ := root_of_integer compiled_rootText
  obtain ⟨rfl, hread⟩ := read_rootState htarget hoperand 17
  obtain ⟨t', hrun, -, -, hroot⟩ := hruns Unit _ (rootState 17) 17
    (Machine.computing_computes .unbounded) (hasConstants_rootState 17) hread
  obtain ⟨r, hr, hpositive, hlow, hhigh⟩ := hroot (by decide)
  have hfour : r = 4 := by nlinarith
  exact ⟨t', hrun, hfour ▸ hr⟩

/-- The commands of `$r = Math.sqrt(N)` can be run with scores alone, for every score but the greatest
one: a machine that stops at a value that is no score, or at a divisor of zero, ends them. And for just
these numbers they end in the same state when values are wrapped as when values of any size are kept. -/
theorem root_within_scores_iff (h : Sqrt.Compiled settings tasks s a cs) :
    let p := ((Session.new settings).after tasks).pack
    ∃ (target : Score) (operand : Operand), Score.parseIn? s.scope a.target.text = some target ∧
      Sqrt.argument? s.scope a.right = some operand.asValue ∧
      ∀ (W : Type) (t : State W) (n : Int), inScoreRange n = true →
        t.HasConstants p → operand.read t = some n →
        (∀ m : Machine W, m.Checks → ((∃ t', Runs m p.table cs t t') ↔ n ≠ maxScore)) ∧
        ∀ m m' : Machine W, m.Computes .wrapping → m'.Computes .unbounded →
          ∃ t₁ t₂, Runs m p.table cs t t₁ ∧ Runs m' p.table cs t t₂ ∧ (t₁ = t₂ ↔ n ≠ maxScore) := by
  intro p
  obtain ⟨target, operand, htarget, hemits⟩ := h.emits
  obtain ⟨hdefines, htwo⟩ := Session.sqrt_defined rfl h.functions
  refine ⟨target, operand, htarget, hemits.argument, fun W t n hn hset hread => ?_⟩
  rw [hemits.commands, h.session]
  refine ⟨fun m hm => ?_, fun m m' hm hm' => ?_⟩
  · have hkept := Store.checked_of_inScoreRange hn
    exact Sqrt.runs_checked_iff hdefines hm.computes
      (fun _ => Sqrt.runs_setNumber_iff hm.computes hread hkept) (hset 2 htwo) hn
  · have hkept := Store.wrapping_of_inScoreRange hn
    exact Sqrt.runs_wrapping_eq_iff hdefines hm hm'
      (fun _ => Sqrt.runs_setNumber_iff hm hread hkept)
      (fun _ => Sqrt.runs_setNumber_iff hm' hread rfl) (hset 2 htwo) hn

end

theorem root_of_maxScore :
    (∃ t', Runs (Machine.computing .checked) rootPack.table rootCommands (rootState 17) t') ∧
    (¬∃ t', Runs (Machine.computing .checked) rootPack.table rootCommands (rootState maxScore) t') ∧
    ∃ t₁ t₂,
      Runs (Machine.computing .wrapping) rootPack.table rootCommands (rootState maxScore) t₁ ∧
      Runs (Machine.computing .unbounded) rootPack.table rootCommands (rootState maxScore) t₂ ∧
      t₁ ≠ t₂ := by
  obtain ⟨target, operand, htarget, hoperand, hruns⟩ := root_within_scores_iff compiled_rootText
  have hread := fun n => (read_rootState htarget hoperand n).2
  obtain ⟨hsmall, -⟩ := hruns Unit _ 17 (by decide) (hasConstants_rootState 17) (hread 17)
  obtain ⟨hlarge, hwrapped⟩ := hruns Unit _ maxScore (by decide) (hasConstants_rootState _) (hread _)
  obtain ⟨t₁, t₂, hrun₁, hrun₂, hsame⟩ := hwrapped _ _ (Machine.computing_computes .wrapping)
    (Machine.computing_computes .unbounded)
  refine ⟨(hsmall _ Machine.computing_checks).mpr (by decide), fun h => ?_, t₁, t₂, hrun₁, hrun₂,
    fun h => hsame.mp h rfl⟩
  exact (hlarge _ Machine.computing_checks).mp h rfl

end Packwright
