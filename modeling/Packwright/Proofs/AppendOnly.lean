import Packwright.Proofs.PrivateCalls
import Packwright.Proofs.Session.FurtherDown
import Packwright.Proofs.Session.Outcomes

/-!
# Packs only grow

Whatever a session compiles, and whether or not it fails, its pack only grows. Functions that are
there stay as they are, except that the load and the tick function get more commands at their end.
Only the end of a text and its imports put commands into the load function.

## Main definitions

- `Pack.Precedes` — one pack has all that another one has
- `Session.Tracks`, `Compile.Tracked` — relations that hold over all that a compilation does
- `Compile.Appends` — steps that only add to the pack

## Main results

- `Pack.Change.precedes`, `Pack.Change.load` — what one change adds, and where it does not
- `Compile.importWithin_tracked` — files and all that they import
- `pack_only_grows` — what a task of a session adds
-/

namespace Packwright

/-! ### Packs that grow -/

namespace Pack

/-- The second pack has all that the first one has, and maybe more. -/
structure Precedes (p q : Pack) : Prop where
  functions : ∀ path f, p.function? path = some f → ∃ more, q.function? path = some (f.extend more) ∧
    (path ≠ loadPath → path ≠ tickPath → more = [])
  generated : ∀ feature name f, p.generated.get? feature name = some f →
    q.generated.get? feature name = some f
  objectives : p.objectives <+: q.objectives
  constants : p.constants <+: q.constants
  resources : p.resources <+: q.resources
  counters : ∀ feature, p.generated.peekId feature ≤ q.generated.peekId feature

variable {p q r : Pack}

theorem Precedes.of_same (hfunctions : q.functions = p.functions)
    (hgenerated : q.generated = p.generated) (hobjectives : p.objectives <+: q.objectives)
    (hconstants : p.constants <+: q.constants) (hresources : p.resources <+: q.resources) :
    p.Precedes q := by
  refine ⟨fun path f hf => ⟨[], ?_, fun _ _ => rfl⟩, fun feature name f hf => hgenerated ▸ hf,
    hobjectives, hconstants, hresources, fun feature => hgenerated ▸ le_rfl⟩
  rw [function?, hfunctions, PackFunction.extend, List.append_nil]
  exact hf

theorem Precedes.refl (p : Pack) : p.Precedes p :=
  .of_same rfl rfl (List.prefix_refl _) (List.prefix_refl _) (List.prefix_refl _)

theorem Precedes.trans (h : p.Precedes q) (h' : q.Precedes r) : p.Precedes r := by
  refine ⟨fun path f hf => ?_, fun feature name f hf => h'.generated _ _ _ (h.generated _ _ _ hf),
    h.objectives.trans h'.objectives, h.constants.trans h'.constants,
    h.resources.trans h'.resources, fun feature => (h.counters feature).trans (h'.counters feature)⟩
  obtain ⟨more, hmore, hplain⟩ := h.functions path f hf
  obtain ⟨more', hmore', hplain'⟩ := h'.functions path _ hmore
  refine ⟨more ++ more', ?_, fun hload htick => ?_⟩
  · rw [hmore', PackFunction.extend, PackFunction.extend, PackFunction.extend, List.append_assoc]
  · rw [hplain hload htick, hplain' hload htick, List.append_nil]

theorem precedes_declare (p : Pack) (name criteria : String) :
    p.Precedes (p.declare name criteria) := by
  unfold declare
  split
  · exact .refl p
  · exact .of_same rfl rfl (List.prefix_append ..) (List.prefix_refl _) (List.prefix_refl _)

theorem precedes_registerConstant (p : Pack) (n : Int) : p.Precedes (p.registerConstant n) := by
  have happend : ∀ q : Pack, q.Precedes
      (if q.constants.contains n then q else { q with constants := q.constants ++ [n] }) := by
    intro q
    split
    · exact .refl q
    · exact .of_same rfl rfl (List.prefix_refl _) (List.prefix_append ..) (List.prefix_refl _)
  unfold registerConstant
  refine Precedes.trans ?_ (happend _)
  split
  · exact p.precedes_declare _ _
  · exact .refl p

/-- A function that is added at the end hides none that is there. -/
theorem precedes_append (p : Pack) (f : PackFunction) :
    p.Precedes { p with functions := p.functions ++ [f] } := by
  refine ⟨fun path g hg => ⟨[], ?_, fun _ _ => rfl⟩, fun _ _ _ h => h, List.prefix_refl _,
    List.prefix_refl _, List.prefix_refl _, fun _ => le_rfl⟩
  rw [function?] at hg
  rw [function?, List.find?_append, hg, PackFunction.extend, List.append_nil]
  rfl

/-- The load and the tick function get commands at their end. -/
theorem precedes_extendFunction (p : Pack) {path : FunctionPath}
    (hpath : path = loadPath ∨ path = tickPath) (commands : List Command) :
    p.Precedes (p.extendFunction path commands) := by
  unfold extendFunction
  split
  · refine ⟨fun other f hf => ?_, fun _ _ _ h => h, List.prefix_refl _, List.prefix_refl _,
      List.prefix_refl _, fun _ => le_rfl⟩
    have hfound : (p.updateFunction path (·.extend commands)).function? other =
        some (if f.path = path then f.extend commands else f) := by
      rw [function?] at hf
      rw [function?, updateFunction, Session.find?_map_extend, hf, Option.map_some]
    have hother : f.path = other := by simpa using List.find?_some hf
    -- any other function is found as it was
    rw [hfound]
    by_cases hsame : f.path = path
    · rw [if_pos hsame]
      refine ⟨commands, rfl, fun hload htick => ?_⟩
      rw [hother] at hsame
      subst hsame
      exact (hpath.elim hload htick).elim
    · rw [if_neg hsame]
      exact ⟨[], by rw [PackFunction.extend, List.append_nil], fun _ _ => rfl⟩
  · exact p.precedes_append _

/-- One change only adds to a pack. -/
theorem Change.precedes (h : p.Change q) : p.Precedes q := by
  cases h with
  | @count feature n hn =>
    refine ⟨fun path f hf => ⟨[], ?_, fun _ _ => rfl⟩, fun _ _ _ h => h, List.prefix_refl _,
      List.prefix_refl _, List.prefix_refl _, fun other => ?_⟩
    · rw [PackFunction.extend, List.append_nil]
      exact hf
    · rw [Registry.peekId_setCounter]
      split
      · next heq =>
        rw [heq]
        exact hn
      · exact le_rfl
  | generate f commands hname hfree =>
    refine ⟨fun path g hg => ⟨[], ?_, fun _ _ => rfl⟩, fun feature name g hg => ?_,
      List.prefix_refl _, List.prefix_refl _, List.prefix_refl _, fun _ => le_rfl⟩
    · rw [PackFunction.extend, List.append_nil]
      exact hg
    · rw [Registry.get?] at hg ⊢
      rw [List.lookup_append, hg]
      rfl
  | declare name criteria => exact p.precedes_declare name criteria
  | constant n => exact p.precedes_registerConstant n
  | define commands => exact p.precedes_append _
  | tick commands => exact p.precedes_extendFunction (.inr rfl) commands
  | resource json =>
    exact .of_same rfl rfl (List.prefix_refl _) (List.prefix_refl _) (List.prefix_append ..)

/-- No change touches the load function. -/
theorem Change.load (h : p.Change q) : q.function? loadPath = p.function? loadPath := by
  cases h with
  | count | generate | resource => rfl
  | declare name criteria => rw [function?, (p.generated_declare name criteria).2, function?]
  | constant n => rw [function?, (p.generated_registerConstant n).2, function?]
  | define commands hfree hload hdots =>
    rw [function?, List.find?_append, function?]
    simp [hload]
  | tick commands =>
    unfold extendTick extendFunction
    split
    · rw [function?, updateFunction, Session.find?_map_extend, function?]
      cases hfound : p.functions.find? (·.path = loadPath) with
      | none => rfl
      | some f =>
        have hpath : f.path = loadPath := by simpa using List.find?_some hfound
        rw [Option.map_some, if_neg (hpath ▸ tickPath_ne_loadPath.symm)]
    · rw [function?, List.find?_append, function?]
      simp [tickPath_ne_loadPath]

end Pack

/-! ### Steps that add to the pack -/

theorem Session.Builds.precedes {s s' : Session} (h : s.Builds s') : s.pack.Precedes s'.pack := by
  obtain ⟨-, -, hchanges⟩ := h
  generalize s'.pack = q at hchanges ⊢
  induction hchanges with
  | refl => exact .refl _
  | tail _ hchange ih => exact ih.trans hchange.precedes

theorem Session.Builds.load {s s' : Session} (h : s.Builds s') :
    s'.pack.function? loadPath = s.pack.function? loadPath := by
  obtain ⟨-, -, hchanges⟩ := h
  generalize s'.pack = q at hchanges ⊢
  induction hchanges with
  | refl => rfl
  | tail _ hchange ih => exact hchange.load.trans ih

/-- A relation between sessions that holds over all that a compilation does: over constructs, over
commands that go to the load function, and over files that are begun. -/
structure Session.Tracks (R : Session → Session → Prop) : Prop where
  trans : ∀ {s s₁ s' : Session}, R s s₁ → R s₁ s' → R s s'
  builds : ∀ {s s' : Session}, s.Builds s' → R s s'
  load : ∀ (s : Session) (out : List Command), R s { s with pack := s.pack.extendLoad out }
  begun : ∀ (s : Session) (place : File.Place), R s { s with imported := s.imported ++ [place] }

theorem Session.Tracks.refl {R : Session → Session → Prop} (h : Tracks R) (s : Session) : R s s :=
  h.builds (.refl s)

theorem Session.tracks_precedes : Session.Tracks fun s s' => s.pack.Precedes s'.pack where
  trans h h' := h.trans h'
  builds h := h.precedes
  load s out := s.pack.precedes_extendFunction (.inl rfl) out
  begun s _ := .refl s.pack

namespace Compile

variable {α β : Type} {m : Compile α} {importer : Importer} {R : Session → Session → Prop}

/-- Whether the step succeeds or fails, the relation holds between the sessions before and after it. -/
def Tracked (m : Compile α) (R : Session → Session → Prop) : Prop := ∀ s : Session, R s (m.outcome s).2

/-- Whether the step succeeds or fails, it only adds to the pack. -/
def Appends (m : Compile α) : Prop := ∀ s : Session, s.pack.Precedes (m.outcome s).2.pack

theorem Tracked.bind (hR : Session.Tracks R) {f : α → Compile β} (h : m.Tracked R)
    (hf : ∀ a, (f a).Tracked R) : (m >>= f).Tracked R := by
  intro s
  have hm := h s
  rw [outcome_bind]
  generalize m.outcome s = result at hm ⊢
  obtain ⟨value, s'⟩ := result
  cases value with
  | ok a => exact hR.trans hm (hf a s')
  | error e => exact hm

theorem tracked_ofExcept (hR : Session.Tracks R) (x : Except Fault α) : (ofExcept x).Tracked R := by
  cases x <;> exact fun s => hR.refl s

theorem construct_builds (depth : Nat) (c : Construct) (s : Session) :
    s.Builds ((construct (block depth) .top c).outcome s).2 :=
  (follows_construct (follows_block le_rfl) .none Level.dotless_top c).builds s

theorem topConstructs_tracked (hR : Session.Tracks R)
    (himporter : ∀ path place, (importer path place).Tracked R) (depth : Nat) (cs : List Construct)
    (out : List Command) : (topConstructs (block depth) importer out cs).Tracked R := by
  induction cs generalizing out with
  | nil => exact fun s => hR.refl s
  | cons c rest ih =>
    unfold topConstructs
    split
    · -- the commands so far go to the load function, then comes all that the file does
      refine (tracked_ofExcept hR _).bind hR fun target => ?_
      refine Tracked.bind hR (fun s => hR.load s out) fun _ => ?_
      refine Tracked.bind hR (fun s => hR.refl s) fun s => ?_
      exact (himporter _ _).bind hR fun _ => ih []
    · exact Tracked.bind hR (fun s => hR.builds (construct_builds depth c s)) fun _ => ih _

theorem tokenize_builds (terminator : Terminator) (start : Position) (text : String) (s : Session) :
    s.Builds ((tokenize terminator start text).outcome s).2 := by
  rw [tokenize_outcome]
  split <;> exact .of_pack rfl rfl rfl

theorem topLevel_tracked (hR : Session.Tracks R)
    (himporter : ∀ path place, (importer path place).Tracked R) (text : String) :
    (topLevel importer text).Tracked R := by
  refine Tracked.bind hR (fun s => hR.builds (tokenize_builds _ _ text s)) fun statements => ?_
  exact (topConstructs_tracked hR himporter _ _ _).bind hR fun out s => hR.load s out

theorem source_tracked (hR : Session.Tracks R)
    (himporter : ∀ path place, (importer path place).Tracked R) (name text : String) :
    (source importer name text).Tracked R := by
  intro s
  obtain ⟨log, warnings, -, hsession⟩ := source_outcome importer name text s
  rw [hsession]
  have hstart : R s { s with log } := hR.builds (.of_pack rfl rfl rfl)
  refine hR.trans (hR.trans hstart (topLevel_tracked hR himporter text { s with log })) ?_
  exact hR.builds (.of_pack rfl rfl rfl)

theorem importWith_tracked (hR : Session.Tracks R) (files : File.Tree)
    {compile : String → String → Compile Unit} (hcompile : ∀ name text, (compile name text).Tracked R)
    (path : File.Path) (position : Option Position) :
    (importWith files compile path position).Tracked R := by
  intro s
  cases hread : files.read path with
  | error problem =>
    rw [importWith_unreadable hread]
    exact hR.refl s
  | ok found =>
    obtain ⟨place, text⟩ := found
    by_cases hbegun : place ∈ s.imported
    · obtain ⟨log, hrun⟩ := importWith_begun hread hbegun compile position
      rw [hrun]
      exact hR.builds (.of_pack rfl rfl rfl)
    · rw [importWith_new hread hbegun]
      exact hR.trans (hR.begun s place) (hcompile _ text _)

/-- Whatever a compilation does, files do, with all that they import. -/
theorem importWithin_tracked (hR : Session.Tracks R) (files : File.Tree) (depth : Nat)
    (path : File.Path) (position : Option Position) :
    (importWithin files depth path position).Tracked R := by
  induction depth generalizing path position with
  | zero =>
    refine importWith_tracked hR files ?_ path position
    exact fun _ _ s => hR.refl s
  | succ depth ih => exact importWith_tracked hR files (source_tracked hR ih) path position

theorem step_tracked (hR : Session.Tracks R) {m : Compile Unit} (h : m.Tracked R) :
    (step m).Tracked R := by
  intro s
  rw [step_outcome]
  split
  · exact hR.trans (h s) (hR.builds (.of_pack rfl rfl rfl))
  · exact hR.refl s

/-! ### Texts that fail -/

/-- Constructs that are no imports leave the load function as it is. -/
theorem topConstructs_load (depth : Nat) (cs : List Construct) (out : List Command)
    (himport : ∀ c ∈ cs, c.import? = none) (s : Session) :
    ((topConstructs (block depth) importer out cs).outcome s).2.pack.function? loadPath =
      s.pack.function? loadPath := by
  induction cs generalizing out s with
  | nil => rfl
  | cons c rest ih =>
    obtain ⟨hc, hrest⟩ := List.forall_mem_cons.mp himport
    have hload := (construct_builds depth c s).load
    unfold topConstructs
    rw [hc]
    show (outcome (construct (block depth) .top c >>= fun commands =>
      topConstructs (block depth) importer (out ++ commands) rest) s).2.pack.function? loadPath = _
    rw [outcome_bind]
    generalize (construct (block depth) .top c).outcome s = result at hload ⊢
    obtain ⟨value, s'⟩ := result
    cases value with
    | ok commands => exact (ih _ hrest s').trans hload
    | error e => exact hload

/-- A text without imports that fails leaves the load function as it is. -/
theorem topLevel_load {text : String} {e : Failure}
    (himport : ∀ r, Packwright.tokenize .required Position.start text = .ok r →
      ∀ st ∈ r.statements, st.kind ≠ .importFile) {s s' : Session}
    (hfails : (topLevel importer text).outcome s = (.error e, s')) :
    s'.pack.function? loadPath = s.pack.function? loadPath := by
  unfold topLevel at hfails
  rw [outcome_bind, tokenize_outcome] at hfails
  cases hread : Packwright.tokenize .required Position.start text with
  | error f =>
    rw [hread] at hfails
    obtain ⟨-, rfl⟩ := Prod.mk.inj hfails
    rfl
  | ok r =>
    have hnone : ∀ c ∈ constructs r.statements, c.import? = none := by
      refine fun c hc => Construct.import?_eq_none fun st hst => himport r hread st ?_
      rw [← statements_constructs r.statements]
      exact List.mem_flatMap.mpr ⟨c, hc, hst⟩
    have hload := @topConstructs_load importer (maxNesting text) _ [] hnone
      { s with warnings := s.warnings ++ r.warnings }
    rw [hread] at hfails
    dsimp only at hfails
    rw [outcome_bind] at hfails
    generalize (topConstructs (block (maxNesting text)) importer [] (constructs r.statements)).outcome
      { s with warnings := s.warnings ++ r.warnings } = result at hload hfails
    obtain ⟨value, s₁⟩ := result
    cases value with
    | error e' =>
      obtain ⟨-, rfl⟩ := Prod.mk.inj hfails
      exact hload
    | ok out => cases hfails

end Compile

/-! ### Tasks -/

theorem Task.tracked {R : Session → Session → Prop} (hR : Session.Tracks R) (t : Task) :
    t.compile.Tracked R := by
  have hfiles := Compile.importWithin_tracked hR
  cases t with
  | text files name source =>
    exact Compile.step_tracked hR (Compile.source_tracked hR (hfiles files _) _ _)
  | file files path => exact Compile.step_tracked hR (hfiles files _ path none)
  | entry files =>
    refine Compile.Tracked.bind hR (fun s => hR.refl s) fun s => ?_
    exact Compile.step_tracked hR (hfiles files _ _ none)

theorem Task.appends (t : Task) : t.compile.Appends := t.tracked Session.tracks_precedes

/-- Whatever a session has done, a task only adds to its pack, whether it succeeds or fails. A text
that fails and has no import leaves the load function as it is. Counters never go back, because a
family that has no number left to give stops the program. -/
theorem pack_only_grows (s : Session) :
    (∀ t : Task, s.pack.Precedes (s.next t).pack) ∧
    ∀ (files : File.Tree) (name text : String) (e : Failure),
      ((Session.compileText files name text).outcome s).1 = .error e →
      (∀ r, tokenize .required Position.start text = .ok r →
        ∀ st ∈ r.statements, st.kind ≠ .importFile) →
      (s.next (.text files name text)).pack.function? loadPath = s.pack.function? loadPath := by
  refine ⟨fun t => t.appends s, fun files name text e hfails himport => ?_⟩
  show ((Session.compileText files name text).outcome s).2.pack.function? loadPath = _
  unfold Session.compileText at hfails ⊢
  rw [Compile.step_outcome] at hfails ⊢
  split at hfails
  · obtain ⟨log, warnings, hvalue, hsession⟩ :=
      Compile.source_outcome (Compile.importFile files) name text s
    rw [hvalue] at hfails
    show ((Compile.source (Compile.importFile files) name text).outcome s).2.pack.function? _ = _
    rw [hsession]
    rcases hrun : (Compile.topLevel (Compile.importFile files) text).outcome { s with log } with
      ⟨e' | u, s'⟩
    · exact (Compile.topLevel_load himport hrun : s'.pack.function? loadPath = _)
    · rw [hrun] at hfails
      cases hfails
  · rfl

/-- A session with commands in the load and the tick function. -/
def grownSession : Session :=
  (Session.new {}).after [.text {} "main" "say a; function __tick__() \x7b say t; \x7d"]

/-- A text that defines a function with a branch, emits a command for the load function and fails. -/
def halfText : String :=
  "function f() \x7b if ($x == 1) \x7b say b; say c; \x7d \x7d say d; break;"

/-- The fault of `halfText`. -/
def halfFault : Fault := ⟨.breakOutsideSwitch, some ⟨"main", 1, 56, halfText⟩⟩

theorem half_text_only_grows :
    (((Session.compileText {} "main" halfText).outcome grownSession).1 =
        .error (.fault halfFault) ∧
      (grownSession.next (.text {} "main" halfText)).pack.functions.map PackFunction.path =
        [loadPath, tickPath, ⟨"f"⟩] ∧
      (grownSession.next (.text {} "main" halfText)).entries.map Prod.fst = [("if_else", "0")]) ∧
    grownSession.pack.Precedes (grownSession.next (.text {} "main" halfText)).pack ∧
    (∀ r, tokenize .required Position.start halfText = .ok r →
      ∀ st ∈ r.statements, st.kind ≠ .importFile) ∧
    (grownSession.next (.text {} "main" halfText)).pack.function? loadPath =
      grownSession.pack.function? loadPath := by
  have heval : (((Session.compileText {} "main" halfText).outcome grownSession).1 =
          .error (.fault halfFault) ∧
        (grownSession.next (.text {} "main" halfText)).pack.functions.map PackFunction.path =
          [loadPath, tickPath, ⟨"f"⟩] ∧
        (grownSession.next (.text {} "main" halfText)).entries.map Prod.fst = [("if_else", "0")]) ∧
      (tokenize .required Position.start halfText).map
        (fun r => r.statements.map Statement.kind) = .ok [.function, .vanilla, .breakCase] := by
    decide +kernel
  obtain ⟨hrun, hkinds⟩ := heval
  have himport : ∀ r, tokenize .required Position.start halfText = .ok r →
      ∀ st ∈ r.statements, st.kind ≠ .importFile := by
    intro r hr st hst hkind
    rw [hr] at hkinds
    have hmem : StatementKind.importFile ∈ r.statements.map Statement.kind :=
      hkind ▸ List.mem_map_of_mem hst
    have hall : r.statements.map Statement.kind = [.function, .vanilla, .breakCase] :=
      Except.ok.inj hkinds
    rw [hall] at hmem
    exact absurd hmem (by decide)
  obtain ⟨hgrows, hload⟩ := pack_only_grows grownSession
  exact ⟨hrun, hgrows _, himport, hload {} "main" halfText _ hrun.1 himport⟩

end Packwright
