import Packwright.Proofs.Session.TopLevel
import Packwright.Proofs.Token.Seam

/-!
# Texts compiled together

Two texts that compile one after the other compile together as well, with a line break between them,
and the pack is the same. The commands of the first text are then not yet in the load function while
the second one is compiled, unless an import put them there.

## Main definitions

- `Session.Lacks` — sessions that are alike, but for commands that are still to come
- `Compile.Repeats` — steps that do the same to sessions that are alike

## Main results

- `Compile.topConstructs_lacks` — constructs in a session that lacks commands
- `Compile.importWithin_repeats` — files and all that they import
- `Compile.topConstructs_together` — the constructs of two texts in one run
- `texts_compile_together` — two texts and the text made of both
-/

namespace Packwright

/-! ### Sessions that are alike -/

/-- The first session is the second one, but for messages and for commands at the end of the load
function that are still to come in the second one. -/
structure Session.Lacks (pre : List Command) (s s' : Session) : Prop extends s.Ahead pre s' where
  imported : s.imported = s'.imported
  load : s'.pack.hasFunction loadPath = true

namespace Session

variable {s s' : Session} {pre : List Command}

theorem Lacks.refl (h : s.pack.hasFunction loadPath = true) : s.Lacks [] s := ⟨.refl s, rfl, h⟩

/-- Messages make no difference. -/
theorem Lacks.messages (h : s.Lacks pre s') (log log' : List LogRecord)
    (warnings warnings' : List Warning) (logged logged' : Nat) :
    Lacks pre { s with log, warnings, logged }
      { s' with log := log', warnings := warnings', logged := logged' } :=
  ⟨⟨h.settings, h.scope, h.tickDefined, h.sqrtEmitted, h.pack⟩, h.imported, h.load⟩

/-- Commands go to the load function of the first session only. -/
theorem Lacks.flush (h : s.Lacks pre s') (out : List Command) :
    Lacks (pre ++ out) { s with pack := s.pack.extendLoad out } s' :=
  ⟨h.toAhead.flush h.load out, h.imported, h.load⟩

/-- All commands go to the load functions. -/
theorem Lacks.catchUp (h : s.Lacks pre s') (out : List Command) :
    Lacks [] { s with pack := s.pack.extendLoad out }
      { s' with pack := s'.pack.extendLoad (pre ++ out) } := by
  refine ⟨⟨h.settings, h.scope, h.tickDefined, h.sqrtEmitted, ?_⟩, h.imported, ?_⟩
  · rw [Pack.ahead_nil]
    exact h.toAhead.catchUp h.load out
  · exact (s'.pack.precedes_extendFunction (.inl rfl) _).hasFunction h.load

end Session

theorem Construct.import?_moved (v : Move) (c : Construct) :
    (c.moved v).import? = c.import?.map fun (keyword, tokens) =>
      (keyword.moved v, tokens.map (Token.moved v)) := by
  cases c with
  | chain | doWhile => rfl
  | single st =>
    obtain ⟨tokens⟩ := st
    have hkind : (Statement.moved v ⟨tokens⟩).kind = Statement.kind ⟨tokens⟩ :=
      Statement.kind_moved v _
    simp only [Construct.moved, Construct.import?, hkind]
    cases Statement.kind ⟨tokens⟩ <;> cases tokens <;> rfl

theorem Construct.map_moved_none (cs : List Construct) : cs.map (Construct.moved .none) = cs := by
  rw [List.map_congr_left fun c _ => c.moved_none, List.map_id']

theorem Construct.Whole.moved {c : Construct} (h : c.Whole) (v : Move) : (c.moved v).Whole := by
  cases c with
  | chain => trivial
  | doWhile first tail =>
    cases tail with
    | none => exact h
    | some w => exact Option.some_ne_none _
  | single st =>
    show (st.moved v).kind ≠ _
    rw [Statement.kind_moved]
    exact h

namespace Compile

/-- Where the first step succeeds, the second one does in a session that is alike, and leaves it
alike. -/
def Repeats (m m' : Compile Unit) : Prop :=
  ∀ {s s' t : Session}, s.Lacks [] s' → m.outcome s = (.ok (), t) →
    ∃ t', m'.outcome s' = (.ok (), t') ∧ t.Lacks [] t'

variable {importer : Importer} {depth depth' : Nat}

/-- A construct in a session that lacks commands. -/
theorem construct_lacks (hdepth : depth ≤ depth') (v : Move) {c : Construct}
    {pre commands : List Command} {s s' t : Session} (hs : s.Lacks pre s')
    (hrun : (construct (block depth) .top c).outcome s = (.ok commands, t)) :
    ∃ t', (construct (block depth') .top (c.moved v)).outcome s' = (.ok commands, t') ∧
      t.Lacks pre t' := by
  obtain ⟨_, t', hrun', rfl, ht⟩ :=
    (follows_construct (follows_block hdepth) v Level.dotless_top c).agrees hs.toAhead hrun
  have hbuilds := construct_builds depth c s
  have hbuilds' := construct_builds depth' (c.moved v) s'
  rw [hrun] at hbuilds
  rw [hrun'] at hbuilds'
  refine ⟨t', hrun', ht, ?_, hbuilds'.precedes.hasFunction hs.load⟩
  rw [hbuilds.imported, hbuilds'.imported, hs.imported]

/-- Constructs in a session that lacks commands. The commands so far are then behind those that it
lacks; an import puts all of them into the load function, and it lacks none any more. -/
theorem topConstructs_lacks
    (himporter : ∀ path position position',
      Repeats (importer path position) (importer path position'))
    (hdepth : depth ≤ depth') (v : Move) {cs : List Construct} {pre out out' : List Command}
    {s s' t : Session} (hs : s.Lacks pre s')
    (hrun : (topConstructs (block depth) importer out cs).outcome s = (.ok out', t)) :
    ∃ pre' t', t.Lacks pre' t' ∧
      (topConstructs (block depth') importer (pre ++ out) (cs.map (Construct.moved v))).outcome s' =
        (.ok (pre' ++ out'), t') := by
  induction cs generalizing pre out s s' with
  | nil =>
    obtain ⟨hout, rfl⟩ := Prod.mk.inj hrun
    obtain rfl := Except.ok.inj hout
    exact ⟨pre, s', hs, rfl⟩
  | cons c rest ih =>
    have hmoved := c.import?_moved v
    rw [List.map_cons]
    rcases himport : c.import? with _ | ⟨keyword, tokens⟩
    · rw [himport] at hmoved
      obtain ⟨commands, s₁, hconstruct, hrest⟩ := (topConstructs_other_eq_ok himport).mp hrun
      obtain ⟨s₁', hconstruct', hs₁⟩ := construct_lacks hdepth v hs hconstruct
      obtain ⟨pre', t', ht, hrest'⟩ := ih hs₁ hrest
      refine ⟨pre', t', ht, (topConstructs_other_eq_ok hmoved).mpr ⟨commands, s₁', hconstruct', ?_⟩⟩
      rwa [List.append_assoc]
    · rw [himport] at hmoved
      obtain ⟨target, s₁, htarget, hfile, hrest⟩ := (topConstructs_import_eq_ok himport).mp hrun
      obtain ⟨_, htarget', rfl⟩ := importTarget_moved v keyword tokens target htarget
      -- all commands are in both load functions when the file begins
      obtain ⟨s₁', hfile', hs₁⟩ :=
        himporter _ _ (some (target.moved v).position) (hs.catchUp out) hfile
      obtain ⟨pre', t', ht, hrest'⟩ := ih hs₁ hrest
      rw [hs.settings] at hfile'
      refine ⟨pre', t', ht, (topConstructs_import_eq_ok hmoved).mpr ?_⟩
      exact ⟨target.moved v, s₁', htarget', hfile', hrest'⟩

theorem source_repeats
    (himporter : ∀ path position position',
      Repeats (importer path position) (importer path position'))
    (name name' text : String) :
    Repeats (source importer name text) (source importer name' text) := by
  intro s s' t hs hrun
  obtain ⟨r, out, log, warnings, later, s₁, hread, htop, rfl⟩ := exists_of_source hrun
  have htop' : ∀ log' warnings', ∃ out' s₁',
      (topConstructs (block (maxNesting text)) importer [] (constructs r.statements)).outcome
        { s' with log := log', warnings := warnings' } = (.ok out', s₁') ∧
      ∃ pre', out' = pre' ++ out ∧ s₁.Lacks pre' s₁' := by
    intro log' warnings'
    obtain ⟨pre', s₁', hs₁, htop'⟩ := topConstructs_lacks himporter le_rfl .none
      (hs.messages log log' warnings warnings' s.logged s'.logged) htop
    refine ⟨pre' ++ out, s₁', ?_, pre', rfl, hs₁⟩
    rwa [Construct.map_moved_none] at htop'
  obtain ⟨_, s₁', later', hrun', pre', rfl, hs₁⟩ := source_ok name' hread htop'
  exact ⟨_, hrun', (hs₁.catchUp out).messages s₁.log s₁'.log later later' s₁.logged s₁'.logged⟩

theorem importWith_repeats (files : File.Tree) {compile : String → String → Compile Unit}
    (hcompile : ∀ name name' text, Repeats (compile name text) (compile name' text))
    (path : File.Path) (position position' : Option Position) :
    Repeats (importWith files compile path position) (importWith files compile path position') := by
  intro s s' t hs hrun
  cases hread : files.read path with
  | error problem =>
    rw [importWith_unreadable hread] at hrun
    cases hrun
  | ok found =>
    obtain ⟨place, text⟩ := found
    by_cases hbegun : place ∈ s.imported
    · obtain ⟨log, hrun₁⟩ := importWith_begun hread hbegun compile position
      obtain ⟨log', hrun'⟩ := importWith_begun hread (hs.imported ▸ hbegun) compile position'
      rw [hrun₁] at hrun
      obtain ⟨-, rfl⟩ := Prod.mk.inj hrun
      exact ⟨_, hrun', hs.messages log log' s.warnings s'.warnings s.logged s'.logged⟩
    · have hbegin : Session.Lacks [] { s with imported := s.imported ++ [place] }
          { s' with imported := s'.imported ++ [place] } :=
        ⟨⟨hs.settings, hs.scope, hs.tickDefined, hs.sqrtEmitted, hs.pack⟩,
          congrArg (· ++ [place]) hs.imported, hs.load⟩
      rw [importWith_new hread hbegun] at hrun
      rw [importWith_new hread (hs.imported ▸ hbegun)]
      exact hcompile _ _ text hbegin hrun

/-- Files do the same to sessions that are alike, with all that they import. -/
theorem importWithin_repeats (files : File.Tree) (depth : Nat) (path : File.Path)
    (position position' : Option Position) :
    Repeats (importWithin files depth path position) (importWithin files depth path position') := by
  induction depth generalizing path position position' with
  | zero =>
    refine importWith_repeats files ?_ path position position'
    intro name name' text s s' t hs hrun
    cases hrun
  | succ depth ih => exact importWith_repeats files (source_repeats ih) path position position'

end Compile

/-! ### Two texts -/

/-- Whole constructs stay what they are in front of others, and behind others further down. -/
theorem constructs_together {a b : List Statement} (ha : ∀ c ∈ constructs a, c.Whole)
    (hb : ∀ c ∈ constructs b, c.Whole) (v : Move) :
    constructs (a ++ b.map (Statement.moved v)) =
      (constructs a).map (Construct.moved .none) ++ (constructs b).map (Construct.moved v) := by
  have hmoved : ∀ c ∈ constructs (b.map (Statement.moved v)), c.Whole := by
    rw [constructs_moved]
    exact List.forall_mem_map.mpr fun c hc => (hb c hc).moved v
  rw [constructs_append ha hmoved, constructs_moved, Construct.map_moved_none]

theorem Compile.maxNesting_le (first second : String) :
    maxNesting first ≤ maxNesting (first ++ "\n" ++ second) ∧
      maxNesting second ≤ maxNesting (first ++ "\n" ++ second) := by
  simp only [maxNesting, String.toList_append, List.length_append]
  omega

/-- The constructs of two texts in one run. Those of the second text are compiled while the commands
of the first one are still to come, unless an import put them into the load function. -/
theorem Compile.topConstructs_together {importer : Importer}
    (himporter : ∀ path position position',
      Repeats (importer path position) (importer path position'))
    {depth depth₁ depth₂ : Nat} (hdepth₁ : depth₁ ≤ depth) (hdepth₂ : depth₂ ≤ depth) (v : Move)
    {a b : List Statement} {out₁ out₂ : List Command} {s s' s₁ t₁ s₂ : Session}
    (hs : s.Lacks [] s')
    (hrun₁ : (topConstructs (block depth₁) importer [] (constructs a)).outcome s = (.ok out₁, s₁))
    (ht₁ : ∀ {pre : List Command} {u : Session},
      Session.Lacks pre { s₁ with pack := s₁.pack.extendLoad out₁ } u → t₁.Lacks pre u)
    (hrun₂ : (topConstructs (block depth₂) importer [] (constructs b)).outcome t₁ =
      (.ok out₂, s₂)) :
    ∃ out u, (topConstructs (block depth) importer []
        (constructs (a ++ b.map (Statement.moved v)))).outcome s' = (.ok out, u) ∧
      u.pack.extendLoad out = s₂.pack.extendLoad out₂ := by
  obtain ⟨pre₁, s₁', hs₁, hrun₁'⟩ := topConstructs_lacks himporter hdepth₁ .none hs hrun₁
  -- the first run ends by putting its commands into the load function, the joint one goes on
  obtain ⟨pre₂, s₂', hs₂, hrun₂'⟩ :=
    topConstructs_lacks himporter hdepth₂ v (ht₁ (hs₁.flush out₁)) hrun₂
  rw [List.append_nil] at hrun₂'
  refine ⟨pre₂ ++ out₂, s₂', ?_, (hs₂.toAhead.catchUp hs₂.load out₂).symm⟩
  rw [constructs_together (topConstructs_whole (constructs_fit a) hrun₁)
    (topConstructs_whole (constructs_fit b) hrun₂)]
  exact topConstructs_append_eq_ok.mpr ⟨pre₁ ++ out₁, s₁', hrun₁', hrun₂'⟩

/-- Two texts that compile one after the other compile together, with a line break between them, and
the pack is the same. -/
theorem texts_compile_together (settings : Settings) (tasks : List Task) (files : File.Tree)
    (name₁ name₂ name first second : String) {t₁ t₂ : Session}
    (h₁ : (Session.compileText files name₁ first).outcome ((Session.new settings).after tasks) =
      (.ok (), t₁))
    (h₂ : (Session.compileText files name₂ second).outcome t₁ = (.ok (), t₂)) :
    ∃ t, (Session.compileText files name (first ++ "\n" ++ second)).outcome
        ((Session.new settings).after tasks) = (.ok (), t) ∧ t.pack = t₂.pack := by
  have hload := Session.after_hasLoad settings tasks
  generalize (Session.new settings).after tasks = s at h₁ hload ⊢
  obtain ⟨u₁, hspace, hsource₁, rfl⟩ := Compile.step_eq_ok.mp h₁
  obtain ⟨u₂, -, hsource₂, rfl⟩ := Compile.step_eq_ok.mp h₂
  obtain ⟨r₁, out₁, log₁, warnings₁, later₁, s₁, hread₁, hrun₁, rfl⟩ :=
    Compile.exists_of_source hsource₁
  obtain ⟨r₂, out₂, log₂, warnings₂, later₂, s₂, hread₂, hrun₂, rfl⟩ :=
    Compile.exists_of_source hsource₂
  obtain ⟨v, warnings, hread⟩ := tokenize_append hread₁ hread₂
  obtain ⟨hdepth₁, hdepth₂⟩ := Compile.maxNesting_le first second
  have htop : ∀ log warnings, ∃ out u,
      (Compile.topConstructs (Compile.block (Compile.maxNesting (first ++ "\n" ++ second)))
        (Compile.importFile files) []
        (constructs (r₁.statements ++ r₂.statements.map (Statement.moved v)))).outcome
        { s with log, warnings } = (.ok out, u) ∧
      u.pack.extendLoad out = s₂.pack.extendLoad out₂ := by
    intro log warnings
    exact Compile.topConstructs_together (Compile.importWithin_repeats files _) hdepth₁ hdepth₂ v
      ((Session.Lacks.refl hload).messages log₁ log warnings₁ warnings s.logged s.logged) hrun₁
      (fun {pre u} hs => hs.messages log₂ u.log warnings₂ u.warnings _ u.logged) hrun₂
  obtain ⟨out, u, later, hsource, hpack⟩ := Compile.source_ok name hread htop
  exact ⟨_, Compile.step_eq_ok.mpr ⟨_, hspace, hsource, rfl⟩, hpack⟩

/-- A tree with a file that can be imported. -/
def libraryTree : File.Tree :=
  ⟨[(⟨.working, ["lib.quill".toList]⟩, .file (.text "say lib; function f() \x7b say f; \x7d"))]⟩

/-- A text that ends in a comment. -/
def upperText : String := "say a; if ($x == 1) \x7b say b; say c; \x7d // end"

/-- A text that begins with a comment and has an import in it. -/
def lowerText : String :=
  "# next\nsay d; import \"lib\"; do \x7b f(); \x7d while ($x < 3); say z;"

/-- The session behind `upperText`. -/
def upperSession : Session :=
  ((Session.new {}).after []).next (.text libraryTree "upper" upperText)

/-- The session behind `lowerText`. -/
def lowerSession : Session := upperSession.next (.text libraryTree "lower" lowerText)

theorem upper_and_lower_compile_together :
    (((Session.compileText libraryTree "upper" upperText).outcome
        ((Session.new {}).after [])).1 = .ok () ∧
      ((Session.compileText libraryTree "lower" lowerText).outcome upperSession).1 = .ok () ∧
      lowerSession.pack.functions.map PackFunction.path = [loadPath, ⟨"f"⟩] ∧
      lowerSession.entries.map Prod.fst = [("if_else", "0"), ("do_while_loop", "0")]) ∧
    ∃ t, (Session.compileText libraryTree "both" (upperText ++ "\n" ++ lowerText)).outcome
        ((Session.new {}).after []) = (.ok (), t) ∧ t.pack = lowerSession.pack := by
  have hruns : ((Session.compileText libraryTree "upper" upperText).outcome
        ((Session.new {}).after [])).1 = .ok () ∧
      ((Session.compileText libraryTree "lower" lowerText).outcome upperSession).1 = .ok () ∧
      lowerSession.pack.functions.map PackFunction.path = [loadPath, ⟨"f"⟩] ∧
      lowerSession.entries.map Prod.fst = [("if_else", "0"), ("do_while_loop", "0")] := by
    decide +kernel
  exact ⟨hruns, texts_compile_together {} [] libraryTree "upper" "lower" "both" upperText lowerText
    (Session.outcome_eq_next (t := .text libraryTree "upper" upperText) hruns.1)
    (Session.outcome_eq_next (t := .text libraryTree "lower" lowerText) hruns.2.1)⟩

end Packwright
