import Packwright.Proofs.Session.Inlines
import Packwright.Proofs.Session.TopLevel

/-!
# Imports mean inlining

A file with imports is compiled as one sequence of statements would be, in which each import is
replaced by the statements of the file the first time, and left out later. An import puts the
commands so far into the load function; in one sequence they stay behind until the end.

## Main definitions

- `Compile.sequence` — compiles statements in one sequence
- `Compile.Suffices` — a bound on nested bodies that is enough for each file
- `Compile.StandsFor` — constructs in one sequence that stand for a run
- `Compile.Inlined` — a run and the sequence of statements that stands for it

## Main results

- `Compile.topConstructs_inlined` — the top level of a file
- `Compile.importWithin_inlined` — a file and all that it imports
- `entry_means_inlining` — the entry file
-/

namespace Packwright

namespace Compile

/-- Compiles statements in one sequence. -/
def sequence (depth : Nat) (importer : Importer) (statements : List Statement) : Compile Unit := do
  let out ← topConstructs (block depth) importer [] (constructs statements)
  modifyPack (·.extendLoad out)

/-- The top level of a file is the sequence of its statements. -/
theorem topLevel_eq_sequence (importer : Importer) (text : String) :
    topLevel importer text =
      tokenize .required Position.start text >>= sequence (maxNesting text) importer :=
  rfl

/-- The bound on nested bodies is enough for each file. -/
def Suffices (files : File.Tree) (depth : Nat) : Prop :=
  ∀ place text, files.node? place = some (.file (.text text)) → maxNesting text ≤ depth

/-- The deepest nesting of bodies that a file can have. -/
def nesting : File.Node → Nat
  | .file (.text text) => maxNesting text
  | _ => 0

/-- From what all files together can nest on, each bound is enough. -/
theorem exists_suffices (files : File.Tree) :
    ∃ bound, ∀ depth, bound ≤ depth → Suffices files depth := by
  refine ⟨(files.nodes.map fun n => nesting n.2).sum, ?_⟩
  intro depth hdepth place text hnode
  unfold File.Tree.node? at hnode
  split at hnode
  · cases hnode
  · -- the file is one of the nodes, so its nesting is one of the summands
    obtain ⟨before, behind, hnodes, -⟩ := List.lookup_eq_some_iff.mp hnode
    rw [hnodes] at hdepth
    simp only [List.map_append, List.map_cons, List.sum_append, List.sum_cons, nesting] at hdepth
    omega

/-! ### Sequences that stand for runs -/

variable {files : File.Tree} {importer : Importer} {depth : Nat} {out out' mid : List Command}
  {s s₁ t : Session} {cs cs' : List Construct}

/-- The constructs in one sequence do what a run does that begins with the commands `out` and ends
with the commands `out'`. What the run puts into the load function on the way is still to come. -/
def StandsFor (files : File.Tree) (cs : List Construct) (out : List Command) (s : Session)
    (out' : List Command) (t : Session) : Prop :=
  ∀ depth, Suffices files depth → ∀ (importer : Importer) (pre : List Command) (s' : Session),
    s.Ahead pre s' → s'.pack.hasFunction loadPath = true →
    ∃ pre' t', (topConstructs (block depth) importer (pre ++ out) cs).outcome s' =
      (.ok (pre' ++ out'), t') ∧ t.Ahead pre' t' ∧ t'.pack.hasFunction loadPath = true

/-- No construct is needed for a run that changes nothing but messages and the files begun. -/
theorem standsFor_nil (hsettings : t.settings = s.settings) (hscope : t.scope = s.scope)
    (htick : t.tickDefined = s.tickDefined) (hsqrt : t.sqrtEmitted = s.sqrtEmitted)
    (hpack : t.pack = s.pack) : StandsFor files [] out s out t := by
  intro depth _ importer pre s' hs hload
  exact ⟨pre, s', rfl, ⟨hsettings.trans hs.settings, hscope.trans hs.scope,
    htick.trans hs.tickDefined, hsqrt.trans hs.sqrtEmitted, hpack.trans hs.pack⟩, hload⟩

/-- Nor is one needed for commands that go to the load function. -/
theorem standsFor_flush (out : List Command) :
    StandsFor files [] out s [] { s with pack := s.pack.extendLoad out } := by
  intro depth _ importer pre s' hs hload
  refine ⟨pre ++ out, s', ?_, hs.flush hload out, hload⟩
  rw [List.append_nil]
  rfl

theorem StandsFor.append (h : StandsFor files cs out s mid s₁)
    (h' : StandsFor files cs' mid s₁ out' t) : StandsFor files (cs ++ cs') out s out' t := by
  intro depth hdepth importer pre s' hs hload
  obtain ⟨pre₁, s₁', hrun, hs₁, hload₁⟩ := h depth hdepth importer pre s' hs hload
  obtain ⟨pre', t', hrun', ht, hload'⟩ := h' depth hdepth importer pre₁ s₁' hs₁ hload₁
  exact ⟨pre', t', topConstructs_append_eq_ok.mpr ⟨_, s₁', hrun, hrun'⟩, ht, hload'⟩

/-- A construct other than an import stands for itself. -/
theorem standsFor_construct {c : Construct} {commands : List Command} (hc : c.import? = none)
    (hdepth : ∀ depth', Suffices files depth' → depth ≤ depth')
    (hrun : (construct (block depth) .top c).outcome s = (.ok commands, t)) (out : List Command) :
    StandsFor files [c] out s (out ++ commands) t := by
  intro depth' hdepth' importer pre s' hs hload
  obtain ⟨_, t', hrun', rfl, ht⟩ :=
    (follows_construct (follows_block (hdepth depth' hdepth')) .none Level.dotless_top c).agrees hs hrun
  rw [c.moved_none] at hrun'
  have hbuilds := construct_builds depth' c s'
  rw [hrun'] at hbuilds
  refine ⟨pre, t', ?_, ht, hbuilds.precedes.hasFunction hload⟩
  rw [← List.append_assoc]
  exact (topConstructs_other_eq_ok hc).mpr ⟨_, t', hrun', rfl⟩

/-! ### Files -/

/-- The run over the statements of the file at `here`, and the sequence that stands for it. -/
structure Inlined (files : File.Tree) (here : File.Place) (begun : List File.Place)
    (statements : List Statement) (out : List Command) (s : Session) (out' : List Command)
    (t : Session) (flat : List (File.Place × Statement)) (cs : List Construct) : Prop where
  inlines : Inlines files s.settings here begun statements flat t.imported
  statements : cs.flatMap Construct.statements = flat.map Prod.snd
  fits : ∀ c ∈ cs, c.Fits
  whole : ∀ c ∈ cs, c.Whole
  stands : StandsFor files cs out s out' t
  settings : t.settings = s.settings

/-- An import either leads to a file that was begun, and does nothing, or to a new one. -/
def InlinesFiles (files : File.Tree) (importer : Importer) : Prop :=
  ∀ {path : File.Path} {position : Option Position} {s t : Session},
    (importer path position).outcome s = (.ok (), t) →
    ∃ place text, files.read path = .ok (place, text) ∧
      ((place ∈ s.imported ∧ t.imported = s.imported ∧ t.settings = s.settings ∧
          StandsFor files [] [] s [] t) ∨
        (place ∉ s.imported ∧ ∃ r flat cs,
          Packwright.tokenize .required Position.start text = .ok r ∧
          Inlined files place (s.imported ++ [place]) r.statements [] s [] t flat cs))

/-- The statements of a construct other than an import are no imports. -/
theorem kind_ne_import {c : Construct} (hfits : c.Fits) (hc : c.import? = none) :
    ∀ st ∈ c.statements, st.kind ≠ .importFile := by
  cases c with
  | chain first elses =>
    refine List.forall_mem_cons.mpr ⟨by simp [hfits.1], fun st hst => ?_⟩
    simp [hfits.2 st hst]
  | doWhile first tail =>
    refine List.forall_mem_cons.mpr ⟨by simp [hfits.1], fun st hst => ?_⟩
    simp [hfits.2 st (Option.mem_toList.mp hst)]
  | single st =>
    rintro st' hst' hkind
    obtain rfl := List.mem_singleton.mp hst'
    obtain ⟨first, rest, htokens⟩ := Statement.exists_tokens hkind (by decide)
    simp only [Construct.import?, hkind, htokens] at hc
    cases hc

/-- The top level of a file is what a sequence stands for. -/
theorem topConstructs_inlined (himporter : InlinesFiles files importer)
    (hdepth : ∀ depth', Suffices files depth' → depth ≤ depth') (here : File.Place)
    (hfits : ∀ c ∈ cs, c.Fits)
    (hrun : (topConstructs (block depth) importer out cs).outcome s = (.ok out', t)) :
    ∃ flat cs', Inlined files here s.imported (cs.flatMap Construct.statements) out s out' t flat
      cs' := by
  have hwhole := topConstructs_whole hfits hrun
  induction cs generalizing out s with
  | nil =>
    obtain ⟨hout, rfl⟩ := Prod.mk.inj hrun
    obtain rfl := Except.ok.inj hout
    exact ⟨[], [], .nil, rfl, by simp, by simp, standsFor_nil rfl rfl rfl rfl rfl, rfl⟩
  | cons c rest ih =>
    obtain ⟨hc, hfits'⟩ := List.forall_mem_cons.mp hfits
    obtain ⟨hc', hwhole'⟩ := List.forall_mem_cons.mp hwhole
    rw [List.flatMap_cons]
    rcases himport : c.import? with _ | ⟨keyword, tokens⟩
    · obtain ⟨commands, s₁, hconstruct, hrest⟩ := (topConstructs_other_eq_ok himport).mp hrun
      have hbuilds := construct_builds depth c s
      rw [hconstruct] at hbuilds
      obtain ⟨flat, cs', h⟩ := ih hfits' hrest hwhole'
      refine ⟨c.statements.map (here, ·) ++ flat, c :: cs', ?_, ?_, ?_, ?_, ?_, ?_⟩
      · have hinlines := h.inlines
        rw [hbuilds.settings, hbuilds.imported] at hinlines
        exact hinlines.keep_append (kind_ne_import hc himport)
      · simp [h.statements]
      · exact List.forall_mem_cons.mpr ⟨hc, h.fits⟩
      · exact List.forall_mem_cons.mpr ⟨hc', h.whole⟩
      · exact (standsFor_construct himport hdepth hconstruct out).append h.stands
      · exact h.settings.trans hbuilds.settings
    · obtain ⟨target, s₁, htarget, hfile, hrest⟩ := (topConstructs_import_eq_ok himport).mp hrun
      obtain ⟨rfl, hkind⟩ := Construct.exists_of_import? himport
      obtain ⟨flat, cs', h⟩ := ih hfits' hrest hwhole'
      have hinlines := h.inlines
      obtain ⟨place, text, hread, hcases⟩ := himporter hfile
      have himports : Statement.Imports files s.settings ⟨keyword :: tokens⟩ place text :=
        ⟨hkind, keyword, tokens, target, rfl, htarget, hread⟩
      -- the run puts the commands so far into the load function first; the sequence keeps them
      rcases hcases with
        ⟨hbegun, himported, hsettings, hstands⟩ | ⟨hnew, r, inner, ds, htext, hinner⟩
      · rw [hsettings, himported] at hinlines
        exact ⟨flat, cs', .skip himports hbegun hinlines, h.statements, h.fits, h.whole,
          ((standsFor_flush out).append hstands).append h.stands, h.settings.trans hsettings⟩
      · rw [hinner.settings] at hinlines
        refine ⟨inner ++ flat, ds ++ cs', .splice himports hnew htext hinner.inlines hinlines, ?_,
          ?_, ?_, ?_, h.settings.trans hinner.settings⟩
        · rw [List.flatMap_append, List.map_append, hinner.statements, h.statements]
        · exact List.forall_mem_append.mpr ⟨hinner.fits, h.fits⟩
        · exact List.forall_mem_append.mpr ⟨hinner.whole, h.whole⟩
        · exact ((standsFor_flush out).append hinner.stands).append h.stands

/-- A file that compiles is what a sequence stands for. -/
theorem source_inlined (himporter : InlinesFiles files importer) {place : File.Place}
    {name text : String} (hnode : files.node? place = some (.file (.text text)))
    (hrun : (source importer name text).outcome s = (.ok (), t)) :
    ∃ r flat cs, Packwright.tokenize .required Position.start text = .ok r ∧
      Inlined files place s.imported r.statements [] s [] t flat cs := by
  obtain ⟨r, out, log, warnings, later, s₁, hread, htop, rfl⟩ := exists_of_source hrun
  obtain ⟨flat, cs, h⟩ := topConstructs_inlined himporter
    (fun depth' hdepth' => hdepth' place text hnode) place (constructs_fit _) htop
  have hinlines := h.inlines
  rw [statements_constructs] at hinlines
  refine ⟨r, flat, cs, hread, hinlines, h.statements, h.fits, h.whole, ?_, h.settings⟩
  have hbefore : StandsFor files [] [] s [] { s with log, warnings } :=
    standsFor_nil rfl rfl rfl rfl rfl
  have hafter : StandsFor files [] [] { s₁ with pack := s₁.pack.extendLoad out } []
      { s₁ with pack := s₁.pack.extendLoad out, warnings := later } :=
    standsFor_nil rfl rfl rfl rfl rfl
  have hall := ((hbefore.append h.stands).append (standsFor_flush out)).append hafter
  simpa using hall

theorem importWith_inlined {compile : String → String → Compile Unit}
    (hcompile : ∀ {name text : String} {place : File.Place} {s t : Session},
      files.node? place = some (.file (.text text)) → (compile name text).outcome s = (.ok (), t) →
      ∃ r flat cs, Packwright.tokenize .required Position.start text = .ok r ∧
        Inlined files place s.imported r.statements [] s [] t flat cs) :
    InlinesFiles files (importWith files compile) := by
  intro path position s t hrun
  cases hread : files.read path with
  | error problem =>
    rw [importWith_unreadable hread] at hrun
    cases hrun
  | ok found =>
    obtain ⟨place, text⟩ := found
    refine ⟨place, text, rfl, ?_⟩
    by_cases hbegun : place ∈ s.imported
    · obtain ⟨log, hskip⟩ := importWith_begun hread hbegun compile position
      rw [hskip] at hrun
      obtain ⟨-, rfl⟩ := Prod.mk.inj hrun
      exact .inl ⟨hbegun, rfl, rfl, standsFor_nil rfl rfl rfl rfl rfl⟩
    · rw [importWith_new hread hbegun] at hrun
      obtain ⟨r, flat, cs, htext, h⟩ := hcompile (File.Tree.node?_of_read hread) hrun
      refine .inr ⟨hbegun, r, flat, cs, htext, h.inlines, h.statements, h.fits, h.whole, ?_,
        h.settings⟩
      have hbegin : StandsFor files [] [] s [] { s with imported := s.imported ++ [place] } :=
        standsFor_nil rfl rfl rfl rfl rfl
      exact hbegin.append h.stands

/-- A file and all that it imports is what a sequence stands for. -/
theorem importWithin_inlined (files : File.Tree) (depth : Nat) :
    InlinesFiles files (importWithin files depth) := by
  induction depth with
  | zero =>
    refine importWith_inlined ?_
    intro name text place s t hnode hrun
    cases hrun
  | succ depth ih => exact importWith_inlined fun hnode hrun => source_inlined ih hnode hrun

/-- A sequence that stands for a run from a session to another one leads to the same pack. -/
theorem sequence_of_standsFor {statements : List Statement} (hfits : ∀ c ∈ cs, c.Fits)
    (hwhole : ∀ c ∈ cs, c.Whole) (hstatements : cs.flatMap Construct.statements = statements)
    (hstands : StandsFor files cs [] s [] t) (hload : s.pack.hasFunction loadPath = true)
    (hdepth : Suffices files depth) (importer : Importer) :
    ∃ t', (sequence depth importer statements).outcome s = (.ok (), t') ∧ t'.pack = t.pack := by
  obtain ⟨pre, t', hrun, ht, hload'⟩ := hstands depth hdepth importer [] s (.refl s) hload
  simp only [List.append_nil] at hrun
  refine ⟨{ t' with pack := t'.pack.extendLoad pre }, ?_, ?_⟩
  · rw [← hstatements, sequence, constructs_of_whole hfits hwhole]
    exact outcome_bind_eq_ok.mpr ⟨pre, t', hrun, rfl⟩
  · rw [ht.pack]
    exact t'.pack.extendLoad_eq_ahead pre hload'

end Compile

/-- An entry file that compiles leads to the pack of one sequence of statements: that of the file,
with the statements of other files in place of their first imports and without later imports. There is
only one such sequence, and each file has its statements in it once. -/
theorem entry_means_inlining (files : File.Tree) (settings : Settings) {t : Session}
    (h : (Session.compileEntry files).outcome (Session.new settings) = (.ok (), t)) :
    ∃ place text r flat begun, files.read settings.entryPath = .ok (place, text) ∧
      tokenize .required Position.start text = .ok r ∧
      Inlines files settings place [place] r.statements flat begun ∧
      (∀ flat' begun', Inlines files settings place [place] r.statements flat' begun' →
        flat' = flat ∧ begun' = begun) ∧
      EachOnce files begun flat ∧
      ∃ bound, ∀ depth, bound ≤ depth → ∀ importer, ∃ t',
        (Compile.sequence depth importer (flat.map Prod.snd)).outcome (Session.new settings) =
          (.ok (), t') ∧ t'.pack = t.pack := by
  rw [Compile.outcome_compileEntry] at h
  obtain ⟨s₁, -, hfile, rfl⟩ := Compile.step_eq_ok.mp h
  obtain ⟨place, text, hread, ⟨hbegun, -⟩ | ⟨-, r, flat, cs, htext, hinlined⟩⟩ :=
    Compile.importWithin_inlined files (files.nodes.length + 1) hfile
  · cases hbegun
  · obtain ⟨bound, hbound⟩ := Compile.exists_suffices files
    have hinlines : Inlines files settings place [place] r.statements flat s₁.imported :=
      hinlined.inlines
    refine ⟨place, text, r, flat, s₁.imported, hread, htext, hinlines,
      fun flat' begun' h' => hinlines.unique h',
      hinlines.eachOnce (File.Tree.node?_of_read hread) htext, bound, fun depth hdepth importer => ?_⟩
    exact Compile.sequence_of_standsFor hinlined.fits hinlined.whole hinlined.statements
      hinlined.stands rfl (hbound depth hdepth) importer

/-- The place of the entry file in `cyclicTree`. -/
def mainPlace : File.Place := ⟨.working, ["main.quill".toList]⟩

/-- The place of the imported file in `cyclicTree`. -/
def libPlace : File.Place := ⟨.working, ["lib.quill".toList]⟩

/-- An entry file that imports another one twice, which imports it back. -/
def cyclicTree : File.Tree :=
  ⟨[(mainPlace, .file (.text ("say a; if ($x == 1) \x7b say b; say c; \x7d " ++
      "import \"lib\"; import \"lib.quill\"; f(); say z;"))),
    (libPlace, .file (.text ("import \"main\"; say lib; " ++
      "function f() \x7b if ($x == 2) \x7b say d; say e; \x7d \x7d")))]⟩

/-- The session behind the entry file of `cyclicTree`. -/
def cyclicSession : Session := (Session.new {}).next (.entry cyclicTree)

theorem cyclic_means_inlining :
    (((Session.compileEntry cyclicTree).outcome (Session.new {})).1 = .ok () ∧
      cyclicSession.imported = [mainPlace, libPlace] ∧
      cyclicSession.pack.functions.map PackFunction.path = [loadPath, ⟨"f"⟩]) ∧
    ∃ place text r flat begun, cyclicTree.read (Settings.entryPath {}) = .ok (place, text) ∧
      tokenize .required Position.start text = .ok r ∧
      Inlines cyclicTree {} place [place] r.statements flat begun ∧
      (∀ flat' begun', Inlines cyclicTree {} place [place] r.statements flat' begun' →
        flat' = flat ∧ begun' = begun) ∧
      EachOnce cyclicTree begun flat ∧
      ∃ bound, ∀ depth, bound ≤ depth → ∀ importer, ∃ t',
        (Compile.sequence depth importer (flat.map Prod.snd)).outcome (Session.new {}) =
          (.ok (), t') ∧ t'.pack = cyclicSession.pack := by
  have hrun : ((Session.compileEntry cyclicTree).outcome (Session.new {})).1 = .ok () ∧
      cyclicSession.imported = [mainPlace, libPlace] ∧
      cyclicSession.pack.functions.map PackFunction.path = [loadPath, ⟨"f"⟩] := by
    decide +kernel
  exact ⟨hrun, entry_means_inlining cyclicTree {}
    (Session.outcome_eq_next (t := .entry cyclicTree) hrun.1)⟩

end Packwright
