import Packwright.Proofs.Project.Locations

/-!
# What a build changes

A build that succeeds changes only files of its pack, apart from earlier data that it takes away.
These lie inside the output directory, but for functions and resources whose names lead out of it.

## Main results

- `Config.build_eq_ok` — the parts of a build
- `Pack.changed_of_write` — which files change when a pack is written
- `build_stays_inside_iff` — when only files inside the output directory change
-/

namespace Packwright

open File (Place Content)

/-! ### The parts of a build -/

theorem Work.outcome_ofExcept_eq_ok {α : Type} {x : Except Fault α} {a : α} {w w' : Workspace} :
    (Work.ofExcept x).outcome w = (.ok a, w') ↔ x = .ok a ∧ w' = w := by
  cases x with
  | ok b =>
    show ((Except.ok b, w) : Except Failure α × Workspace) = (.ok a, w') ↔ _
    rw [Prod.mk.injEq, Except.ok.injEq, Except.ok.injEq, @eq_comm _ w w']
  | error f =>
    show ((Except.error (.fault f), w) : Except Failure α × Workspace) = (.ok a, w') ↔ _
    simp

/-- A compilation as a step of work leaves all files as they are. -/
theorem Work.compile_eq_ok {settings : Settings} {steps : File.Tree → Compile Unit} {s : Session}
    {w w' : Workspace} (h : (Work.compile settings steps).outcome w = (.ok s, w')) :
    (steps w.files).outcome (Session.new settings) = (.ok (), s) ∧ w'.files = w.files := by
  unfold Work.compile at h
  obtain ⟨_, _, hget, hrest⟩ := Work.outcome_bind_eq_ok.mp h
  obtain ⟨hvalue, rfl⟩ := Prod.mk.inj hget
  obtain rfl := Except.ok.inj hvalue
  rcases hrun : (steps w.files).outcome (Session.new settings) with ⟨result, s₁⟩
  have hrun' : (steps w.files).run.run (Session.new settings) = (result, s₁) := hrun
  rw [hrun'] at hrest
  obtain ⟨_, _, hset, hreturn⟩ := Work.outcome_bind_eq_ok.mp hrest
  obtain ⟨-, rfl⟩ := Prod.mk.inj hset
  cases result with
  | error e => cases hreturn
  | ok u =>
    obtain ⟨hs, rfl⟩ := Prod.mk.inj hreturn
    obtain rfl := Except.ok.inj hs
    exact ⟨rfl, rfl⟩

/-- A build compiles the entry file and writes the pack. -/
theorem Config.build_eq_ok {c : Config} {w w' : Workspace} {summary : Summary}
    (h : c.build.outcome w = (.ok summary, w')) :
    validateSpace c.space = .ok () ∧ ∃ (s : Session) (w₁ w₂ : Workspace),
      (Session.compileEntry w.files).outcome (Session.new c.settings) = (.ok (), s) ∧
        (s.pack.write c).outcome w₁ = (.ok summary, w₂) ∧ w₁.files = w.files ∧
        w'.files = w₂.files := by
  unfold Config.build at h
  obtain ⟨_, _, hvalidate, hrest⟩ := Work.outcome_bind_eq_ok.mp h
  obtain ⟨hvalid, rfl⟩ := Work.outcome_ofExcept_eq_ok.mp hvalidate
  obtain ⟨s, w₁, hcompile, hrest⟩ := Work.outcome_bind_eq_ok.mp hrest
  obtain ⟨hrun, hfiles⟩ := Work.compile_eq_ok hcompile
  obtain ⟨written, w₂, hwrite, hrest⟩ := Work.outcome_bind_eq_ok.mp hrest
  have hspace : validateSpace c.space = .ok () := by
    unfold Config.validate at hvalid
    cases hvalidate : validateSpace c.space with
    | ok _ => rfl
    | error f =>
      rw [hvalidate] at hvalid
      cases hvalid
  have hend : written = summary ∧ w'.files = w₂.files := by
    by_cases hwarned : s.warnings.length > 0
    · simp only [hwarned, if_true] at hrest
      obtain ⟨_, w₃, hlog, hreturn⟩ := Work.outcome_bind_eq_ok.mp hrest
      obtain ⟨hsummary, rfl⟩ := Prod.mk.inj hreturn
      exact ⟨Except.ok.inj hsummary, Work.files_of_log hlog⟩
    · simp only [hwarned, if_false] at hrest
      obtain ⟨hsummary, rfl⟩ := Prod.mk.inj hrest
      exact ⟨Except.ok.inj hsummary, rfl⟩
  obtain ⟨rfl, hsame⟩ := hend
  exact ⟨hspace, s, w₁, w₂, hrun, hwrite, hfiles, hsame⟩

/-! ### Files that change -/

/-- Only files of the pack change when it is written, and earlier data that is taken away. -/
theorem Pack.changed_of_write {p : Pack} {config : Config} {w w' : Workspace} {summary : Summary}
    (h : (p.write config).outcome w = (.ok summary, w')) {q : Place}
    (hchanged : w'.files.file? q ≠ w.files.file? q) :
    (∃ a ∈ p.files config, a.place = q) ∨
      config.dataPlace.within q = true ∧ w'.files.file? q = none := by
  obtain ⟨-, -, hfiles⟩ := Pack.write_eq_ok h
  by_cases hmem : ∃ a ∈ p.files config, a.place = q
  · exact .inl hmem
  · rw [hfiles, laid_of_not_mem fun a ha hplace => hmem ⟨a, ha, hplace⟩] at hchanged ⊢
    unfold Config.cleared at hchanged ⊢
    split at hchanged
    · next hcleared =>
      rw [if_pos hcleared]
      exact .inr ⟨(Bool.and_eq_true_iff.mp hcleared).2, rfl⟩
    · exact absurd rfl hchanged

/-- Each file of a pack that was written is there, with the text of a file for its place. -/
theorem Pack.exists_of_write {p : Pack} {config : Config} {w w' : Workspace} {summary : Summary}
    (h : (p.write config).outcome w = (.ok summary, w')) {a : Artifact} (ha : a ∈ p.files config) :
    ∃ b ∈ p.files config, b.place = a.place ∧ w'.files.file? a.place = some (.text b.text) := by
  obtain ⟨-, -, hfiles⟩ := Pack.write_eq_ok h
  rw [hfiles]
  exact exists_laid_eq ⟨a, ha, rfl⟩ _

/-- The file is inside the output directory, or it is as it was before. -/
def Artifact.StaysInside (a : Artifact) (c : Config) (w w' : Workspace) : Prop :=
  c.outputPlace.within a.place = true ∨ w'.files.file? a.place = w.files.file? a.place

/-- What a build that succeeds changes. Only files of the pack change, apart from earlier data that
is taken away, and each file of the pack is there afterwards. All changes lie inside the output
directory exactly if that is so for functions whose path begins with a slash, and for resources
whose kind or path does or whose path has a step up in it; everything else is inside. Out of a
relative output directory, a function whose path begins with a slash always gets.

Places that start from the working directory, from above it and from the root are different places
here, whatever the working directory is. So what is said of paths that begin with a slash is about how
they are written: one that spells out the working directory counts as outside of it. -/
theorem build_stays_inside_iff {c : Config} {w w' : Workspace} {summary : Summary}
    (hbuild : c.build.outcome w = (.ok summary, w')) :
    ∃ s, (Session.compileEntry w.files).outcome (Session.new c.settings) = (.ok (), s) ∧
      (∀ q, w'.files.file? q ≠ w.files.file? q → (∃ a ∈ s.pack.files c, a.place = q) ∨
        c.dataPlace.within q = true ∧ w'.files.file? q = none) ∧
      (∀ a ∈ s.pack.files c, ∃ b ∈ s.pack.files c, b.place = a.place ∧
        w'.files.file? a.place = some (.text b.text)) ∧
      ((∀ q, w'.files.file? q ≠ w.files.file? q → c.outputPlace.within q = true) ↔
        (∀ f ∈ s.pack.functions, f.IsOuter →
          (Artifact.ofFunction c.dataPath s.pack.space f).StaysInside c w w') ∧
        ∀ r ∈ s.pack.resources, r.1.IsOuter →
          (Artifact.ofResource c.dataPath s.pack.space r.1 r.2).StaysInside c w w') ∧
      (c.outputPath.isAbsolute = false → ∀ f ∈ s.pack.functions, f.IsOuter →
        c.outputPlace.within (Artifact.ofFunction c.dataPath s.pack.space f).place = false) := by
  obtain ⟨hvalid, s, w₁, w₂, hcompile, hwrite, hbefore, hafter⟩ := Config.build_eq_ok hbuild
  obtain ⟨hnamed, hspace⟩ := Session.named_of_task (t := .entry w.files) hcompile
  have hslash : '/' ∉ s.pack.space.toList := hspace ▸ slash_of_validateSpace hvalid
  have hchanged : ∀ q, w'.files.file? q ≠ w.files.file? q → (∃ a ∈ s.pack.files c, a.place = q) ∨
      c.dataPlace.within q = true ∧ w'.files.file? q = none := by
    rw [hafter, ← hbefore]
    exact fun q => Pack.changed_of_write hwrite
  refine ⟨s, hcompile, hchanged, ?_, ⟨fun hall => ?_, fun houter q hq => ?_⟩, ?_⟩
  · rw [hafter]
    exact fun a => Pack.exists_of_write hwrite
  · -- a file that is not inside has not changed
    have hstays : ∀ a : Artifact, a.StaysInside c w w' := by
      intro a
      by_cases hsame : w'.files.file? a.place = w.files.file? a.place
      · exact .inr hsame
      · exact .inl (hall a.place hsame)
    exact ⟨fun f _ _ => hstays _, fun r _ _ => hstays _⟩
  · rcases hchanged q hq with ⟨a, ha, rfl⟩ | ⟨hwithin, -⟩
    · rcases within_files hnamed c hslash ha with
        hinside | ⟨f, hf, hfouter, rfl⟩ | ⟨r, hr, hrouter, rfl⟩
      · exact hinside
      · exact (houter.1 f hf hfouter).resolve_right hq
      · exact (houter.2 r hr hrouter).resolve_right hq
    · exact Place.within_trans c.outputPlace_within_dataPlace hwithin
  · exact fun hrelative f _ hf => not_within_of_isOuter c s.pack.space hf hrelative

/-- A project with the working directory as its output. -/
def escapingConfig : Config := { space := "a", target := ⟨"m"⟩, output := ⟨"t/.."⟩ }

/-- Its source is one resource, which steps up from its directory and on. -/
def escapingFiles : File.Tree where
  nodes := [(⟨.working, ["data".toList]⟩, .directory),
    (⟨.working, ["data".toList, "a".toList]⟩, .directory),
    (⟨.working, ["data".toList, "a".toList, "as".toList]⟩, .directory),
    (⟨.working, ["data".toList, "a".toList, "functions".toList]⟩, .directory),
    (⟨.working, ["data".toList, "minecraft".toList]⟩, .directory),
    (⟨.working, ["data".toList, "minecraft".toList, "tags".toList]⟩, .directory),
    (⟨.working, ["data".toList, "minecraft".toList, "tags".toList, "functions".toList]⟩, .directory),
    (⟨.working, ["m".toList]⟩, .file (.text "new a(../../../../e)\x7b\x7d"))]

/-- The file of the resource. -/
def escapingArtifact : Artifact :=
  .ofResource escapingConfig.dataPath "a" ⟨"a", "../../../../e"⟩ "\x7b\x7d"

theorem escaping_changes_outside :
    (escapingConfig.build.outcome ⟨escapingFiles, []⟩).1 = .ok ⟨1, 1⟩ ∧
      ∃ q, (escapingConfig.build.outcome ⟨escapingFiles, []⟩).2.files.file? q ≠
          escapingFiles.file? q ∧
        escapingConfig.outputPlace.within q = false := by
  have heval : (escapingConfig.build.outcome ⟨escapingFiles, []⟩).1 = .ok ⟨1, 1⟩ ∧
      ((Session.compileEntry escapingFiles).outcome
          (Session.new escapingConfig.settings)).2.pack.resources =
        [(⟨"a", "../../../../e"⟩, "\x7b\x7d")] ∧
      ((Session.compileEntry escapingFiles).outcome
        (Session.new escapingConfig.settings)).2.pack.space = "a" := by
    decide +kernel
  obtain ⟨hok, hpack⟩ := heval
  have hplace : escapingArtifact.place = ⟨.above 0, ["e.json".toList]⟩ := by decide +kernel
  have houtside : escapingConfig.outputPlace.within escapingArtifact.place = false := by
    rw [hplace]
    decide +kernel
  have hnew : escapingFiles.file? escapingArtifact.place = none := by
    rw [hplace]
    decide +kernel
  obtain ⟨s, hcompile, -, hthere, -⟩ := build_stays_inside_iff (Work.outcome_eq_of_fst hok)
  rw [show (Session.compileEntry escapingFiles).outcome (Session.new escapingConfig.settings) =
    (.ok (), s) from hcompile] at hpack
  obtain ⟨hresources, hspace⟩ := hpack
  have hartifact : escapingArtifact = .ofResource escapingConfig.dataPath s.pack.space
      ⟨"a", "../../../../e"⟩ "\x7b\x7d" := by
    rw [hspace, escapingArtifact]
  have hresource : (⟨"a", "../../../../e"⟩, "\x7b\x7d") ∈ s.pack.resources := by
    rw [hresources]
    exact List.mem_singleton_self _
  have hmem : escapingArtifact ∈ s.pack.files escapingConfig :=
    List.mem_cons_of_mem _ (Pack.mem_artifacts.mpr (.inr (.inl ⟨_, hresource, hartifact⟩)))
  obtain ⟨b, -, -, hfile⟩ := hthere escapingArtifact hmem
  refine ⟨hok, escapingArtifact.place, ?_, houtside⟩
  rw [hfile, hnew]
  exact Option.some_ne_none _

end Packwright
