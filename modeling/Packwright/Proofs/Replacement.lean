import Mathlib.Data.List.Nodup
import Packwright.Proofs.Project.Writing

/-!
# Earlier data is replaced

A pack that is written replaces all earlier data, if the path of the data directory leads to it
before anything is written. A path whose directories are only made by the writing does not lead
there yet, and then earlier files stay among those of the pack.

## Main results

- `Config.contains_dataPath` — where the path leads to what is there
- `write_replaces_data_iff` — what lies in and around the data directory of a pack that was written
-/

namespace Packwright

open File (Place Content)

-- paths are texts, which unification must not compute
attribute [local irreducible] File.Path.joinText Place.ofPath

/-! ### Tags -/

/-- A file of the pack is at the place of the tick tag if there is a tick function, or a resource
is. -/
theorem Pack.exists_tick_iff (p : Pack) (config : Config) :
    (∃ a ∈ p.artifacts config.dataPath, a.place = config.tagPlace "tick") ↔
      p.tick?.isSome = true ∨ ∃ r ∈ p.resources,
        (Artifact.ofResource config.dataPath p.space r.1 r.2).place = config.tagPlace "tick" := by
  constructor
  · rintro ⟨a, ha, hplace⟩
    rcases mem_artifacts.mp ha with ⟨f, -, rfl⟩ | ⟨r, hr, rfl⟩ | htag
    · have hends := Artifact.ends_tag config.dataPath "tick" (tickPath.inSpace p.space)
      rw [Artifact.place_tag] at hends
      exact absurd hplace ((Artifact.ends_ofFunction _ _ f).ne hends (by decide) (by decide))
    · exact .inr ⟨r, hr, hplace⟩
    · rcases mem_tags.mp htag with rfl | ⟨htick, -⟩
      · rw [Artifact.place_tag] at hplace
        exact absurd hplace config.tagPlace_load_ne_tick
      · exact .inl htick
  · rintro (htick | ⟨r, hr, hplace⟩)
    · exact ⟨_, mem_artifacts.mpr (.inr (.inr (mem_tags.mpr (.inr ⟨htick, rfl⟩)))),
        Artifact.place_tag ..⟩
    · exact ⟨_, mem_artifacts.mpr (.inr (.inl ⟨r, hr, rfl⟩)), hplace⟩

/-! ### The data directory -/

theorem Config.not_within_description (config : Config) :
    config.dataPlace.within (Artifact.description config.outputPath config).place = false := by
  rw [Bool.eq_false_iff]
  intro hwithin
  obtain ⟨-, more, hmore⟩ := Place.within_iff.mp hwithin
  rw [Artifact.place_description, config.dataPlace_eq] at hmore
  simp at hmore

/-- Where a pack is written, the path of its data directory is not too long: there is a tag behind
it. -/
theorem Pack.checkLimits_dataPath {p : Pack} {config : Config}
    (h : ∀ a ∈ p.files config, a.path.checkLimits = .ok ()) : config.dataPath.checkLimits = .ok () := by
  have hmem : Artifact.tag config.dataPath "load" (loadPath.inSpace p.space) ∈ p.files config :=
    List.mem_cons_of_mem _ (mem_artifacts.mpr (.inr (.inr (mem_tags.mpr (.inl rfl)))))
  have htag : File.Path.checkLimits ((((config.dataPath.joinText "minecraft").joinText "tags").joinText
    "functions").joinText ("load" ++ ".json")) = .ok () := h _ hmem
  have hfunctions := File.Path.checkLimits_of_joinText (by simp) htag
  have htags := File.Path.checkLimits_of_joinText (by simp) hfunctions
  have hspace := File.Path.checkLimits_of_joinText (by simp) htags
  exact File.Path.checkLimits_of_joinText (by simp) hspace

/-- In a rooted tree, a file inside shows that the path of the data directory leads to it, if there
is no step up in it. -/
theorem Config.contains_dataPath {config : Config} {files : File.Tree} (hrooted : files.Rooted)
    (hup : ['.', '.'] ∉ File.splitSlashes config.outputPath.text.toList)
    (hlimit : config.dataPath.checkLimits = .ok ()) {q : Place}
    (hwithin : config.dataPlace.within q = true)
    (hfile : (files.file? q).isSome = true) : files.contains config.dataPath = true := by
  cases hnode : files.node? q with
  | none => simp [File.Tree.file?, hnode] at hfile
  | some n =>
    exact hrooted.contains_of_within hup (by decide) ⟨by decide, by decide⟩ hlimit hwithin hnode

/-! ### What a pack leaves -/

section

variable {p : Pack} {config : Config} {w w' : Workspace} {summary : Summary}

/-- Files at different places all stay. -/
theorem laid_eq_of_nodup {as : List Artifact} (h : (as.map Artifact.place).Nodup) {a : Artifact}
    (ha : a ∈ as) (before : Option Content) : laid as a.place before = some (.text a.text) := by
  refine laid_eq_of_mem ha (fun b hb hplace => ?_) before
  rw [List.inj_on_of_nodup_map h hb ha hplace]

/-- Behind the description, the files of a pack are those below the data directory. -/
theorem laid_files (p : Pack) (config : Config) (q : Place) (before : Option Content) :
    laid (p.files config) q before = laid (p.artifacts config.dataPath) q
      (if q = (Artifact.description config.outputPath config).place then
        some (.text (Artifact.description config.outputPath config).text) else before) := by
  rw [Pack.files, laid, List.foldl_cons, laid]

/-- A place inside the data directory without a file of the pack. -/
theorem laid_files_of_within {q : Place} (hwithin : config.dataPlace.within q = true)
    (hother : ∀ a ∈ p.artifacts config.dataPath, a.place ≠ q) (files : File.Tree) :
    laid (p.files config) q (config.cleared files q) =
      if files.contains config.dataPath then none else files.file? q := by
  have hdescription : q ≠ (Artifact.description config.outputPath config).place := by
    rintro rfl
    exact Bool.false_ne_true (config.not_within_description ▸ hwithin)
  rw [laid_files, laid_of_not_mem hother, if_neg hdescription, Config.cleared, hwithin,
    Bool.and_true]

end

/-- What a pack that was written leaves in and around its data directory, if its files are at
different places inside of it. Each file has its text. Any other file inside is what was there
before, unless the path of the directory led to something; so no earlier file stays exactly if it
did, or if there was none. It does in a rooted tree for an output path without steps up. The tick
tag is there exactly if there is a tick function, or a resource or an earlier file in its place.
Outside, only the description changes. -/
theorem write_replaces_data_iff {p : Pack} {config : Config} {w w' : Workspace} {summary : Summary}
    (hwrite : (p.write config).outcome w = (.ok summary, w'))
    (hdistinct : ((p.artifacts config.dataPath).map Artifact.place).Nodup)
    (hinside : ∀ a ∈ p.artifacts config.dataPath, config.dataPlace.within a.place = true) :
    (∀ a ∈ p.artifacts config.dataPath, w'.files.file? a.place = some (.text a.text)) ∧
    (∀ q, config.dataPlace.within q = true → (∀ a ∈ p.artifacts config.dataPath, a.place ≠ q) →
      w'.files.file? q = if w.files.contains config.dataPath then none else w.files.file? q) ∧
    ((∀ q, config.dataPlace.within q = true → (w'.files.file? q).isSome = true →
        ∃ a ∈ p.artifacts config.dataPath, a.place = q) ↔
      w.files.contains config.dataPath = true ∨
        ∀ q, config.dataPlace.within q = true → (w.files.file? q).isSome = true →
          ∃ a ∈ p.artifacts config.dataPath, a.place = q) ∧
    (w.files.Rooted → ['.', '.'] ∉ File.splitSlashes config.outputPath.text.toList →
      ∀ q, config.dataPlace.within q = true → (w'.files.file? q).isSome = true →
        ∃ a ∈ p.artifacts config.dataPath, a.place = q) ∧
    ((w'.files.file? (config.tagPlace "tick")).isSome = true ↔ p.tick?.isSome = true ∨
      (∃ r ∈ p.resources, (Artifact.ofResource config.dataPath p.space r.1 r.2).place =
        config.tagPlace "tick") ∨
      w.files.contains config.dataPath = false ∧
        (w.files.file? (config.tagPlace "tick")).isSome = true) ∧
    (∀ q, config.dataPlace.within q = false → w'.files.file? q =
      if q = (Artifact.description config.outputPath config).place then
        some (.text (Artifact.description config.outputPath config).text)
      else w.files.file? q) := by
  obtain ⟨-, hlimits, hfiles⟩ := Pack.write_eq_ok hwrite
  have hown : ∀ a ∈ p.artifacts config.dataPath, w'.files.file? a.place = some (.text a.text) := by
    intro a ha
    rw [hfiles, laid_files]
    exact laid_eq_of_nodup hdistinct ha _
  have hother : ∀ q, config.dataPlace.within q = true →
      (∀ a ∈ p.artifacts config.dataPath, a.place ≠ q) →
      w'.files.file? q = if w.files.contains config.dataPath then none else w.files.file? q := by
    intro q hwithin hq
    rw [hfiles, laid_files_of_within hwithin hq]
  have hstale : (∀ q, config.dataPlace.within q = true → (w'.files.file? q).isSome = true →
        ∃ a ∈ p.artifacts config.dataPath, a.place = q) ↔
      w.files.contains config.dataPath = true ∨
        ∀ q, config.dataPlace.within q = true → (w.files.file? q).isSome = true →
          ∃ a ∈ p.artifacts config.dataPath, a.place = q := by
    by_cases hcontains : w.files.contains config.dataPath = true
    · refine iff_of_true (fun q hwithin hsome => ?_) (.inl hcontains)
      by_contra hnone
      rw [hother q hwithin (fun a ha h => hnone ⟨a, ha, h⟩), if_pos hcontains] at hsome
      cases hsome
    · rw [or_iff_right hcontains]
      -- any place is one of the pack in both cases, or holds the same in both cases
      refine forall_congr' fun q => forall_congr' fun hwithin => ?_
      by_cases hmem : ∃ a ∈ p.artifacts config.dataPath, a.place = q
      · exact iff_of_true (fun _ => hmem) fun _ => hmem
      · rw [hother q hwithin (fun a ha h => hmem ⟨a, ha, h⟩), if_neg hcontains]
  refine ⟨hown, hother, hstale, fun hrooted hup => hstale.mpr ?_, ?_, fun q houtside => ?_⟩
  · by_cases hthere : ∃ q, config.dataPlace.within q = true ∧ (w.files.file? q).isSome = true
    · obtain ⟨q, hwithin, hsome⟩ := hthere
      exact .inl (Config.contains_dataPath hrooted hup (Pack.checkLimits_dataPath hlimits) hwithin hsome)
    · exact .inr fun q hwithin hsome => absurd ⟨q, hwithin, hsome⟩ hthere
  · rw [← or_assoc, ← Pack.exists_tick_iff]
    by_cases hmem : ∃ a ∈ p.artifacts config.dataPath, a.place = config.tagPlace "tick"
    · obtain ⟨a, ha, hplace⟩ := hmem
      exact iff_of_true (by rw [← hplace, hown a ha]; rfl) (.inl ⟨a, ha, hplace⟩)
    · rw [hother _ (config.within_tagPlace (by decide)) (fun a ha h => hmem ⟨a, ha, h⟩),
        or_iff_right hmem]
      cases w.files.contains config.dataPath <;> simp
  · have hne : ∀ a ∈ p.artifacts config.dataPath, a.place ≠ q := by
      rintro a ha rfl
      exact Bool.false_ne_true (houtside ▸ hinside a ha)
    rw [hfiles, laid_files, laid_of_not_mem hne, Config.cleared, houtside, Bool.and_false,
      if_neg Bool.false_ne_true]

/-- An output path that leads through a directory that is not there, to the working directory. -/
def detourConfig : Config := { output := ⟨"t/.."⟩ }

/-- The directories of an earlier pack, with a file among them. -/
def earlierFiles : File.Tree where
  nodes := [(⟨.working, ["data".toList]⟩, .directory),
    (⟨.working, ["data".toList, "a".toList]⟩, .directory),
    (⟨.working, ["data".toList, "a".toList, "functions".toList]⟩, .directory),
    (⟨.working, ["data".toList, "minecraft".toList]⟩, .directory),
    (⟨.working, ["data".toList, "minecraft".toList, "tags".toList]⟩, .directory),
    (⟨.working, ["data".toList, "minecraft".toList, "tags".toList, "functions".toList]⟩, .directory),
    (⟨.working, ["data".toList, "old".toList]⟩, .file (.text "say old"))]

theorem detour_keeps_earlier_file :
    (((Pack.empty "a").write detourConfig).outcome ⟨earlierFiles, []⟩).1 = .ok ⟨1, 0⟩ ∧
      detourConfig.dataPlace.within ⟨.working, ["data".toList, "old".toList]⟩ = true ∧
      (((Pack.empty "a").write detourConfig).outcome ⟨earlierFiles, []⟩).2.files.file?
        ⟨.working, ["data".toList, "old".toList]⟩ = some (.text "say old") := by
  have hok : (((Pack.empty "a").write detourConfig).outcome ⟨earlierFiles, []⟩).1 = .ok ⟨1, 0⟩ := by
    decide +kernel
  have hplaces : (((Pack.empty "a").artifacts detourConfig.dataPath).map Artifact.place).Nodup ∧
      ∀ q ∈ ((Pack.empty "a").artifacts detourConfig.dataPath).map Artifact.place,
        detourConfig.dataPlace.within q = true ∧
          q ≠ ⟨.working, ["data".toList, "old".toList]⟩ := by
    decide +kernel
  obtain ⟨hdistinct, hplaces⟩ := hplaces
  have hinside : ∀ a ∈ (Pack.empty "a").artifacts detourConfig.dataPath,
      detourConfig.dataPlace.within a.place = true :=
    fun a ha => (hplaces _ (List.mem_map_of_mem ha)).1
  have hother : ∀ a ∈ (Pack.empty "a").artifacts detourConfig.dataPath,
      a.place ≠ ⟨.working, ["data".toList, "old".toList]⟩ :=
    fun a ha => (hplaces _ (List.mem_map_of_mem ha)).2
  have hwithin :
      detourConfig.dataPlace.within ⟨.working, ["data".toList, "old".toList]⟩ = true := by
    decide +kernel
  have hearlier : earlierFiles.contains detourConfig.dataPath = false ∧
      earlierFiles.file? ⟨.working, ["data".toList, "old".toList]⟩ = some (.text "say old") := by
    decide +kernel
  obtain ⟨-, hkept, -⟩ := write_replaces_data_iff (Work.outcome_eq_of_fst hok) hdistinct hinside
  refine ⟨hok, hwithin, (hkept _ hwithin hother).trans ?_⟩
  rw [hearlier.1, if_neg Bool.false_ne_true, hearlier.2]

end Packwright
