import Mathlib.Data.List.Dedup
import Packwright.Proofs.Project.Locations

/-!
# Nothing is lost on disk

What has names of its own in a pack may have one file on disk: empty parts of a path lead nowhere,
kinds of resources may hold slashes, and there are tags. A pack that was written is there as a whole
exactly if no two functions and no two resources share a place, and no resource stands where a tag
with another text does. With plain names that is so.

## Main definitions

- `Pack.Kept` — all that a pack has is there, with as many files as the summary says
- `Pack.PlainNames` — names that lead to places of their own

## Main results

- `Pack.kept_iff` — which packs are kept as a whole
- `Pack.PlainNames.functionPlaces_nodup`, `Pack.PlainNames.resourcePlaces_nodup` — plain names
- `write_keeps_all_iff` — a pack that was compiled and written
-/

namespace Packwright

open File (Place Content)

-- paths are texts, which unification must not compute
attribute [local irreducible] File.Path.joinText Place.ofPath

/-! ### Files and their number -/

/-- The places of the functions of a pack. -/
def Pack.functionPlaces (p : Pack) (c : Config) : List Place :=
  p.writtenFunctions.map fun f => (Artifact.ofFunction c.dataPath p.space f).place

/-- The places of the resources of a pack. -/
def Pack.resourcePlaces (p : Pack) (c : Config) : List Place :=
  p.resources.map fun r => (Artifact.ofResource c.dataPath p.space r.1 r.2).place

/-- Each function, each resource and each tag has its text on disk, and there are as many files of
functions and of resources as the summary says. -/
structure Pack.Kept (p : Pack) (c : Config) (files : File.Tree) (summary : Summary) : Prop where
  texts : ∀ a ∈ p.artifacts c.dataPath, files.file? a.place = some (.text a.text)
  functions : (p.functionPlaces c).dedup.length = summary.functions
  resources : (p.resourcePlaces c).dedup.length = summary.resources

/-- There are as many different entries as entries exactly if no two are the same. -/
theorem length_dedup_eq_iff {α : Type} [DecidableEq α] (l : List α) :
    l.dedup.length = l.length ↔ l.Nodup := by
  constructor
  · intro h
    rw [← (List.dedup_sublist l).eq_of_length h]
    exact List.nodup_dedup l
  · intro h
    rw [h.dedup]

/-- The tags of a pack have different places. -/
theorem Pack.tags_eq_of_place {p : Pack} {c : Config} {a b : Artifact} (ha : a ∈ p.tags c.dataPath)
    (hb : b ∈ p.tags c.dataPath) (h : a.place = b.place) : a = b := by
  rcases mem_tags.mp ha with rfl | ⟨-, rfl⟩ <;> rcases mem_tags.mp hb with rfl | ⟨-, rfl⟩
  · rfl
  · rw [Artifact.place_tag, Artifact.place_tag] at h
    exact absurd h c.tagPlace_load_ne_tick
  · rw [Artifact.place_tag, Artifact.place_tag] at h
    exact absurd h.symm c.tagPlace_load_ne_tick
  · rfl

theorem Pack.ends_of_mem_tags {p : Pack} {data : File.Path} {a : Artifact} (ha : a ∈ p.tags data) :
    Artifact.Ends a.place ".json" := by
  rcases mem_tags.mp ha with rfl | ⟨-, rfl⟩ <;> exact Artifact.ends_tag ..

/-- Where no two functions and no two resources share a place, and no resource stands in for a tag,
files for one place have one text. -/
theorem Pack.text_eq_of_place {p : Pack} {c : Config} (hfunctions : (p.functionPlaces c).Nodup)
    (hresources : (p.resourcePlaces c).Nodup)
    (htags : ∀ r ∈ p.resources, ∀ a ∈ p.tags c.dataPath,
      (Artifact.ofResource c.dataPath p.space r.1 r.2).place = a.place → r.2 = a.text)
    {a b : Artifact} (ha : a ∈ p.artifacts c.dataPath) (hb : b ∈ p.artifacts c.dataPath)
    (h : a.place = b.place) : a.text = b.text := by
  rcases mem_artifacts.mp ha with ⟨f, hf, rfl⟩ | ⟨r, hr, rfl⟩ | htag <;>
    rcases mem_artifacts.mp hb with ⟨g, hg, rfl⟩ | ⟨r', hr', rfl⟩ | htag'
  · rw [List.inj_on_of_nodup_map hfunctions hf hg h]
  · exact absurd h ((Artifact.ends_ofFunction ..).ne (Artifact.ends_ofResource ..) (by decide)
      (by decide))
  · have hends := ends_of_mem_tags htag'
    exact absurd h ((Artifact.ends_ofFunction ..).ne hends (by decide) (by decide))
  · exact absurd h ((Artifact.ends_ofResource ..).ne (Artifact.ends_ofFunction ..) (by decide)
      (by decide))
  · rw [List.inj_on_of_nodup_map hresources hr hr' h]
  · exact htags r hr b htag' h
  · have hends := ends_of_mem_tags htag
    exact absurd h (hends.ne (Artifact.ends_ofFunction ..) (by decide) (by decide))
  · exact (htags r' hr' a htag h.symm).symm
  · rw [tags_eq_of_place htag htag' h]

/-- The description of a pack is at a place of its own. -/
theorem Pack.description_ne {p : Pack} {c : Config} {a : Artifact} (ha : a ∈ p.artifacts c.dataPath) :
    (Artifact.description c.outputPath c).place ≠ a.place := by
  have hdescription := Artifact.ends_description c.outputPath c
  rcases mem_artifacts.mp ha with ⟨f, -, rfl⟩ | ⟨r, -, rfl⟩ | htag
  · exact hdescription.ne (Artifact.ends_ofFunction ..) (by decide) (by decide)
  · exact hdescription.ne (Artifact.ends_ofResource ..) (by decide) (by decide)
  · exact hdescription.ne (ends_of_mem_tags htag) (by decide) (by decide)

/-- A pack that was written is kept as a whole exactly if no two functions and no two resources
share a place, and no resource stands where a tag with another text does. -/
theorem Pack.kept_iff {p : Pack} {c : Config} {w w' : Workspace} {summary : Summary}
    (hwrite : (p.write c).outcome w = (.ok summary, w')) :
    p.Kept c w'.files summary ↔
      (p.functionPlaces c).Nodup ∧ (p.resourcePlaces c).Nodup ∧
        ∀ r ∈ p.resources, ∀ a ∈ p.tags c.dataPath,
          (Artifact.ofResource c.dataPath p.space r.1 r.2).place = a.place → r.2 = a.text := by
  obtain ⟨hsummary, -, hfiles⟩ := Pack.write_eq_ok hwrite
  have hfunctions : (p.functionPlaces c).dedup.length = summary.functions ↔
      (p.functionPlaces c).Nodup := by
    rw [← length_dedup_eq_iff, hsummary, functionPlaces, List.length_map]
    rfl
  have hresources : (p.resourcePlaces c).dedup.length = summary.resources ↔
      (p.resourcePlaces c).Nodup := by
    rw [← length_dedup_eq_iff, hsummary, resourcePlaces, List.length_map]
    rfl
  constructor
  · intro hkept
    refine ⟨hfunctions.mp hkept.functions, hresources.mp hkept.resources,
      fun r hr a ha hplace => ?_⟩
    -- both texts are on disk at one place
    have hresource := hkept.texts _ (mem_artifacts.mpr (.inr (.inl ⟨r, hr, rfl⟩)))
    have htag := hkept.texts a (mem_artifacts.mpr (.inr (.inr ha)))
    rw [hplace, htag] at hresource
    exact (Content.text.inj (Option.some.inj hresource)).symm
  · rintro ⟨hnodup, hnodup', htags⟩
    refine ⟨fun a ha => ?_, hfunctions.mpr hnodup, hresources.mpr hnodup'⟩
    rw [hfiles]
    refine laid_eq_of_mem (List.mem_cons_of_mem _ ha) (fun b hb hplace => ?_) _
    rcases List.mem_cons.mp hb with rfl | hb
    · exact absurd hplace (description_ne ha)
    · exact text_eq_of_place hnodup hnodup' htags hb ha hplace

/-! ### Plain names -/

/-- The paths of functions have no empty parts, kinds of resources have no slashes, the paths of
resources only name directories and a file, and the namespace is not that of the tags. -/
structure Pack.PlainNames (p : Pack) : Prop where
  functions : ∀ f ∈ p.functions, [] ∉ File.splitSlashes f.path.text.toList
  kinds : ∀ r ∈ p.resources, '/' ∉ r.1.kind.toList
  paths : ∀ r ∈ p.resources, ∀ part ∈ File.splitSlashes (r.1.path ++ ".json").toList,
    Place.IsName part
  space : Place.IsName p.space.toList ∧ p.space ≠ "minecraft"

/-- A path without dots and empty parts is read back from the names that lead to its file. -/
theorem FunctionPath.eq_of_fileParts {p q : FunctionPath} (hp : p.Dotless) (hq : q.Dotless)
    (hp' : [] ∉ File.splitSlashes p.text.toList) (hq' : [] ∉ File.splitSlashes q.text.toList)
    (h : p.fileParts = q.fileParts) : p = q := by
  have hall : ∀ p : FunctionPath, p.Dotless → [] ∉ File.splitSlashes p.text.toList →
      p.fileParts = File.splitSlashes (p.text ++ ".mcfunction").toList := by
    intro p hdots hempty
    have hslash : '/' ∉ ".mcfunction".toList := by decide
    obtain ⟨parts, last, hparts, hfile⟩ := File.exists_splitSlashes_append p.text.toList hslash
    rw [fileParts, List.filter_eq_self, String.toList_append, hfile]
    intro part hpart
    rcases List.mem_append.mp hpart with hpart | hpart
    · have hmem : part ∈ File.splitSlashes p.text.toList := hparts ▸ List.mem_append_left _ hpart
      simp only [File.isSilent, Bool.not_eq_true', Bool.or_eq_false_iff, decide_eq_false_iff_not]
      constructor
      · rintro rfl
        exact hempty hmem
      · rintro rfl
        exact hdots (File.mem_of_mem_splitSlashes hmem List.mem_cons_self).1
    · rw [List.mem_singleton.mp hpart]
      simpa using (isName_append (c := 'm') (by decide) (by decide) last).1
  rw [hall p hp hp', hall q hq hq'] at h
  have htext := String.toList_inj.mp (File.splitSlashes_inj h)
  obtain ⟨p⟩ := p
  obtain ⟨q⟩ := q
  rw [String.append_left_inj] at htext
  exact congrArg _ htext

theorem Feature.plain_path (f : Feature) {name : String} (hname : PlainName name) :
    [] ∉ File.splitSlashes (f.path name).text.toList := by
  have hfeature : PlainName f.name := by
    cases f <;> exact plainName_word (by decide) (by simp [Feature.name])
  have hprivate : PlainName privateSegment := plainName_word (by decide) (by simp [privateSegment])
  exact ((hprivate.slash hfeature).slash hname).2

namespace Pack

variable {p : Pack}

/-- With plain names, no function that is written has empty parts in its path. -/
theorem PlainNames.writtenFunctions (h : p.PlainNames) (hnamed : p.Named) {f : PackFunction}
    (hf : f ∈ p.writtenFunctions) : [] ∉ File.splitSlashes f.path.text.toList := by
  rcases List.mem_cons.mp hf with rfl | hf
  · have hload : [] ∉ File.splitSlashes loadPath.text.toList := by decide
    exact hload
  · rcases List.mem_append.mp (List.mem_filter.mp hf).1 with huser | hgenerated
    · exact h.functions f (List.mem_mergeSort.mp huser)
    · obtain ⟨e, he, rfl⟩ := List.mem_map.mp hgenerated
      obtain ⟨feature, name, hname, hpath⟩ := hnamed.generated e (List.mem_mergeSort.mp he)
      rw [hpath]
      exact feature.plain_path hname

theorem head?_of_not_mem {cs : List Char} (h : [] ∉ File.splitSlashes cs) :
    cs.head? ≠ some '/' := by
  intro hhead
  obtain ⟨rest, rfl⟩ := List.head?_eq_some_iff.mp hhead
  exact h (by simp [File.splitSlashes])

/-- The functions that are written have different paths if all functions do. -/
theorem writtenFunctions_nodup (h : (p.allFunctions.map PackFunction.path).Nodup) :
    (p.writtenFunctions.map PackFunction.path).Nodup := by
  rw [Pack.writtenFunctions, List.map_cons, List.nodup_cons]
  constructor
  · intro hload
    obtain ⟨f, hf, hpath⟩ := List.mem_map.mp hload
    exact of_decide_eq_true (List.mem_filter.mp hf).2 hpath
  · exact h.sublist (List.filter_sublist.map _)

/-- Plain names lead to different functions. -/
theorem PlainNames.functionPlaces_nodup (h : p.PlainNames) (hnamed : p.Named) (c : Config)
    (hpaths : (p.allFunctions.map PackFunction.path).Nodup) : (p.functionPlaces c).Nodup := by
  have hwritten := writtenFunctions_nodup hpaths
  refine hwritten.of_map.map_on fun f hf g hg hplace => ?_
  have hfplain := h.writtenFunctions hnamed hf
  have hgplain := h.writtenFunctions hnamed hg
  obtain ⟨hfdots, -⟩ := hnamed.writtenFunctions hf
  obtain ⟨hgdots, -⟩ := hnamed.writtenFunctions hg
  rw [place_ofFunction c _ hfdots (head?_of_not_mem hfplain),
    place_ofFunction c _ hgdots (head?_of_not_mem hgplain)] at hplace
  have hparts := List.append_cancel_left (Place.mk.inj hplace).2
  have hpath := FunctionPath.eq_of_fileParts hfdots hgdots hfplain hgplain hparts
  exact List.inj_on_of_nodup_map hwritten hf hg hpath

/-- Where plain names of a resource lead. -/
theorem PlainNames.place_ofResource (h : p.PlainNames) (c : Config)
    {r : ResourceKey × String} (hr : r ∈ p.resources) :
    (Artifact.ofResource c.dataPath p.space r.1 r.2).place =
      ⟨(c.spacePlace p.space).anchor, (c.spacePlace p.space).names ++
        (r.1.kind ++ "s").toList :: File.splitSlashes (r.1.path ++ ".json").toList⟩ := by
  have hslash : '/' ∉ (r.1.kind ++ "s").toList := by
    rw [String.toList_append, List.mem_append, not_or]
    exact ⟨h.kinds r hr, by decide⟩
  have hkind : Place.IsName (r.1.kind ++ "s").toList := by
    rw [String.toList_append]
    exact isName_append (c := 's') (by decide) (by decide) _
  have hhead : (r.1.path ++ ".json").toList.head? ≠ some '/' :=
    head?_of_not_mem fun hempty => Bool.noConfusion (h.paths r hr [] hempty).1
  rw [Artifact.place, Artifact.ofResource, Place.ofPath_joinText, if_neg hhead,
    Place.ofPath_joinText_name _ hslash hkind, Place.foldl_enter_names (h.paths r hr),
    List.append_assoc]
  rfl

/-- Plain names lead to different resources. -/
theorem PlainNames.resourcePlaces_nodup (h : p.PlainNames) (hnamed : p.Named) (c : Config) :
    (p.resourcePlaces c).Nodup := by
  refine hnamed.keys.of_map.map_on fun r hr r' hr' hplace => ?_
  rw [h.place_ofResource c hr, h.place_ofResource c hr'] at hplace
  obtain ⟨hkind, hparts⟩ := List.cons.inj (List.append_cancel_left (Place.mk.inj hplace).2)
  have hkey : r.1 = r'.1 := by
    have hkind' := String.toList_inj.mp hkind
    have hpath := String.toList_inj.mp (File.splitSlashes_inj hparts)
    rw [String.append_left_inj] at hkind' hpath
    obtain ⟨⟨kind, path⟩, json⟩ := r
    obtain ⟨⟨kind', path'⟩, json'⟩ := r'
    obtain rfl : kind = kind' := hkind'
    obtain rfl : path = path' := hpath
    rfl
  exact List.inj_on_of_nodup_map hnamed.keys hr hr' hkey

/-- Plain names do not lead to tags. -/
theorem PlainNames.place_ne_tag (h : p.PlainNames) (c : Config)
    (hslash : '/' ∉ p.space.toList) {r : ResourceKey × String} (hr : r ∈ p.resources) {a : Artifact}
    (ha : a ∈ p.tags c.dataPath) :
    (Artifact.ofResource c.dataPath p.space r.1 r.2).place ≠ a.place := by
  have htag : ∀ occasion : String, '/' ∉ occasion.toList →
      (Artifact.ofResource c.dataPath p.space r.1 r.2).place ≠ c.tagPlace occasion := by
    intro occasion hoccasion hplace
    have hspace : c.spacePlace p.space =
        ⟨c.dataPlace.anchor, c.dataPlace.names ++ [p.space.toList]⟩ :=
      Place.ofPath_joinText_name _ hslash h.space.1
    rw [h.place_ofResource c hr, hspace, c.tagPlace_eq hoccasion] at hplace
    have hnames := (Place.mk.inj hplace).2
    rw [List.append_assoc] at hnames
    have hfirst := (List.cons.inj (List.append_cancel_left hnames)).1
    exact h.space.2 (String.toList_inj.mp hfirst)
  rcases mem_tags.mp ha with rfl | ⟨-, rfl⟩
  · rw [Artifact.place_tag]
    exact htag "load" (by decide)
  · rw [Artifact.place_tag]
    exact htag "tick" (by decide)

end Pack

/-! ### Packs that were compiled -/

/-- The functions of a pack have different paths, if none in the reserved segment was warned about.
-/
theorem Session.allFunctions_nodup {settings : Settings} {t : Task} {s : Session}
    (hcompile : t.compile.outcome (Session.new settings) = (.ok (), s))
    (hquiet : ∀ warning ∈ s.warnings, ∀ path, warning.notice ≠ .privateFunction path) :
    (s.pack.allFunctions.map PackFunction.path).Nodup := by
  have hafter : (Session.new settings).after [t] = s := congrArg Prod.snd hcompile
  have hleads := Session.after_leads (Session.new_counted settings) [t]
  have hsound := Session.after_sound (Session.new_sound (.inTexts fun _ => False) settings) [t]
  rw [hafter] at hleads hsound
  refine (hleads.separate (Session.new_separate settings)).allFunctions_nodup hsound ?_
  rintro ⟨warning, hwarning, path, hnotice⟩
  exact hquiet warning hwarning path hnotice

/-- A task succeeds only in a namespace that is allowed. -/
theorem Task.validateSpace_of_ok {settings : Settings} {t : Task} {s : Session}
    (hcompile : t.compile.outcome (Session.new settings) = (.ok (), s)) :
    validateSpace settings.space = .ok () := by
  have hstep : ∀ m : Compile Unit, ((Compile.step m).outcome (Session.new settings)).1 = .ok () →
      validateSpace settings.space = .ok () := by
    intro m hm
    rw [Compile.step_outcome] at hm
    cases hvalid : validateSpace settings.space with
    | ok u => rfl
    | error f =>
      rw [show (Session.new settings).settings.space = settings.space from rfl, hvalid] at hm
      cases hm
  have hok := congrArg Prod.fst hcompile
  cases t with
  | text files name source => exact hstep _ hok
  | file files path => exact hstep _ hok
  | entry files =>
    rw [show (Task.entry files).compile = Session.compileEntry files from rfl,
      Compile.outcome_compileEntry] at hok
    exact hstep _ hok

/-- What becomes of a pack that was compiled without a warning about the reserved segment, and then
written. It is kept as a whole exactly if no two of its functions and no two of its resources share
a place, and no resource stands where a tag with another text does. Functions whose paths do not
begin with a slash share a place exactly if the same names lead to them, which empty parts of a path
do not change. With plain names, the pack is kept. -/
theorem write_keeps_all_iff {settings : Settings} {t : Task} {s : Session}
    (hcompile : t.compile.outcome (Session.new settings) = (.ok (), s))
    (hquiet : ∀ warning ∈ s.warnings, ∀ path, warning.notice ≠ .privateFunction path)
    {config : Config} {w w' : Workspace} {summary : Summary}
    (hwrite : (s.pack.write config).outcome w = (.ok summary, w')) :
    (s.pack.Kept config w'.files summary ↔
      (s.pack.functionPlaces config).Nodup ∧ (s.pack.resourcePlaces config).Nodup ∧
        ∀ r ∈ s.pack.resources, ∀ a ∈ s.pack.tags config.dataPath,
          (Artifact.ofResource config.dataPath s.pack.space r.1 r.2).place = a.place →
            r.2 = a.text) ∧
    (∀ f ∈ s.pack.writtenFunctions, ∀ g ∈ s.pack.writtenFunctions, ¬f.IsOuter → ¬g.IsOuter →
      ((Artifact.ofFunction config.dataPath s.pack.space f).place =
          (Artifact.ofFunction config.dataPath s.pack.space g).place ↔
        f.path.fileParts = g.path.fileParts)) ∧
    (s.pack.PlainNames → s.pack.Kept config w'.files summary) := by
  obtain ⟨hnamed, hspace⟩ := Session.named_of_task hcompile
  have hkept := Pack.kept_iff hwrite
  refine ⟨hkept, fun f hf g hg hfinner hginner => ?_, fun hplain => hkept.mpr ⟨?_, ?_, ?_⟩⟩
  · obtain ⟨hfdots, -⟩ := hnamed.writtenFunctions hf
    obtain ⟨hgdots, -⟩ := hnamed.writtenFunctions hg
    rw [place_ofFunction config _ hfdots hfinner, place_ofFunction config _ hgdots hginner,
      Place.mk.injEq, and_iff_right rfl, List.append_cancel_left_eq]
  · exact hplain.functionPlaces_nodup hnamed config (Session.allFunctions_nodup hcompile hquiet)
  · exact hplain.resourcePlaces_nodup hnamed config
  · intro r hr a ha hplace
    have hslash : '/' ∉ s.pack.space.toList :=
      hspace ▸ slash_of_validateSpace (Task.validateSpace_of_ok hcompile)
    exact absurd hplace (hplain.place_ne_tag config hslash hr ha)

/-- A resource where the load tag lies. -/
def tagTask : Task := .text {} "m" "new tag(functions/load)\x7b\x7d"

def tagSettings : Settings := { space := "minecraft" }

def tagConfig : Config := { space := "minecraft", output := ⟨"t/.."⟩ }

/-- The directories that it is written to. -/
def tagWorkspace : Workspace where
  files := ⟨[(⟨.working, ["data".toList]⟩, .directory),
    (⟨.working, ["data".toList, "minecraft".toList]⟩, .directory),
    (⟨.working, ["data".toList, "minecraft".toList, "functions".toList]⟩, .directory),
    (⟨.working, ["data".toList, "minecraft".toList, "tags".toList]⟩, .directory),
    (⟨.working, ["data".toList, "minecraft".toList, "tags".toList, "functions".toList]⟩, .directory)]⟩

theorem tag_takes_resource :
    ∃ s, tagTask.compile.outcome (Session.new tagSettings) = (.ok (), s) ∧ s.warnings = [] ∧
      ((s.pack.write tagConfig).outcome tagWorkspace).1 = .ok ⟨1, 1⟩ ∧
      ¬s.pack.Kept tagConfig ((s.pack.write tagConfig).outcome tagWorkspace).2.files ⟨1, 1⟩ := by
  have hrun : (tagTask.compile.outcome (Session.new tagSettings)).1 = .ok () ∧
      (tagTask.compile.outcome (Session.new tagSettings)).2.warnings = [] ∧
      (tagTask.compile.outcome (Session.new tagSettings)).2.pack.resources =
        [(⟨"tag", "functions/load"⟩, "\x7b\x7d")] ∧
      (((tagTask.compile.outcome (Session.new tagSettings)).2.pack.write tagConfig).outcome
        tagWorkspace).1 = .ok ⟨1, 1⟩ := by decide +kernel
  have hplace : (Artifact.ofResource tagConfig.dataPath "minecraft" ⟨"tag", "functions/load"⟩
      "\x7b\x7d").place = tagConfig.tagPlace "load" := by decide +kernel
  have htext : "\x7b\x7d" ≠ (Artifact.tag tagConfig.dataPath "load"
      (loadPath.inSpace "minecraft")).text := by decide +kernel
  rcases hcompile : tagTask.compile.outcome (Session.new tagSettings) with ⟨result, s⟩
  rw [hcompile] at hrun
  obtain ⟨rfl, hwarnings, hresources, hok⟩ := hrun
  obtain ⟨-, hspace⟩ := Session.named_of_task hcompile
  have hquiet : ∀ warning ∈ s.warnings, ∀ path, warning.notice ≠ .privateFunction path := by
    rw [hwarnings]
    exact List.forall_mem_nil _
  refine ⟨s, rfl, hwarnings, hok, fun hkept => ?_⟩
  obtain ⟨hiff, -⟩ := write_keeps_all_iff hcompile hquiet (Work.outcome_eq_of_fst hok)
  obtain ⟨-, -, htags⟩ := hiff.mp hkept
  rw [hresources, hspace] at htags
  refine htext (htags _ (List.mem_singleton_self _) _ (Pack.mem_tags.mpr (.inl ?_)) hplace)
  rw [hspace]
  rfl

end Packwright
