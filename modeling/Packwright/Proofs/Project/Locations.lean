import Packwright.Proofs.AppendOnly
import Packwright.Proofs.Freshness
import Packwright.Proofs.Project.Writing

/-!
# Where the files of a pack lie

Whatever a session compiles, the paths of functions and the kinds of resources in its pack have no
dots, the names of generated functions are plain, and no two resources have one key. The namespace
stays what it is.

The parts of a function path are names of directories, so a function lies inside its output
directory, unless its path begins with a slash. A resource also gets out of it by steps up in its
path. What is generated, and whatever the namespace, lies inside.

## Main definitions

- `Pack.Named` — names are as compilation makes them
- `Config.outputPlace`, `Config.functionsPlace` — directories of a pack
- `FunctionPath.fileParts` — the names that lead to the file of a function
- `PackFunction.IsOuter`, `ResourceKey.IsOuter` — what may lie somewhere else

## Main results

- `Pack.Change.named`, `Session.tracks_named` — what one change and whole tasks keep
- `place_ofFunction` — the place of a function
- `within_files` — what lies inside the output directory
-/

namespace Packwright

/-! ### Names in packs -/

/-- Names in a pack are as compilation makes them. -/
structure Pack.Named (p : Pack) : Prop where
  functions : ∀ f ∈ p.functions, f.path.Dotless
  generated : ∀ e ∈ p.generated.entries, ∃ (f : Feature) (name : String),
    PlainName name ∧ e.2.path = f.path name
  kinds : ∀ r ∈ p.resources, '.' ∉ r.1.kind.toList
  keys : (p.resources.map Prod.fst).Nodup

namespace Pack

variable {p q : Pack}

theorem Named.of_same (h : p.Named) (hfunctions : q.functions = p.functions)
    (hgenerated : q.generated.entries = p.generated.entries)
    (hresources : q.resources = p.resources) :
    q.Named :=
  ⟨hfunctions ▸ h.functions, hgenerated ▸ h.generated, hresources ▸ h.kinds, hresources ▸ h.keys⟩

theorem resources_declare (p : Pack) (name criteria : String) :
    (p.declare name criteria).resources = p.resources ∧
      (p.declare name criteria).space = p.space := by
  unfold declare
  split <;> exact ⟨rfl, rfl⟩

theorem resources_registerConstant (p : Pack) (n : Int) :
    (p.registerConstant n).resources = p.resources ∧ (p.registerConstant n).space = p.space := by
  unfold registerConstant
  simp only
  split <;> split <;> first | exact ⟨rfl, rfl⟩ | exact p.resources_declare _ _

theorem Named.append (h : p.Named) {f : PackFunction} (hf : f.path.Dotless) :
    Named { p with functions := p.functions ++ [f] } :=
  ⟨List.forall_mem_append.mpr ⟨h.functions, List.forall_mem_singleton.mpr hf⟩, h.generated, h.kinds,
    h.keys⟩

theorem Named.extendFunction (h : p.Named) {path : FunctionPath} (hpath : path.Dotless)
    (commands : List Command) : (p.extendFunction path commands).Named := by
  unfold Pack.extendFunction
  split
  · refine ⟨List.forall_mem_map.mpr fun f hf => ?_, h.generated, h.kinds, h.keys⟩
    split <;> exact h.functions f hf
  · exact h.append hpath

/-- One change keeps names as they are to be. -/
theorem Change.named (hchange : p.Change q) (h : p.Named) : q.Named := by
  cases hchange with
  | count => exact ⟨h.functions, h.generated, h.kinds, h.keys⟩
  | generate f commands hname =>
    refine ⟨h.functions, List.forall_mem_append.mpr ⟨h.generated, ?_⟩, h.kinds, h.keys⟩
    exact List.forall_mem_singleton.mpr ⟨f, _, hname, rfl⟩
  | declare name criteria =>
    obtain ⟨hgenerated, hfunctions⟩ := p.generated_declare name criteria
    exact h.of_same hfunctions (congrArg _ hgenerated) (p.resources_declare name criteria).1
  | constant n =>
    obtain ⟨hgenerated, hfunctions⟩ := p.generated_registerConstant n
    exact h.of_same hfunctions (congrArg _ hgenerated) (p.resources_registerConstant n).1
  | define commands hfree hload hdots => exact h.append hdots
  | tick commands => exact h.extendFunction FunctionPath.dotless_tickPath commands
  | @resource key json hfree hkind =>
    refine ⟨h.functions, h.generated, ?_, ?_⟩
    · exact List.forall_mem_append.mpr ⟨h.kinds, List.forall_mem_singleton.mpr hkind⟩
    · rw [List.map_append, List.nodup_append]
      refine ⟨h.keys, List.nodup_singleton _, fun other hother key' hkey' => ?_⟩
      obtain ⟨r, hr, rfl⟩ := List.mem_map.mp hother
      rw [List.mem_singleton.mp hkey']
      exact hfree r hr

/-- One change keeps the namespace. -/
theorem Change.space (hchange : p.Change q) : q.space = p.space := by
  cases hchange with
  | count | generate | define | resource => rfl
  | declare name criteria => exact (p.resources_declare name criteria).2
  | constant n => exact (p.resources_registerConstant n).2
  | tick commands =>
    unfold extendTick extendFunction
    split <;> rfl

theorem empty_named (space : String) : (Pack.empty space).Named := by
  have hbare : Pack.Named { space, functions := [⟨loadPath, []⟩] } :=
    ⟨List.forall_mem_singleton.mpr FunctionPath.dotless_loadPath, List.forall_mem_nil _,
      List.forall_mem_nil _, List.nodup_nil⟩
  exact (Change.declare variableObjective "dummy").named hbare

end Pack

namespace Session

theorem tracks_named : Tracks fun s s' =>
    (s.pack.Named → s'.pack.Named) ∧ s'.pack.space = s.pack.space where
  trans h h' := ⟨h'.1 ∘ h.1, h'.2.trans h.2⟩
  builds {s s'} h := by
    obtain ⟨-, -, hchanges⟩ := h
    generalize s'.pack = q at hchanges
    induction hchanges with
    | refl => exact ⟨id, rfl⟩
    | tail _ hchange ih => exact ⟨hchange.named ∘ ih.1, hchange.space.trans ih.2⟩
  load s out := by
    refine ⟨fun h => h.extendFunction FunctionPath.dotless_loadPath out, ?_⟩
    unfold Pack.extendLoad Pack.extendFunction
    split <;> rfl
  begun s _ := ⟨id, rfl⟩

/-- A task that succeeds leaves names as they are to be, in a namespace that is allowed. -/
theorem named_of_task {settings : Settings} {t : Task} {s : Session}
    (h : t.compile.outcome (Session.new settings) = (.ok (), s)) :
    s.pack.Named ∧ s.pack.space = settings.space := by
  have htracked := t.tracked tracks_named (Session.new settings)
  rw [h] at htracked
  exact ⟨htracked.1 (Pack.empty_named settings.space), htracked.2.trans rfl⟩

end Session

open File (Place Content)

-- paths are texts, which unification must not compute
attribute [local irreducible] File.Path.joinText Place.ofPath

/-! ### Directories -/

/-- The place of the output directory. -/
def Config.outputPlace (c : Config) : Place := .ofPath c.outputPath

/-- The place of the namespace directory. -/
def Config.spacePlace (c : Config) (space : String) : Place := .ofPath (c.dataPath.joinText space)

/-- The place of the directory of functions. -/
def Config.functionsPlace (c : Config) (space : String) : Place :=
  .ofPath ((c.dataPath.joinText space).joinText "functions")

theorem Config.outputPlace_within_dataPlace (c : Config) :
    c.outputPlace.within c.dataPlace = true := by
  rw [c.dataPlace_eq]
  exact c.outputPlace.within_append _

/-- A namespace that is allowed is a single part of a path. -/
theorem slash_of_validateSpace {space : String} (h : validateSpace space = .ok ()) :
    '/' ∉ space.toList := by
  unfold validateSpace at h
  split at h
  · cases h
  · split at h
    · cases h
    · next hfind =>
      intro hslash
      exact absurd (List.find?_eq_none.mp hfind _ hslash) (by decide)

/-- Whatever the namespace, its directory lies inside the output directory. -/
theorem Config.within_spacePlace (c : Config) {space : String} (hslash : '/' ∉ space.toList) :
    c.outputPlace.within (c.spacePlace space) = true := by
  have hhead : space.toList.head? ≠ some '/' := fun h => hslash (List.mem_of_head? h)
  have hplace : c.spacePlace space = c.dataPlace.enter space.toList := by
    rw [Config.spacePlace, Place.ofPath_joinText, if_neg hhead, File.splitSlashes_of_not_mem hslash]
    rfl
  rw [hplace]
  by_cases hsilent : File.isSilent space.toList = true
  · rw [Place.enter_of_isSilent hsilent]
    exact c.outputPlace_within_dataPlace
  · by_cases hup : space.toList = ['.', '.']
    · -- one step up from the data directory is the output directory
      have hparent : c.dataPlace.enter space.toList = c.outputPlace := by
        rw [Place.enter, if_neg hsilent, if_pos hup, c.dataPlace_eq, Place.parent]
        simp [Config.outputPlace]
      rw [hparent]
      exact Place.within_refl _
    · rw [Place.enter_of_isName ⟨by simpa using hsilent, hup⟩]
      exact Place.within_trans c.outputPlace_within_dataPlace (Place.within_append _ _)

theorem Config.functionsPlace_eq (c : Config) (space : String) : c.functionsPlace space =
    ⟨(c.spacePlace space).anchor, (c.spacePlace space).names ++ ["functions".toList]⟩ :=
  Place.ofPath_joinText_name _ (by decide) ⟨by decide, by decide⟩

/-! ### Parts of file names -/

/-- A text with an ending has a slash in front only if it has one without it. -/
theorem head?_append_ending (s ending : String) (hending : ending.toList.head? ≠ some '/') :
    (s ++ ending).toList.head? = some '/' ↔ s.toList.head? = some '/' := by
  rw [String.toList_append]
  cases s.toList with
  | nil => simpa using hending
  | cons c cs => simp

/-- A text without dots, but for its ending, has no steps up in it. -/
theorem up_not_mem_splitSlashes {cs ending : List Char} (hdots : '.' ∉ cs) (hslash : '/' ∉ ending)
    {c : Char} (hc : c ∈ ending) (hdot : c ≠ '.') :
    ['.', '.'] ∉ File.splitSlashes (cs ++ ending) := by
  obtain ⟨parts, last, hparts, hall⟩ := File.exists_splitSlashes_append cs hslash
  rw [hall, List.mem_append, not_or, List.mem_singleton]
  constructor
  · intro hup
    have hmem : ['.', '.'] ∈ File.splitSlashes cs := hparts ▸ List.mem_append_left _ hup
    exact hdots (File.mem_of_mem_splitSlashes hmem List.mem_cons_self).1
  · exact fun hup => (isName_append hc hdot last).2 hup.symm

/-- The names that lead to the file of a function, from the directory of functions on. -/
def FunctionPath.fileParts (p : FunctionPath) : List (List Char) :=
  (File.splitSlashes (p.text ++ ".mcfunction").toList).filter (!File.isSilent ·)

theorem FunctionPath.Dotless.up_not_mem {p : FunctionPath} (h : p.Dotless) :
    ['.', '.'] ∉ File.splitSlashes (p.text ++ ".mcfunction").toList := by
  rw [String.toList_append]
  exact up_not_mem_splitSlashes (c := 'm') h (by decide) (by decide) (by decide)

/-- A function whose path does not begin with a slash lies where the names in it lead. -/
theorem place_ofFunction (c : Config) (space : String) {f : PackFunction} (hdots : f.path.Dotless)
    (hslash : f.path.text.toList.head? ≠ some '/') :
    (Artifact.ofFunction c.dataPath space f).place =
      ⟨(c.functionsPlace space).anchor, (c.functionsPlace space).names ++ f.path.fileParts⟩ := by
  have hhead : (f.path.text ++ ".mcfunction").toList.head? ≠ some '/' := by
    rwa [ne_eq, head?_append_ending _ _ (by decide)]
  rw [Artifact.place, Artifact.ofFunction, Place.ofPath_joinText, if_neg hhead,
    Place.foldl_enter_filter, Place.foldl_enter_names]
  · rfl
  · intro part hpart
    obtain ⟨hmem, hsilent⟩ := List.mem_filter.mp hpart
    refine ⟨by simpa using hsilent, ?_⟩
    rintro rfl
    exact hdots.up_not_mem hmem

/-! ### What lies inside -/

/-- The path of the function begins with a slash. -/
def PackFunction.IsOuter (f : PackFunction) : Prop := f.path.text.toList.head? = some '/'

/-- The kind or the path of the resource begins with a slash, or there is a step up in the path of
its file. -/
def ResourceKey.IsOuter (key : ResourceKey) : Prop :=
  key.kind.toList.head? = some '/' ∨ key.path.toList.head? = some '/' ∨
    ['.', '.'] ∈ File.splitSlashes (key.path ++ ".json").toList

theorem within_ofFunction (c : Config) {space : String} (hspace : '/' ∉ space.toList)
    {f : PackFunction} (hdots : f.path.Dotless) (hinner : ¬f.IsOuter) :
    c.outputPlace.within (Artifact.ofFunction c.dataPath space f).place = true := by
  rw [place_ofFunction c space hdots hinner, c.functionsPlace_eq]
  refine Place.within_trans (c.within_spacePlace hspace) ?_
  rw [List.append_assoc]
  exact Place.within_append _ _

theorem within_ofResource (c : Config) {space : String} (hspace : '/' ∉ space.toList)
    {key : ResourceKey} (hkind : '.' ∉ key.kind.toList) (hinner : ¬key.IsOuter) (json : String) :
    c.outputPlace.within (Artifact.ofResource c.dataPath space key json).place = true := by
  simp only [ResourceKey.IsOuter, not_or] at hinner
  obtain ⟨hkindSlash, hpathSlash, hup⟩ := hinner
  have hkindHead : (key.kind ++ "s").toList.head? ≠ some '/' := by
    rwa [ne_eq, head?_append_ending _ _ (by decide)]
  have hpathHead : (key.path ++ ".json").toList.head? ≠ some '/' := by
    rwa [ne_eq, head?_append_ending _ _ (by decide)]
  have hkindUp : ['.', '.'] ∉ File.splitSlashes (key.kind ++ "s").toList := by
    rw [String.toList_append]
    exact up_not_mem_splitSlashes (c := 's') hkind (by decide) (by decide) (by decide)
  rw [Artifact.place, Artifact.ofResource, Place.ofPath_joinText, if_neg hpathHead,
    Place.ofPath_joinText, if_neg hkindHead]
  refine Place.within_trans (c.within_spacePlace hspace) ?_
  exact Place.within_trans (Place.within_foldl_enter hkindUp _) (Place.within_foldl_enter hup _)

theorem Feature.head?_path (f : Feature) (name : String) :
    (f.path name).text.toList.head? ≠ some '/' := by
  simp [Feature.path, FunctionPath.generated, privateSegment]

theorem Feature.dotless_path (f : Feature) {name : String} (hname : PlainName name) :
    (f.path name).Dotless := by
  have hfeature : '.' ∉ f.name.toList := by
    cases f <;> decide
  have hname' := hname.1
  unfold FunctionPath.Dotless Feature.path FunctionPath.generated privateSegment
  simp [hfeature, hname']

/-- A function that is written is the load function, another one of the user's, or generated. -/
theorem Pack.Named.writtenFunctions {p : Pack} (h : p.Named) {f : PackFunction}
    (hf : f ∈ p.writtenFunctions) : f.path.Dotless ∧ (f.IsOuter → f ∈ p.functions) := by
  rcases List.mem_cons.mp hf with rfl | hf
  · refine ⟨FunctionPath.dotless_loadPath, fun houter => ?_⟩
    simp [PackFunction.IsOuter, loadPath] at houter
  · rcases List.mem_append.mp (List.mem_filter.mp hf).1 with huser | hgenerated
    · have hmem : f ∈ p.functions := List.mem_mergeSort.mp huser
      exact ⟨h.functions f hmem, fun _ => hmem⟩
    · obtain ⟨e, he, rfl⟩ := List.mem_map.mp hgenerated
      obtain ⟨feature, name, hname, hpath⟩ := h.generated e (List.mem_mergeSort.mp he)
      rw [hpath, PackFunction.IsOuter, hpath]
      exact ⟨feature.dotless_path hname, fun houter => absurd houter (feature.head?_path name)⟩

/-- The files of a pack lie inside the output directory, but for functions and resources whose names
lead out of it. -/
theorem within_files {p : Pack} (h : p.Named) (c : Config) (hspace : '/' ∉ p.space.toList)
    {a : Artifact} (ha : a ∈ p.files c) :
    c.outputPlace.within a.place = true ∨
      (∃ f ∈ p.functions, f.IsOuter ∧ a = .ofFunction c.dataPath p.space f) ∨
      ∃ r ∈ p.resources, r.1.IsOuter ∧ a = .ofResource c.dataPath p.space r.1 r.2 := by
  rcases List.mem_cons.mp ha with rfl | ha
  · rw [Artifact.place_description]
    exact .inl (c.outputPlace.within_append _)
  · rcases Pack.mem_artifacts.mp ha with ⟨f, hf, rfl⟩ | ⟨r, hr, rfl⟩ | htag
    · obtain ⟨hdots, huser⟩ := h.writtenFunctions hf
      by_cases houter : f.IsOuter
      · exact .inr (.inl ⟨f, huser houter, houter, rfl⟩)
      · exact .inl (within_ofFunction c hspace hdots houter)
    · by_cases houter : r.1.IsOuter
      · exact .inr (.inr ⟨r, hr, houter, rfl⟩)
      · exact .inl (within_ofResource c hspace (h.kinds r hr) houter r.2)
    · refine .inl (Place.within_trans c.outputPlace_within_dataPlace ?_)
      rcases Pack.mem_tags.mp htag with rfl | ⟨-, rfl⟩
      · rw [Artifact.place_tag]
        exact c.within_tagPlace (by decide)
      · rw [Artifact.place_tag]
        exact c.within_tagPlace (by decide)

/-! ### Absolute and relative paths -/

theorem anchor_foldl_enter (parts : List (List Char)) (p : Place) :
    (parts.foldl Place.enter p).anchor = .root ↔ p.anchor = .root := by
  induction parts generalizing p with
  | nil => rfl
  | cons part parts ih =>
    rw [List.foldl_cons, ih]
    unfold Place.enter
    split
    · rfl
    · split
      · unfold Place.parent
        split
        · cases p.anchor <;> simp [File.Anchor.parent]
        · rfl
      · rfl

/-- A path starts at the root exactly if its place does. -/
theorem anchor_ofPath (path : File.Path) :
    (Place.ofPath path).anchor = .root ↔ path.isAbsolute = true := by
  rw [Place.ofPath, anchor_foldl_enter, Place.origin]
  cases path.isAbsolute <;> simp

/-- A function whose path begins with a slash lies outside of a relative output directory. -/
theorem not_within_of_isOuter (c : Config) (space : String) {f : PackFunction} (houter : f.IsOuter)
    (hrelative : c.outputPath.isAbsolute = false) :
    c.outputPlace.within (Artifact.ofFunction c.dataPath space f).place = false := by
  have hhead : (f.path.text ++ ".mcfunction").toList.head? = some '/' := by
    rwa [head?_append_ending _ _ (by decide)]
  have hroot : (Artifact.ofFunction c.dataPath space f).place.anchor = .root := by
    rw [Artifact.place, Artifact.ofFunction, Place.ofPath_joinText, if_pos hhead, anchor_ofPath]
    simpa [File.Path.isAbsolute] using hhead
  rw [Bool.eq_false_iff]
  intro hwithin
  obtain ⟨hanchor, -⟩ := Place.within_iff.mp hwithin
  rw [hroot, Config.outputPlace, anchor_ofPath, hrelative] at hanchor
  cases hanchor

end Packwright
