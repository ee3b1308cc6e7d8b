import Packwright.Project.Artifact
import Packwright.Proofs.File.Changes

/-!
# Writing packs

A pack is written file by file: what is written later at a place is what stays there. Before that,
the data directory is removed if its path leads to something.

## Main definitions

- `Artifact.place` — where a file of a pack lies
- `laid` — what is at a place after files were written one after the other
- `Pack.files` — all files of a pack, its description first
- `Pack.cleared` — what is at a place once earlier data is removed

## Main results

- `laid_of_not_mem`, `laid_eq_of_mem`, `exists_laid_eq` — the last file at a place stays
- `Artifact.exists_names_ofFunction`, `Artifact.exists_names_ofResource` — what file names end in
- `Pack.write_eq_ok` — what a pack that is written does to the file at each place
-/

namespace Packwright

open File (Place Content)

/-! ### Steps of work -/

namespace Work

variable {α β : Type} {m : Work α} {w w' : Workspace}

theorem outcome_bind (f : α → Work β) :
    (m >>= f).outcome w =
      match m.outcome w with
      | (.ok a, w₁) => (f a).outcome w₁
      | (.error e, w₁) => (.error e, w₁) := by
  simp only [outcome, ExceptT.run_bind, StateT.run_bind]
  generalize m.run.run w = r
  obtain ⟨result, w₁⟩ := r
  cases result <;> rfl

theorem outcome_bind_eq_ok {f : α → Work β} {b : β} :
    (m >>= f).outcome w = (.ok b, w') ↔
      ∃ a w₁, m.outcome w = (.ok a, w₁) ∧ (f a).outcome w₁ = (.ok b, w') := by
  rw [outcome_bind]
  rcases m.outcome w with ⟨e | a, w₁⟩
  · simp
  · constructor
    · exact fun h => ⟨a, w₁, rfl, h⟩
    · rintro ⟨a', w₁', ⟨⟩, h⟩
      exact h

/-- A step that gives a value leaves some workspace. -/
theorem outcome_eq_of_fst {r : Except Failure α} (h : (m.outcome w).1 = r) :
    m.outcome w = (r, (m.outcome w).2) :=
  Prod.ext h rfl

theorem outcome_get_bind (f : Workspace → Work α) : (get >>= f).outcome w = (f w).outcome w := rfl

theorem outcome_changeFiles_eq_ok {path : File.Path}
    {change : File.Tree → Except File.Problem File.Tree} {u : Unit} :
    (changeFiles path change).outcome w = (.ok u, w') ↔
      ∃ files, change w.files = .ok files ∧ w' = { w with files } := by
  rw [changeFiles, outcome_get_bind]
  cases change w.files with
  | error problem =>
    show ((.error (.fault { cause := .fileFailure path.text problem }), w) :
      Except Failure Unit × Workspace) = (.ok u, w') ↔ _
    simp
  | ok files =>
    show ((.ok (), { w with files }) : Except Failure Unit × Workspace) = (.ok u, w') ↔ _
    simp [eq_comm]

/-- To make directories changes no file. -/
theorem file?_of_makeDirectories {path : File.Path} {u : Unit}
    (h : (makeDirectories path).outcome w = (.ok u, w')) (q : Place) :
    w'.files.file? q = w.files.file? q := by
  have hfiles : ((makeDirectories path).outcome w).2.files = (w.files.makeDirectories path).1 := by
    rw [makeDirectories, outcome_get_bind]
    dsimp only
    cases (w.files.makeDirectories path).2 <;> rfl
  rw [h] at hfiles
  rw [hfiles, File.Tree.file?_makeDirectories]

/-- What is said changes no file. -/
theorem files_of_log {level : LogLevel} {text : String} {u : Unit}
    (h : (log level text).outcome w = (.ok u, w')) : w'.files = w.files := by
  obtain ⟨-, rfl⟩ := Prod.mk.inj h
  rfl

end Work

/-! ### Files of a pack -/

/-- The place of a file of a pack. -/
def Artifact.place (a : Artifact) : Place := .ofPath a.path

/-- What is at a place after files were written one after the other. -/
def laid (as : List Artifact) (q : Place) (before : Option Content) : Option Content :=
  as.foldl (fun old a => if q = a.place then some (.text a.text) else old) before

section laid

variable {as : List Artifact} {a : Artifact} {q : Place}

theorem laid_of_not_mem (h : ∀ a ∈ as, a.place ≠ q) (before : Option Content) :
    laid as q before = before := by
  induction as generalizing before with
  | nil => rfl
  | cons a as ih =>
    obtain ⟨ha, has⟩ := List.forall_mem_cons.mp h
    rw [laid, List.foldl_cons, if_neg (Ne.symm ha)]
    exact ih has before

/-- One of the files for a place stays there. -/
theorem exists_laid_eq (h : ∃ a ∈ as, a.place = q) (before : Option Content) :
    ∃ a ∈ as, a.place = q ∧ laid as q before = some (.text a.text) := by
  induction as generalizing before with
  | nil =>
    obtain ⟨a, ha, -⟩ := h
    cases ha
  | cons first as ih =>
    rw [laid, List.foldl_cons]
    by_cases hlater : ∃ a ∈ as, a.place = q
    · obtain ⟨a, ha, hplace, hlaid⟩ :=
        ih hlater (if q = first.place then some (.text first.text) else before)
      exact ⟨a, List.mem_cons_of_mem first ha, hplace, hlaid⟩
    · obtain ⟨a, ha, hplace⟩ := h
      rcases List.mem_cons.mp ha with rfl | ha
      · refine ⟨a, List.mem_cons_self, hplace, ?_⟩
        rw [if_pos hplace.symm]
        exact laid_of_not_mem (fun b hb hbq => hlater ⟨b, hb, hbq⟩) _
      · exact absurd ⟨a, ha, hplace⟩ hlater

/-- Where all files for a place have one text, that text stays. -/
theorem laid_eq_of_mem (ha : a ∈ as) (hsame : ∀ b ∈ as, b.place = a.place → b.text = a.text)
    (before : Option Content) : laid as a.place before = some (.text a.text) := by
  obtain ⟨b, hb, hplace, hlaid⟩ := exists_laid_eq ⟨a, ha, rfl⟩ before
  rw [hlaid, hsame b hb hplace]

end laid

/-! ### Names of files -/

/-- What is not made of dots alone is a name, also at the end of more. -/
theorem isName_append {ending : List Char} {c : Char} (hc : c ∈ ending) (hdot : c ≠ '.')
    (front : List Char) : Place.IsName (front ++ ending) := by
  have hmem : c ∈ front ++ ending := List.mem_append_right front hc
  constructor
  · simp only [File.isSilent, Bool.or_eq_false_iff, decide_eq_false_iff_not]
    constructor
    · intro h
      rw [h] at hmem
      cases hmem
    · intro h
      rw [h] at hmem
      exact hdot (List.mem_singleton.mp hmem)
  · intro h
    rw [h] at hmem
    simp [hdot] at hmem

/-- A file name behind a path keeps its ending. -/
theorem exists_names_joinText (p : File.Path) (s ending : String) (hslash : '/' ∉ ending.toList)
    {c : Char} (hc : c ∈ ending.toList) (hdot : c ≠ '.') :
    ∃ anchor names last, Place.ofPath (p.joinText (s ++ ending)) =
      ⟨anchor, names ++ [last ++ ending.toList]⟩ := by
  obtain ⟨parts, last, -, hparts⟩ := File.exists_splitSlashes_append s.toList hslash
  have hfold : ∀ start : Place, (File.splitSlashes (s ++ ending).toList).foldl Place.enter start =
      ⟨(parts.foldl Place.enter start).anchor,
        (parts.foldl Place.enter start).names ++ [last ++ ending.toList]⟩ := by
    intro start
    rw [String.toList_append, hparts, List.foldl_append, List.foldl_cons, List.foldl_nil,
      Place.enter_of_isName (isName_append hc hdot last)]
  rw [Place.ofPath_joinText]
  split
  · exact ⟨_, _, _, hfold _⟩
  · exact ⟨_, _, _, hfold _⟩

namespace Artifact

/-- The name of a place ends in a text. -/
def Ends (q : Place) (ending : String) : Prop :=
  ∃ name, q.names.getLast? = some name ∧ ending.toList <:+ name

theorem ends_of_eq {q : Place} {anchor : File.Anchor} {names : List (List Char)} {name : List Char}
    {ending : String} (h : q = ⟨anchor, names ++ [name]⟩) (hends : ending.toList <:+ name) :
    Ends q ending :=
  ⟨name, by simp [h], hends⟩

theorem ends_ofFunction (data : File.Path) (space : String) (f : PackFunction) :
    Ends (ofFunction data space f).place ".mcfunction" := by
  obtain ⟨anchor, names, last, h⟩ := exists_names_joinText
    ((data.joinText space).joinText "functions") f.path.text ".mcfunction" (by decide) (c := 'm')
    (by decide) (by decide)
  exact ends_of_eq h (List.suffix_append ..)

theorem ends_ofResource (data : File.Path) (space : String) (key : ResourceKey) (json : String) :
    Ends (ofResource data space key json).place ".json" := by
  obtain ⟨anchor, names, last, h⟩ := exists_names_joinText
    ((data.joinText space).joinText (key.kind ++ "s")) key.path ".json" (by decide) (c := 'j')
    (by decide) (by decide)
  exact ends_of_eq h (List.suffix_append ..)

theorem ends_tag (data : File.Path) (occasion : String) (f : ResourceLocation) :
    Ends (tag data occasion f).place ".json" := by
  obtain ⟨anchor, names, last, h⟩ := exists_names_joinText
    (((data.joinText "minecraft").joinText "tags").joinText "functions") occasion ".json" (by decide)
    (c := 'j') (by decide) (by decide)
  exact ends_of_eq h (List.suffix_append ..)

theorem place_description (root : File.Path) (config : Config) :
    (description root config).place =
      ⟨(Place.ofPath root).anchor, (Place.ofPath root).names ++ ["pack.mcmeta".toList]⟩ :=
  Place.ofPath_joinText_name root (by decide) ⟨by decide, by decide⟩

theorem ends_description (root : File.Path) (config : Config) :
    Ends (description root config).place "pack.mcmeta" :=
  ends_of_eq (place_description root config) (List.suffix_refl _)

/-- A name does not end in two texts of which neither ends in the other. -/
theorem Ends.ne {p q : Place} {ending ending' : String} (hp : Ends p ending) (hq : Ends q ending')
    (h : ¬ending.toList <:+ ending'.toList) (h' : ¬ending'.toList <:+ ending.toList) : p ≠ q := by
  rintro rfl
  obtain ⟨name, hname, hends⟩ := hp
  obtain ⟨name', hname', hends'⟩ := hq
  obtain rfl : name = name' := Option.some.inj (hname.symm.trans hname')
  rcases List.suffix_or_suffix_of_suffix hends hends' with hsuffix | hsuffix
  · exact h hsuffix
  · exact h' hsuffix

/-! ### What writing does -/

/-- To write a file of a pack changes the file at its place alone. -/
theorem write_eq_ok {a : Artifact} {w w' : Workspace} {u : Unit}
    (h : a.write.outcome w = (.ok u, w')) :
    a.path.checkLimits = .ok () ∧
      ∀ q, w'.files.file? q = if q = a.place then some (.text a.text) else w.files.file? q := by
  have hparts : ∃ w₁, (∀ q, w₁.files.file? q = w.files.file? q) ∧
      ((do
        Work.changeFiles a.path (·.write a.path a.text)
        Work.log .debug ("wrote " ++ a.path.text)) : Work Unit).outcome w₁ = (.ok u, w') := by
    unfold write at h
    cases hparent : a.path.parent? with
    | none =>
      rw [hparent] at h
      exact ⟨w, fun _ => rfl, h⟩
    | some parent =>
      rw [hparent] at h
      obtain ⟨_, w₁, hmake, hrest⟩ := Work.outcome_bind_eq_ok.mp h
      exact ⟨w₁, Work.file?_of_makeDirectories hmake, hrest⟩
  obtain ⟨w₁, hsame, hrest⟩ := hparts
  obtain ⟨_, w₂, hchange, hlog⟩ := Work.outcome_bind_eq_ok.mp hrest
  obtain ⟨files, hwrite, rfl⟩ := Work.outcome_changeFiles_eq_ok.mp hchange
  refine ⟨File.Tree.checkLimits_of_write hwrite, fun q => ?_⟩
  rw [Work.files_of_log hlog, File.Tree.file?_of_write hwrite, hsame]
  rfl

/-- Files of a pack are written one after the other. -/
theorem forM_write_eq_ok {as : List Artifact} {w w' : Workspace} {u : Unit}
    (h : (as.forM write : Work Unit).outcome w = (.ok u, w')) :
    (∀ a ∈ as, a.path.checkLimits = .ok ()) ∧
      ∀ q, w'.files.file? q = laid as q (w.files.file? q) := by
  induction as generalizing w with
  | nil =>
    obtain ⟨-, rfl⟩ := Prod.mk.inj h
    exact ⟨List.forall_mem_nil _, fun _ => rfl⟩
  | cons a as ih =>
    rw [List.forM_eq_forM, List.forM_cons] at h
    obtain ⟨_, w₁, hfirst, hrest⟩ := Work.outcome_bind_eq_ok.mp h
    obtain ⟨hlimit, hfile⟩ := write_eq_ok hfirst
    obtain ⟨hlimits, hfiles⟩ := ih hrest
    refine ⟨List.forall_mem_cons.mpr ⟨hlimit, hlimits⟩, fun q => ?_⟩
    rw [hfiles, hfile, laid, laid, List.foldl_cons]

end Artifact

/-! ### Whole packs -/

/-- The data directory of a pack. -/
abbrev Config.dataPath (c : Config) : File.Path := Pack.dataPath c.outputPath

/-- All files of a pack in the order of their writing. -/
def Pack.files (p : Pack) (config : Config) : List Artifact :=
  Artifact.description config.outputPath config :: p.artifacts config.dataPath

theorem Pack.mem_tags {p : Pack} {data : File.Path} {a : Artifact} : a ∈ p.tags data ↔
    a = Artifact.tag data "load" (loadPath.inSpace p.space) ∨
      p.tick?.isSome = true ∧ a = Artifact.tag data "tick" (tickPath.inSpace p.space) := by
  rw [tags, List.mem_cons]
  split
  · next htick => rw [List.mem_singleton, and_iff_right htick]
  · next htick => simp [htick]

/-- The files below the data directory are those of functions, those of resources, and tags. -/
theorem Pack.mem_artifacts {p : Pack} {data : File.Path} {a : Artifact} : a ∈ p.artifacts data ↔
    (∃ f ∈ p.writtenFunctions, a = Artifact.ofFunction data p.space f) ∨
      (∃ r ∈ p.resources, a = Artifact.ofResource data p.space r.1 r.2) ∨ a ∈ p.tags data := by
  simp only [artifacts, sortedResources, List.mem_append, List.mem_map, List.mem_mergeSort, eq_comm,
    or_assoc]

/-- The place of the data directory of a pack. -/
def Config.dataPlace (c : Config) : Place := .ofPath c.dataPath

/-- The place of the tag for an occasion. -/
def Config.tagPlace (c : Config) (occasion : String) : Place :=
  .ofPath ((((c.dataPath.joinText "minecraft").joinText "tags").joinText "functions").joinText
    (occasion ++ ".json"))

theorem Artifact.place_tag (c : Config) (occasion : String) (f : ResourceLocation) :
    (Artifact.tag c.dataPath occasion f).place = c.tagPlace occasion :=
  rfl

theorem Config.tagPlace_eq (c : Config) {occasion : String} (hslash : '/' ∉ occasion.toList) :
    c.tagPlace occasion = ⟨c.dataPlace.anchor, c.dataPlace.names ++ ["minecraft".toList,
      "tags".toList, "functions".toList, (occasion ++ ".json").toList]⟩ := by
  have hname : Place.IsName (occasion ++ ".json").toList := by
    rw [String.toList_append]
    exact isName_append (c := 'j') (by decide) (by decide) _
  have hfile : '/' ∉ (occasion ++ ".json").toList := by
    rw [String.toList_append, List.mem_append, not_or]
    exact ⟨hslash, by decide⟩
  rw [Config.tagPlace, Place.ofPath_joinText_name _ hfile hname,
    Place.ofPath_joinText_name _ (by decide) ⟨by decide, by decide⟩,
    Place.ofPath_joinText_name _ (by decide) ⟨by decide, by decide⟩,
    Place.ofPath_joinText_name _ (by decide) ⟨by decide, by decide⟩]
  simp [Config.dataPlace]

theorem Config.within_tagPlace (c : Config) {occasion : String} (hslash : '/' ∉ occasion.toList) :
    c.dataPlace.within (c.tagPlace occasion) = true := by
  rw [c.tagPlace_eq hslash]
  exact c.dataPlace.within_append _

theorem Config.tagPlace_load_ne_tick (c : Config) : c.tagPlace "load" ≠ c.tagPlace "tick" := by
  rw [c.tagPlace_eq (by decide), c.tagPlace_eq (by decide)]
  simp

/-- What is at a place once earlier data is removed: the directory is only found if its path leads
to something. -/
def Config.cleared (c : Config) (files : File.Tree) (q : Place) : Option Content :=
  if files.contains c.dataPath && c.dataPlace.within q then none else files.file? q

theorem Config.dataPlace_eq (c : Config) : c.dataPlace =
    ⟨(Place.ofPath c.outputPath).anchor, (Place.ofPath c.outputPath).names ++ ["data".toList]⟩ :=
  Place.ofPath_joinText_name c.outputPath (by decide) ⟨by decide, by decide⟩

/-- A pack that is written leaves at each place the last of its files there, and else what is there
once earlier data is removed. -/
theorem Pack.write_eq_ok {p : Pack} {config : Config} {w w' : Workspace} {summary : Summary}
    (h : (p.write config).outcome w = (.ok summary, w')) :
    summary = p.summary ∧ (∀ a ∈ p.files config, a.path.checkLimits = .ok ()) ∧
      ∀ q, w'.files.file? q = laid (p.files config) q (config.cleared w.files q) := by
  have hparts : ∃ w₁, (∀ q, w₁.files.file? q = config.cleared w.files q) ∧
      ((do
        Work.makeDirectories config.outputPath
        (Artifact.description config.outputPath config).write
        (p.artifacts config.dataPath).forM Artifact.write
        Work.log .info (p.summary.render config.outputPath)
        return p.summary) : Work Summary).outcome w₁ = (.ok summary, w') := by
    unfold Pack.write at h
    obtain ⟨_, _, hget, hrest⟩ := Work.outcome_bind_eq_ok.mp h
    obtain ⟨hvalue, rfl⟩ := Prod.mk.inj hget
    obtain rfl := Except.ok.inj hvalue
    by_cases hcontains : w.files.contains config.dataPath = true
    · simp only [hcontains, if_true] at hrest
      obtain ⟨_, w₁, hchange, hrest⟩ := Work.outcome_bind_eq_ok.mp hrest
      obtain ⟨files, hremove, rfl⟩ := Work.outcome_changeFiles_eq_ok.mp hchange
      refine ⟨_, fun q => ?_, hrest⟩
      rw [Config.cleared, hcontains, Bool.true_and, File.Tree.file?_of_removeDirectory hremove]
      rfl
    · rw [Bool.not_eq_true] at hcontains
      simp only [hcontains, Bool.false_eq_true, if_false] at hrest
      refine ⟨_, fun q => ?_, hrest⟩
      rw [Config.cleared, hcontains, Bool.false_and, if_neg Bool.false_ne_true]
  obtain ⟨w₁, hcleared, hrest⟩ := hparts
  obtain ⟨_, w₂, hmake, hrest⟩ := Work.outcome_bind_eq_ok.mp hrest
  obtain ⟨_, w₃, hdescription, hrest⟩ := Work.outcome_bind_eq_ok.mp hrest
  obtain ⟨_, w₄, hartifacts, hrest⟩ := Work.outcome_bind_eq_ok.mp hrest
  obtain ⟨_, w₅, hlog, hreturn⟩ := Work.outcome_bind_eq_ok.mp hrest
  obtain ⟨hsummary, rfl⟩ := Prod.mk.inj hreturn
  obtain ⟨hlimit, hfirst⟩ := Artifact.write_eq_ok hdescription
  obtain ⟨hlimits, hlaid⟩ := Artifact.forM_write_eq_ok hartifacts
  refine ⟨(Except.ok.inj hsummary).symm, List.forall_mem_cons.mpr ⟨hlimit, hlimits⟩, fun q => ?_⟩
  rw [Work.files_of_log hlog, hlaid, hfirst, Work.file?_of_makeDirectories hmake, hcleared, files,
    laid, laid, List.foldl_cons]

end Packwright
