import Packwright.Proofs.Scans.Statements
import Packwright.Proofs.Termination

/-!
# Each text is read once

A session hears of all that is read for a file, for the files that it imports, and so for a task. Behind
a file its name and its text stand in the warnings that are kept. At the end of a task they go to the log,
behind those that were not kept.

A file is begun at most once, and no group of a file is opened twice, so all that is read for a task are
different texts. Each of them stands in the file of its name, and the warnings about it name that file.

## Main definitions

- `Compile.Tours` — the tour of files that a session hears of
- `Scan.key` — what tells the texts of scans from one another
- `Tour.Once` — no text is read twice, and only files that are new
- `Task.HasFile`, `Scan.In` — the files of a task, and scans of a file

## Main results

- `Session.Hears.inFile` — a file is named in what is heard
- `Compile.tours_topConstructs`, `Compile.tours_source`, `Compile.tours_importWithin` — texts and files
- `Task.heard` — tasks
- `Task.nodup_tour` — no text is read twice for a task
- `Task.tour_in` — each text is in its file
- `Scan.In.located` — the places of the warnings
-/

namespace Packwright

/-! ### Names of files -/

namespace Scan

/-- The warnings of a file get its name and its text. -/
theorem kept_inFile (name text : String) (scans : List Scan) :
    kept (scans.map (inFile name text)) = (kept scans).map (Warning.inFile name text) :=
  kept_map (f := inFile name text) (fun _ => rfl) (fun scan => by simp [located, inFile]) scans

theorem passed_inFile (name text : String) (scans : List Scan) :
    passed (scans.map (inFile name text)) = passed scans :=
  passed_map (f := inFile name text) (fun _ => rfl) (fun _ => rfl) scans

/-- The place of a file is not heard. -/
theorem kept_at (place : File.Place) (scans : List Scan) : kept (scans.map (at_ place)) = kept scans := by
  rw [kept_map (f := at_ place) (g := id) (fun _ => rfl) fun scan => (List.map_id scan.located).symm,
    List.map_id]

theorem passed_at (place : File.Place) (scans : List Scan) :
    passed (scans.map (at_ place)) = passed scans :=
  passed_map (f := at_ place) (fun _ => rfl) (fun _ => rfl) scans

end Scan

/-- In a file a warning is about the same. -/
theorem Warning.isIdle_inFile (name text : String) (w : Warning) :
    (w.inFile name text).isIdle = w.isIdle := by
  unfold Warning.inFile isIdle
  rfl

namespace Session

variable {s s₀ s₁ : Session} {scans : List Scan}

/-- A file is named in the warnings that came from it. -/
theorem Hears.inFile (h : s₀.Hears scans s₁) (hwarnings : s₀.warnings = s.warnings)
    (hwarned : s₀.warned = s.warned) (hlogged : s₀.logged = s.logged) (name text : String) :
    s.Hears (scans.map (Scan.inFile name text))
      { s₁ with warnings := s₁.warnings.take s.warnings.length ++
          (s₁.warnings.drop s.warnings.length).map (Warning.inFile name text) } := by
  obtain ⟨⟨new, hnew, hkept⟩, hwarned₁, hlogged₁⟩ := h
  rw [hwarnings] at hnew
  refine ⟨⟨new.map (Warning.inFile name text), ?_, ?_⟩, ?_, hlogged₁.trans hlogged⟩
  · rw [hnew, List.take_left, List.drop_left]
  · have hsame : Warning.isIdle ∘ Warning.inFile name text = Warning.isIdle :=
      funext (Warning.isIdle_inFile name text)
    rw [Scan.kept_inFile, ← hkept, List.filter_map, hsame]
  · rw [Scan.passed_inFile, ← hwarned]
    exact hwarned₁

end Session

namespace Compile

variable {α β : Type} {m : Compile α} {settings : Settings} {tour tour' : Tour}

/-- Where the step succeeds, the session hears of what is read behind the files that were begun before,
and the files of the tour are begun. -/
structure Tours (m : Compile α) (settings : Settings) (tour : Tour) : Prop where
  meets : ∀ s : Session, s.settings = settings → m.Meets s
    (fun _ s' => s.Hears (tour s.imported).1 s' ∧ s'.settings = settings ∧
      s'.imported = (tour s.imported).2)
    fun _ => True

/-- One step after another. -/
theorem Tours.bind {f : α → Compile β} (h : m.Tours settings tour)
    (hf : ∀ a, (f a).Tours settings tour') : (m >>= f).Tours settings (.append tour tour') := by
  refine ⟨fun s hs => (h.meets s hs).bind (fun _ => id) fun a s₁ h₁ => ?_⟩
  obtain ⟨hhears, hsettings, hbegun⟩ := h₁
  have hnext := (hf a).meets s₁ hsettings
  rw [hbegun] at hnext
  exact hnext.mono (fun b s' h' => ⟨hhears.trans h'.1, h'.2⟩) fun _ => id

/-- A step behind one that reads nothing. -/
theorem Tours.next {f : α → Compile β} (h : m.Tours settings (.only []))
    (hf : ∀ a, (f a).Tours settings tour) : (m >>= f).Tours settings tour :=
  h.bind hf

theorem tours_get {f : Session → Compile β}
    (hf : ∀ s : Session, s.settings = settings → (f s).Tours settings tour) :
    (get >>= f).Tours settings tour :=
  ⟨fun s hs => (hf s hs).meets s hs⟩

theorem tours_ofExcept {x : Except Fault α} {f : α → Compile β}
    (hf : ∀ a, x = .ok a → (f a).Tours settings tour) : (ofExcept x >>= f).Tours settings tour := by
  cases x with
  | ok a => exact ⟨(hf a rfl).meets⟩
  | error fault => exact ⟨fun _ _ => trivial⟩

/-- A step that begins no file. -/
theorem Hears.tours {scans : List Scan} {P : α → Prop} (h : m.Hears scans P)
    (hsettings : ∀ s : Session, (m.outcome s).2.settings = s.settings)
    (hkept : ∀ s : Session, (m.outcome s).2.imported = s.imported) :
    m.Tours settings (.only scans) := by
  refine ⟨fun s hs => (h.meets s).with_outcome.mono (fun a s' h' => ⟨h'.2.1, ?_, ?_⟩) fun _ _ => trivial⟩
  · have hsame := hsettings s
    rw [h'.1] at hsame
    exact hsame.trans hs
  · have hsame := hkept s
    rwa [h'.1] at hsame

theorem tours_extendLoad (out : List Command) :
    (modifyPack (·.extendLoad out)).Tours settings (.only []) :=
  (hears_modifyPack _).tours (fun _ => rfl) fun _ => rfl

/-- The constructs of the top level are heard if imports are. -/
theorem tours_topConstructs {importer : Importer} {files : File.Path → Tour}
    (himporter : ∀ path position, (importer path position).Tours settings (files path)) (depth : Nat)
    (cs : List Construct) (out : List Command) :
    (topConstructs (block depth) importer out cs).Tours settings
      (Tour.topConstructs settings files cs) := by
  induction cs generalizing out with
  | nil => exact ⟨fun s hs => ⟨.refl s, hs, rfl⟩⟩
  | cons c rest ih =>
    unfold topConstructs Tour.topConstructs
    cases c.import? with
    | some parts =>
      obtain ⟨keyword, tokens⟩ := parts
      refine tours_ofExcept fun target htarget => ?_
      simp only [htarget, Tour.reading]
      refine (tours_extendLoad out).next fun _ => tours_get fun s hs => ?_
      rw [hs]
      exact (himporter _ _).bind fun _ => ih []
    | none =>
      refine Tours.bind ?_ fun commands => ih (out ++ commands)
      exact (hears_construct (hears_block depth) .top c).tours
        (fun s => (construct_builds depth c s).settings) fun s => (construct_builds depth c s).imported

theorem tours_topLevel {importer : Importer} {files : File.Path → Tour}
    (himporter : ∀ path position, (importer path position).Tours settings (files path)) (text : String) :
    (topLevel importer text).Tours settings (Tour.topLevel settings files text) := by
  refine ⟨fun s hs => ?_⟩
  unfold topLevel Tour.topLevel
  rw [Meets, outcome_bind, tokenize_outcome]
  cases htext : Packwright.tokenize .required Position.start text with
  | error fault => trivial
  | ok r =>
    have hrest := ((tours_topConstructs himporter (maxNesting text)
      (constructs r.statements) []).bind fun out => tours_extendLoad out).meets
        { s with warnings := s.warnings ++ r.warnings } hs
    have hnoted := Session.Hears.noted ⟨.file, [], none, [], r.warnings⟩ rfl rfl
      (isIdle_of_warning htext) s
    refine hrest.mono (fun _ s' h => ⟨?_, h.2⟩) fun _ => id
    have hhears := h.1
    rw [Tour.append, Tour.only, List.append_nil] at hhears
    exact hnoted.trans hhears

/-- A file is named behind its text. -/
theorem tours_source {importer : Importer} {files : File.Path → Tour}
    (himporter : ∀ path position, (importer path position).Tours settings (files path))
    (name text : String) :
    (source importer name text).Tours settings (Tour.source settings files name text) := by
  refine ⟨fun s hs => ?_⟩
  have htext := meets_iff.mp ((tours_topLevel himporter text).meets
    { s with log := s.log ++ [⟨.debug, "compiling " ++ name⟩] } hs)
  rw [Meets, outcome_source]
  generalize (topLevel importer text).outcome _ = result at htext ⊢
  obtain ⟨value, s₁⟩ := result
  cases value with
  | error e => trivial
  | ok a =>
    obtain ⟨hhears, hsettings, hbegun⟩ := htext.1 a s₁ rfl
    have hfile := hhears.inFile (s := s) rfl (by simp [Session.warned]) rfl name text
    exact ⟨hfile, hsettings, hbegun⟩

theorem tours_importWith (files : File.Tree) {compile : String → String → Compile Unit}
    {read : String → String → Tour}
    (hcompile : ∀ name text, (compile name text).Tours settings (read name text)) (path : File.Path)
    (position : Option Position) :
    (importWith files compile path position).Tours settings
      (Tour.importWith settings files read path) := by
  refine ⟨fun s hs => ?_⟩
  subst hs
  unfold Tour.importWith
  cases hread : files.read path with
  | error problem =>
    rw [Meets, importWith_unreadable hread]
    trivial
  | ok found =>
    obtain ⟨place, text⟩ := found
    simp only [Tour.reading]
    by_cases hbegun : place ∈ s.imported
    · have hcontains := List.contains_iff_mem.mpr hbegun
      rw [Meets, outcome_importWith hread, if_pos hcontains, if_pos hcontains]
      exact ⟨.of_same rfl (by simp [Session.warned]) rfl, rfl, rfl⟩
    · rw [Meets, importWith_new hread hbegun, if_neg (by simpa using hbegun)]
      have hnew := (hcompile (s.settings.displayName path) text).meets
        { s with imported := s.imported ++ [place] } rfl
      refine hnew.mono (fun _ s' h => ⟨?_, h.2⟩) fun _ => id
      have hhears := h.1.congr (Scan.kept_at place _) (Scan.passed_at place _)
      exact ⟨hhears.warnings, hhears.warned, hhears.logged⟩

/-- Files are heard, with all that they import. -/
theorem tours_importWithin (files : File.Tree) (depth : Nat) (path : File.Path)
    (position : Option Position) :
    (importWithin files depth path position).Tours settings
      (Tour.importWithin settings files depth path) := by
  induction depth generalizing path position with
  | zero =>
    refine tours_importWith files ?_ path position
    exact fun _ _ => ⟨fun s _ => trivial⟩
  | succ depth ih => exact tours_importWith files (tours_source ih) path position

end Compile

/-! ### Tasks -/

/-- At the end of a step all warnings of the step go to the log. -/
theorem Compile.Tours.step {m : Compile Unit} {settings : Settings} {tour : Tour}
    (h : m.Tours settings tour) {s : Session} (hs : s.settings = settings)
    (hok : ((Compile.step m).outcome s).1 = .ok ()) :
    let scans := (tour s.imported).1
    let s' := ((Compile.step m).outcome s).2
    (∃ new, s'.warnings = s.warnings ++ new ∧ new.filter Warning.isIdle = Scan.kept scans) ∧
      s'.warned = s.warned ++ (Scan.passed scans).map Warning.render ++
        (s'.warnings.drop s.logged).map Warning.render := by
  intro scans s'
  have hm := meets_iff.mp (h.meets s hs)
  revert hok
  unfold s'
  rw [step_outcome]
  cases validateSpace s.settings.space with
  | error fault => exact fun hok => nomatch hok
  | ok _ =>
    generalize m.outcome s = result at hm ⊢
    obtain ⟨value, s₁⟩ := result
    intro hok
    obtain rfl : value = .ok () := hok
    obtain ⟨⟨hwarnings, hwarned, hlogged⟩, -, -⟩ := hm.1 () s₁ rfl
    refine ⟨hwarnings, ?_⟩
    rw [← hwarned, ← hlogged]
    simp only [flushWarnings, Session.warned, List.filter_append, List.map_append]
    exact congrArg _ (Session.warned_records _)

/-- The session hears of what is read for a task that succeeds, and of nothing else. -/
theorem Task.heard {s : Session} {t : Task} (hok : (t.compile.outcome s).1 = .ok ()) :
    let scans := (t.tour s.settings s.imported).1
    let s' := s.next t
    (∃ new, s'.warnings = s.warnings ++ new ∧ new.filter Warning.isIdle = Scan.kept scans) ∧
      s'.warned = s.warned ++ (Scan.passed scans).map Warning.render ++
        (s'.warnings.drop s.logged).map Warning.render := by
  have hfiles : ∀ path position, (Compile.importFile t.files path position).Tours s.settings
      (Tour.importWithin s.settings t.files (t.files.nodes.length + 1) path) :=
    Compile.tours_importWithin t.files (t.files.nodes.length + 1)
  cases t with
  | text files name source => exact (Compile.tours_source hfiles name source).step rfl hok
  | file files path => exact (hfiles path none).step rfl hok
  | entry files =>
    rw [Task.compile, Compile.outcome_compileEntry] at hok
    have hentry := (hfiles s.settings.entryPath none).step rfl hok
    intro scans s'
    have hnext : s' = ((Session.compileFile files s.settings.entryPath).outcome s).2 :=
      congrArg Prod.snd (Compile.outcome_compileEntry files s)
    rw [hnext]
    exact hentry

/-- What tells the texts of scans from one another. -/
def Scan.key (scan : Scan) : Option File.Place × List Token := (scan.place, scan.groups)

/-! ### No text twice -/

namespace Tour

/-- No text is read twice. The files that are begun are new, and each scan is of one of them, or else of
no file and in one of the groups; the scan of a whole text is in none. -/
structure Once (heads : List (Option Token)) (tour : Tour) : Prop where
  once : ∀ begun, ∃ new, (tour begun).2 = begun ++ new ∧ (∀ place ∈ new, place ∉ begun) ∧
    (∀ scan ∈ (tour begun).1, (∃ place ∈ new, scan.place = some place) ∨
      scan.place = none ∧ scan.groups.head? ∈ heads) ∧
    ((tour begun).1.map Scan.key).Nodup

variable {heads heads' : List (Option Token)} {tour tour' : Tour}

theorem once_only {scans : List Scan}
    (hheads : ∀ scan ∈ scans, scan.place = none ∧ scan.groups.head? ∈ heads)
    (hgroups : (scans.map Scan.groups).Nodup) : Once heads (only scans) := by
  refine ⟨fun begun => ⟨[], (List.append_nil _).symm, List.forall_mem_nil _,
    fun scan hscan => .inr (hheads scan hscan), ?_⟩⟩
  refine List.Nodup.of_map Prod.snd ?_
  rwa [List.map_map]

theorem once_nil : Once heads (only []) := once_only (List.forall_mem_nil _) List.nodup_nil

theorem Once.mono (h : Once heads tour) (hsub : heads ⊆ heads') : Once heads' tour := by
  refine ⟨fun begun => ?_⟩
  obtain ⟨new, hbegun, hnew, hscans, hnodup⟩ := h.once begun
  exact ⟨new, hbegun, hnew, fun scan hscan => (hscans scan hscan).imp_right (And.imp_right (@hsub _)),
    hnodup⟩

/-- The second part begins no file of the first, and has other groups. -/
theorem Once.append (h : Once heads tour) (h' : Once heads' tour')
    (hdisjoint : heads.Disjoint heads') : Once (heads ++ heads') (append tour tour') := by
  refine ⟨fun begun => ?_⟩
  obtain ⟨new, hbegun, hnew, hscans, hnodup⟩ := h.once begun
  obtain ⟨new', hbegun', hnew', hscans', hnodup'⟩ := h'.once (tour begun).2
  rw [hbegun] at hbegun' hnew'
  refine ⟨new ++ new', ?_, ?_, ?_, ?_⟩
  · rw [Tour.append, hbegun, hbegun', List.append_assoc]
  · intro place hplace
    rcases List.mem_append.mp hplace with hplace | hplace
    · exact hnew place hplace
    · exact fun hmem => hnew' place hplace (List.mem_append_left _ hmem)
  · intro scan hscan
    rcases List.mem_append.mp hscan with hscan | hscan
    · rcases hscans scan hscan with ⟨place, hplace, heq⟩ | ⟨hnone, hhead⟩
      · exact .inl ⟨place, List.mem_append_left _ hplace, heq⟩
      · exact .inr ⟨hnone, List.mem_append_left _ hhead⟩
    · rcases hscans' scan hscan with ⟨place, hplace, heq⟩ | ⟨hnone, hhead⟩
      · exact .inl ⟨place, List.mem_append_right _ hplace, heq⟩
      · exact .inr ⟨hnone, List.mem_append_right _ hhead⟩
  · rw [Tour.append, List.map_append]
    refine List.nodup_append.mpr ⟨hnodup, hnodup', fun a ha b hb hab => ?_⟩
    obtain ⟨scan, hscan, rfl⟩ := List.mem_map.mp ha
    obtain ⟨scan', hscan', rfl⟩ := List.mem_map.mp hb
    obtain ⟨hplace, hgroups⟩ := Prod.mk.inj hab
    rcases hscans scan hscan with ⟨place, hmem, heq⟩ | ⟨hnone, hhead⟩ <;>
      rcases hscans' scan' hscan' with ⟨place', hmem', heq'⟩ | ⟨hnone', hhead'⟩
    · rw [heq, heq'] at hplace
      exact hnew' place' hmem' (List.mem_append_right _ (Option.some.inj hplace ▸ hmem))
    · rw [heq, hnone'] at hplace
      cases hplace
    · rw [hnone, heq'] at hplace
      cases hplace
    · rw [hgroups] at hhead
      exact hdisjoint hhead hhead'

theorem once_reading {ε α : Type} {x : Except ε α} {f : α → Tour}
    (h : ∀ a, x = .ok a → Once heads (f a)) : Once heads (reading x f) := by
  cases x with
  | ok a => exact h a rfl
  | error e => exact once_nil

/-- Scans that keep their file and their groups stay different. -/
theorem Once.map (h : Once heads tour) {f : Scan → Scan} (hplace : ∀ scan, (f scan).place = scan.place)
    (hgroups : ∀ scan, (f scan).groups = scan.groups) : Once heads (tour.map f) := by
  refine ⟨fun begun => ?_⟩
  obtain ⟨new, hbegun, hnew, hscans, hnodup⟩ := h.once begun
  have hkey : Scan.key ∘ f = Scan.key := funext fun scan => Prod.ext (hplace scan) (hgroups scan)
  refine ⟨new, hbegun, hnew, fun scan hscan => ?_, ?_⟩
  · obtain ⟨inner, hinner, rfl⟩ := List.mem_map.mp hscan
    rw [hplace, hgroups]
    exact hscans inner hinner
  · rwa [Tour.map, List.map_map, hkey]

theorem eq_of_or_eq {α : Type} {a b : Option α} {x : α} (h : a.or (some x) = b.or (some x))
    (ha : a ≠ some x) (hb : b ≠ some x) : a = b := by
  cases a <;> cases b
  · rfl
  · exact absurd h.symm hb
  · exact absurd h ha
  · exact h

/-- What is read for a new file is told by its place. -/
theorem Once.at_ (h : Once heads tour) {begun : List File.Place} {place : File.Place}
    (hplace : place ∉ begun) :
    ∃ new, (tour (begun ++ [place])).2 = begun ++ new ∧ (∀ p ∈ new, p ∉ begun) ∧
      (∀ scan ∈ (tour (begun ++ [place])).1.map (Scan.at_ place), ∃ p ∈ new, scan.place = some p) ∧
      (((tour (begun ++ [place])).1.map (Scan.at_ place)).map Scan.key).Nodup := by
  obtain ⟨new, hbegun, hnew, hscans, hnodup⟩ := h.once (begun ++ [place])
  have hother : ∀ scan ∈ (tour (begun ++ [place])).1, scan.place ≠ some place := by
    intro scan hscan heq
    rcases hscans scan hscan with ⟨p, hp, hsome⟩ | ⟨hnone, -⟩
    · obtain rfl := Option.some.inj (hsome.symm.trans heq)
      exact hnew p hp (List.mem_append_right _ (List.mem_singleton_self p))
    · rw [hnone] at heq
      cases heq
  refine ⟨place :: new, by rw [hbegun, List.append_assoc]; rfl, ?_, ?_, ?_⟩
  · refine List.forall_mem_cons.mpr ⟨hplace, fun p hp hmem => ?_⟩
    exact hnew p hp (List.mem_append_left _ hmem)
  · intro scan hscan
    obtain ⟨inner, hinner, rfl⟩ := List.mem_map.mp hscan
    rcases hscans inner hinner with ⟨p, hp, hsome⟩ | ⟨hnone, -⟩
    · exact ⟨p, List.mem_cons_of_mem _ hp, by rw [Scan.at_, hsome]; rfl⟩
    · exact ⟨place, List.mem_cons_self, by rw [Scan.at_, hnone]; rfl⟩
  · -- the place of the file is that of no file inside
    rw [List.map_map]
    refine (List.nodup_map_iff_inj_on hnodup.of_map).mpr fun a ha b hb hab => ?_
    refine List.inj_on_of_nodup_map hnodup ha hb ?_
    obtain ⟨hsame, hgroups⟩ := Prod.mk.inj hab
    refine Prod.ext ?_ hgroups
    exact eq_of_or_eq hsame (hother a ha) (hother b hb)

section

variable {settings : Settings} {importer : File.Path → Tour} {files : File.Tree}

/-- The groups of constructs, as the first ones of their scans. -/
def headsOf (cs : List Construct) : List (Option Token) :=
  (groupsOf ((cs.flatMap Opening.ofConstruct).map Opening.group)).map some

/-- Constructs whose groups differ open none of them twice. -/
theorem once_topConstructs (himporter : ∀ path, Once [] (importer path)) {cs : List Construct}
    (hgroups : (groupsOf ((cs.flatMap Opening.ofConstruct).map Opening.group)).Nodup) :
    Once (headsOf cs) (topConstructs settings importer cs) := by
  induction cs with
  | nil => exact once_nil
  | cons c rest ih =>
    rw [List.flatMap_cons, List.map_append, groupsOf_append] at hgroups
    obtain ⟨hown, hrest, hdisjoint⟩ := List.nodup_append.mp hgroups
    have hlater := ih hrest
    have hheads : headsOf (c :: rest) = headsOf [c] ++ headsOf rest := by simp [headsOf]
    rw [hheads]
    unfold topConstructs
    split
    · refine once_reading fun target _ => ?_
      exact ((himporter _).append hlater (List.disjoint_nil_left _)).mono (List.subset_append_right _ _)
    · refine Once.append (once_only (fun scan hscan => ?_) ?_) hlater fun head hmem hmem' => ?_
      · obtain ⟨o, ho, hscan⟩ := List.mem_flatMap.mp hscan
        obtain ⟨hhead, hgroup⟩ := Opening.head?_groups hscan
        refine ⟨(Opening.bare_of_mem hscan).1, ?_⟩
        rw [hhead, headsOf, List.flatMap_singleton]
        exact List.mem_map_of_mem (mem_groupsOf.mpr ⟨List.mem_map_of_mem ho, hgroup⟩)
      · exact Opening.nodup_flatMap_scans hown fun o _ => Opening.nodup_scans o
      · obtain ⟨t, ht, rfl⟩ := List.mem_map.mp hmem
        obtain ⟨t', ht', heq⟩ := List.mem_map.mp hmem'
        obtain rfl := Option.some.inj heq
        rw [List.flatMap_singleton] at ht
        exact hdisjoint _ ht _ ht' rfl

theorem once_topLevel (himporter : ∀ path, Once [] (importer path)) (text : String) :
    ∃ heads, Once heads (topLevel settings importer text) := by
  cases hread : tokenize .required Position.start text with
  | error fault =>
    rw [topLevel, hread]
    exact ⟨[], once_nil⟩
  | ok r =>
    have hgroups : (groupsOf (((constructs r.statements).flatMap Opening.ofConstruct).map
        Opening.group)).Nodup :=
      ((Reading.nodup_tokens hread).filter _).sublist (Opening.among_ofBlock r.statements)
    have hconstructs : Once (headsOf (constructs r.statements))
        (topConstructs settings importer (constructs r.statements)) :=
      once_topConstructs himporter hgroups
    refine ⟨[none] ++ headsOf (constructs r.statements), ?_⟩
    rw [topLevel, hread]
    refine Once.append (once_only ?_ ?_) hconstructs ?_
    · simp
    · simp
    · simp [headsOf]

theorem once_source (himporter : ∀ path, Once [] (importer path)) (name text : String) :
    ∃ heads, Once heads (source settings importer name text) := by
  obtain ⟨heads, h⟩ : ∃ heads, Once heads (topLevel settings importer text) :=
    once_topLevel himporter text
  exact ⟨heads, h.map (fun _ => rfl) fun _ => rfl⟩

theorem once_importWith {read : String → String → Tour}
    (hread : ∀ name text, ∃ heads, Once heads (read name text)) (path : File.Path) :
    Once [] (importWith settings files read path) := by
  refine once_reading fun found _ => ⟨fun begun => ?_⟩
  split
  · exact ⟨[], (List.append_nil _).symm, List.forall_mem_nil _, List.forall_mem_nil _, List.nodup_nil⟩
  · next hbegun =>
    have hplace : found.1 ∉ begun := by simpa using hbegun
    obtain ⟨heads, h⟩ := hread (settings.displayName path) found.2
    obtain ⟨new, hbegun, hplaces, hscans, hnodup⟩ := h.at_ hplace
    exact ⟨new, hbegun, hplaces, fun scan hscan => .inl (hscans scan hscan), hnodup⟩

theorem once_importWithin (depth : Nat) (path : File.Path) :
    Once [] (importWithin settings files depth path) := by
  induction depth generalizing path with
  | zero => exact once_importWith (fun _ _ => ⟨[], once_nil⟩) path
  | succ depth ih => exact once_importWith (once_source ih) path

end

end Tour

/-- No text is read twice for a task. -/
theorem Task.nodup_tour (settings : Settings) (t : Task) (begun : List File.Place) :
    ((t.tour settings begun).1.map Scan.key).Nodup := by
  have hfiles : ∀ path, Tour.Once []
      (Tour.importWithin settings t.files (t.files.nodes.length + 1) path) :=
    Tour.once_importWithin _
  have honce : ∃ heads, Tour.Once heads (t.tour settings) := by
    cases t with
    | text files name source => exact Tour.once_source hfiles name source
    | file files path => exact ⟨[], hfiles path⟩
    | entry files => exact ⟨[], hfiles settings.entryPath⟩
  obtain ⟨heads, h⟩ := honce
  obtain ⟨new, -, -, -, hnodup⟩ := h.once begun
  exact hnodup

/-! ### Texts in files -/

/-- The task has a file with a name and a text: the one that is given with it, which has no place, or one
at a place that is found by a path. -/
inductive Task.HasFile (settings : Settings) (t : Task) : Option File.Place → String → String → Prop
  | given {files : File.Tree} {name text : String} (h : t = .text files name text) :
    HasFile settings t none name text
  | found {path : File.Path} {place : File.Place} {text : String}
    (h : t.files.read path = .ok (place, text)) :
    HasFile settings t (some place) (settings.displayName path) text

namespace Scan

/-- The scan is of a text in a file with a name and a text. -/
structure In (name text : String) (scan : Scan) : Prop where
  file : scan.files.head? = some (name, text)
  reads : scan.ReadsIn Position.start text

/-- The scan is of a text in a file that is found. -/
def Found (settings : Settings) (files : File.Tree) (scan : Scan) : Prop :=
  ∃ path place text, files.read path = .ok (place, text) ∧ scan.place = some place ∧
    scan.In (settings.displayName path) text

/-- The scan is of a text of which nothing more is known, or else in a file that is found. -/
def Bare (settings : Settings) (files : File.Tree) (text : String) (scan : Scan) : Prop :=
  (scan.place = none ∧ scan.files = [] ∧ scan.ReadsIn Position.start text) ∨ scan.Found settings files

variable {settings : Settings} {files : File.Tree} {name text : String} {scan : Scan}

theorem In.inFile (h : scan.In name text) (outer outerText : String) :
    (scan.inFile outer outerText).In name text :=
  ⟨by rw [Scan.inFile, List.head?_append, h.file]; rfl, h.reads⟩

theorem Found.inFile (h : scan.Found settings files) (name text : String) :
    (scan.inFile name text).Found settings files := by
  obtain ⟨path, place, own, hread, hplace, hin⟩ := h
  exact ⟨path, place, own, hread, hplace, hin.inFile name text⟩

theorem Found.at_ (h : scan.Found settings files) (place : File.Place) :
    (scan.at_ place).Found settings files := by
  obtain ⟨path, place', own, hread, hplace, hin⟩ := h
  exact ⟨path, place', own, hread, by rw [Scan.at_, hplace]; rfl, hin.file, hin.reads⟩

end Scan

namespace Tour

/-- Something holds of all that is read. -/
def All (P : Scan → Prop) (tour : Tour) : Prop := ∀ begun, ∀ scan ∈ (tour begun).1, P scan

variable {P Q : Scan → Prop} {tour tour' : Tour}

theorem all_only {scans : List Scan} (h : ∀ scan ∈ scans, P scan) : All P (only scans) := fun _ => h

theorem All.append (h : All P tour) (h' : All P tour') : All P (append tour tour') :=
  fun begun => List.forall_mem_append.mpr ⟨h begun, h' _⟩

theorem all_reading {ε α : Type} {x : Except ε α} {f : α → Tour} (h : ∀ a, x = .ok a → All P (f a)) :
    All P (reading x f) := by
  cases x with
  | ok a => exact h a rfl
  | error e => exact all_only (List.forall_mem_nil _)

theorem All.map (h : All P tour) {f : Scan → Scan} (hf : ∀ scan, P scan → Q (f scan)) :
    All Q (tour.map f) :=
  fun begun => List.forall_mem_map.mpr fun scan hscan => hf scan (h begun scan hscan)

section

variable {settings : Settings} {importer : File.Path → Tour} {files : File.Tree}

theorem all_topConstructs (himporter : ∀ path, All P (importer path)) {cs : List Construct}
    (hcs : ∀ c ∈ cs, ∀ o ∈ Opening.ofConstruct c, ∀ scan ∈ o.scans, P scan) :
    All P (topConstructs settings importer cs) := by
  induction cs with
  | nil => exact all_only (List.forall_mem_nil _)
  | cons c rest ih =>
    obtain ⟨hc, hrest⟩ := List.forall_mem_cons.mp hcs
    unfold topConstructs
    split
    · exact all_reading fun target _ => (himporter _).append (ih hrest)
    · exact All.append (all_only (List.forall_mem_flatMap.mpr hc)) (ih hrest)

/-- All that is read for a text is in the text, but for the files that are imported. -/
theorem all_topLevel (himporter : ∀ path, All (Scan.Found settings files) (importer path))
    (text : String) :
    All (Scan.Bare settings files text) (topLevel settings importer text) := by
  refine all_reading fun r hr => All.append (all_only ?_) (all_topConstructs ?_ ?_)
  · exact List.forall_mem_singleton.mpr (.inl ⟨rfl, rfl, r, .whole hr, rfl⟩)
  · exact fun path begun scan hscan => .inr (himporter path begun scan hscan)
  · intro c hc o ho scan hscan
    have hgroup := (Opening.head?_groups hscan).2
    have hmem := (Opening.among_ofBlock r.statements).mem (List.mem_flatMap.mpr ⟨c, hc, ho⟩) hgroup
    obtain ⟨hplace, hfiles⟩ := Opening.bare_of_mem hscan
    exact .inl ⟨hplace, hfiles, Opening.scans_readIn hr hmem scan hscan⟩

theorem all_source (himporter : ∀ path, All (Scan.Found settings files) (importer path))
    (name text : String) :
    All (fun scan => (scan.place = none ∧ scan.In name text) ∨ scan.Found settings files)
      (source settings importer name text) := by
  refine (all_topLevel himporter text).map fun scan hscan => ?_
  rcases hscan with ⟨hplace, hfiles, hreads⟩ | hfound
  · exact .inl ⟨hplace, by rw [Scan.inFile, hfiles]; rfl, hreads⟩
  · exact .inr (hfound.inFile name text)

theorem all_importWith {read : String → String → Tour}
    (hread : ∀ name text, All (fun scan => (scan.place = none ∧ scan.In name text) ∨
      scan.Found settings files) (read name text)) (path : File.Path) :
    All (Scan.Found settings files) (importWith settings files read path) := by
  refine all_reading fun found hfound begun => ?_
  split
  · exact List.forall_mem_nil _
  · refine ((hread (settings.displayName path) found.2).map fun scan hscan => ?_) _
    rcases hscan with ⟨hplace, hin⟩ | hother
    · exact ⟨path, found.1, found.2, hfound, by rw [Scan.at_, hplace]; rfl, hin.file, hin.reads⟩
    · exact hother.at_ found.1

theorem all_importWithin (depth : Nat) (path : File.Path) :
    All (Scan.Found settings files) (importWithin settings files depth path) := by
  induction depth generalizing path with
  | zero => exact all_importWith (fun _ _ => all_only (List.forall_mem_nil _)) path
  | succ depth ih => exact all_importWith (all_source ih) path

end

end Tour

/-- Each text that is read for a task is in a file of the task, under the name of the file. -/
theorem Task.tour_in (settings : Settings) (t : Task) (begun : List File.Place) :
    ∀ scan ∈ (t.tour settings begun).1, ∃ name text,
      t.HasFile settings scan.place name text ∧ scan.In name text := by
  have hfiles : ∀ path, Tour.All (Scan.Found settings t.files)
      (Tour.importWithin settings t.files (t.files.nodes.length + 1) path) :=
    Tour.all_importWithin _
  have hfound : ∀ {scan : Scan}, scan.Found settings t.files → ∃ name text,
      t.HasFile settings scan.place name text ∧ scan.In name text := by
    rintro scan ⟨path, place, text, hread, hplace, hin⟩
    exact ⟨_, text, hplace ▸ .found hread, hin⟩
  intro scan hscan
  cases t with
  | text files name source =>
    rcases Tour.all_source hfiles name source begun scan hscan with ⟨hplace, hin⟩ | hother
    · exact ⟨name, source, hplace ▸ .given rfl, hin⟩
    · exact hfound hother
  | file files path => exact hfound (hfiles path begun scan hscan)
  | entry files => exact hfound (hfiles settings.entryPath begun scan hscan)

/-! ### Places -/

/-- A task has one text at a place. -/
theorem Task.HasFile.text_eq {settings : Settings} {t : Task} {place : Option File.Place}
    {name name' text text' : String} (h : t.HasFile settings place name text)
    (h' : t.HasFile settings place name' text') : text = text' := by
  cases h with
  | given ht =>
    cases h' with
    | given ht' =>
      rw [ht] at ht'
      exact (Task.text.inj ht').2.2
  | found hread =>
    cases h' with
    | found hread' =>
      have hnode := File.Tree.node?_of_read hread
      rw [File.Tree.node?_of_read hread'] at hnode
      cases hnode
      rfl

/-- A name that is there already is kept. -/
theorem Warning.foldl_inFile (files : List (String × String)) (notice : Notice) {l : Location}
    (h : l.file ≠ "") :
    ∃ line, files.foldl (fun w file => w.inFile file.1 file.2) ⟨notice, some l⟩ =
      (⟨notice, some { l with lineText := line }⟩ : Warning) := by
  induction files generalizing l with
  | nil => exact ⟨l.lineText, rfl⟩
  | cons file files ih =>
    have hfill : (⟨notice, some l⟩ : Warning).inFile file.1 file.2 =
        ⟨notice, some { l with lineText := (l.fill file.1 file.2).lineText }⟩ := by
      simp [Warning.inFile, Location.fill, h]
    rw [List.foldl_cons, hfill]
    exact ih h

/-- The warnings are where they were noted, in the file of the text. -/
theorem Scan.In.located {name text : String} {scan : Scan} (h : scan.In name text) (hname : name ≠ "") :
    ∀ w ∈ scan.located, ∃ (p : Position) (line : String), emptyStatementAt p ∈ scan.noted ∧
      w = ⟨.emptyStatement, some ⟨name, p.line, p.column, line⟩⟩ := by
  intro w hw
  obtain ⟨noted, hnoted, rfl⟩ := List.mem_map.mp hw
  obtain ⟨rest, hfiles⟩ := List.head?_eq_some_iff.mp h.file
  obtain ⟨r, hreads, heq⟩ := h.reads
  obtain ⟨marks, habout, -, -⟩ := hreads.exists_marks
  obtain ⟨mark, before, after, -, -, rfl⟩ := exists_of_mem_right habout.flip (heq ▸ hnoted)
  have hfill : (emptyStatementAt (Position.start.walk before)).inFile name text =
      ⟨.emptyStatement, some ((Position.start.walk before).location.fill name text)⟩ := rfl
  obtain ⟨line, hline⟩ := Warning.foldl_inFile rest .emptyStatement
    (l := (Position.start.walk before).location.fill name text)
    (by simpa [Location.fill, Position.location])
  refine ⟨_, line, hnoted, ?_⟩
  rw [hfiles, List.foldl_cons, hfill, hline]
  simp [Location.fill, Position.location]

/-- Every warning for a task is about a semicolon of its text, and no two are about the same one. -/
theorem Task.exists_marks (settings : Settings) (t : Task) (begun : List File.Place) :
    ∃ marks : Scan → List Nat,
      (∀ scan ∈ (t.tour settings begun).1, ∀ name text, t.HasFile settings scan.place name text →
        List.Forall₂ (Warning.IsAbout Position.start text) scan.noted (marks scan)) ∧
      ((t.tour settings begun).1.flatMap fun scan =>
        (marks scan).map fun mark => (scan.place, mark)).Nodup := by
  have heach : ∀ scan : Scan, ∃ marks : List Nat, scan ∈ (t.tour settings begun).1 →
      ∃ name text, t.HasFile settings scan.place name text ∧
        List.Forall₂ (Warning.IsAbout Position.start text) scan.noted marks ∧ marks.Nodup ∧
        ∀ mark ∈ marks, OutsideTokens Position.start text scan.groups mark := by
    intro scan
    by_cases hscan : scan ∈ (t.tour settings begun).1
    · obtain ⟨name, text, hfile, hin⟩ := t.tour_in settings begun scan hscan
      obtain ⟨r, hreads, hnoted⟩ := hin.reads
      obtain ⟨marks, habout, hnodup, hout⟩ := hreads.exists_marks
      exact ⟨marks, fun _ => ⟨name, text, hfile, hnoted ▸ habout, hnodup, hout⟩⟩
    · exact ⟨[], fun h => absurd h hscan⟩
  choose marks hmarks using heach
  refine ⟨marks, fun scan hscan name text hfile => ?_,
    List.nodup_flatMap.mpr ⟨fun scan hscan => ?_, ?_⟩⟩
  · obtain ⟨_, _, hfile', habout, -, -⟩ := hmarks scan hscan
    rwa [hfile.text_eq hfile']
  · obtain ⟨_, _, -, -, hnodup, -⟩ := hmarks scan hscan
    exact hnodup.map fun _ _ h => (Prod.mk.inj h).2
  · -- scans of the same file are inside different groups
    have hkeys := List.pairwise_map.mp (t.nodup_tour settings begun)
    refine hkeys.imp_of_mem fun {a b} ha hb hne => ?_
    intro x hxa hxb
    obtain ⟨mark, hmark, rfl⟩ := List.mem_map.mp hxa
    obtain ⟨mark', hmark', heq⟩ := List.mem_map.mp hxb
    obtain ⟨hplace, rfl⟩ := Prod.mk.inj heq
    obtain ⟨_, _, hfile, -, -, hout⟩ := hmarks a ha
    obtain ⟨_, _, hfile', -, -, hout'⟩ := hmarks b hb
    have hsame := (hplace ▸ hfile').text_eq hfile
    exact hne (Prod.ext hplace.symm ((hout mark' hmark).unique (hsame ▸ hout' mark' hmark')))

end Packwright
