import Packwright.Proofs.Inlining

/-!
# Calls of imports

While a file is compiled, its imports are called one after the other, and the files that these begin
call theirs. A call is reached once all that stands before it has succeeded, whether or not the rest
succeeds too. A file is put on the list of files begun before it is compiled, so that it is not compiled
again inside itself.

## Main definitions

- `Compile.Passes`, `Compile.Reaches` — constructs that are compiled up to others, or up to an import
- `ImportCall`, `ImportCall.Leads` — a call of an import, and the calls inside of it
- `ImportCall.Completes` — a call that begins a file and compiles it to its end

## Main results

- `Compile.Passes.outcome`, `Compile.passes_of_ok` — what is left decides the outcome
- `ImportCall.Leads.before`, `ImportCall.Leads.behind` — a call inside another one
- `ImportCall.completes_of_ok` — a call that succeeds completes all files that it begins
- `ImportCall.Leads.completes_of_begun` — what was begun when a call is reached
-/

namespace Packwright

namespace Compile

variable {inner : Block} {importer : Importer} {out out' : List Command} {cs cs' : List Construct}
  {s s' t : Session} {path : File.Path} {position : Option Position} {place : File.Place}
  {R : Session → Session → Prop} {depth : Nat}

/-! ### Along the top level -/

/-- The constructs are compiled, from the commands and the session on, up to those that are left. -/
inductive Passes (inner : Block) (importer : Importer) :
    List Command → List Construct → Session → List Command → List Construct → Session → Prop
  | refl (out : List Command) (cs : List Construct) (s : Session) :
    Passes inner importer out cs s out cs s
  | imported {out out' : List Command} {c : Construct} {rest cs' : List Construct}
    {s s₁ s' : Session} {keyword target : Token} {tokens : List Token}
    (hc : c.import? = some (keyword, tokens)) (htarget : importTarget keyword tokens = .ok target)
    (hrun : (importer (s.settings.importPath target.value) (some target.position)).outcome
      { s with pack := s.pack.extendLoad out } = (.ok (), s₁))
    (h : Passes inner importer [] rest s₁ out' cs' s') :
    Passes inner importer out (c :: rest) s out' cs' s'
  | compiled {out out' commands : List Command} {c : Construct} {rest cs' : List Construct}
    {s s₁ s' : Session} (hc : c.import? = none)
    (hrun : (construct inner .top c).outcome s = (.ok commands, s₁))
    (h : Passes inner importer (out ++ commands) rest s₁ out' cs' s') :
    Passes inner importer out (c :: rest) s out' cs' s'

/-- Among the constructs an import is reached, with its path, its position and the session. -/
inductive Reaches (inner : Block) (importer : Importer) (out : List Command) (cs : List Construct)
    (s : Session) : File.Path → Option Position → Session → Prop
  | mk {out' : List Command} {c : Construct} {rest : List Construct} {s' : Session}
    {keyword target : Token} {tokens : List Token}
    (h : Passes inner importer out cs s out' (c :: rest) s')
    (hc : c.import? = some (keyword, tokens)) (htarget : importTarget keyword tokens = .ok target) :
    Reaches inner importer out cs s (s'.settings.importPath target.value) (some target.position)
      { s' with pack := s'.pack.extendLoad out' }

/-- Imports put the commands so far into the load function and go on behind the file. -/
theorem topConstructs_import {c : Construct} {rest : List Construct} {keyword target : Token}
    {tokens : List Token} (hc : c.import? = some (keyword, tokens))
    (htarget : importTarget keyword tokens = .ok target) :
    (topConstructs inner importer out (c :: rest)).outcome s =
      outcome (importer (s.settings.importPath target.value) (some target.position) >>= fun _ =>
        topConstructs inner importer [] rest) { s with pack := s.pack.extendLoad out } := by
  conv_lhs => unfold topConstructs
  rw [hc]
  show outcome (ofExcept (importTarget keyword tokens) >>= fun target =>
    modifyPack (·.extendLoad out) >>= fun _ => get >>= fun s =>
      importer (s.settings.importPath target.value) (some target.position) >>= fun _ =>
        topConstructs inner importer [] rest) s = _
  rw [htarget]
  show outcome (modifyPack (·.extendLoad out) >>= fun _ => get >>= fun s =>
    importer (s.settings.importPath target.value) (some target.position) >>= fun _ =>
      topConstructs inner importer [] rest) s = _
  rw [outcome_modifyPack_bind, outcome_get_bind]

/-- What is left decides the outcome. -/
theorem Passes.outcome (h : Passes inner importer out cs s out' cs' s') :
    (topConstructs inner importer out cs).outcome s =
      (topConstructs inner importer out' cs').outcome s' := by
  induction h with
  | refl => rfl
  | imported hc htarget hrun _ ih =>
    rw [topConstructs_import hc htarget, outcome_bind, hrun]
    exact ih
  | compiled hc hrun _ ih =>
    conv_lhs => unfold topConstructs
    rw [hc]
    show Compile.outcome (construct inner .top _ >>= _) _ = _
    rw [outcome_bind, hrun]
    exact ih

/-- Constructs that succeed are all compiled. -/
theorem passes_of_ok (h : (topConstructs inner importer out cs).outcome s = (.ok out', t)) :
    Passes inner importer out cs s out' [] t := by
  induction cs generalizing out s with
  | nil =>
    obtain ⟨hout, rfl⟩ := Prod.mk.inj h
    obtain rfl := Except.ok.inj hout
    exact .refl out [] s
  | cons c rest ih =>
    rcases hc : c.import? with _ | ⟨keyword, tokens⟩
    · obtain ⟨commands, s₁, hrun, hrest⟩ := (topConstructs_other_eq_ok hc).mp h
      exact .compiled hc hrun (ih hrest)
    · obtain ⟨target, s₁, htarget, hrun, hrest⟩ := (topConstructs_import_eq_ok hc).mp h
      exact .imported hc htarget hrun (ih hrest)

theorem Passes.tracked (hR : Session.Tracks R)
    (himporter : ∀ path position, (importer path position).Tracked R)
    (h : Passes (block depth) importer out cs s out' cs' s') : R s s' := by
  induction h with
  | refl out cs s => exact hR.refl s
  | @imported out _ _ _ _ s s₁ _ _ target _ _ _ hrun _ ih =>
    have himport := himporter (s.settings.importPath target.value) (some target.position)
      { s with pack := s.pack.extendLoad out }
    rw [hrun] at himport
    exact hR.trans (hR.trans (hR.load s out) himport) ih
  | @compiled _ _ _ c _ _ s s₁ _ _ hrun _ ih =>
    have hbuilds := construct_builds depth c s
    rw [hrun] at hbuilds
    exact hR.trans (hR.builds hbuilds) ih

/-- From the start to the import. -/
theorem Reaches.before (hR : Session.Tracks R)
    (himporter : ∀ path position, (importer path position).Tracked R)
    (h : Reaches (block depth) importer out cs s path position t) : R s t := by
  obtain ⟨h, -, -⟩ := h
  exact hR.trans (h.tracked hR himporter) (hR.load _ _)

/-- From the end of the import to the end of all constructs. -/
theorem Reaches.behind (hR : Session.Tracks R)
    (himporter : ∀ path position, (importer path position).Tracked R)
    (h : Reaches (block depth) importer out cs s path position t) :
    R ((importer path position).outcome t).2
      ((topConstructs (block depth) importer out cs).outcome s).2 := by
  obtain @⟨out', c, rest, s', keyword, target, tokens, h, hc, htarget⟩ := h
  rw [h.outcome, topConstructs_import hc htarget, outcome_bind]
  generalize (importer _ _).outcome { s' with pack := s'.pack.extendLoad out' } = result
  obtain ⟨value, t'⟩ := result
  cases value with
  | ok => exact topConstructs_tracked hR himporter depth rest [] t'
  | error => exact hR.refl t'

/-- What is begun along the way is begun by an import that succeeds. -/
theorem Passes.exists_reaches (h : Passes (block depth) importer out cs s out' cs' s')
    (hbegun : place ∈ s'.imported) (hnew : place ∉ s.imported) :
    ∃ path position t t', Reaches (block depth) importer out cs s path position t ∧
      (importer path position).outcome t = (.ok (), t') ∧ place ∉ t.imported ∧
      place ∈ t'.imported := by
  induction h with
  | refl => exact absurd hbegun hnew
  | @imported out _ c rest _ s s₁ _ keyword target tokens hc htarget hrun _ ih =>
    by_cases hhere : place ∈ s₁.imported
    · exact ⟨_, _, _, s₁, .mk (.refl out (c :: rest) s) hc htarget, hrun, hnew, hhere⟩
    · obtain ⟨path, position, t, t', ⟨hpasses, hc', htarget'⟩, hok, ht, ht'⟩ := ih hbegun hhere
      exact ⟨_, _, _, t', .mk (.imported hc htarget hrun hpasses) hc' htarget', hok, ht, ht'⟩
  | @compiled _ _ _ c _ _ s s₁ _ hc hrun _ ih =>
    have hbuilds := construct_builds depth c s
    rw [hrun] at hbuilds
    obtain ⟨path, position, t, t', ⟨hpasses, hc', htarget'⟩, hok, ht, ht'⟩ :=
      ih hbegun (hbuilds.imported ▸ hnew)
    exact ⟨_, _, _, t', .mk (.compiled hc hrun hpasses) hc' htarget', hok, ht, ht'⟩

/-- An import that succeeds finds its file, and either leaves it out or begins and compiles it. -/
theorem exists_of_importWith {files : File.Tree} {compile : String → String → Compile Unit}
    (h : (importWith files compile path position).outcome s = (.ok (), t)) :
    ∃ place text, files.read path = .ok (place, text) ∧
      ((place ∈ s.imported ∧ t.imported = s.imported ∧ t.pack = s.pack) ∨
        (place ∉ s.imported ∧ (compile (s.settings.displayName path) text).outcome
          { s with imported := s.imported ++ [place] } = (.ok (), t))) := by
  cases hread : files.read path with
  | error problem =>
    rw [importWith_unreadable hread] at h
    cases (Prod.mk.inj h).1
  | ok found =>
    obtain ⟨place, text⟩ := found
    refine ⟨place, text, rfl, ?_⟩
    by_cases hbegun : place ∈ s.imported
    · obtain ⟨log, hrun⟩ := importWith_begun hread hbegun compile position
      obtain ⟨-, rfl⟩ := Prod.mk.inj (hrun.symm.trans h)
      exact .inl ⟨hbegun, rfl, rfl⟩
    · exact .inr ⟨hbegun, (importWith_new hread hbegun compile position).symm.trans h⟩

/-! ### In a source -/

/-- The session in which the constructs of a source are compiled. -/
def opening (name : String) (warnings : List Warning) (s : Session) : Session :=
  { s with
    log := s.log ++ [⟨.debug, "compiling " ++ name⟩]
    warnings := s.warnings ++ warnings }

/-- While a source is compiled, an import is reached. -/
def SourceReaches (importer : Importer) (name text : String) (s : Session) (path : File.Path)
    (position : Option Position) (t : Session) : Prop :=
  ∃ r, Packwright.tokenize .required Position.start text = .ok r ∧
    Reaches (block (maxNesting text)) importer [] (constructs r.statements)
      (opening name r.warnings s) path position t

variable {name text : String}

/-- A source whose text is read does what its statements do in one sequence, and names the file. -/
theorem source_read (importer : Importer) (name : String) (s : Session) {r : Reading}
    (hread : Packwright.tokenize .required Position.start text = .ok r) :
    ∃ warnings, (source importer name text).outcome s =
      (((sequence (maxNesting text) importer r.statements).outcome
          (opening name r.warnings s)).1.mapError (inFile name text),
        { ((sequence (maxNesting text) importer r.statements).outcome
          (opening name r.warnings s)).2 with warnings }) := by
  have htop : (topLevel importer text).outcome
      { s with log := s.log ++ [⟨.debug, "compiling " ++ name⟩] } =
      (sequence (maxNesting text) importer r.statements).outcome (opening name r.warnings s) := by
    rw [topLevel_eq_sequence, outcome_bind, tokenize_outcome, hread]
    rfl
  constructor
  rw [← htop]
  rfl

theorem SourceReaches.before (hR : Session.Tracks R)
    (himporter : ∀ path position, (importer path position).Tracked R)
    (h : SourceReaches importer name text s path position t) : R s t := by
  obtain ⟨r, -, h⟩ := h
  have hopening : R s (opening name r.warnings s) := hR.builds (.of_pack rfl rfl rfl)
  exact hR.trans hopening (h.before hR himporter)

theorem SourceReaches.behind (hR : Session.Tracks R)
    (himporter : ∀ path position, (importer path position).Tracked R)
    (h : SourceReaches importer name text s path position t) :
    R ((importer path position).outcome t).2 ((source importer name text).outcome s).2 := by
  obtain ⟨r, hread, h⟩ := h
  obtain ⟨warnings, hsource⟩ := source_read importer name s hread
  rw [hsource, sequence, outcome_bind]
  refine hR.trans (h.behind hR himporter) ?_
  generalize (topConstructs (block (maxNesting text)) importer [] (constructs r.statements)).outcome
    (opening name r.warnings s) = result
  obtain ⟨top, s'⟩ := result
  cases top with
  | ok out => exact hR.trans (hR.load s' out) (hR.builds (.of_pack rfl rfl rfl))
  | error e => exact hR.builds (.of_pack rfl rfl rfl)

/-- What a source begins that compiles to its end is begun by an import that succeeds. -/
theorem exists_sourceReaches (h : (source importer name text).outcome s = (.ok (), t))
    (hbegun : place ∈ t.imported) (hnew : place ∉ s.imported) :
    ∃ path position s₁ s₂, SourceReaches importer name text s path position s₁ ∧
      (importer path position).outcome s₁ = (.ok (), s₂) ∧ place ∉ s₁.imported ∧
      place ∈ s₂.imported := by
  obtain ⟨r, -, -, -, -, -, hread, -, -⟩ := exists_of_source h
  obtain ⟨warnings, hsource⟩ := source_read importer name s hread
  rw [hsource] at h
  obtain ⟨hvalue, rfl⟩ := Prod.mk.inj h
  rcases hrun : (sequence (maxNesting text) importer r.statements).outcome
    (opening name r.warnings s) with ⟨e | u, s'⟩
  · rw [hrun] at hvalue
    cases hvalue
  · rw [hrun] at hbegun
    obtain ⟨out, s₁, htop, hload⟩ := outcome_bind_eq_ok.mp hrun
    obtain ⟨-, rfl⟩ := Prod.mk.inj hload
    obtain ⟨path, position, s₂, s₃, hreaches, hok, hs₂, hs₃⟩ :=
      (passes_of_ok htop).exists_reaches hbegun hnew
    exact ⟨path, position, s₂, s₃, ⟨r, hread, hreaches⟩, hok, hs₂, hs₃⟩

end Compile

/-! ### Calls inside calls -/

/-- A call of an import: how many files can still be inside one another, the path and the position of
the import, and the session. -/
structure ImportCall where
  depth : Nat
  path : File.Path
  position : Option Position
  session : Session

namespace ImportCall

open Compile

variable {files : File.Tree} {c c' : ImportCall} {around : List File.Place} {place : File.Place}
  {R : Session → Session → Prop}

/-- What comes of a call. -/
def outcome (files : File.Tree) (c : ImportCall) : Except Failure Unit × Session :=
  (importWithin files c.depth c.path c.position).outcome c.session

/-- The first call leads to the second one, which stands inside of the files `around`, outermost
first. -/
inductive Leads (files : File.Tree) : ImportCall → List File.Place → ImportCall → Prop
  | self (c : ImportCall) : Leads files c [] c
  | inner {depth : Nat} {path path' : File.Path} {position position' : Option Position}
    {s s' : Session} {place : File.Place} {text : String} {around : List File.Place} {c : ImportCall}
    (hread : files.read path = .ok (place, text)) (hnew : place ∉ s.imported)
    (hreaches : SourceReaches (importWithin files depth) (s.settings.displayName path) text
      { s with imported := s.imported ++ [place] } path' position' s')
    (h : Leads files ⟨depth, path', position', s'⟩ around c) :
    Leads files ⟨depth + 1, path, position, s⟩ (place :: around) c

/-- The call begins the file at the place and compiles it to its end. -/
def Completes (files : File.Tree) (c : ImportCall) (place : File.Place) : Prop :=
  (∃ text, files.read c.path = .ok (place, text)) ∧ place ∉ c.session.imported ∧
    (c.outcome files).1 = .ok ()

/-- A call that begins a file compiles its text. -/
theorem outcome_new {depth : Nat} {path : File.Path} (position : Option Position) {s : Session}
    {text : String} (hread : files.read path = .ok (place, text)) (hnew : place ∉ s.imported) :
    outcome files ⟨depth + 1, path, position, s⟩ =
      (source (importWithin files depth) (s.settings.displayName path) text).outcome
        { s with imported := s.imported ++ [place] } :=
  importWith_new hread hnew _ position

/-- From a call to one inside of it. -/
theorem Leads.before (hR : Session.Tracks R) (h : Leads files c around c') :
    R c.session c'.session := by
  induction h with
  | self c => exact hR.refl c.session
  | @inner depth path _ _ _ s s' place text _ _ _ _ hreaches _ ih =>
    have hbefore := hreaches.before hR (importWithin_tracked hR files depth)
    exact hR.trans (hR.trans (hR.begun s place) hbefore) ih

/-- From the end of a call to the end of the one around it. -/
theorem Leads.behind (hR : Session.Tracks R) (h : Leads files c around c') :
    R (c'.outcome files).2 (c.outcome files).2 := by
  induction h with
  | self c => exact hR.refl _
  | @inner depth _ _ _ _ _ _ _ _ _ _ hread hnew hreaches _ ih =>
    rw [outcome_new _ hread hnew]
    exact hR.trans ih (hreaches.behind hR (importWithin_tracked hR files depth))

/-- A call that completes a file has compiled its text. -/
theorem Completes.exists_source (h : c.Completes files place) :
    ∃ depth text, files.read c.path = .ok (place, text) ∧
      (source (importWithin files depth) (c.session.settings.displayName c.path) text).outcome
        { c.session with imported := c.session.imported ++ [place] } =
          (.ok (), (c.outcome files).2) := by
  obtain ⟨⟨text, hread⟩, hnew, hok⟩ := h
  obtain ⟨depth, path, position, s⟩ := c
  cases depth with
  | zero =>
    have hrun := importWith_new hread hnew (fun _ _ => throw .exhausted) position
    cases (congrArg Prod.fst hrun).symm.trans hok
  | succ depth =>
    refine ⟨depth, text, hread, ?_⟩
    rw [← outcome_new position hread hnew]
    exact Prod.ext hok rfl

/-- A call that succeeds completes every file that is begun in it. -/
theorem completes_of_ok {t : Session} (h : c.outcome files = (.ok (), t))
    (hbegun : place ∈ t.imported) (hnew : place ∉ c.session.imported) :
    ∃ around c', Leads files c around c' ∧ c'.Completes files place := by
  obtain ⟨depth, path, position, s⟩ := c
  induction depth generalizing path position s t with
  | zero =>
    -- at the bound no file is compiled, so a success begins none
    obtain ⟨place', text, -, ⟨-, himported, -⟩ | ⟨-, hrun⟩⟩ := exists_of_importWith h
    · exact absurd (himported ▸ hbegun) hnew
    · cases (Prod.mk.inj hrun).1
  | succ depth ih =>
    obtain ⟨place', text, hread, ⟨-, himported, -⟩ | ⟨hplace, hrun⟩⟩ := exists_of_importWith h
    · exact absurd (himported ▸ hbegun) hnew
    by_cases hself : place = place'
    · subst hself
      exact ⟨[], _, .self _, ⟨text, hread⟩, hnew, congrArg Prod.fst h⟩
    · obtain ⟨path', position', s₁, s₂, hreaches, hok, hs₁, hs₂⟩ :=
        exists_sourceReaches hrun hbegun (by simpa using ⟨hnew, hself⟩)
      obtain ⟨around, c', hleads, hcompletes⟩ := ih hs₂ path' position' s₁ hok hs₁
      exact ⟨_, c', .inner hread hplace hreaches hleads, hcompletes⟩

/-- When a call is reached, each file begun since then is one around it or complete. -/
theorem Leads.completes_of_begun (h : Leads files c around c') (hbegun : place ∈ c'.session.imported)
    (hnew : place ∉ c.session.imported) :
    place ∈ around ∨ ∃ around' c₁, Leads files c around' c₁ ∧ c₁.Completes files place := by
  induction h with
  | self c => exact absurd hbegun hnew
  | @inner depth path path' position position' s s' place' text around c hread hplace hreaches h ih =>
    by_cases hself : place = place'
    · exact .inl (hself ▸ List.mem_cons_self)
    by_cases hearlier : place ∈ s'.imported
    · -- it was begun by an earlier import of the same file, which has succeeded
      obtain ⟨r, hr, ⟨hpasses, hc, htarget⟩⟩ := hreaches
      obtain ⟨path₁, position₁, s₁, s₂, hreaches₁, hok, hs₁, hs₂⟩ :=
        hpasses.exists_reaches hearlier (by simpa [opening] using ⟨hnew, hself⟩)
      obtain ⟨around', c₁, hleads, hcompletes⟩ :=
        completes_of_ok (c := ⟨depth, path₁, position₁, s₁⟩) hok hs₂ hs₁
      exact .inr ⟨_, c₁, .inner hread hplace ⟨r, hr, hreaches₁⟩ hleads, hcompletes⟩
    · rcases ih hbegun hearlier with haround | ⟨around', c₁, hleads, hcompletes⟩
      · exact .inl (List.mem_cons_of_mem _ haround)
      · exact .inr ⟨_, c₁, .inner hread hplace hreaches hleads, hcompletes⟩

end ImportCall

end Packwright
