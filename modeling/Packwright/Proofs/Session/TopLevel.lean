import Packwright.Proofs.AppendOnly
import Packwright.Proofs.Session.Reading

/-!
# The top level of a file

A construct that is compiled at the top level is whole: a `do` has its `while`, and no `else` stands
alone. Whole constructs are split off a list of statements as they stand there, whatever is in front
of them or behind them. The commands of the top level go to the load function at its end and before
each import, so one of two sessions can have them there already while they are still to come in the
other one.

## Main definitions

- `Construct.Whole` — constructs with all that they need

## Main results

- `constructs_of_whole` — whole constructs are found again
- `Compile.topConstructs_import_eq_ok`, `Compile.topConstructs_other_eq_ok` — how a construct at the
  top level succeeds
- `Compile.topConstructs_whole` — constructs that are compiled are whole
- `Session.Ahead.flush` — commands that go to the load function of one session only
- `Compile.exists_of_source`, `Compile.source_ok` — how a source succeeds
-/

namespace Packwright

/-! ### Whole constructs -/

/-- Nothing that belongs to the construct is missing. -/
def Construct.Whole : Construct → Prop
  | .chain _ _ => True
  | .doWhile _ tail => tail ≠ none
  | .single s => s.kind ≠ .elseBranch

/-- An import is a statement of its own. -/
theorem Construct.exists_of_import? {c : Construct} {keyword : Token} {tokens : List Token}
    (h : c.import? = some (keyword, tokens)) :
    c = .single ⟨keyword :: tokens⟩ ∧ Statement.kind ⟨keyword :: tokens⟩ = .importFile := by
  cases c with
  | chain | doWhile => cases h
  | single s =>
    simp only [Construct.import?] at h
    split at h
    · next hkind htokens =>
      obtain ⟨rfl, rfl⟩ := Prod.mk.inj (Option.some.inj h)
      rw [← htokens]
      exact ⟨rfl, hkind⟩
    · cases h

theorem splitElses_append {elses rest : List Statement} {later : List Construct}
    (helses : ∀ e ∈ elses, e.kind = .elseBranch) (hrest : splitElses rest = ([], later)) :
    splitElses (elses ++ rest) = (elses, later) := by
  induction elses with
  | nil => exact hrest
  | cons e elses ih =>
    obtain ⟨he, helses⟩ := List.forall_mem_cons.mp helses
    simp only [List.cons_append, splitElses, ih helses, he, if_true]

/-- A whole construct in front of whole constructs is split off as it is. -/
theorem splitElses_cons {c : Construct} {rest : List Statement} {later : List Construct}
    (hfits : c.Fits) (hwhole : c.Whole) (hrest : splitElses rest = ([], later)) :
    splitElses (c.statements ++ rest) = ([], c :: later) := by
  cases c with
  | chain first elses =>
    obtain ⟨hfirst, helses⟩ := hfits
    simp [Construct.statements, splitElses, splitElses_append helses hrest, hfirst, addStatement]
  | doWhile first tail =>
    obtain ⟨hfirst, htail⟩ := hfits
    cases tail with
    | none => exact absurd rfl hwhole
    | some w =>
      have hw : w.kind = .whileLoop := htail w rfl
      simp [Construct.statements, splitElses, hrest, hfirst, hw, addStatement]
  | single s =>
    have helse : s.kind ≠ .elseBranch := hwhole
    simp only [Construct.statements, List.singleton_append, splitElses, hrest, helse, if_false]
    unfold addStatement
    split
    · next hkind => exact absurd hkind hfits.1
    · next hkind => exact absurd hkind hfits.2
    · rfl

/-- Whole constructs are found again in their statements. -/
theorem constructs_of_whole {cs : List Construct} (hfits : ∀ c ∈ cs, c.Fits)
    (hwhole : ∀ c ∈ cs, c.Whole) : constructs (cs.flatMap Construct.statements) = cs := by
  -- no `else` is left over in front, so each construct meets only whole ones behind it
  have hsplit : splitElses (cs.flatMap Construct.statements) = ([], cs) := by
    induction cs with
    | nil => rfl
    | cons c rest ih =>
      obtain ⟨hc, hfits⟩ := List.forall_mem_cons.mp hfits
      obtain ⟨hc', hwhole⟩ := List.forall_mem_cons.mp hwhole
      exact splitElses_cons hc hc' (ih hfits hwhole)
  rw [constructs, hsplit]
  rfl

/-- Statements of whole constructs go with those behind them. -/
theorem constructs_append {a b : List Statement} (ha : ∀ c ∈ constructs a, c.Whole)
    (hb : ∀ c ∈ constructs b, c.Whole) : constructs (a ++ b) = constructs a ++ constructs b := by
  have hall := constructs_of_whole
    (List.forall_mem_append.mpr ⟨constructs_fit a, constructs_fit b⟩)
    (List.forall_mem_append.mpr ⟨ha, hb⟩)
  rwa [List.flatMap_append, statements_constructs, statements_constructs] at hall

/-! ### Load functions -/

theorem Pack.Precedes.hasFunction {p q : Pack} {path : FunctionPath} (h : p.Precedes q)
    (hp : p.hasFunction path = true) : q.hasFunction path = true := by
  obtain ⟨f, hf⟩ := Option.isSome_iff_exists.mp hp
  obtain ⟨more, hmore, -⟩ := h.functions path f hf
  exact Option.isSome_iff_exists.mpr ⟨_, hmore⟩

namespace Session

variable {s s' : Session} {pre : List Command}

/-- Commands go to the load function of the first session only. -/
theorem Ahead.flush (h : s.Ahead pre s') (hload : s'.pack.hasFunction loadPath = true)
    (out : List Command) : Ahead (pre ++ out) { s with pack := s.pack.extendLoad out } s' := by
  refine ⟨h.settings, h.scope, h.tickDefined, h.sqrtEmitted, ?_⟩
  show s.pack.extendLoad out = _
  rw [h.pack, Pack.extendLoad_eq_ahead _ _ ((s'.pack.hasFunction_ahead _ _).trans hload),
    Pack.ahead_ahead]

/-- Commands go to the load function of the first session, and with those that it is ahead to that
of the second one. -/
theorem Ahead.catchUp (h : s.Ahead pre s') (hload : s'.pack.hasFunction loadPath = true)
    (out : List Command) : s.pack.extendLoad out = s'.pack.extendLoad (pre ++ out) := by
  rw [Pack.extendLoad_eq_ahead _ _ hload]
  exact (h.flush hload out).pack

/-- A task that succeeds leads to the next session. -/
theorem outcome_eq_next {t : Task} (h : (t.compile.outcome s).1 = .ok ()) :
    t.compile.outcome s = (.ok (), s.next t) :=
  Prod.ext h rfl

/-- Whatever a session has done, it has a load function. -/
theorem after_hasLoad (settings : Settings) (tasks : List Task) :
    ((Session.new settings).after tasks).pack.hasFunction loadPath = true := by
  have hgrows : ∀ s : Session, s.pack.Precedes (s.after tasks).pack := by
    induction tasks with
    | nil => exact fun s => .refl s.pack
    | cons t rest ih => exact fun s => (t.appends s).trans (ih (s.next t))
  exact (hgrows _).hasFunction rfl

end Session

/-! ### Constructs at the top level -/

namespace Compile

variable {inner : Block} {importer : Importer} {out out' : List Command} {c : Construct}
  {rest : List Construct} {s t : Session}

/-- An import puts the commands so far into the load function, and the file compiles. -/
theorem topConstructs_import_eq_ok {keyword : Token} {tokens : List Token}
    (hc : c.import? = some (keyword, tokens)) :
    (topConstructs inner importer out (c :: rest)).outcome s = (.ok out', t) ↔
      ∃ target s₁, importTarget keyword tokens = .ok target ∧
        (importer (s.settings.importPath target.value) (some target.position)).outcome
          { s with pack := s.pack.extendLoad out } = (.ok (), s₁) ∧
        (topConstructs inner importer [] rest).outcome s₁ = (.ok out', t) := by
  conv_lhs => unfold topConstructs
  rw [hc]
  show outcome (ofExcept (importTarget keyword tokens) >>= fun target =>
    modifyPack (·.extendLoad out) >>= fun _ => get >>= fun s =>
      importer (s.settings.importPath target.value) (some target.position) >>= fun _ =>
        topConstructs inner importer [] rest) s = _ ↔ _
  rw [outcome_bind_eq_ok]
  -- nothing can fail between the target and the file
  simp only [outcome_modifyPack_bind, outcome_get_bind]
  constructor
  · rintro ⟨target, s₀, hread, hrun⟩
    obtain ⟨htarget, rfl⟩ := outcome_ofExcept_eq_ok.mp hread
    obtain ⟨_, s₁, himport, hrest⟩ := outcome_bind_eq_ok.mp hrun
    exact ⟨target, s₁, htarget, himport, hrest⟩
  · rintro ⟨target, s₁, htarget, himport, hrest⟩
    refine ⟨target, s, outcome_ofExcept_eq_ok.mpr ⟨htarget, rfl⟩, ?_⟩
    exact outcome_bind_eq_ok.mpr ⟨(), s₁, himport, hrest⟩

/-- Any other construct compiles, and its commands come behind those so far. -/
theorem topConstructs_other_eq_ok (hc : c.import? = none) :
    (topConstructs inner importer out (c :: rest)).outcome s = (.ok out', t) ↔
      ∃ commands s₁, (construct inner .top c).outcome s = (.ok commands, s₁) ∧
        (topConstructs inner importer (out ++ commands) rest).outcome s₁ = (.ok out', t) := by
  conv_lhs => unfold topConstructs
  rw [hc]
  exact outcome_bind_eq_ok

/-- Constructs behind others go on where those end. -/
theorem topConstructs_append_eq_ok {cs : List Construct} :
    (topConstructs inner importer out (cs ++ rest)).outcome s = (.ok out', t) ↔
      ∃ mid s₁, (topConstructs inner importer out cs).outcome s = (.ok mid, s₁) ∧
        (topConstructs inner importer mid rest).outcome s₁ = (.ok out', t) := by
  induction cs generalizing out s with
  | nil =>
    constructor
    · exact fun hrun => ⟨out, s, rfl, hrun⟩
    · rintro ⟨_, _, ⟨⟩, hrun⟩
      exact hrun
  | cons c cs ih =>
    rw [List.cons_append]
    rcases hc : c.import? with _ | ⟨keyword, tokens⟩
    · simp only [topConstructs_other_eq_ok hc, ih]
      grind
    · simp only [topConstructs_import_eq_ok hc, ih]
      grind

/-- A construct that compiles is whole. -/
theorem whole_of_construct {level : Level} {commands : List Command} (hfits : c.Fits)
    (h : (construct inner level c).outcome s = (.ok commands, t)) : c.Whole := by
  cases c with
  | chain => trivial
  | doWhile first tail =>
    rintro rfl
    obtain ⟨keyword, tokens, htokens⟩ := Statement.exists_tokens hfits.1 (by decide)
    simp only [construct, atLevel, htokens] at h
    obtain ⟨_, _, -, hdo⟩ := outcome_bind_eq_ok.mp h
    unfold doWhile at hdo
    split at hdo
    · obtain ⟨_, _, -, hdo⟩ := outcome_bind_eq_ok.mp hdo
      obtain ⟨_, _, -, hdo⟩ := outcome_bind_eq_ok.mp hdo
      cases hdo
    · cases hdo
  | single st =>
    intro hkind
    obtain ⟨keyword, tokens, htokens⟩ := Statement.exists_tokens hkind (by decide)
    simp only [construct, atLevel, htokens] at h
    obtain ⟨_, _, -, helse⟩ := outcome_bind_eq_ok.mp h
    rw [hkind] at helse
    cases helse

/-- Constructs that compile at the top level are whole. -/
theorem topConstructs_whole {cs : List Construct} (hfits : ∀ c ∈ cs, c.Fits)
    (h : (topConstructs inner importer out cs).outcome s = (.ok out', t)) : ∀ c ∈ cs, c.Whole := by
  induction cs generalizing out s with
  | nil => simp
  | cons c rest ih =>
    obtain ⟨hc, hrest⟩ := List.forall_mem_cons.mp hfits
    rw [List.forall_mem_cons]
    rcases himport : c.import? with _ | ⟨keyword, tokens⟩
    · obtain ⟨commands, s₁, hconstruct, hrun⟩ := (topConstructs_other_eq_ok himport).mp h
      exact ⟨whole_of_construct hc hconstruct, ih hrest hrun⟩
    · obtain ⟨target, s₁, -, -, hrun⟩ := (topConstructs_import_eq_ok himport).mp h
      obtain ⟨rfl, hkind⟩ := Construct.exists_of_import? himport
      refine ⟨?_, ih hrest hrun⟩
      show Statement.kind _ ≠ .elseBranch
      rw [hkind]
      decide

/-! ### Sources -/

/-- The commands of the top level go to the load function at its end. -/
theorem topLevel_eq_ok {text : String} :
    (topLevel importer text).outcome s = (.ok (), t) ↔
      ∃ r out s₁, Packwright.tokenize .required Position.start text = .ok r ∧
        (topConstructs (block (maxNesting text)) importer [] (constructs r.statements)).outcome
          { s with warnings := s.warnings ++ r.warnings } = (.ok out, s₁) ∧
        t = { s₁ with pack := s₁.pack.extendLoad out } := by
  unfold topLevel
  rw [outcome_bind_eq_ok]
  simp only [tokenize_outcome]
  constructor
  · rintro ⟨statements, s₀, hread, hrun⟩
    split at hread
    · next r hr =>
      obtain ⟨hstatements, rfl⟩ := Prod.mk.inj hread
      obtain rfl := Except.ok.inj hstatements
      obtain ⟨out, s₁, hrun, hload⟩ := outcome_bind_eq_ok.mp hrun
      exact ⟨r, out, s₁, hr, hrun, (Prod.mk.inj hload).2.symm⟩
    · cases (Prod.mk.inj hread).1
  · rintro ⟨r, out, s₁, hread, hrun, rfl⟩
    rw [hread]
    exact ⟨_, _, rfl, outcome_bind_eq_ok.mpr ⟨out, s₁, hrun, rfl⟩⟩

/-- What a source that compiles is made of. -/
theorem exists_of_source {name text : String}
    (h : (source importer name text).outcome s = (.ok (), t)) :
    ∃ r out log warnings later s₁, Packwright.tokenize .required Position.start text = .ok r ∧
      (topConstructs (block (maxNesting text)) importer [] (constructs r.statements)).outcome
        { s with log, warnings } = (.ok out, s₁) ∧
      t = { s₁ with pack := s₁.pack.extendLoad out, warnings := later } := by
  obtain ⟨log, later, hvalue, hsession⟩ := source_outcome importer name text s
  rw [h] at hvalue hsession
  rcases htop : (topLevel importer text).outcome { s with log } with ⟨e | _, s₁⟩
  · rw [htop] at hvalue
    cases hvalue
  · obtain ⟨r, out, s₂, hread, hrun, rfl⟩ := topLevel_eq_ok.mp htop
    rw [htop] at hsession
    exact ⟨r, out, log, _, later, s₂, hread, hrun, hsession⟩

/-- A source compiles if its top level does, whatever messages there are. -/
theorem source_ok (name : String) {text : String} {r : Reading} {P : List Command → Session → Prop}
    (hread : Packwright.tokenize .required Position.start text = .ok r)
    (h : ∀ log warnings, ∃ out s₁,
      (topConstructs (block (maxNesting text)) importer [] (constructs r.statements)).outcome
        { s with log, warnings } = (.ok out, s₁) ∧ P out s₁) :
    ∃ out s₁ later, (source importer name text).outcome s =
      (.ok (), { s₁ with pack := s₁.pack.extendLoad out, warnings := later }) ∧ P out s₁ := by
  obtain ⟨log, later, hvalue, hsession⟩ := source_outcome importer name text s
  obtain ⟨out, s₁, hrun, hP⟩ := h log (s.warnings ++ r.warnings)
  have htop : (topLevel importer text).outcome { s with log } =
      (.ok (), { s₁ with pack := s₁.pack.extendLoad out }) :=
    topLevel_eq_ok.mpr ⟨r, out, s₁, hread, hrun, rfl⟩
  rw [htop] at hvalue hsession
  exact ⟨out, s₁, later, Prod.ext hvalue hsession, hP⟩

/-- How a step of a session succeeds. -/
theorem step_eq_ok {m : Compile Unit} :
    (step m).outcome s = (.ok (), t) ↔
      ∃ s₁, validateSpace s.settings.space = .ok () ∧ m.outcome s = (.ok (), s₁) ∧
        t = flushWarnings s₁ := by
  rw [step_outcome]
  cases validateSpace s.settings.space with
  | error f => simp
  | ok u =>
    obtain ⟨value, s₁⟩ := m.outcome s
    simp only [Prod.mk.injEq, true_and, @eq_comm _ t]
    constructor
    · rintro ⟨rfl, hs₁⟩
      exact ⟨s₁, ⟨rfl, rfl⟩, hs₁⟩
    · rintro ⟨_, ⟨rfl, rfl⟩, hs₁⟩
      exact ⟨rfl, hs₁⟩

end Compile

end Packwright
