import Packwright.Session.Source

/-!
# What steps of a compilation do

A step either succeeds or fails, and changes the session in both cases. A step meets a pair of
conditions when every success satisfies the first and every failure leaves a session that satisfies
the second.

Sources, imports and steps of a session are made of a few parts. For each of them it is said what becomes
of a session, apart from messages.

## Main definitions

- `Compile.outcome` — the result of a step and the session after it
- `Compile.Meets` — what holds after a success and after a failure

## Main results

- `Compile.Meets.bind` — one step after another
- `Compile.meets_ofExcept`, `Compile.meets_inScope` — the steps that others are made of
- `Compile.outcome_bind_eq_ok` — two steps succeed one after the other
- `Compile.source_outcome`, `Compile.step_outcome` — sources and steps of a session
- `Compile.importWith_begun`, `Compile.importWith_new` — imports
-/

namespace Packwright

/-! ### What a step meets -/

namespace Compile

variable {α β : Type}

/-- The result of a step and the session after it. -/
def outcome (m : Compile α) (s : Session) : Except Failure α × Session := m.run.run s

/-- After a success `Q` holds of the result and the session, after a failure `E` of the session. -/
def Meets (m : Compile α) (s : Session) (Q : α → Session → Prop) (E : Session → Prop) : Prop :=
  match m.outcome s with
  | (.ok a, s') => Q a s'
  | (.error _, s') => E s'

variable {m : Compile α} {s : Session} {Q Q' : α → Session → Prop} {E E' : Session → Prop}

theorem meets_iff : m.Meets s Q E ↔
    (∀ a s', m.outcome s = (.ok a, s') → Q a s') ∧
      ∀ e s', m.outcome s = (.error e, s') → E s' := by
  unfold Meets
  obtain ⟨result, s'⟩ := m.outcome s
  cases result <;> simp

theorem Meets.of_ok (h : m.Meets s Q E) {a : α} {s' : Session}
    (hrun : m.outcome s = (.ok a, s')) : Q a s' :=
  (meets_iff.mp h).1 a s' hrun

theorem Meets.mono (h : m.Meets s Q E) (hQ : ∀ a s', Q a s' → Q' a s')
    (hE : ∀ s', E s' → E' s') : m.Meets s Q' E' := by
  rw [meets_iff] at h ⊢
  exact ⟨fun a s' hrun => hQ a s' (h.1 a s' hrun), fun e s' hrun => hE s' (h.2 e s' hrun)⟩

/-- What holds after a success may tell of what it was. -/
theorem Meets.with_outcome (h : m.Meets s Q E) :
    m.Meets s (fun a s' => m.outcome s = (.ok a, s') ∧ Q a s') E := by
  rw [meets_iff] at h ⊢
  exact ⟨fun a s' hrun => ⟨hrun, h.1 a s' hrun⟩, h.2⟩

theorem Meets.and (h : m.Meets s Q E) (h' : m.Meets s Q' E') :
    m.Meets s (fun a s' => Q a s' ∧ Q' a s') E := by
  rw [meets_iff] at h h' ⊢
  exact ⟨fun a s' hrun => ⟨h.1 a s' hrun, h'.1 a s' hrun⟩, h.2⟩

@[simp] theorem meets_pure {a : α} : (pure a : Compile α).Meets s Q E ↔ Q a s := Iff.rfl

@[simp] theorem meets_throw {e : Failure} : (throw e : Compile α).Meets s Q E ↔ E s := Iff.rfl

@[simp] theorem meets_fail {f : Fault} : (fail f : Compile α).Meets s Q E ↔ E s := Iff.rfl

@[simp] theorem meets_failAt {t : Token} {cause : Cause} :
    (failAt t cause : Compile α).Meets s Q E ↔ E s := Iff.rfl

@[simp] theorem meets_get {Q : Session → Session → Prop} :
    (get : Compile Session).Meets s Q E ↔ Q s s := Iff.rfl

@[simp] theorem meets_set {s' : Session} {Q : PUnit → Session → Prop} :
    (set s' : Compile PUnit).Meets s Q E ↔ Q ⟨⟩ s' := Iff.rfl

@[simp] theorem meets_modify {f : Session → Session} {Q : PUnit → Session → Prop} :
    (modify f : Compile PUnit).Meets s Q E ↔ Q ⟨⟩ (f s) := Iff.rfl

theorem outcome_bind (f : α → Compile β) :
    (m >>= f).outcome s =
      match m.outcome s with
      | (.ok a, s') => (f a).outcome s'
      | (.error e, s') => (.error e, s') := by
  show ((m >>= f).run.run s : Except Failure β × Session) = _
  unfold outcome
  simp only [ExceptT.run_bind, StateT.run_bind]
  generalize m.run.run s = r
  obtain ⟨result, s'⟩ := r
  cases result <;> rfl

@[simp] theorem meets_bind {f : α → Compile β} {R : β → Session → Prop} :
    (m >>= f).Meets s R E ↔ m.Meets s (fun a s' => (f a).Meets s' R E) E := by
  unfold Meets
  rw [outcome_bind]
  obtain ⟨result, s'⟩ := m.outcome s
  cases result <;> rfl

/-- One step after another. -/
theorem Meets.bind {f : α → Compile β} {R : β → Session → Prop} (h : m.Meets s Q E)
    (hE : ∀ s', E s' → E' s') (hf : ∀ a s', Q a s' → (f a).Meets s' R E') :
    (m >>= f).Meets s R E' := by
  rw [meets_bind]
  exact h.mono hf hE

/-- A step inside a scope of its own does what it does elsewhere, and the scope is closed again. -/
theorem outcome_inScope (m : Compile α) (s : Session) :
    (inScope m).outcome s = ((m.outcome { s with scope := s.scope.push }).1,
      { (m.outcome { s with scope := s.scope.push }).2 with
        scope := (m.outcome { s with scope := s.scope.push }).2.scope.pop }) :=
  rfl

theorem meets_inScope : (inScope m).Meets s Q E ↔
    m.Meets { s with scope := s.scope.push }
      (fun a s' => Q a { s' with scope := s'.scope.pop })
      (fun s' => E { s' with scope := s'.scope.pop }) := by
  unfold Meets
  rw [outcome_inScope]
  obtain ⟨result, s'⟩ := m.outcome { s with scope := s.scope.push }
  cases result <;> rfl

end Compile

/-! ### Whole texts and files -/

/-- Only an import statement is an import. -/
theorem Construct.import?_eq_none {c : Construct} (h : ∀ st ∈ c.statements, st.kind ≠ .importFile) :
    c.import? = none := by
  cases c with
  | chain | doWhile => rfl
  | single st =>
    have hst := h st (List.mem_singleton_self st)
    simp only [Construct.import?]
    split
    · next hkind _ => exact absurd hkind hst
    · rfl

namespace Compile

variable {α β : Type} {m : Compile α} {s t : Session}

theorem outcome_bind_eq_ok {f : α → Compile β} {b : β} :
    (m >>= f).outcome s = (.ok b, t) ↔
      ∃ a s₁, m.outcome s = (.ok a, s₁) ∧ (f a).outcome s₁ = (.ok b, t) := by
  rw [outcome_bind]
  rcases hm : m.outcome s with ⟨e | a, s₁⟩
  · simp
  · constructor
    · exact fun hrun => ⟨a, s₁, rfl, hrun⟩
    · rintro ⟨a', s₁', ⟨⟩, hrun⟩
      exact hrun

theorem outcome_get_bind (f : Session → Compile β) : (get >>= f).outcome s = (f s).outcome s := rfl

theorem outcome_modifyPack_bind (f : Pack → Pack) (g : Unit → Compile β) :
    (modifyPack f >>= g).outcome s = (g ()).outcome { s with pack := f s.pack } :=
  rfl

theorem outcome_ofExcept_eq_ok {x : Except Fault α} {a : α} :
    (ofExcept x).outcome s = (.ok a, t) ↔ x = .ok a ∧ t = s := by
  cases x with
  | ok b =>
    show ((Except.ok b, s) : Except Failure α × Session) = (.ok a, t) ↔ _
    rw [Prod.mk.injEq, Except.ok.injEq, Except.ok.injEq, @eq_comm _ s t]
  | error f =>
    show ((Except.error (.fault f), s) : Except Failure α × Session) = (.ok a, t) ↔ _
    simp

/-- The statements of a text are read; only warnings are recorded. -/
theorem tokenize_outcome (terminator : Terminator) (start : Position) (text : String)
    (s : Session) :
    (tokenize terminator start text).outcome s =
      match Packwright.tokenize terminator start text with
      | .ok r => (.ok r.statements, { s with warnings := s.warnings ++ r.warnings })
      | .error f => (.error (.fault f), s) := by
  unfold tokenize
  rw [outcome_bind]
  cases Packwright.tokenize terminator start text <;> rfl

/-- A source does what its text does, in a session with one more message, and names the file in
warnings and faults. -/
theorem source_outcome (importer : Importer) (name text : String) (s : Session) :
    ∃ log : List LogRecord, ∃ warnings : List Warning,
      ((source importer name text).outcome s).1 =
        ((topLevel importer text).outcome { s with log }).1.mapError (inFile name text) ∧
      ((source importer name text).outcome s).2 =
        { ((topLevel importer text).outcome { s with log }).2 with warnings } :=
  ⟨_, _, rfl, rfl⟩

section

variable {files : File.Tree} {path : File.Path} {place : File.Place} {text : String}

theorem outcome_importWith (hread : files.read path = .ok (place, text))
    (compile : String → String → Compile Unit) (position : Option Position) (s : Session) :
    (importWith files compile path position).outcome s =
      outcome (if s.imported.contains place then
          debug ("'" ++ path.text ++ "' already compiled, skipping")
        else do
          set { s with imported := s.imported ++ [place] }
          compile (s.settings.displayName path) text) s := by
  unfold importWith
  rw [hread]
  rfl

/-- A file that was begun before is left out. -/
theorem importWith_begun (hread : files.read path = .ok (place, text)) (hbegun : place ∈ s.imported)
    (compile : String → String → Compile Unit) (position : Option Position) :
    ∃ log : List LogRecord,
      (importWith files compile path position).outcome s = (.ok (), { s with log }) := by
  rw [outcome_importWith hread, if_pos (List.contains_iff_mem.mpr hbegun)]
  exact ⟨_, rfl⟩

/-- Any other file is begun and compiled. -/
theorem importWith_new (hread : files.read path = .ok (place, text)) (hnew : place ∉ s.imported)
    (compile : String → String → Compile Unit) (position : Option Position) :
    (importWith files compile path position).outcome s =
      (compile (s.settings.displayName path) text).outcome
        { s with imported := s.imported ++ [place] } := by
  rw [outcome_importWith hread, if_neg (by simpa using hnew)]
  rfl

theorem importWith_unreadable {problem : File.Problem} (hread : files.read path = .error problem)
    (compile : String → String → Compile Unit) (position : Option Position) (s : Session) :
    (importWith files compile path position).outcome s =
      (.error (.fault ⟨.unreadable path.text problem, position.map Position.location⟩), s) := by
  unfold importWith
  rw [hread]
  rfl

end

/-- A step of a session does nothing in a namespace that is not allowed; else it does what it is
made of, and logs the warnings. -/
theorem step_outcome (m : Compile Unit) (s : Session) :
    (step m).outcome s =
      match validateSpace s.settings.space with
      | .ok _ => ((m.outcome s).1, flushWarnings (m.outcome s).2)
      | .error f => (.error (.fault f), s) := by
  unfold step
  show outcome (ofExcept (validateSpace s.settings.space) >>= fun _ => _) s = _
  rw [outcome_bind]
  cases validateSpace s.settings.space <;> rfl

theorem step_allowed {s : Session} (hspace : validateSpace s.settings.space = .ok ())
    (m : Compile Unit) :
    (step m).outcome s = ((m.outcome s).1, flushWarnings (m.outcome s).2) := by
  rw [step_outcome, hspace]

theorem outcome_compileEntry (files : File.Tree) (s : Session) :
    (Session.compileEntry files).outcome s =
      (Session.compileFile files s.settings.entryPath).outcome s := by
  unfold Session.compileEntry
  rw [outcome_get_bind]

end Compile

end Packwright
