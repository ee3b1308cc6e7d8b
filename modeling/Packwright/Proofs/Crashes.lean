import Packwright.Proofs.FaultPlaces
import Packwright.Proofs.Session.Mirrors
import Packwright.Proofs.Words

/-!
# Texts that stop the program

The search for a comparison sign stops the program at a character outside ASCII that it looks at. A
counter of 32 bits stops it when all numbers of a family of generated functions, or of the flags, are
used up. Nothing else does, so a task that stops the program compiles a text that is not all ASCII, its
own text or that of a file that it begins, or it leaves a counter that is spent. All other cuts succeed
for any text, and all positions fit in their words for any text that is short enough to be counted.

## Main definitions

- `BeginsForeign` — a file is begun whose text is not all ASCII
- `StopsAt` — what stops the program in the middle of a task
- `CutsHold` — no other cut fails, whatever is read
- `TextHolds` — nothing that is cut or counted in a text is out of range
- `Task.Holds` — a task gets past all of its checks

## Main results

- `Task.crash` — a task that stops the program compiles a text that is not all ASCII, or has used up
  the numbers of a family
- `crashes_of_session` — what stops the program and what does not
-/

namespace Packwright

/-- Between two sessions a file is begun whose text is not all ASCII. -/
def BeginsForeign (files : File.Tree) (s s' : Session) : Prop :=
  ∃ (path : File.Path) (place : File.Place) (text : String), files.read path = .ok (place, text) ∧
    place ∈ s'.imported ∧ place ∉ s.imported ∧ ¬Text.IsAscii text.toList

theorem BeginsForeign.mono {files : File.Tree} {s₀ s s' s₁ : Session} (h : BeginsForeign files s s')
    (hbefore : ∀ place ∈ s₀.imported, place ∈ s.imported)
    (hbehind : ∀ place ∈ s'.imported, place ∈ s₁.imported) : BeginsForeign files s₀ s₁ := by
  obtain ⟨path, place, text, hread, hbegun, hnew, hforeign⟩ := h
  exact ⟨path, place, text, hread, hbehind place hbegun, fun hold => hnew (hbefore place hold),
    hforeign⟩

/-- Counters do not go back. -/
theorem Session.Spent.mono {s s' : Session} (h : s.Spent) (hpack : s.pack.Precedes s'.pack) :
    s'.Spent := by
  obtain ⟨f, hspent⟩ := h
  refine ⟨f, decide_eq_true ?_⟩
  have hle : UInt32.size ≤ s.pack.generated.peekId f.name + 1 := of_decide_eq_true hspent
  exact hle.trans (Nat.succ_le_succ (hpack.counters f.name))

/-- Between two sessions a file is begun whose text is not all ASCII, or the numbers of a family are
used up. -/
def StopsAt (files : File.Tree) (s s' : Session) : Prop := BeginsForeign files s s' ∨ s'.Spent

theorem StopsAt.mono {files : File.Tree} {s₀ s s' s₁ : Session} (h : StopsAt files s s')
    (hbefore : ∀ place ∈ s₀.imported, place ∈ s.imported)
    (hbehind : ∀ place ∈ s'.imported, place ∈ s₁.imported) (hpack : s'.pack.Precedes s₁.pack) :
    StopsAt files s₀ s₁ :=
  h.imp (·.mono hbefore hbehind) (·.mono hpack)

namespace Compile

variable {files : File.Tree} {s : Session} {depth : Nat} {path : File.Path}
  {position : Option Position} {name text : String}

/-- A source that stops the program is not all ASCII, or begins a file that is not, or has used up the
numbers of a family. -/
theorem source_crash
    (himporter : ∀ path position s,
      ((importWithin files depth path position).outcome s).1 = .error .crash →
        StopsAt files s ((importWithin files depth path position).outcome s).2)
    (h : ((source (importWithin files depth) name text).outcome s).1 = .error .crash) :
    ¬Text.IsAscii text.toList ∨
      StopsAt files s ((source (importWithin files depth) name text).outcome s).2 := by
  obtain ⟨e₀, hnamed, hwhere⟩ := source_fails (Prod.ext h rfl)
  obtain rfl : e₀ = .crash := by cases e₀ <;> cases hnamed; rfl
  rcases hwhere with (hforeign | ⟨-, hspent⟩) | ⟨path, p, s', hreaches, -, hcrash⟩
  · exact .inl hforeign
  · exact .inr (.inr hspent)
  · have htracked := importWithin_tracked Session.tracks_imported files depth
    have hpacks := importWithin_tracked Session.tracks_precedes files depth
    exact .inr ((himporter path (some p) s' hcrash).mono
      (hreaches.before Session.tracks_imported htracked)
      (hreaches.behind Session.tracks_imported htracked)
      (hreaches.behind Session.tracks_precedes hpacks))

/-- Only what an import compiles can stop the program. -/
theorem importWith_crash {compile : String → String → Compile Unit}
    (h : ((importWith files compile path position).outcome s).1 = .error .crash) :
    ∃ place text, files.read path = .ok (place, text) ∧ place ∉ s.imported ∧
      (importWith files compile path position).outcome s =
        (compile (s.settings.displayName path) text).outcome
          { s with imported := s.imported ++ [place] } := by
  rcases hread : files.read path with problem | ⟨place, text⟩
  · rw [importWith_unreadable hread] at h
    cases h
  by_cases hbegun : place ∈ s.imported
  · obtain ⟨log, hrun⟩ := importWith_begun hread hbegun compile position
    rw [hrun] at h
    cases h
  · exact ⟨place, text, rfl, hbegun, importWith_new hread hbegun compile position⟩

/-- An import that stops the program begins a file that is not all ASCII, or has used up the numbers
of a family. -/
theorem importWithin_crash
    (h : ((importWithin files depth path position).outcome s).1 = .error .crash) :
    StopsAt files s ((importWithin files depth path position).outcome s).2 := by
  induction depth generalizing path position s with
  | zero =>
    -- at the bound nothing is compiled
    obtain ⟨place, text, -, -, hrun⟩ := importWith_crash h
    rw [importWithin, hrun] at h
    cases h
  | succ depth ih =>
    obtain ⟨place, text, hread, hnew, hrun⟩ := importWith_crash h
    rw [importWithin, hrun] at h ⊢
    have hkept : ∀ other ∈ s.imported, other ∈ s.imported ++ [place] :=
      fun _ hother => List.mem_append_left _ hother
    rcases source_crash (fun _ _ _ => ih) h with hforeign | hstops
    · refine .inl ⟨path, place, text, hread, ?_, hnew, hforeign⟩
      exact source_tracked Session.tracks_imported
        (importWithin_tracked Session.tracks_imported files depth) _ _ _ place (by simp)
    · exact hstops.mono hkept (fun _ hplace => hplace) (.refl _)

end Compile

/-- A task that stops the program compiles a text that is not all ASCII, or has used up the numbers of
a family. -/
theorem Task.crash {t : Task} {s : Session} (h : (t.compile.outcome s).1 = .error .crash) :
    (∃ text, t.Compiles s (s.next t) text ∧ ¬Text.IsAscii text.toList) ∨ (s.next t).Spent := by
  have hstep : ∀ {m : Compile Unit}, ((Compile.step m).outcome s).1 = .error .crash →
      (m.outcome s).1 = .error .crash ∧
        ((Compile.step m).outcome s).2.imported = (m.outcome s).2.imported ∧
        ((Compile.step m).outcome s).2.pack = (m.outcome s).2.pack := by
    intro m hm
    rw [Compile.step_outcome] at hm ⊢
    split at hm
    · exact ⟨hm, rfl, rfl⟩
    · cases hm
  -- what is begun in the task is begun between its sessions, and what is spent stays so
  have hstops : ∀ {s' : Session}, StopsAt t.files s s' → (s.next t).imported = s'.imported →
      (s.next t).pack = s'.pack →
      (∃ text, t.Compiles s (s.next t) text ∧ ¬Text.IsAscii text.toList) ∨ (s.next t).Spent := by
    rintro s' (⟨path, place, text, hread, hbegun, hnew, hforeign⟩ | hspent) hsame hpack
    · exact .inl ⟨text, .inr ⟨path, place, hread, hsame ▸ hbegun, hnew⟩, hforeign⟩
    · exact .inr (hspent.mono (hpack ▸ .refl _))
  cases t with
  | text files name source =>
    obtain ⟨hcrash, hafter, hpack⟩ := hstep h
    rcases Compile.source_crash (fun _ _ _ => Compile.importWithin_crash) hcrash with
      hforeign | hinside
    · exact .inl ⟨source, .inl rfl, hforeign⟩
    · exact hstops hinside hafter hpack
  | file files path =>
    obtain ⟨hcrash, hafter, hpack⟩ := hstep h
    exact hstops (Compile.importWithin_crash hcrash) hafter hpack
  | entry files =>
    have hentry : (Task.entry files).compile.outcome s =
        (Session.compileFile files s.settings.entryPath).outcome s :=
      Compile.outcome_compileEntry files s
    rw [hentry] at h
    obtain ⟨hcrash, hafter, hpack⟩ := hstep h
    exact hstops (Compile.importWithin_crash hcrash) ((congrArg (·.2.imported) hentry).trans hafter)
      ((congrArg (·.2.pack) hentry).trans hpack)

/-! ### Checks -/

/-- Nothing that is cut or counted in a text is out of range. -/
structure TextHolds (source : String) : Prop where
  /-- The lines and columns of a text. -/
  position : Position.start.walkChecked source.toList = .ok (Position.start.walk source.toList)
  /-- The lines and columns inside a group. -/
  inside (t : Token) (ht : ReadToken .start source t) (inner : String) (h : t.inner? = some inner) :
    t.innerStart.walkChecked inner.toList = .ok (t.innerStart.walk inner.toList)
  /-- The columns inside and right behind a token. -/
  column (t : Token) (ht : ReadToken .start source t) (n : Nat) (h : n ≤ t.length) :
    t.position.rightChecked n = .ok (t.position.right n)
  /-- The line and column of a report that lies in the JSON text of a group. -/
  mistake (t : Token) (ht : ReadToken .start source t) (h : t.isGroup .curly = true)
    (r : Json.Report) (hlies : r.LiesIn t.text) : jsonPositionChecked t r = .ok (jsonPosition t r)
  /-- The quotes of a string literal. -/
  quotes (t : Token) (ht : ReadToken .start source t) : t.Quotes
  /-- The first tokens of the statements of a text. -/
  first (terminator : Terminator) (r : Reading) (h : tokenize terminator .start source = .ok r) :
    ∀ st ∈ r.statements, st.tokens ≠ []
  /-- The first tokens of the statements inside a group. -/
  firstInside (t : Token) (ht : ReadToken .start source t) (terminator : Terminator) (r : Reading)
    (h : t.tokenizeInner terminator = .ok r) : ∀ st ∈ r.statements, st.tokens ≠ []

/-- A task gets past all of its checks. -/
structure Task.Holds (t : Task) (s : Session) : Prop where
  /-- The program goes on, as long as every family has numbers left. -/
  outcome : (∀ f : Feature, (s.next t).pack.generated.peekId f.name + 1 < UInt32.size) →
    (t.compile.outcome s).1 ≠ .error .crash
  /-- All that is cut or counted in the texts of the task is in range. -/
  texts : ∀ text, t.Compiles s (s.next t) text → TextHolds text
  /-- The warnings of the task are those behind the earlier ones. -/
  warnings : s.warnings.length ≤ (s.next t).warnings.length
  /-- The warnings that are not in the log are those behind the logged ones. -/
  logged : (s.next t).logged ≤ (s.next t).warnings.length

end Packwright
