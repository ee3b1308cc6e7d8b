import Packwright.Proofs.Session.ImportCalls

/-!
# Files that are compiled to their end

A session compiles each file at most once: it puts a file on its list before the file is compiled and
never takes it off. Where a task fails inside a file, the file stays on the list although it was not
compiled to its end, and from then on each request for it succeeds and does nothing. A request that
succeeds therefore means that the file is in the pack, exactly if no earlier task has abandoned it in
this way.

## Main definitions

- `Task.Calls` — the calls of imports in a task
- `Task.Completes`, `Session.Completed` — a file is compiled to its end in a task, or in one of several
- `Task.Abandons`, `Session.Abandoned` — a file is begun in a task that fails, and not compiled to its end

## Main results

- `Task.completes_of_ok` — a task that succeeds completes every file that it begins
- `Session.completed_or_abandoned`, `Session.not_completed_of_abandoned` — one of the two holds of each
  file that was begun
- `Session.Completed.in_pack` — all that comes of a completed file is in the pack
- `success_means_completed_iff` — when a success means that the file was compiled
-/

namespace Packwright

theorem Session.tracks_imported :
    Session.Tracks fun s s' => ∀ place ∈ s.imported, place ∈ s'.imported where
  trans h h' := fun place hplace => h' place (h place hplace)
  builds h := fun _ hplace => h.imported ▸ hplace
  load _ _ := fun _ hplace => hplace
  begun _ _ := fun _ hplace => List.mem_append_left _ hplace

/-- A file that is begun stays on the list while it is compiled. -/
theorem Compile.mem_imported_source (files : File.Tree) (depth : Nat) (name text : String)
    (s : Session) (place : File.Place) :
    place ∈ ((source (importWithin files depth) name text).outcome
      { s with imported := s.imported ++ [place] }).2.imported := by
  have htracks := Session.tracks_imported
  refine source_tracked htracks (importWithin_tracked htracks files depth) name text _ place ?_
  exact List.mem_append_right _ (List.mem_singleton_self place)

/-! ### Calls in a task -/

namespace Task

/-- The calls that a task makes itself: that of its file, or those of the imports in its text. -/
inductive Begins : Task → Session → ImportCall → Prop
  | text {files : File.Tree} {name source : String} {s s' : Session} {path : File.Path}
    {position : Option Position}
    (h : Compile.SourceReaches (Compile.importFile files) name source s path position s') :
    Begins (.text files name source) s ⟨files.nodes.length + 1, path, position, s'⟩
  | file (files : File.Tree) (path : File.Path) (s : Session) :
    Begins (.file files path) s ⟨files.nodes.length + 1, path, none, s⟩
  | entry (files : File.Tree) (s : Session) :
    Begins (.entry files) s ⟨files.nodes.length + 1, s.settings.entryPath, none, s⟩

/-- The import is called in the task, inside of the files `around`. -/
def Calls (t : Task) (s : Session) (around : List File.Place) (c : ImportCall) : Prop :=
  validateSpace s.settings.space = .ok () ∧ ∃ first, t.Begins s first ∧ first.Leads t.files around c

/-- The file at the place is begun in the task and compiled to its end. -/
def Completes (t : Task) (s : Session) (place : File.Place) : Prop :=
  ∃ around c, t.Calls s around c ∧ c.Completes t.files place

/-- The file at the place is begun in the task, which fails before the file is compiled to its end. -/
def Abandons (t : Task) (s : Session) (place : File.Place) : Prop :=
  place ∉ s.imported ∧ place ∈ (s.next t).imported ∧ (t.compile.outcome s).1 ≠ .ok () ∧
    ¬t.Completes s place

variable {t : Task} {s : Session} {first c : ImportCall} {around : List File.Place}
  {place : File.Place} {R : Session → Session → Prop}

theorem Begins.before (hR : Session.Tracks R) (h : t.Begins s first) : R s first.session := by
  cases h with
  | text h => exact h.before hR (Compile.importWithin_tracked hR _ _)
  | file | entry => exact hR.refl s

theorem Begins.behind (hR : Session.Tracks R) (hspace : validateSpace s.settings.space = .ok ())
    (h : t.Begins s first) : R (first.outcome t.files).2 (s.next t) := by
  have hflush : ∀ s' : Session, R s' (Compile.flushWarnings s') :=
    fun s' => hR.builds (.of_pack rfl rfl rfl)
  cases h with
  | @text files name source _ _ _ _ h =>
    show R _ ((Session.compileText files name source).outcome s).2
    rw [Session.compileText, Compile.step_allowed hspace]
    have hsource : R _ ((Compile.source (Compile.importFile files) name source).outcome s).2 :=
      h.behind hR (Compile.importWithin_tracked hR _ _)
    exact hR.trans hsource (hflush _)
  | file files path =>
    show R ((Compile.importFile files path none).outcome s).2
      ((Session.compileFile files path).outcome s).2
    rw [Session.compileFile, Compile.step_allowed hspace]
    exact hflush _
  | entry files =>
    show R ((Compile.importFile files s.settings.entryPath none).outcome s).2
      ((Session.compileEntry files).outcome s).2
    rw [Compile.outcome_compileEntry, Session.compileFile, Compile.step_allowed hspace]
    exact hflush _

theorem Calls.before (hR : Session.Tracks R) (h : t.Calls s around c) : R s c.session := by
  obtain ⟨-, first, hbegins, hleads⟩ := h
  exact hR.trans (hbegins.before hR) (hleads.before hR)

theorem Calls.behind (hR : Session.Tracks R) (h : t.Calls s around c) :
    R (c.outcome t.files).2 (s.next t) := by
  obtain ⟨hspace, first, hbegins, hleads⟩ := h
  exact hR.trans (hleads.behind hR) (hbegins.behind hR hspace)

/-- A task that succeeds completes every file that it begins. -/
theorem completes_of_ok (h : (t.compile.outcome s).1 = .ok ())
    (hbegun : place ∈ (s.next t).imported) (hnew : place ∉ s.imported) : t.Completes s place := by
  have hrun := Session.outcome_eq_next h
  cases t with
  | text files name source =>
    obtain ⟨s₁, hspace, hsource, hnext⟩ := Compile.step_eq_ok.mp hrun
    rw [hnext] at hbegun
    obtain ⟨path, position, s₂, s₃, hreaches, hok, hs₂, hs₃⟩ :=
      Compile.exists_sourceReaches hsource hbegun hnew
    obtain ⟨around, c, hleads, hcompletes⟩ :=
      ImportCall.completes_of_ok (c := ⟨files.nodes.length + 1, path, position, s₂⟩) hok hs₃ hs₂
    exact ⟨around, c, ⟨hspace, _, .text hreaches, hleads⟩, hcompletes⟩
  | file files path =>
    obtain ⟨s₁, hspace, hok, hnext⟩ := Compile.step_eq_ok.mp hrun
    rw [hnext] at hbegun
    obtain ⟨around, c, hleads, hcompletes⟩ :=
      ImportCall.completes_of_ok (c := ⟨files.nodes.length + 1, path, none, s⟩) hok hbegun hnew
    exact ⟨around, c, ⟨hspace, _, .file files path s, hleads⟩, hcompletes⟩
  | entry files =>
    have hrun := (Compile.outcome_compileEntry files s).symm.trans hrun
    obtain ⟨s₁, hspace, hok, hnext⟩ := Compile.step_eq_ok.mp hrun
    rw [hnext] at hbegun
    obtain ⟨around, c, hleads, hcompletes⟩ :=
      ImportCall.completes_of_ok (c := ⟨files.nodes.length + 1, s.settings.entryPath, none, s⟩) hok
        hbegun hnew
    exact ⟨around, c, ⟨hspace, _, .entry files s, hleads⟩, hcompletes⟩

/-- When an import is called, each file begun in the task is one around it or complete. -/
theorem Calls.completes_of_begun (h : t.Calls s around c) (hbegun : place ∈ c.session.imported)
    (hnew : place ∉ s.imported) : place ∈ around ∨ t.Completes s place := by
  obtain ⟨hspace, first, hbegins, hleads⟩ := h
  by_cases hfirst : place ∈ first.session.imported
  · -- only a text can have begun it, by an earlier import that has succeeded
    cases hbegins with
    | file | entry => exact absurd hfirst hnew
    | @text files name source _ _ _ _ h =>
      obtain ⟨r, hr, ⟨hpasses, hc, htarget⟩⟩ := h
      obtain ⟨path, position, s₁, s₂, hreaches, hok, hs₁, hs₂⟩ :=
        hpasses.exists_reaches hfirst hnew
      obtain ⟨around', c', hleads', hcompletes⟩ :=
        ImportCall.completes_of_ok (c := ⟨files.nodes.length + 1, path, position, s₁⟩) hok hs₂ hs₁
      exact .inr ⟨_, c', ⟨hspace, _, .text ⟨r, hr, hreaches⟩, hleads'⟩, hcompletes⟩
  · rcases hleads.completes_of_begun hbegun hfirst with haround | ⟨around', c', hleads', hcompletes⟩
    · exact .inl haround
    · exact .inr ⟨around', c', ⟨hspace, first, hbegins, hleads'⟩, hcompletes⟩

/-- A file that a task completes is begun in it. -/
theorem Completes.begun (h : t.Completes s place) :
    place ∉ s.imported ∧ place ∈ (s.next t).imported := by
  obtain ⟨around, c, hcalls, hcompletes⟩ := h
  have htracks := Session.tracks_imported
  refine ⟨fun hold => hcompletes.2.1 (hcalls.before htracks place hold), ?_⟩
  obtain ⟨depth, text, -, hsource⟩ := hcompletes.exists_source
  have hfile := Compile.mem_imported_source t.files depth
    (c.session.settings.displayName c.path) text c.session place
  rw [hsource] at hfile
  exact hcalls.behind htracks place hfile

/-- What comes of a file that a task completes is in the pack behind the task. -/
theorem Completes.in_pack (h : t.Completes s place) :
    ∃ path text depth name s₁ t₁, t.files.read path = .ok (place, text) ∧
      (Compile.source (Compile.importWithin t.files depth) name text).outcome s₁ = (.ok (), t₁) ∧
      t₁.pack.Precedes (s.next t).pack := by
  obtain ⟨around, c, hcalls, hcompletes⟩ := h
  obtain ⟨depth, text, hread, hsource⟩ := hcompletes.exists_source
  exact ⟨c.path, text, depth, _, _, _, hread, hsource, hcalls.behind Session.tracks_precedes⟩

/-- A task for a file abandons it if it fails after the file is begun. -/
theorem abandons_of_file {files : File.Tree} {path : File.Path} {text : String} {e : Failure}
    (hspace : validateSpace s.settings.space = .ok ())
    (hread : files.read path = .ok (place, text)) (hnew : place ∉ s.imported)
    (hfails : ((Session.compileFile files path).outcome s).1 = .error e) :
    (Task.file files path).Abandons s place := by
  have hrun : (Session.compileFile files path).outcome s =
      (((Compile.importFile files path none).outcome s).1,
        Compile.flushWarnings ((Compile.importFile files path none).outcome s).2) := by
    rw [Session.compileFile, Compile.step_allowed hspace]
  refine ⟨hnew, ?_, fun hok => ?_, ?_⟩
  · show place ∈ ((Session.compileFile files path).outcome s).2.imported
    rw [hrun]
    show place ∈ ((Compile.importFile files path none).outcome s).2.imported
    rw [Compile.importFile, Compile.importWithin, Compile.importWith_new hread hnew]
    exact Compile.mem_imported_source files files.nodes.length _ text s place
  · cases hfails.symm.trans hok
  · rintro ⟨around, c, ⟨-, first, hbegins, hleads⟩, hcompletes⟩
    cases hbegins
    cases hleads with
    | self =>
      rw [hrun] at hfails
      cases hfails.symm.trans hcompletes.2.2
    | @inner _ _ _ _ _ _ s' place' text' _ _ hread' hnew' hreaches hleads =>
      -- inside of the file, it is no longer new
      obtain ⟨rfl, -⟩ := Prod.mk.inj (Except.ok.inj (hread.symm.trans hread'))
      have htracks := Session.tracks_imported
      refine hcompletes.2.1 (hleads.before htracks place (hreaches.before htracks
        (Compile.importWithin_tracked htracks files _) place ?_))
      exact List.mem_append_right _ (List.mem_singleton_self place)

end Task

/-! ### Files in a session -/

namespace Session

/-- One of the tasks satisfies a condition on it and the session in which it begins. -/
def OneOf (s : Session) (P : Task → Session → Prop) : List Task → Prop
  | [] => False
  | t :: rest => P t s ∨ (s.next t).OneOf P rest

/-- The file at the place is compiled to its end in one of the tasks. -/
def Completed (s : Session) (tasks : List Task) (place : File.Place) : Prop :=
  s.OneOf (fun t s => t.Completes s place) tasks

/-- The file at the place is abandoned in one of the tasks. -/
def Abandoned (s : Session) (tasks : List Task) (place : File.Place) : Prop :=
  s.OneOf (fun t s => t.Abandons s place) tasks

variable {s : Session} {tasks : List Task} {place : File.Place} {P : Task → Session → Prop}

theorem oneOf_concat (t : Task) :
    s.OneOf P (tasks ++ [t]) ↔ s.OneOf P tasks ∨ P t (s.after tasks) := by
  induction tasks generalizing s with
  | nil => simp [OneOf, after]
  | cons first rest ih =>
    show P first s ∨ (s.next first).OneOf P (rest ++ [t]) ↔ _
    rw [ih]
    exact or_assoc.symm

/-- A relation that holds over all that a compilation does holds over tasks. -/
theorem tracked_after {R : Session → Session → Prop} (hR : Tracks R) (s : Session)
    (tasks : List Task) : R s (s.after tasks) := by
  induction tasks generalizing s with
  | nil => exact hR.refl s
  | cons t rest ih => exact hR.trans (t.tracked hR s) (ih (s.next t))

theorem tracks_settings : Tracks fun s s' => s'.settings = s.settings where
  trans h h' := h'.trans h
  builds h := h.settings
  load _ _ := rfl
  begun _ _ := rfl

/-- No task changes the settings. -/
theorem after_settings (settings : Settings) (tasks : List Task) :
    ((Session.new settings).after tasks).settings = settings := tracked_after tracks_settings _ tasks

/-- What one of the tasks begins was not begun before, and stays begun. -/
theorem OneOf.begun (hP : ∀ t s, P t s → place ∉ s.imported ∧ place ∈ (s.next t).imported)
    (h : s.OneOf P tasks) : place ∉ s.imported ∧ place ∈ (s.after tasks).imported := by
  induction tasks generalizing s with
  | nil => exact h.elim
  | cons t rest ih =>
    rcases h with h | h
    · obtain ⟨hnew, hbegun⟩ := hP t s h
      exact ⟨hnew, tracked_after tracks_imported _ rest place hbegun⟩
    · exact ⟨fun hold => (ih h).1 (t.tracked tracks_imported s place hold), (ih h).2⟩

theorem Completed.begun (h : s.Completed tasks place) :
    place ∉ s.imported ∧ place ∈ (s.after tasks).imported :=
  OneOf.begun (fun _ _ h => h.begun) h

theorem Abandoned.begun (h : s.Abandoned tasks place) :
    place ∉ s.imported ∧ place ∈ (s.after tasks).imported :=
  OneOf.begun (fun _ _ h => ⟨h.1, h.2.1⟩) h

/-- Each file that was begun is completed or abandoned. -/
theorem completed_or_abandoned (hnew : place ∉ s.imported)
    (hbegun : place ∈ (s.after tasks).imported) :
    s.Completed tasks place ∨ s.Abandoned tasks place := by
  induction tasks generalizing s with
  | nil => exact absurd hbegun hnew
  | cons t rest ih =>
    by_cases hhere : place ∈ (s.next t).imported
    · by_cases hcompletes : t.Completes s place
      · exact .inl (.inl hcompletes)
      · have hfails : (t.compile.outcome s).1 ≠ .ok () :=
          fun hok => hcompletes (t.completes_of_ok hok hhere hnew)
        exact .inr (.inl ⟨hnew, hhere, hfails, hcompletes⟩)
    · rcases ih hhere hbegun with h | h
      · exact .inl (.inr h)
      · exact .inr (.inr h)

/-- A file that was abandoned is not compiled again. -/
theorem not_completed_of_abandoned (h : s.Abandoned tasks place) : ¬s.Completed tasks place := by
  induction tasks generalizing s with
  | nil => exact h.elim
  | cons t rest ih =>
    rintro (hc | hc)
    · rcases h with ⟨-, -, -, hnot⟩ | h
      · exact hnot hc
      · exact (Abandoned.begun h).1 hc.begun.2
    · rcases h with ⟨-, hbegun, -, -⟩ | h
      · exact (Completed.begun hc).1 hbegun
      · exact ih h hc

/-- What comes of a completed file is in the pack behind the tasks. -/
theorem Completed.in_pack (h : s.Completed tasks place) :
    ∃ t ∈ tasks, ∃ path text depth name s₁ t₁, t.files.read path = .ok (place, text) ∧
      (Compile.source (Compile.importWithin t.files depth) name text).outcome s₁ = (.ok (), t₁) ∧
      t₁.pack.Precedes (s.after tasks).pack := by
  induction tasks generalizing s with
  | nil => exact h.elim
  | cons t rest ih =>
    rcases h with h | h
    · obtain ⟨path, text, depth, name, s₁, t₁, hread, hsource, hpack⟩ := h.in_pack
      exact ⟨t, List.mem_cons_self, path, text, depth, name, s₁, t₁, hread, hsource,
        hpack.trans (tracked_after tracks_precedes (s.next t) rest)⟩
    · obtain ⟨u, hu, hrest⟩ := ih h
      exact ⟨u, List.mem_cons_of_mem t hu, hrest⟩

/-- An import that succeeds in a task behind others finds its file completed, exactly if it was not
abandoned before. -/
theorem completed_iff_of_calls {t : Task} {around : List File.Place} {c : ImportCall} {text : String}
    (hfresh : place ∉ s.imported) (hcalls : t.Calls (s.after tasks) around c)
    (hread : t.files.read c.path = .ok (place, text)) (hok : (c.outcome t.files).1 = .ok ())
    (hdone : place ∉ around ∨ (t.compile.outcome (s.after tasks)).1 = .ok ()) :
    s.Completed (tasks ++ [t]) place ↔ ¬s.Abandoned tasks place := by
  rw [Completed, oneOf_concat]
  by_cases hbefore : place ∈ (s.after tasks).imported
  · -- it was begun by an earlier task
    have hlater : ¬t.Completes (s.after tasks) place := fun h => h.begun.1 hbefore
    constructor
    · rintro (h | h)
      · exact fun habandoned => not_completed_of_abandoned habandoned h
      · exact absurd h hlater
    · exact fun hnot => .inl ((completed_or_abandoned hfresh hbefore).resolve_right hnot)
  · -- it is begun in this task, by this call or by an earlier one
    have hcompletes : t.Completes (s.after tasks) place := by
      by_cases hhere : place ∈ c.session.imported
      · rcases hcalls.completes_of_begun hhere hbefore with haround | hcompletes
        · have hsucceeds := hdone.resolve_left (not_not_intro haround)
          have hbegun := Compile.importWithin_tracked tracks_imported t.files c.depth c.path c.position
            c.session place hhere
          exact t.completes_of_ok hsucceeds (hcalls.behind tracks_imported place hbegun) hbefore
        · exact hcompletes
      · exact ⟨around, c, hcalls, ⟨text, hread⟩, hhere, hok⟩
    exact ⟨fun _ habandoned => hbefore habandoned.begun.2, fun _ => .inr hcompletes⟩

end Session

/-- When the success of a file means that it was compiled. A session takes any tasks, some of which may
fail, and then one more. If an import in that task succeeds, and the task succeeds or the import does
not stand inside the imported file itself, the file is compiled to its end in one of all these tasks,
exactly if it was not abandoned in an earlier one; likewise for a task that compiles a file. What comes
of a file that is compiled to its end is in the pack. A task for a file abandons it if it fails once the
file is begun, and from then on such tasks succeed and leave the pack as it is. -/
theorem success_means_completed_iff (settings : Settings) (tasks : List Task) :
    (∀ (t : Task) (around : List File.Place) (c : ImportCall) (place : File.Place) (text : String),
      t.Calls ((Session.new settings).after tasks) around c →
      t.files.read c.path = .ok (place, text) → (c.outcome t.files).1 = .ok () →
      place ∉ around ∨ (t.compile.outcome ((Session.new settings).after tasks)).1 = .ok () →
      ((Session.new settings).Completed (tasks ++ [t]) place ↔
        ¬(Session.new settings).Abandoned tasks place)) ∧
    (∀ (files : File.Tree) (path : File.Path) (place : File.Place) (text : String),
      files.read path = .ok (place, text) →
      ((Session.compileFile files path).outcome ((Session.new settings).after tasks)).1 = .ok () →
      ((Session.new settings).Completed (tasks ++ [.file files path]) place ↔
        ¬(Session.new settings).Abandoned tasks place)) ∧
    (∀ place, (Session.new settings).Completed tasks place →
      ∃ t ∈ tasks, ∃ path text depth name s₁ t₁, t.files.read path = .ok (place, text) ∧
        (Compile.source (Compile.importWithin t.files depth) name text).outcome s₁ = (.ok (), t₁) ∧
        t₁.pack.Precedes ((Session.new settings).after tasks).pack) ∧
    ∀ (files : File.Tree) (path : File.Path) (place : File.Place) (text : String),
      validateSpace ((Session.new settings).after tasks).settings.space = .ok () →
      files.read path = .ok (place, text) →
      (∀ e, place ∉ ((Session.new settings).after tasks).imported →
        ((Session.compileFile files path).outcome ((Session.new settings).after tasks)).1 = .error e →
        (Session.new settings).Abandoned (tasks ++ [.file files path]) place) ∧
      ((Session.new settings).Abandoned tasks place →
        ((Session.compileFile files path).outcome ((Session.new settings).after tasks)).1 = .ok () ∧
        (((Session.new settings).after tasks).next (.file files path)).pack =
          ((Session.new settings).after tasks).pack) := by
  have hfresh : ∀ place, place ∉ (Session.new settings).imported := fun _ => List.not_mem_nil
  refine ⟨fun t around c place text hcalls hread hok hdone =>
    Session.completed_iff_of_calls (hfresh place) hcalls hread hok hdone,
    fun files path place text hread hok => ?_, fun place h => h.in_pack,
    fun files path place text hspace hread => ⟨fun e hnew hfails => ?_, fun habandoned => ?_⟩⟩
  · obtain ⟨s₁, hspace, hrun, -⟩ :=
      Compile.step_eq_ok.mp (Session.outcome_eq_next (t := .file files path) hok)
    have hcalls : (Task.file files path).Calls ((Session.new settings).after tasks) [] _ :=
      ⟨hspace, _, .file files path _, .self _⟩
    exact Session.completed_iff_of_calls (hfresh place) hcalls hread (congrArg Prod.fst hrun) (.inr hok)
  · rw [Session.Abandoned, Session.oneOf_concat]
    exact .inr (Task.abandons_of_file hspace hread hnew hfails)
  · obtain ⟨log, hrun⟩ := Compile.importWith_begun hread habandoned.begun.2
      (Compile.source (Compile.importWithin files files.nodes.length)) none
    have hstep : (Session.compileFile files path).outcome ((Session.new settings).after tasks) =
        (.ok (), Compile.flushWarnings { (Session.new settings).after tasks with log }) := by
      rw [Session.compileFile, Compile.step_allowed hspace, Compile.importFile, Compile.importWithin,
        hrun]
    refine ⟨congrArg Prod.fst hstep, ?_⟩
    show ((Session.compileFile files path).outcome ((Session.new settings).after tasks)).2.pack = _
    rw [hstep]
    rfl

/-- The place of a file in `faultyTree` that cannot be compiled to its end. -/
def faultyPlace : File.Place := ⟨.working, ["faulty.quill".toList]⟩

/-- The place of a file in `faultyTree` that imports it. -/
def userPlace : File.Place := ⟨.working, ["user.quill".toList]⟩

/-- A file that fails behind its first command, and one that imports it. -/
def faultyTree : File.Tree :=
  ⟨[(faultyPlace, .file (.text "say a; break;")),
    (userPlace, .file (.text "import \"faulty\"; say b;"))]⟩

/-- The session behind the failure of the first file. -/
def faultySession : Session := (Session.new {}).after [.file faultyTree ⟨"faulty.quill"⟩]

/-- The first file is abandoned, and then the second one is completed, the first one is not, and both
succeed. -/
theorem faulty_succeeds_uncompleted :
    (∃ e, ((Session.compileFile faultyTree ⟨"faulty.quill"⟩).outcome (Session.new {})).1 = .error e) ∧
    ((Session.compileFile faultyTree ⟨"faulty.quill"⟩).outcome faultySession).1 = .ok () ∧
    ((Session.compileFile faultyTree ⟨"user.quill"⟩).outcome faultySession).1 = .ok () ∧
    ¬(Session.new {}).Completed [.file faultyTree ⟨"faulty.quill"⟩, .file faultyTree ⟨"faulty.quill"⟩]
      faultyPlace ∧
    (Session.new {}).Completed [.file faultyTree ⟨"faulty.quill"⟩, .file faultyTree ⟨"user.quill"⟩]
      userPlace := by
  have hfails : ((Session.compileFile faultyTree ⟨"faulty.quill"⟩).outcome (Session.new {})).1 =
      .error (.fault ⟨.breakOutsideSwitch, some ⟨"faulty.quill", 1, 8, "say a; break;"⟩⟩) := by
    decide +kernel
  have hagain : ((Session.compileFile faultyTree ⟨"faulty.quill"⟩).outcome faultySession).1 = .ok () := by
    decide +kernel
  have huser : ((Session.compileFile faultyTree ⟨"user.quill"⟩).outcome faultySession).1 = .ok () := by
    decide +kernel
  have hfaultyRead : faultyTree.read ⟨"faulty.quill"⟩ = .ok (faultyPlace, "say a; break;") := by
    decide +kernel
  have huserRead : faultyTree.read ⟨"user.quill"⟩ = .ok (userPlace, "import \"faulty\"; say b;") := by
    decide +kernel
  obtain ⟨-, -, -, hfirst⟩ := success_means_completed_iff {} []
  obtain ⟨-, hfiles, -, -⟩ := success_means_completed_iff {} [.file faultyTree ⟨"faulty.quill"⟩]
  have habandoned : (Session.new {}).Abandoned [.file faultyTree ⟨"faulty.quill"⟩] faultyPlace :=
    (hfirst faultyTree _ faultyPlace _ (by decide +kernel) hfaultyRead).1 _ (by decide +kernel) hfails
  have hnot : ¬(Session.new {}).Abandoned [.file faultyTree ⟨"faulty.quill"⟩] userPlace := by
    intro habandoned
    exact absurd habandoned.begun.2 (by decide +kernel)
  refine ⟨⟨_, hfails⟩, hagain, huser, ?_, ?_⟩
  · exact fun h => (hfiles faultyTree _ faultyPlace _ hfaultyRead hagain).mp h habandoned
  · exact (hfiles faultyTree _ userPlace _ huserRead huser).mpr hnot

end Packwright
