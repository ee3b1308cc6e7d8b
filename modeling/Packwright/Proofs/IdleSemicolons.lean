import Packwright.Proofs.Scans.Texts

/-!
# What becomes of idle semicolons

A task reads the texts of its files, and the insides of the groups that stand in them, each once. Where it
succeeds, the warnings about idle semicolons are those of all these texts. The session keeps them in the
order in which the texts are read, each with the name of its file, but for those inside conditions and
argument lists. These only go to the log, without a file, so the session has all of them exactly if there
are none of this kind.

## Main results

- `Scan.perm_kept_iff` — whether any warnings are lost
- `idle_semicolons_of_task` — the warnings of a task about idle semicolons
-/

namespace Packwright

namespace Scan

variable {scans : List Scan}

theorem length_located (scan : Scan) : scan.located.length = scan.noted.length := List.length_map ..

/-- Nothing is lost if the warnings of conditions and argument lists are none. -/
theorem kept_eq_of_none (h : ∀ scan ∈ scans, scan.purpose.isKept = false → scan.noted = []) :
    kept scans = scans.flatMap located := by
  induction scans with
  | nil => rfl
  | cons scan scans ih =>
    obtain ⟨hscan, hscans⟩ := List.forall_mem_cons.mp h
    rw [kept_cons, List.flatMap_cons, ih hscans]
    cases hkept : scan.purpose.isKept with
    | true => rfl
    | false =>
      rw [located, hscan hkept]
      rfl

/-- The warnings that are kept, and those that are passed on, are all of them. -/
theorem length_kept_add_passed (scans : List Scan) :
    (kept scans).length + (passed scans).length = (scans.flatMap located).length := by
  induction scans with
  | nil => rfl
  | cons scan scans ih =>
    rw [kept_cons, passed_cons, List.flatMap_cons, List.length_append, List.length_append,
      List.length_append, ← ih, length_located]
    cases scan.purpose.isKept with
    | true => simp only [if_true, List.length_nil, length_located]; omega
    | false => simp; omega

/-- The session has all warnings exactly if none is about a condition or an argument list. -/
theorem perm_kept_iff {old : List Warning} :
    (old ++ kept scans).Perm (old ++ scans.flatMap located) ↔
      ∀ scan ∈ scans, scan.purpose.isKept = false → scan.noted = [] := by
  refine ⟨fun h scan hscan hkept => ?_, fun h => kept_eq_of_none h ▸ List.Perm.refl _⟩
  have hlength := h.length_eq
  have hall := length_kept_add_passed scans
  rw [List.length_append, List.length_append] at hlength
  have hnone : passed scans = [] := List.eq_nil_of_length_eq_zero (by omega)
  have hmem : scan ∈ scans.filter (!·.purpose.isKept) := by simp [hscan, hkept]
  exact List.flatMap_eq_nil_iff.mp hnone scan hmem

end Scan

/-- What becomes of idle semicolons in a task that succeeds. The session keeps the warnings of all texts
that are read but conditions and argument lists, whose warnings only go to the log. Every text is read
once, in a file of the task; every warning about it is at a semicolon of this file and, where it is kept,
names the file; and no two warnings are about the same semicolon. So the session has the warnings of all
texts, each once, exactly if there are none inside conditions and argument lists. -/
theorem idle_semicolons_of_task (s : Session) (t : Task) (hok : (t.compile.outcome s).1 = .ok ()) :
    let scans := (t.tour s.settings s.imported).1
    let s' := s.next t
    (s'.warnings.filter Warning.isIdle = s.warnings.filter Warning.isIdle ++ Scan.kept scans ∧
      s'.warned = s.warned ++ (Scan.passed scans).map Warning.render ++
        (s'.warnings.drop s.logged).map Warning.render) ∧
    ((scans.map Scan.key).Nodup ∧
      ∀ scan ∈ scans, ∃ name text, t.HasFile s.settings scan.place name text ∧ scan.In name text ∧
        (name ≠ "" → ∀ w ∈ scan.located, ∃ (p : Position) (line : String),
          emptyStatementAt p ∈ scan.noted ∧
            w = ⟨.emptyStatement, some ⟨name, p.line, p.column, line⟩⟩)) ∧
    (∃ marks : Scan → List Nat,
      (∀ scan ∈ scans, ∀ name text, t.HasFile s.settings scan.place name text →
        List.Forall₂ (Warning.IsAbout Position.start text) scan.noted (marks scan)) ∧
      (scans.flatMap fun scan => (marks scan).map fun mark => (scan.place, mark)).Nodup) ∧
    ((s'.warnings.filter Warning.isIdle).Perm
        (s.warnings.filter Warning.isIdle ++ scans.flatMap Scan.located) ↔
      ∀ scan ∈ scans, scan.purpose.isKept = false → scan.noted = []) := by
  intro scans s'
  obtain ⟨⟨new, hnew, hidle⟩, hwarned⟩ := t.heard hok
  have hkept : s'.warnings.filter Warning.isIdle =
      s.warnings.filter Warning.isIdle ++ Scan.kept scans := by
    rw [hnew, List.filter_append, hidle]
  refine ⟨⟨hkept, hwarned⟩, ⟨t.nodup_tour _ _, fun scan hscan => ?_⟩, t.exists_marks _ _, ?_⟩
  · obtain ⟨name, text, hfile, hin⟩ := t.tour_in s.settings s.imported scan hscan
    exact ⟨name, text, hfile, hin, hin.located⟩
  · rw [hkept]
    exact Scan.perm_kept_iff

/-- A file with a semicolon too many. -/
def idleTree : File.Tree :=
  ⟨[(⟨.working, ["part.quill".toList]⟩, .file (.text "say a;;"))]⟩

/-- An import, and a chain with a semicolon too many in its condition and one in its body. -/
def idleSource : String := "import \"part\"; if ($x > 1;;) \x7b say b;; \x7d"

/-- A warning about an idle semicolon in a line of a file. -/
def idleAt (file : String) (column : UInt32) (line : String) : Warning :=
  ⟨.emptyStatement, some ⟨file, 1, column, line⟩⟩

theorem idle_semicolon_lost : let s := Session.new {}
    let t := Task.text idleTree "main.quill" idleSource
    let scans := (t.tour s.settings s.imported).1
    let s' := s.next t
    (t.compile.outcome s).1 = .ok () ∧
      scans.map (fun scan => (scan.purpose, scan.located)) =
        [(.file, []), (.file, [idleAt "part.quill" 7 "say a;;"]),
          (.condition, [idleAt "main.quill" 27 idleSource]), (.body, [idleAt "main.quill" 38 idleSource])] ∧
      s'.warnings.filter Warning.isIdle =
        [idleAt "part.quill" 7 "say a;;", idleAt "main.quill" 38 idleSource] ∧
      s'.warned = (emptyStatementAt ⟨1, 27⟩).render :: s'.warnings.map Warning.render ∧
      ¬(s'.warnings.filter Warning.isIdle).Perm (scans.flatMap Scan.located) := by
  intro s t scans s'
  have hruns : (t.compile.outcome s).1 = .ok () := by decide +kernel
  have hscans : scans.map (fun scan => (scan.purpose, scan.located)) =
        [(.file, []), (.file, [idleAt "part.quill" 7 "say a;;"]),
          (.condition, [idleAt "main.quill" 27 idleSource]), (.body, [idleAt "main.quill" 38 idleSource])] ∧
      Scan.kept scans = [idleAt "part.quill" 7 "say a;;", idleAt "main.quill" 38 idleSource] ∧
      Scan.passed scans = [emptyStatementAt ⟨1, 27⟩] ∧
      ¬∀ scan ∈ scans, scan.purpose.isKept = false → scan.noted = [] := by
    decide +kernel
  obtain ⟨hlocated, hkept, hpassed, hlost⟩ := hscans
  obtain ⟨⟨hwarnings, hwarned⟩, -, -, hall⟩ := idle_semicolons_of_task s t hruns
  have hold : s.warnings.filter Warning.isIdle = [] := rfl
  have hnone : s.warned = [] := rfl
  have hlogged : s.logged = 0 := rfl
  rw [hold, List.nil_append] at hwarnings hall
  rw [hnone, hlogged, List.nil_append, List.drop_zero] at hwarned
  have hlog : s'.warned =
      (Scan.passed scans).map Warning.render ++ s'.warnings.map Warning.render := hwarned
  rw [hpassed, List.map_singleton, List.singleton_append] at hlog
  exact ⟨hruns, hlocated, hwarnings.trans hkept, hlog, fun hperm => hlost (hall.mp hperm)⟩

end Packwright
