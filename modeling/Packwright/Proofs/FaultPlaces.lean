import Packwright.Proofs.Completion
import Packwright.Proofs.Freshness
import Packwright.Proofs.Location.OpenFiles

/-!
# Where faults are reported

A fault that is found while a text is compiled is reported in the file that is being compiled then,
and not in one that imports it. Its line is one of that file. The text of the line is meant to be
shown with it; but an empty line counts as one whose text is missing, so that the files around fill
in their own line with the same number, and the first of these that is not empty is shown.

## Main definitions

- `Task.Opens`, `Task.FailsIn` — the file that a task compiles, and the chain of files it fails in

## Main results

- `Task.exists_failsIn`, `Task.FailsIn.exists_fault` — the chain of files of a task that fails
- `faults_name_innermost_file` — the file, the line and the line text of a fault
-/

namespace Packwright

namespace Task

/-- The path of the file that the task itself asks for. -/
def own? (s : Session) : Task → Option File.Path
  | .text .. => none
  | .file _ path => some path
  | .entry _ => some s.settings.entryPath

/-- The file that the task compiles, how many files can be inside one another below it, and the
session in which it is compiled. -/
inductive Opens : Task → Session → Nat → OpenFile → Session → Prop
  | text (files : File.Tree) (name source : String) (s : Session) :
    Opens (.text files name source) s (files.nodes.length + 1) ⟨name, source⟩ s
  | read {t : Task} {s : Session} {path : File.Path} {place : File.Place} {text : String}
    (hown : t.own? s = some path) (hread : t.files.read path = .ok (place, text))
    (hnew : place ∉ s.imported) :
    Opens t s t.files.nodes.length ⟨s.settings.displayName path, text⟩
      { s with imported := s.imported ++ [place] }

/-- The task fails in the chain of files, innermost first. -/
def FailsIn (t : Task) (s : Session) (chain : List OpenFile) : Prop :=
  ∃ depth file s', t.Opens s depth file s' ∧ Compile.FailsIn t.files depth file s' chain

variable {t : Task} {s s' : Session} {path : File.Path} {depth : Nat} {file : OpenFile}
  {chain : List OpenFile} {f : Fault}

/-- A task that asks for a file does what an import of it does. -/
theorem outcome_own (hspace : validateSpace s.settings.space = .ok ())
    (hown : t.own? s = some path) :
    (t.compile.outcome s).1 = ((Compile.importFile t.files path none).outcome s).1 := by
  cases t with
  | text files name source => cases hown
  | file files path =>
    obtain rfl := Option.some.inj hown
    show ((Session.compileFile files path).outcome s).1 = _
    rw [Session.compileFile, Compile.step_allowed hspace]
    rfl
  | entry files =>
    obtain rfl := Option.some.inj hown
    show ((Session.compileEntry files).outcome s).1 = _
    rw [Compile.outcome_compileEntry, Session.compileFile, Compile.step_allowed hspace]
    rfl

/-- A task does what compiling its file does. -/
theorem Opens.outcome (hspace : validateSpace s.settings.space = .ok ())
    (h : t.Opens s depth file s') :
    (t.compile.outcome s).1 =
      ((Compile.source (Compile.importWithin t.files depth) file.name file.text).outcome s').1 := by
  cases h with
  | text files name source =>
    show ((Session.compileText files name source).outcome s).1 = _
    rw [Session.compileText, Compile.step_allowed hspace]
    rfl
  | read hown hread hnew =>
    rw [outcome_own hspace hown]
    exact congrArg Prod.fst (Compile.importWith_new hread hnew _ none)

/-- A task that fails although its file can be read compiles that file. -/
theorem exists_opens (hspace : validateSpace s.settings.space = .ok ())
    (hreadable : ∀ path, t.own? s = some path → ∃ found, t.files.read path = .ok found)
    (hfails : (t.compile.outcome s).1 = .error (.fault f)) :
    ∃ depth file s', t.Opens s depth file s' := by
  rcases hown : t.own? s with _ | path
  · cases t with
    | text files name source => exact ⟨_, _, _, .text files name source s⟩
    | file | entry => cases hown
  · obtain ⟨⟨place, text⟩, hread⟩ := hreadable path hown
    refine ⟨_, _, _, .read hown hread fun hbegun => ?_⟩
    obtain ⟨log, hrun⟩ := Compile.importWith_begun hread hbegun
      (Compile.source (Compile.importWithin t.files t.files.nodes.length)) none
    have hok : ((Compile.importFile t.files path none).outcome s).1 = .ok () :=
      congrArg Prod.fst hrun
    cases hfails.symm.trans ((outcome_own hspace hown).trans hok)

/-- A task that fails although its file can be read does so in a chain of files. -/
theorem exists_failsIn (hspace : validateSpace s.settings.space = .ok ())
    (hreadable : ∀ path, t.own? s = some path → ∃ found, t.files.read path = .ok found)
    (hfails : (t.compile.outcome s).1 = .error (.fault f)) : ∃ chain, t.FailsIn s chain := by
  obtain ⟨depth, file, s', hopens⟩ := exists_opens hspace hreadable hfails
  rw [hopens.outcome hspace] at hfails
  obtain ⟨chain, hchain⟩ := Compile.exists_failsIn hfails
  exact ⟨chain, depth, file, s', hopens, hchain⟩

/-- The fault of a task points into the text of the innermost file, and is named in all files. -/
theorem FailsIn.exists_fault (hspace : validateSpace s.settings.space = .ok ())
    (h : t.FailsIn s chain) (hfails : (t.compile.outcome s).1 = .error (.fault f)) :
    ∃ innermost outer f₀, chain = innermost :: outer ∧ f = f₀.named chain ∧
      Failure.Blames innermost.text.toList (.fault f₀) := by
  obtain ⟨depth, file, s', hopens, hchain⟩ := h
  obtain ⟨innermost, outer, f₀, heq, hblames, hsource⟩ := hchain.exists_fault
  rw [hopens.outcome hspace, hsource] at hfails
  exact ⟨innermost, outer, f₀, heq, (Failure.fault.inj (Except.error.inj hfails)).symm, hblames⟩

end Task

/-- The file, the line and the line text that a fault is reported with. Any task of a session that
fails, whose own file can be read, does so in a chain of files; and if the innermost one of these
has a name, the fault is located in that file, on a line of it. The text shown is the first line
with that number which is not empty, from the innermost file outwards; so it is the line of the
innermost file exactly if that line is not empty or no file around has anything there. Such a line
of the innermost file is empty only for a line break inside quotes or a mistake in JSON text. -/
theorem faults_name_innermost_file (settings : Settings) (tasks : List Task) {t : Task} {f : Fault}
    (hspace : validateSpace settings.space = .ok ())
    (hreadable : ∀ path, t.own? ((Session.new settings).after tasks) = some path →
      ∃ found, t.files.read path = .ok found)
    (hfails : (t.compile.outcome ((Session.new settings).after tasks)).1 = .error (.fault f)) :
    (∃ chain, t.FailsIn ((Session.new settings).after tasks) chain) ∧
    ∀ (file : OpenFile) (outer : List OpenFile),
      t.FailsIn ((Session.new settings).after tasks) (file :: outer) → file.name ≠ "" →
      ∃ l, f.location = some l ∧ l.file = file.name ∧ HasLine file.text.toList l.line ∧
        l.lineText = shownLine l.line (file :: outer) ∧
        (l.lineText = Text.lineAt file.text l.line.toNat ↔
          Text.lineAt file.text l.line.toNat ≠ "" ∨
            ∀ g ∈ outer, Text.lineAt g.text l.line.toNat = "") ∧
        ((Text.lines file.text.toList).length < UInt32.size →
          1 ≤ l.line.toNat ∧ l.line.toNat ≤ (Text.lines file.text.toList).length ∧
          (Text.lineAt file.text l.line.toNat = "" → f.cause.mayBeEmpty = true)) := by
  have hsettings := Session.after_settings settings tasks
  rw [← hsettings] at hspace
  refine ⟨Task.exists_failsIn hspace hreadable hfails, fun file outer hchain hname => ?_⟩
  have hcounted := (Session.after_leads (Session.new_counted settings) tasks).counted
    (Session.new_counted settings)
  have hregular := Task.fault_regular hcounted hfails
  obtain ⟨innermost, outer', f₀, heq, rfl, hblames⟩ := hchain.exists_fault hspace hfails
  obtain ⟨rfl, rfl⟩ := List.cons.inj heq
  rw [Fault.cause_named] at hregular ⊢
  obtain ⟨p, hlocation, hline, hshows⟩ := hblames hregular
  refine ⟨_, Fault.location_named_cons hlocation hname outer, ?_⟩
  dsimp only
  refine ⟨rfl, hline, rfl, shownLine_eq_first_iff, fun hsize => ?_⟩
  obtain ⟨hfirst, hlast⟩ := hline.exists_line hsize
  refine ⟨hfirst, hlast, fun hempty => ?_⟩
  by_contra hcause
  exact (hshows (Bool.eq_false_iff.mpr hcause)).lineAt_ne hsize hempty

/-- A file whose second line is not empty, and which imports another one. -/
def callingFile : OpenFile := ⟨"main.quill", "import \"lib\";\nsay b;"⟩

/-- A file with a line break inside quotes, on its second line, which is empty. -/
def gapingFile : OpenFile := ⟨"lib.quill", "say (\"\\\n\n\");"⟩

/-- The two files. -/
def gapingTree : File.Tree :=
  ⟨[(mainPlace, .file (.text callingFile.text)), (libPlace, .file (.text gapingFile.text))]⟩

theorem read_callingFile :
    gapingTree.read (Settings.entryPath {}) = .ok (mainPlace, callingFile.text) := by
  decide +kernel

/-- The import of `callingFile`. -/
def callingStatement : Statement :=
  ⟨[⟨.word, ⟨0, 6, ⟨1, 1⟩⟩, "import"⟩, ⟨.string "lib", ⟨7, 12, ⟨1, 8⟩⟩, "\"lib\""⟩]⟩

/-- The statements of `callingFile`. -/
def callingReading : Reading :=
  ⟨[callingStatement, ⟨[⟨.word, ⟨14, 17, ⟨2, 1⟩⟩, "say"⟩, ⟨.word, ⟨18, 19, ⟨2, 5⟩⟩, "b"⟩]⟩], []⟩

/-- The fault of `gapingFile`, with the second line of `callingFile`. -/
def gapingFault : Fault := ⟨.lineBreakInString, some ⟨"lib.quill", 2, 1, "say b;"⟩⟩

/-- The imported file is the innermost one in which the entry file fails. -/
theorem gaping_fails_in :
    (Task.entry gapingTree).FailsIn (Session.new {}) [gapingFile, callingFile] := by
  have hmainName : Settings.displayName {} (Settings.entryPath {}) = callingFile.name := by
    decide +kernel
  have hlib : gapingTree.read (Settings.importPath {} "lib") = .ok (libPlace, gapingFile.text) := by
    decide +kernel
  have hlibName : Settings.displayName {} (Settings.importPath {} "lib") = gapingFile.name := by
    decide +kernel
  have hreading : tokenize .required Position.start callingFile.text = .ok callingReading := by
    decide +kernel
  have hgap : tokenize .required Position.start gapingFile.text =
      .error (.located .lineBreakInString ⟨2, 1⟩) := by decide +kernel
  have hopens : (Task.entry gapingTree).Opens (Session.new {}) 2 callingFile _ :=
    hmainName ▸ Task.Opens.read (rfl : (Task.entry gapingTree).own? (Session.new {}) = _)
      read_callingFile List.not_mem_nil
  have hreaches : Compile.SourceReaches (Compile.importWithin gapingTree 2) callingFile.name
      callingFile.text { Session.new {} with imported := (Session.new {}).imported ++ [mainPlace] }
      _ _ _ :=
    ⟨callingReading, hreading, Compile.Reaches.mk (.refl ..) rfl rfl⟩
  have hchain : Compile.FailsIn gapingTree 2 callingFile _ ([gapingFile] ++ [callingFile]) :=
    .inside hreaches hlib (by decide +kernel) (hlibName ▸ .of_misread hgap)
  exact ⟨_, _, _, hopens, hchain⟩

/-- The line shown with the fault of the imported file is the one of the file that imports it. -/
theorem gaping_line_from_importer :
    ((Task.entry gapingTree).compile.outcome (Session.new {})).1 = .error (.fault gapingFault) ∧
    (Task.entry gapingTree).FailsIn (Session.new {}) [gapingFile, callingFile] ∧
    Text.lineAt gapingFile.text 2 = "" ∧
    ∃ l, gapingFault.location = some l ∧ l.file = gapingFile.name ∧
      HasLine gapingFile.text.toList l.line ∧
      l.lineText ≠ Text.lineAt gapingFile.text l.line.toNat := by
  have hfails : ((Task.entry gapingTree).compile.outcome (Session.new {})).1 =
      .error (.fault gapingFault) := by decide +kernel
  have hlines : Text.lineAt gapingFile.text 2 = "" ∧ Text.lineAt callingFile.text 2 ≠ "" := by
    decide +kernel
  obtain ⟨-, hplaces⟩ := faults_name_innermost_file {} [] (t := .entry gapingTree) rfl
    (fun path hpath => ⟨_, Option.some.inj hpath ▸ read_callingFile⟩) hfails
  obtain ⟨l, hlocation, hfile, hline, -, hshown, -⟩ :=
    hplaces gapingFile [callingFile] gaping_fails_in (by decide)
  refine ⟨hfails, gaping_fails_in, hlines.1, l, hlocation, hfile, hline, fun hown => ?_⟩
  obtain rfl := Option.some.inj hlocation
  rcases hshown.mp hown with hnot | houter
  · exact hnot hlines.1
  · exact hlines.2 (houter callingFile List.mem_cons_self)

end Packwright
