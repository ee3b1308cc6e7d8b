import Packwright.Proofs.Location.Handlers
import Packwright.Proofs.Session.ImportCalls

/-!
# Files that are being compiled

While a file is compiled, its imports begin other files. When a fault is found, the files that are
being compiled form a chain: the file in which it is found, the one that imports that file, and so
on. On its way out the fault is named in each of them in turn, from the inside out.

## Main definitions

- `OpenFile`, `Fault.named` — a file that is being compiled, and a fault that is named in some
- `Compile.FailsIn` — the chain of files in which compiling a file fails
- `shownLine` — the line text that a chain of files gives

## Main results

- `Compile.source_fails` — a source fails by itself or in one of its imports
- `Compile.FailsIn.exists_fault` — the fault points into the text of the first file of the chain
- `Compile.exists_failsIn` — every fault has its chain
- `Fault.location_named_cons` — the location of a fault that is named in a chain of files
-/

namespace Packwright

/-- A file that is being compiled: its name in messages and its text. -/
structure OpenFile where
  name : String
  text : String
  deriving DecidableEq, Repr

/-- The fault, named in one file after the other. -/
def Fault.named (chain : List OpenFile) (f : Fault) : Fault :=
  chain.foldl (fun f file => f.inFile file.name file.text) f

/-! ### Locations -/

/-- The first line with the number that is not empty, among those of the files. -/
def shownLine (line : UInt32) (chain : List OpenFile) : String :=
  ((chain.map fun file => Text.lineAt file.text line.toNat).find? (· ≠ "")).getD ""

theorem shownLine_cons (line : UInt32) (file : OpenFile) (rest : List OpenFile) :
    shownLine line (file :: rest) =
      if Text.lineAt file.text line.toNat = "" then shownLine line rest
      else Text.lineAt file.text line.toNat := by
  unfold shownLine
  rw [List.map_cons]
  split
  · next hempty => rw [List.find?_cons_of_neg (by simpa using hempty)]
  · next hshown => rw [List.find?_cons_of_pos (by simpa using hshown), Option.getD_some]

theorem shownLine_eq_empty_iff {line : UInt32} {chain : List OpenFile} :
    shownLine line chain = "" ↔ ∀ file ∈ chain, Text.lineAt file.text line.toNat = "" := by
  induction chain with
  | nil => simp [shownLine]
  | cons file rest ih =>
    rw [shownLine_cons, List.forall_mem_cons, ← ih]
    split
    · next hempty => simp [hempty]
    · next hshown => simp [hshown]

/-- The first file has the line that is shown, unless it has an empty line there and another one
does not. -/
theorem shownLine_eq_first_iff {line : UInt32} {file : OpenFile} {outer : List OpenFile} :
    shownLine line (file :: outer) = Text.lineAt file.text line.toNat ↔
      Text.lineAt file.text line.toNat ≠ "" ∨
        ∀ g ∈ outer, Text.lineAt g.text line.toNat = "" := by
  rw [shownLine_cons, ← shownLine_eq_empty_iff]
  split
  · next hempty => simp [hempty]
  · next hshown => simp [hshown]

theorem Fault.named_cons (file : OpenFile) (rest : List OpenFile) (f : Fault) :
    f.named (file :: rest) = (f.inFile file.name file.text).named rest := rfl

/-- A name and a line text that are there stay; a line text that is missing is the first one that is
not empty. -/
theorem Fault.location_named {f : Fault} {l : Location} (h : f.location = some l)
    (chain : List OpenFile) :
    ∃ file, (f.named chain).location = some ⟨file, l.line, l.column,
        if l.lineText = "" then shownLine l.line chain else l.lineText⟩ ∧
      (l.file ≠ "" → file = l.file) := by
  induction chain generalizing f l with
  | nil =>
    refine ⟨l.file, ?_, fun _ => rfl⟩
    show f.location = _
    rw [h]
    split
    · next hempty =>
      obtain ⟨file, line, column, lineText⟩ := l
      obtain rfl : lineText = "" := hempty
      rfl
    · rfl
  | cons g rest ih =>
    have hfill : (f.inFile g.name g.text).location = some (l.fill g.name g.text) := by
      rw [Fault.inFile, h]
      rfl
    obtain ⟨file, hlocation, hfile⟩ := ih hfill
    refine ⟨file, ?_, fun hname => (hfile ?_).trans ?_⟩
    · rw [Fault.named_cons, hlocation, shownLine_cons]
      simp only [Location.fill]
      by_cases hempty : l.lineText = ""
      · by_cases hline : Text.lineAt g.text l.line.toNat = ""
        · simp [hempty, hline]
        · simp [hempty, hline]
      · simp [hempty]
    · simp [Location.fill, hname]
    · simp [Location.fill, hname]

/-- A fault that knows its position only gets the name of the first file, and the line of the first
file that has something there. -/
theorem Fault.location_named_cons {f : Fault} {p : Position} (h : f.location = some p.location)
    {file : OpenFile} (hname : file.name ≠ "") (outer : List OpenFile) :
    (f.named (file :: outer)).location =
      some ⟨file.name, p.line, p.column, shownLine p.line (file :: outer)⟩ := by
  have hfirst : (f.inFile file.name file.text).location =
      some ⟨file.name, p.line, p.column, Text.lineAt file.text p.line.toNat⟩ := by
    rw [Fault.inFile, h]
    rfl
  obtain ⟨name, hlocation, hkept⟩ := Fault.location_named hfirst outer
  rw [Fault.named_cons, hlocation, hkept hname, shownLine_cons]

/-- Naming files changes the place of a fault only. -/
theorem Fault.cause_named (chain : List OpenFile) (f : Fault) :
    (f.named chain).cause = f.cause := by
  induction chain generalizing f with
  | nil => rfl
  | cons file rest ih => exact (ih _).trans rfl

namespace Compile

variable {text : List Char} {importer : Importer} {out : List Command} {s s' t : Session}
  {e : Failure} {name source : String} {path : File.Path} {position : Option Position}

theorem blames_of_runsIn {α : Type} {m : Compile α} {P : α → Prop} (h : RunsIn text m P)
    (he : m.outcome s = (.error e, s')) : e.Blames text ∨ e = .crash ∧ s'.Spent := by
  have hrun := h s
  rw [show m.run.run s = (.error e, s') from he] at hrun
  exact hrun

/-! ### Sources that fail -/

/-- The tokens of an import are on lines of the text. -/
theorem import?_lies {c : Construct} (hc : c.LiesIn text) {keyword : Token} {tokens : List Token}
    (h : c.import? = some (keyword, tokens)) :
    keyword.LiesIn text ∧ ∀ t ∈ tokens, t.LiesIn text := by
  unfold Construct.import? at h
  split at h
  · next s =>
    split at h
    · next htokens =>
      obtain ⟨rfl, rfl⟩ := Prod.mk.inj (Option.some.inj h)
      have hs : s.LiesIn text := hc s List.mem_cons_self
      exact List.forall_mem_cons.mp (htokens ▸ hs)
    · cases h
  · cases h

/-- A construct that is no import is compiled before the others. -/
theorem topConstructs_other {inner : Block} {c : Construct} (hc : c.import? = none)
    (rest : List Construct) :
    topConstructs inner importer out (c :: rest) =
      construct inner .top c >>= fun commands =>
        topConstructs inner importer (out ++ commands) rest := by
  conv_lhs => unfold topConstructs
  rw [hc]

/-- Nothing is compiled from an import on that is written wrongly. -/
theorem topConstructs_misimport {inner : Block} {c : Construct} {keyword : Token}
    {tokens : List Token} {f : Fault} (hc : c.import? = some (keyword, tokens))
    (htarget : importTarget keyword tokens = .error f) (rest : List Construct) (s : Session) :
    (topConstructs inner importer out (c :: rest)).outcome s = (.error (.fault f), s) := by
  unfold topConstructs
  rw [hc]
  show outcome (ofExcept (importTarget keyword tokens) >>= _) s = _
  rw [htarget]
  rfl

/-- What is reached behind a construct is reached from that construct on. -/
theorem Reaches.compiled {inner : Block} {c : Construct} {rest : List Construct}
    {commands : List Command} {s₁ : Session} (hc : c.import? = none)
    (hrun : (construct inner .top c).outcome s = (.ok commands, s₁))
    (h : Reaches inner importer (out ++ commands) rest s₁ path position s') :
    Reaches inner importer out (c :: rest) s path position s' := by
  obtain ⟨hpasses, hc', htarget⟩ := h
  exact .mk (.compiled hc hrun hpasses) hc' htarget

/-- What is reached behind an import is reached from that import on. -/
theorem Reaches.imported {inner : Block} {c : Construct} {rest : List Construct}
    {keyword target : Token} {tokens : List Token} {s₁ : Session}
    (hc : c.import? = some (keyword, tokens)) (htarget : importTarget keyword tokens = .ok target)
    (hrun : (importer (s.settings.importPath target.value) (some target.position)).outcome
      { s with pack := s.pack.extendLoad out } = (.ok (), s₁))
    (h : Reaches inner importer [] rest s₁ path position s') :
    Reaches inner importer out (c :: rest) s path position s' := by
  obtain ⟨hpasses, hc', htarget'⟩ := h
  exact .mk (.imported hc htarget hrun hpasses) hc' htarget'

/-- Constructs fail by themselves, or because a counter is spent, or in an import that is reached. -/
theorem topConstructs_fails {depth : Nat} {cs : List Construct} (hcs : ∀ c ∈ cs, c.LiesIn text)
    (h : (topConstructs (block depth) importer out cs).outcome s = (.error e, t)) :
    (e.Blames text ∨ e = .crash ∧ t.Spent) ∨
      ∃ path p s', Reaches (block depth) importer out cs s path (some p) s' ∧
        ShowsLine text p.line ∧ ((importer path (some p)).outcome s').1 = .error e := by
  induction cs generalizing out s with
  | nil => cases (Prod.mk.inj h).1
  | cons c rest ih =>
    obtain ⟨hc, hrest⟩ := List.forall_mem_cons.mp hcs
    rcases himport : c.import? with _ | ⟨keyword, tokens⟩
    · rw [topConstructs_other himport, outcome_bind] at h
      rcases hrun : (construct (block depth) .top c).outcome s with ⟨e' | commands, s₁⟩
      · rw [hrun] at h
        exact .inl (blames_of_runsIn (construct_runs (block_runs depth) .top hc) (hrun.trans h))
      · rw [hrun] at h
        rcases ih hrest h with hblames | ⟨path, p, s', hreaches, hline, hfails⟩
        · exact .inl hblames
        · exact .inr ⟨path, p, s', hreaches.compiled himport hrun, hline, hfails⟩
    · obtain ⟨hkeyword, htokens⟩ := import?_lies hc himport
      have hreads := importTarget_reads hkeyword htokens
      rcases htarget : importTarget keyword tokens with f | target
      · rw [topConstructs_misimport himport htarget] at h
        obtain rfl := Except.error.inj (Prod.mk.inj h).1
        rw [htarget] at hreads
        exact .inl (.inl hreads)
      · rw [topConstructs_import himport htarget, outcome_bind] at h
        rcases hrun : (importer (s.settings.importPath target.value)
          (some target.position)).outcome { s with pack := s.pack.extendLoad out } with ⟨e' | u, s₁⟩
        · rw [hrun] at h
          obtain rfl : e' = e := Except.error.inj (Prod.mk.inj h).1
          exact .inr ⟨_, _, _, .mk (.refl out (c :: rest) s) himport htarget,
            (hreads.of_ok htarget).shows, congrArg Prod.fst hrun⟩
        · rw [hrun] at h
          rcases ih hrest h with hblames | ⟨path, p, s', hreaches, hline, hfails⟩
          · exact .inl hblames
          · exact .inr ⟨path, p, s', hreaches.imported himport htarget hrun, hline, hfails⟩

/-- The failure of a source is one of its text, which then names the file. -/
theorem inFile_eq_fault {f : Fault} {failure : Failure}
    (h : inFile name source failure = .fault f) :
    ∃ f₀, failure = .fault f₀ ∧ f = f₀.inFile name source := by
  cases failure with
  | fault f₀ => exact ⟨f₀, rfl, (Failure.fault.inj h).symm⟩
  | crash | exhausted => cases h

/-- A source with no statements to read fails with what is wrong in its text. -/
theorem source_misread (importer : Importer) (name : String) (s : Session) {f : Fault}
    (hread : Packwright.tokenize .required Position.start source = .error f) :
    ((Compile.source importer name source).outcome s).1 =
      .error (.fault (f.inFile name source)) := by
  obtain ⟨log, warnings, hsource, -⟩ := source_outcome importer name source s
  rw [hsource, topLevel_eq_sequence, outcome_bind, tokenize_outcome, hread]
  rfl

/-- A source fails by itself, or because a counter is spent, or in an import that is reached. -/
theorem source_fails (h : (Compile.source importer name source).outcome s = (.error e, t)) :
    ∃ e₀, e = inFile name source e₀ ∧ ((e₀.Blames source.toList ∨ e₀ = .crash ∧ t.Spent) ∨
      ∃ path p s', SourceReaches importer name source s path (some p) s' ∧
        ShowsLine source.toList p.line ∧ ((importer path (some p)).outcome s').1 = .error e₀) := by
  have hreads := tokenize_lies (stands_start source.toList) .required
  rcases hread : Packwright.tokenize .required Position.start source with f₁ | r
  · have hmisread := source_misread importer name s hread
    rw [h] at hmisread
    rw [hread] at hreads
    exact ⟨.fault f₁, Except.error.inj hmisread, .inl (.inl hreads)⟩
  · obtain ⟨warnings, hsource⟩ := source_read importer name s hread
    rw [hsource, sequence, outcome_bind] at h
    rcases htop : (topConstructs (block (maxNesting source)) importer []
      (constructs r.statements)).outcome (opening name r.warnings s) with ⟨e₀ | out, s₁⟩
    · rw [htop] at h
      obtain ⟨he, rfl⟩ := Prod.mk.inj h
      refine ⟨e₀, (Except.error.inj he).symm, ?_⟩
      rcases topConstructs_fails (constructs_lie (hreads.of_ok hread)) htop with
        hblames | ⟨path, p, s', hreaches, hline, hfails⟩
      · exact .inl hblames
      · exact .inr ⟨path, p, s', ⟨r, hread, hreaches⟩, hline, hfails⟩
    · rw [htop] at h
      cases (Prod.mk.inj h).1

/-- An import that fails ends the source that reaches it. -/
theorem SourceReaches.fails (h : SourceReaches importer name source s path position s')
    (he : ((importer path position).outcome s').1 = .error e) :
    ((Compile.source importer name source).outcome s).1 = .error (inFile name source e) := by
  obtain ⟨r, hread, @⟨out', c, rest, s₁, keyword, target, tokens, hpasses, hc, htarget⟩⟩ := h
  obtain ⟨warnings, hsource⟩ := source_read importer name s hread
  rw [hsource, sequence, outcome_bind, hpasses.outcome, topConstructs_import hc htarget,
    outcome_bind]
  rcases hrun : (importer (s₁.settings.importPath target.value) (some target.position)).outcome
    { s₁ with pack := s₁.pack.extendLoad out' } with ⟨e' | u, s₂⟩
  · rw [hrun] at he
    obtain rfl : e' = e := Except.error.inj he
    rfl
  · rw [hrun] at he
    cases he

/-! ### Chains of files -/

/-- Compiling the file, with so many files inside one another below it, fails in the chain of files,
innermost first: in the file itself when no import begins a file that fails, and else in the file
that the import begins. -/
inductive FailsIn (files : File.Tree) : Nat → OpenFile → Session → List OpenFile → Prop
  | here {depth : Nat} {file : OpenFile} {s : Session} {f : Fault}
    (hfails : ((Compile.source (importWithin files depth) file.name file.text).outcome s).1 =
      .error (.fault f))
    (himports : ∀ path position s' place text,
      SourceReaches (importWithin files depth) file.name file.text s path position s' →
      files.read path = .ok (place, text) → place ∉ s'.imported →
        ((importWithin files depth path position).outcome s').1 = .ok ()) :
    FailsIn files depth file s [file]
  | inside {depth : Nat} {file : OpenFile} {s s' : Session} {path : File.Path}
    {position : Option Position} {place : File.Place} {text : String} {chain : List OpenFile}
    (hreaches : SourceReaches (importWithin files (depth + 1)) file.name file.text s path position
      s')
    (hread : files.read path = .ok (place, text)) (hnew : place ∉ s'.imported)
    (h : FailsIn files depth ⟨s'.settings.displayName path, text⟩
      { s' with imported := s'.imported ++ [place] } chain) :
    FailsIn files (depth + 1) file s (chain ++ [file])

variable {files : File.Tree} {depth : Nat} {file : OpenFile} {chain : List OpenFile}

/-- An import that begins no file can only fail because there is none to read. -/
theorem importWithin_unbegun {f : Fault} {p : Position} (hline : ShowsLine text p.line)
    (hfails : ((importWithin files depth path (some p)).outcome s).1 = .error (.fault f))
    (hbegins : ∀ place source, files.read path = .ok (place, source) → place ∈ s.imported) :
    Failure.Blames text (.fault f) := by
  obtain ⟨compile, himporter⟩ : ∃ compile, importWithin files depth = importWith files compile := by
    cases depth with
    | zero => exact ⟨_, rfl⟩
    | succ depth => exact ⟨_, rfl⟩
  rw [himporter] at hfails
  rcases hread : files.read path with problem | ⟨place, source⟩
  · rw [importWith_unreadable hread] at hfails
    obtain rfl := Failure.fault.inj (Except.error.inj hfails)
    exact blames_located hline _
  · obtain ⟨log, hrun⟩ := importWith_begun hread (hbegins place source hread) compile (some p)
    rw [hrun] at hfails
    cases hfails

/-- A file with no statements to read fails by itself. -/
theorem FailsIn.of_misread {f : Fault}
    (hread : Packwright.tokenize .required Position.start file.text = .error f) :
    FailsIn files depth file s [file] :=
  .here (source_misread _ file.name s hread) fun _ _ _ _ _ ⟨_, hr, _⟩ =>
    nomatch hread.symm.trans hr

/-- The fault points into the text of the first file and is named in each file of the chain. -/
theorem FailsIn.exists_fault (h : FailsIn files depth file s chain) :
    ∃ innermost outer f₀, chain = innermost :: outer ∧
      Failure.Blames innermost.text.toList (.fault f₀) ∧
      ((Compile.source (importWithin files depth) file.name file.text).outcome s).1 =
        .error (.fault (f₀.named chain)) := by
  induction h with
  | @here depth file s f hfails himports =>
    obtain ⟨e₀, hnamed, hwhere⟩ := source_fails (Prod.ext hfails rfl)
    obtain ⟨f₀, rfl, rfl⟩ := inFile_eq_fault hnamed.symm
    refine ⟨file, [], f₀, rfl, ?_, hfails⟩
    rcases hwhere with (hblames | ⟨hcrash, -⟩) | ⟨path, p, s', hreaches, hline, hinner⟩
    · exact hblames
    · cases hcrash
    · refine importWithin_unbegun hline hinner fun place text hread => ?_
      by_contra hnew
      rw [himports path (some p) s' place text hreaches hread hnew] at hinner
      cases hinner
  | @inside depth file s s' path position place text chain hreaches hread hnew h ih =>
    obtain ⟨innermost, outer, f₀, rfl, hblames, hfails⟩ := ih
    refine ⟨innermost, outer ++ [file], f₀, rfl, hblames, ?_⟩
    have himport : ((importWithin files (depth + 1) path position).outcome s').1 =
        .error (.fault (f₀.named (innermost :: outer))) :=
      (congrArg Prod.fst (importWith_new hread hnew _ position)).trans hfails
    rw [hreaches.fails himport]
    simp only [inFile, Fault.named, List.foldl_append, List.foldl_cons, List.foldl_nil]

/-- A file that fails with a fault does so in a chain of files. -/
theorem exists_failsIn {f : Fault}
    (h : ((Compile.source (importWithin files depth) file.name file.text).outcome s).1 =
      .error (.fault f)) :
    ∃ chain, FailsIn files depth file s chain := by
  induction depth generalizing file s f with
  | zero =>
    refine ⟨[file], .here h fun path position s' place text hreaches hread hnew => ?_⟩
    -- at the bound a file that is begun ends all, but not with a fault
    have hrun := importWith_new hread hnew (fun _ _ => throw .exhausted) position
    have hfails := hreaches.fails (congrArg Prod.fst hrun)
    cases h.symm.trans hfails
  | succ depth ih =>
    by_cases himports : ∀ path position s' place text,
        SourceReaches (importWithin files (depth + 1)) file.name file.text s path position s' →
        files.read path = .ok (place, text) → place ∉ s'.imported →
          ((importWithin files (depth + 1) path position).outcome s').1 = .ok ()
    · exact ⟨[file], .here h himports⟩
    · push Not at himports
      obtain ⟨path, position, s', place, text, hreaches, hread, hnew, hfails⟩ := himports
      have hrun : (importWithin files (depth + 1) path position).outcome s' = _ :=
        importWith_new hread hnew _ position
      rcases hresult : ((importWithin files (depth + 1) path position).outcome s').1 with e | u
      · obtain ⟨f₀, rfl, -⟩ := inFile_eq_fault
          (Except.error.inj ((hreaches.fails hresult).symm.trans h))
        rw [hrun] at hresult
        obtain ⟨chain, hchain⟩ := @ih _ ⟨s'.settings.displayName path, text⟩ _ hresult
        exact ⟨_, .inside hreaches hread hnew hchain⟩
      · exact absurd hresult hfails

end Compile

end Packwright
