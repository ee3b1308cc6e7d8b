import Packwright.Proofs.AppendOnly
import Packwright.Proofs.Census.Statements

/-!
# The census of generated functions

What a new session has registered after a task that succeeds is what the texts of the task ask for.
Each arm of a chain, each loop and each handler has one function, with the numbers of its family from
zero on. A switch has a function for every case, and one for every range of several cases but the whole
one. The functions of the square root are there when it is taken anywhere, and there are no others.

## Main definitions

- `Item.caseCount` — the cases of a switch
- `Compile.CountsFiles` — a step becomes what is counted behind the files that were begun

## Main results

- `Item.generated_eq_range`, `Item.card_generated_switches` — the names of a family
- `Compile.countsFiles_topConstructs`, `Compile.countsFiles_importWithin` — texts and files
- `Task.countsFiles`, `Session.after_rooted` — tasks of a session
- `census_of_task` — the functions that a task registers
-/

namespace Packwright

/-! ### Names of a family -/

/-- Below a range there are as many ranges of several labels as it has labels, but one. -/
theorem Dispatch.length_nodes (d : Dispatch) : d.nodes.length + 1 = d.labels.length := by
  induction d with
  | leaf label => rfl
  | node low high left right ihleft ihright =>
    rw [nodes, labels, List.length_append, List.length_append, List.length_append,
      List.length_singleton]
    omega

/-- Of these the whole range is left out. -/
theorem Dispatch.length_nodes_parts (d : Dispatch) :
    (d.parts.flatMap nodes).length = d.labels.length - 2 := by
  cases d with
  | leaf label => rfl
  | node low high left right =>
    have hleft := left.length_nodes
    have hright := right.length_nodes
    rw [parts, labels, List.flatMap_cons, List.flatMap_cons, List.flatMap_nil, List.append_nil,
      List.length_append, List.length_append]
    omega

/-- A switch has a function for each case, and for each range of several cases but the whole one. -/
theorem length_switchNames (id : Nat) (low : Int) (count : Nat) :
    (switchNames id low count).length = count + (count - 2) := by
  rw [switchNames, List.length_append, List.length_map, List.length_map, labelsFrom, List.length_map,
    List.length_range, Dispatch.length_nodes_parts]
  by_cases hcount : 0 < count
  · rw [(dispatchTree_ranged low hcount).2.2.2, labelsFrom, List.length_map, List.length_range]
  · obtain rfl : count = 0 := by omega
    rfl

namespace Item

/-- The cases of a switch. -/
def caseCount : Item → Nat
  | switch _ count => count
  | _ => 0

/-- A family other than that of switches has the numbers as its names. -/
theorem generated_eq_range {f : Feature} (hf : f.isNumbered = true) (hswitch : f ≠ .switchCase)
    (items : List Item) (first : Nat) :
    generated f items first =
      ((List.range' first (ofFamily f items).length).map toString : List String) := by
  induction items generalizing first with
  | nil => rfl
  | cons i rest ih =>
    by_cases hown : i.feature = f
    · have hnames : i.names first = {toString first} := by
        subst hown
        cases i with
        | switch low count => exact absurd rfl hswitch
        | root => cases hf
        | arm | whileLoop | doWhile | forLoop | handler => rfl
      rw [generated_cons_self hown, ofFamily_cons_self hown, hnames, ih, List.length_cons,
        List.range'_succ, List.map_cons, ← Multiset.cons_coe, Multiset.singleton_add]
    · rw [generated_cons_of_ne hown, ofFamily_cons_of_ne hown, ih]

/-- All switches together have the functions of each. -/
theorem card_generated_switches (items : List Item) (first : Nat) :
    (generated .switchCase items first).card =
      (items.map fun i => i.caseCount + (i.caseCount - 2)).sum := by
  induction items generalizing first with
  | nil => rfl
  | cons i rest ih =>
    rw [List.map_cons, List.sum_cons]
    cases i with
    | switch low count =>
      have hown : (switch low count).feature = .switchCase := rfl
      rw [generated_cons_self hown, Multiset.card_add, ih, names, Multiset.coe_card,
        length_switchNames, caseCount]
    | arm | whileLoop | doWhile | forLoop | handler | root =>
      rw [generated_cons_of_ne (by decide), ih]
      exact (Nat.zero_add _).symm

end Item

/-! ### Files -/

namespace Compile

variable {α β : Type} {m : Compile α} {settings : Settings} {count count' : Census.Files}

/-- Where the step succeeds, the session gains the items that are counted behind the files begun
before, and the files of the count are begun. -/
structure CountsFiles (m : Compile α) (settings : Settings) (count : Census.Files) : Prop where
  meets : ∀ s : Session, s.settings = settings → m.Meets s
    (fun _ s' => s.Gains (count s.imported).1 0 s' ∧ s'.imported = (count s.imported).2)
    fun s' => s.Rooted → s'.Rooted

/-- One step after another. -/
theorem CountsFiles.bind {f : α → Compile β} (h : m.CountsFiles settings count)
    (hf : ∀ a, (f a).CountsFiles settings count') :
    (m >>= f).CountsFiles settings (.append count count') := by
  refine ⟨fun s hs => (h.meets s hs).bind (fun _ => id) fun a s₁ h₁ => ?_⟩
  obtain ⟨hgains, hbegun⟩ := h₁
  have hnext := (hf a).meets s₁ (hgains.settings.trans hs)
  rw [hbegun] at hnext
  refine hnext.mono (fun b s' h' => ⟨?_, h'.2⟩) fun s' h' => h' ∘ hgains.rooted
  have hboth := hgains.trans h'.1
  rwa [add_zero] at hboth

/-- A step behind one that counts for nothing. -/
theorem CountsFiles.next {f : α → Compile β} (h : m.CountsFiles settings (.only []))
    (hf : ∀ a, (f a).CountsFiles settings count) : (m >>= f).CountsFiles settings count :=
  h.bind hf

theorem countsFiles_get {f : Session → Compile β}
    (hf : ∀ s : Session, s.settings = settings → (f s).CountsFiles settings count) :
    (get >>= f).CountsFiles settings count :=
  ⟨fun s hs => (hf s hs).meets s hs⟩

/-- A step that begins no file. -/
theorem Gains.countsFiles {items : List Item} {P : α → Prop} (h : m.Gains items 0 P)
    (hkept : ∀ s : Session, (m.outcome s).2.imported = s.imported) :
    m.CountsFiles settings (.only items) := by
  refine ⟨fun s _ => (h.meets s).with_outcome.mono (fun a s' h' => ⟨h'.2.1, ?_⟩) fun _ => id⟩
  have hsame := hkept s
  rwa [h'.1] at hsame

theorem countsFiles_ofExcept {x : Except Fault α} {f : α → Compile β}
    (hf : ∀ a, x = .ok a → (f a).CountsFiles settings count) :
    (ofExcept x >>= f).CountsFiles settings count := by
  cases x with
  | ok a => exact ⟨(hf a rfl).meets⟩
  | error fault => exact ⟨fun _ _ => id⟩

theorem countsFiles_extendLoad (out : List Command) :
    (modifyPack (·.extendLoad out)).CountsFiles settings (.only []) :=
  (gains_extendFunction loadPath out).countsFiles fun _ => rfl

/-- The constructs of the top level become what is counted if imports do. -/
theorem countsFiles_topConstructs {importer : Importer} {files : File.Path → Census.Files}
    (himporter : ∀ path position, (importer path position).CountsFiles settings (files path))
    (depth : Nat) (cs : List Construct) (out : List Command) :
    (topConstructs (block depth) importer out cs).CountsFiles settings
      (Census.topConstructs settings (Census.block depth) files cs) := by
  induction cs generalizing out with
  | nil => exact ⟨fun s _ => ⟨.refl s, rfl⟩⟩
  | cons c rest ih =>
    unfold topConstructs Census.topConstructs
    cases c.import? with
    | some parts =>
      obtain ⟨keyword, tokens⟩ := parts
      refine countsFiles_ofExcept fun target htarget => ?_
      simp only [htarget, Census.reading_ok]
      refine (countsFiles_extendLoad out).next fun _ => countsFiles_get fun s hs => ?_
      rw [hs]
      exact (himporter _ _).bind fun _ => ih []
    | none =>
      refine CountsFiles.bind ?_ fun commands => ih (out ++ commands)
      exact (counts_construct (counts_block depth) .top c).countsFiles
        fun s => (construct_builds depth c s).imported

theorem countsFiles_topLevel {importer : Importer} {files : File.Path → Census.Files}
    (himporter : ∀ path position, (importer path position).CountsFiles settings (files path))
    (text : String) :
    (topLevel importer text).CountsFiles settings (Census.topLevel settings files text) := by
  refine ⟨fun s hs => ?_⟩
  unfold topLevel Census.topLevel
  rw [Meets, outcome_bind, tokenize_outcome]
  cases Packwright.tokenize .required Position.start text with
  | error fault => exact id
  | ok r =>
    have hrest := ((countsFiles_topConstructs himporter (maxNesting text)
      (constructs r.statements) []).bind fun out => countsFiles_extendLoad out).meets
        { s with warnings := s.warnings ++ r.warnings } hs
    refine hrest.mono (fun _ s' h => ⟨?_, h.2⟩) fun s' h => h
    have hgains := h.1
    rw [Census.Files.append, Census.Files.only, List.append_nil] at hgains
    exact hgains.within (.of_same rfl rfl rfl) (.refl s')

/-- A file does what its text does. -/
theorem countsFiles_source {importer : Importer} {files : File.Path → Census.Files}
    (himporter : ∀ path position, (importer path position).CountsFiles settings (files path))
    (name text : String) :
    (source importer name text).CountsFiles settings (Census.topLevel settings files text) := by
  refine ⟨fun s hs => ?_⟩
  obtain ⟨log, warnings, hvalue, hsession⟩ := source_outcome importer name text s
  have htext := meets_iff.mp ((countsFiles_topLevel himporter text).meets { s with log } hs)
  rw [Meets, ← Prod.mk.eta (p := (source importer name text).outcome s), hvalue, hsession]
  generalize (topLevel importer text).outcome { s with log } = result at htext ⊢
  obtain ⟨value, s'⟩ := result
  cases value with
  | error e => exact htext.2 e s' rfl
  | ok a =>
    obtain ⟨hgains, hbegun⟩ := htext.1 a s' rfl
    exact ⟨hgains.within (.of_same rfl rfl rfl) (.of_same rfl rfl rfl), hbegun⟩

theorem countsFiles_importWith (files : File.Tree) {compile : String → String → Compile Unit}
    {counts : String → Census.Files}
    (hcompile : ∀ name text, (compile name text).CountsFiles settings (counts text))
    (path : File.Path) (position : Option Position) :
    (importWith files compile path position).CountsFiles settings
      (Census.importWith files counts path) := by
  refine ⟨fun s hs => ?_⟩
  unfold Census.importWith
  cases hread : files.read path with
  | error problem =>
    rw [Meets, importWith_unreadable hread]
    exact id
  | ok found =>
    obtain ⟨place, text⟩ := found
    simp only [Census.reading_ok]
    by_cases hbegun : place ∈ s.imported
    · obtain ⟨log, hrun⟩ := importWith_begun hread hbegun compile position
      rw [Meets, hrun, if_pos (List.contains_iff_mem.mpr hbegun)]
      exact ⟨.of_same rfl rfl rfl, rfl⟩
    · rw [Meets, importWith_new hread hbegun, if_neg (by simpa using hbegun)]
      have hnew := (hcompile (s.settings.displayName path) text).meets
        { s with imported := s.imported ++ [place] } hs
      refine hnew.mono (fun _ s' h => ⟨?_, h.2⟩) fun s' h => h
      exact h.1.within (.of_same rfl rfl rfl) (.refl s')

/-- Files become what is counted, with all that they import. -/
theorem countsFiles_importWithin (files : File.Tree) (depth : Nat) (path : File.Path)
    (position : Option Position) :
    (importWithin files depth path position).CountsFiles settings
      (Census.importWithin settings files depth path) := by
  induction depth generalizing path position with
  | zero =>
    refine countsFiles_importWith files ?_ path position
    exact fun _ _ => ⟨fun s _ => id⟩
  | succ depth ih => exact countsFiles_importWith files (countsFiles_source ih) path position

theorem countsFiles_step {m : Compile Unit} (h : m.CountsFiles settings count) :
    (step m).CountsFiles settings count := by
  refine ⟨fun s hs => ?_⟩
  rw [Meets, step_outcome]
  cases validateSpace s.settings.space with
  | error fault => exact id
  | ok _ =>
    have hm := meets_iff.mp (h.meets s hs)
    generalize m.outcome s = result at hm ⊢
    obtain ⟨value, s'⟩ := result
    cases value with
    | error e => exact hm.2 e s' rfl
    | ok a =>
      obtain ⟨hgains, hbegun⟩ := hm.1 a s' rfl
      refine ⟨?_, hbegun⟩
      exact hgains.within (.refl s) (.of_same rfl rfl rfl)

end Compile

/-! ### Tasks -/

theorem Task.countsFiles (t : Task) (settings : Settings) :
    t.compile.CountsFiles settings (t.census settings) := by
  have hfiles : ∀ path position, (Compile.importFile t.files path position).CountsFiles settings
      (Census.importWithin settings t.files (t.files.nodes.length + 1) path) :=
    Compile.countsFiles_importWithin t.files (t.files.nodes.length + 1)
  cases t with
  | text files name source =>
    exact Compile.countsFiles_step (Compile.countsFiles_source hfiles name source)
  | file files path => exact Compile.countsFiles_step (hfiles path none)
  | entry files =>
    refine ⟨fun s hs => ?_⟩
    have hentry := (Compile.countsFiles_step (hfiles settings.entryPath none)).meets s hs
    rw [Compile.Meets] at hentry ⊢
    rw [Task.compile, Compile.outcome_compileEntry, hs]
    exact hentry

namespace Session

/-- A task keeps the functions of the square root in order, whether or not it fails. -/
theorem Rooted.next {s : Session} (h : s.Rooted) (t : Task) : (s.next t).Rooted := by
  have htask := Compile.meets_iff.mp ((t.countsFiles s.settings).meets s rfl)
  unfold Session.next
  generalize t.compile.outcome s = result at htask ⊢
  obtain ⟨value, s'⟩ := result
  cases value with
  | ok a => exact (htask.1 a s' rfl).1.rooted h
  | error e => exact htask.2 e s' rfl h

theorem new_rooted (settings : Settings) : (Session.new settings).Rooted := rfl

/-- The functions of the square root are in order after any tasks. -/
theorem after_rooted (settings : Settings) (tasks : List Task) :
    ((Session.new settings).after tasks).Rooted := by
  have hkeeps : ∀ s : Session, s.Rooted → (s.after tasks).Rooted := by
    induction tasks with
    | nil => exact fun s hs => hs
    | cons t rest ih => exact fun s hs => ih _ (hs.next t)
  exact hkeeps _ (new_rooted settings)

end Session

/-- What a new session has registered after a task that succeeds. Arms, loops and handlers have one
function each, which are named by the numbers from zero on, and the next number is how many there are.
A switch has a function for each of its cases, and two less for the ranges above them. The functions of
the square root are there if it is taken somewhere. There is nothing else. -/
theorem census_of_task (settings : Settings) (t : Task)
    (hok : (t.compile.outcome (Session.new settings)).1 = .ok ()) :
    let s := (Session.new settings).next t
    let items := t.items settings
    (∀ f ∈ [Feature.ifElse, .whileLoop, .doWhileLoop, .forLoop, .onEvent],
      s.peek f = (Item.ofFamily f items).length ∧
        s.names f = ((List.range (s.peek f)).map toString : List String)) ∧
    (s.peek .switchCase = (Item.ofFamily .switchCase items).length ∧
      s.names .switchCase = Item.generated .switchCase items 0 ∧
      (s.names .switchCase).card = (items.map fun i => i.caseCount + (i.caseCount - 2)).sum) ∧
    s.names .mathSqrt = (if Item.root ∈ items then {"main", "newton_raphson"} else 0) ∧
    ∀ e ∈ s.entries, ∃ f : Feature, f ≠ .logic ∧ e.1.1 = f.name := by
  intro s items
  obtain ⟨hgains, -⟩ := ((t.countsFiles settings).meets (Session.new settings) rfl).of_ok
    (Prod.ext hok rfl)
  have hpeek : ∀ f, f.isNumbered = true → s.peek f = (Item.ofFamily f items).length :=
    fun f hf => (hgains.numbers f hf).trans (Nat.zero_add _)
  have hnames : ∀ f, f.isNumbered = true → s.names f = Item.generated f items 0 := by
    intro f hf
    have hall := hgains.names f hf
    rwa [Pi.zero_apply, add_zero, show (Session.new settings).names f = 0 from rfl, zero_add] at hall
  refine ⟨fun f hf => ?_, ⟨hpeek _ rfl, hnames _ rfl, ?_⟩, ?_, fun e he => ?_⟩
  · have hnumbered : f.isNumbered = true ∧ f ≠ .switchCase := by
      revert f
      decide
    refine ⟨hpeek f hnumbered.1, ?_⟩
    rw [hnames f hnumbered.1, Item.generated_eq_range hnumbered.1 hnumbered.2, hpeek f hnumbered.1,
      List.range_eq_range']
  · rw [hnames _ rfl, Item.card_generated_switches]
  · have hrooted : s.Rooted := (Session.new_rooted settings).next t
    have hemitted : s.sqrtEmitted = decide (Item.root ∈ items) := hgains.sqrtEmitted
    rw [Session.names, hrooted, hemitted]
    by_cases hroot : Item.root ∈ items
    · rw [decide_eq_true hroot, if_pos hroot]
      rfl
    · rw [decide_eq_false hroot, if_neg hroot]
      rfl
  · have hsound := (Session.next_kept (Session.new_sound (.inTexts fun _ => False) settings) t).2.1
    obtain ⟨f, hfeature, -⟩ := hsound.paths e he
    refine ⟨f, ?_, hfeature⟩
    rintro rfl
    have hflags : s.names .logic = 0 := hgains.flags
    have hnone : s.ofFamily .logic = [] := by
      rwa [Session.names, Multiset.coe_eq_zero, List.map_eq_nil_iff] at hflags
    have hmem : e ∈ s.ofFamily .logic := List.mem_filter.mpr ⟨he, by simpa using hfeature⟩
    rw [hnone] at hmem
    cases hmem

/-- A tree with a file that takes a square root. -/
def rootTree : File.Tree :=
  ⟨[(⟨.working, ["root.quill".toList]⟩, .file (.text "$r = Math.sqrt(9);"))]⟩

/-- A chain in a loop, behind an import. -/
def chainText : String :=
  "import \"root\"; while ($a) \x7b if ($b) \x7b say a; \x7d else \x7b say b; \x7d \x7d"

theorem census_of_chain : let t := Task.text rootTree "main" chainText
    let s := (Session.new {}).next t
    t.items {} = [.root, .whileLoop, .arm, .arm] ∧
      s.names .whileLoop = ↑["0"] ∧ s.names .ifElse = ↑["0", "1"] ∧
      s.names .mathSqrt = {"main", "newton_raphson"} := by
  intro t s
  have hruns : (t.compile.outcome (Session.new {})).1 = .ok () ∧
      t.items {} = [.root, .whileLoop, .arm, .arm] := by
    decide +kernel
  obtain ⟨hnumbered, -, hroots, -⟩ := census_of_task {} t hruns.1
  obtain ⟨hloops, hloopNames⟩ := hnumbered .whileLoop (by decide)
  obtain ⟨harms, harmNames⟩ := hnumbered .ifElse (by decide)
  rw [hruns.2] at hloops harms hroots
  rw [hloops] at hloopNames
  rw [harms] at harmNames
  exact ⟨hruns.2, hloopNames, harmNames, hroots⟩

end Packwright
