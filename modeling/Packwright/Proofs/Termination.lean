import Mathlib.Data.Finset.Card
import Packwright.Proofs.Completion
import Packwright.Proofs.Termination.Constructs

/-!
# Compilation ends

Bodies, conditions and files can be inside one another, and each is read again where it is found: a
body from the text between its braces, a condition from its tokens, and a file from its path. Every
such step either reads less than what it was found in or begins a file that was not begun before. So
compilation ends, on every text and in every session, also where files import one another in cycles.

In the definitions, the steps that nest take a bound on how deep they go, and stop at it. No task
reaches its bounds, and any higher ones lead to the same.

## Main definitions

- `Session.unbegun` — how many files of a tree were not begun yet
- `Compile.EndsAt` — a step that reaches no bound in one session

## Main results

- `dispatchTree_of_lt` — ranges of a switch are halved down to single cases
- `Compile.importWithin_endsAt` — every bound that is not below the number of files left will do
- `compilation_ends` — conditions, ranges, bodies, files and tasks
-/

namespace Packwright

/-! ### Ranges -/

/-- Every bound that is not below the number of labels will do. -/
theorem dispatchWithin_eq {depth depth' count : Nat} (h : count ≤ depth) (h' : count ≤ depth')
    (low : Int) : dispatchWithin depth' low count = dispatchWithin depth low count := by
  -- halves of a range of several labels are shorter
  induction depth generalizing depth' low count with
  | zero =>
    obtain rfl : count = 0 := by omega
    cases depth' <;> rfl
  | succ depth ih =>
    cases depth' with
    | zero =>
      obtain rfl : count = 0 := by omega
      rfl
    | succ depth' =>
      unfold dispatchWithin
      split
      · rfl
      · have hleft : dispatchWithin depth' low (count / 2) = dispatchWithin depth low (count / 2) :=
          ih (by omega) (by omega) low
        have hright : dispatchWithin depth' (low + (count / 2 : Nat)) (count - count / 2) =
            dispatchWithin depth (low + (count / 2 : Nat)) (count - count / 2) :=
          ih (by omega) (by omega) _
        dsimp only
        rw [hleft, hright]

/-- A range of several labels is two halves. -/
theorem dispatchTree_of_lt (low : Int) {count : Nat} (h : 1 < count) :
    dispatchTree low count = .node low (low + count - 1) (dispatchTree low (count / 2))
      (dispatchTree (low + (count / 2 : Nat)) (count - count / 2)) := by
  obtain ⟨n, rfl⟩ : ∃ n, count = n + 1 := ⟨count - 1, by omega⟩
  have hleft : dispatchWithin n low ((n + 1) / 2) = dispatchTree low ((n + 1) / 2) :=
    dispatchWithin_eq le_rfl (by omega) low
  have hright : dispatchWithin n (low + ((n + 1) / 2 : Nat)) (n + 1 - (n + 1) / 2) =
      dispatchTree (low + ((n + 1) / 2 : Nat)) (n + 1 - (n + 1) / 2) :=
    dispatchWithin_eq le_rfl (by omega) _
  rw [← hleft, ← hright, dispatchTree, dispatchWithin, if_neg (by omega)]

/-! ### Steps in one session -/

namespace Compile

variable {α β : Type} {m m' : Compile α} {s : Session} {importer importer' : Importer}

/-- In this session the second step does what the first one does, which reaches no bound; and no file
is forgotten. -/
structure EndsAt (s : Session) (m m' : Compile α) : Prop where
  same : m'.outcome s = m.outcome s
  lasts : (m.outcome s).1 ≠ .error .exhausted
  begun : ∀ place ∈ s.imported, place ∈ (m.outcome s).2.imported

/-- A step of which it is known in every session. -/
theorem endsAt_of_ends {P : α → Prop} (h : Ends m m' P)
    (hbegun : (m.outcome s).2.imported = s.imported) : EndsAt s m m' :=
  ⟨(h s).1, h.lasts s, fun _ hplace => hbegun ▸ hplace⟩

/-- One step after another. -/
theorem EndsAt.bind {f f' : α → Compile β} (h : EndsAt s m m')
    (hf : ∀ a s', m.outcome s = (.ok a, s') → (∀ place ∈ s.imported, place ∈ s'.imported) →
      EndsAt s' (f a) (f' a)) : EndsAt s (m >>= f) (m' >>= f') := by
  obtain ⟨hsame, hlasts, hbegun⟩ := h
  rcases hrun : m.outcome s with ⟨value, s'⟩
  rw [hrun] at hsame hlasts hbegun
  cases value with
  | ok a =>
    obtain ⟨hsame', hlasts', hbegun'⟩ := hf a s' hrun hbegun
    constructor
    · rw [outcome_bind, outcome_bind, hsame, hrun]
      exact hsame'
    · rw [outcome_bind, hrun]
      exact hlasts'
    · rw [outcome_bind, hrun]
      exact fun place hplace => hbegun' place (hbegun place hplace)
  | error e =>
    constructor
    · rw [outcome_bind, outcome_bind, hsame, hrun]
    · rw [outcome_bind, hrun]
      exact fun h => hlasts (congrArg Except.error (Except.error.inj h))
    · rw [outcome_bind, hrun]
      exact hbegun

/-! ### Files -/

/-- The importers do the same, and end, wherever all files were begun that the session has begun. -/
def EndsFrom (s : Session) (importer importer' : Importer) : Prop :=
  ∀ t : Session, (∀ place ∈ s.imported, place ∈ t.imported) → ∀ path position,
    EndsAt t (importer path position) (importer' path position)

theorem EndsFrom.later {t : Session} (h : EndsFrom s importer importer')
    (ht : ∀ place ∈ s.imported, place ∈ t.imported) : EndsFrom t importer importer' :=
  fun u hu => h u fun place hplace => hu place (ht place hplace)

theorem topConstructs_endsAt (h : EndsFrom s importer importer') {depth : Nat} {cs : List Construct}
    (hcs : ∀ c ∈ cs, ∀ st ∈ c.statements, st.Within depth) (out : List Command) :
    EndsAt s (topConstructs (block depth) importer out cs)
      (topConstructs (block depth) importer' out cs) := by
  induction cs generalizing s out with
  | nil => exact endsAt_of_ends (ends_pure (P := fun _ => True) trivial) rfl
  | cons c rest ih =>
    obtain ⟨hc, hrest⟩ := List.forall_mem_cons.mp hcs
    unfold topConstructs
    split
    · next keyword tokens _ =>
      have htarget : ((ofExcept (importTarget keyword tokens)).outcome s).2.imported = s.imported := by
        cases importTarget keyword tokens <;> rfl
      refine (endsAt_of_ends (ends_ofExcept _) htarget).bind fun target s₁ _ h₁ => ?_
      -- the commands so far are put into the load function, which begins no file
      refine (endsAt_of_ends (ends_modify _) rfl).bind fun _ s₂ _ h₂ => ?_
      refine (endsAt_of_ends ends_get rfl).bind fun t s₃ _ h₃ => ?_
      have h' : EndsFrom s₃ importer importer' := ((h.later h₁).later h₂).later h₃
      refine (h' s₃ (fun _ hplace => hplace) _ _).bind fun _ s₄ _ h₄ => ?_
      exact ih (h'.later h₄) hrest []
    · have hends := construct_ends (block_ends (le_refl depth)) .top hc
      have hbuilds := construct_builds depth c s
      refine (endsAt_of_ends hends hbuilds.imported).bind fun commands s₁ _ h₁ => ?_
      exact ih (h.later h₁) hrest _

/-- The bound on nested bodies is above what the text of a file can have between brackets. -/
theorem topLevel_endsAt (h : EndsFrom s importer importer') (text : String) :
    EndsAt s (topLevel importer text) (topLevel importer' text) := by
  have hread := ends_tokenize .required Position.start text
  refine (endsAt_of_ends hread (tokenize_builds _ _ text s).imported).bind fun statements s₁ hrun h₁ => ?_
  obtain ⟨r, hr, rfl⟩ := hread.of_ok hrun
  have hwithin := constructs_within (n := maxNesting text) fun st hst t ht =>
    (tokenize_within hr st hst t ht).mono (Nat.le_succ _)
  refine (topConstructs_endsAt (h.later h₁) hwithin []).bind fun out s₂ _ _ => ?_
  exact endsAt_of_ends (ends_modify _) rfl

/-- A source does what its text does, with a message before it, and names itself afterwards. -/
theorem outcome_source (importer : Importer) (name text : String) (s : Session) :
    (source importer name text).outcome s =
      (((topLevel importer text).outcome
          { s with log := s.log ++ [⟨.debug, "compiling " ++ name⟩] }).1.mapError (inFile name text),
        { ((topLevel importer text).outcome
            { s with log := s.log ++ [⟨.debug, "compiling " ++ name⟩] }).2 with
          warnings := ((topLevel importer text).outcome
              { s with log := s.log ++ [⟨.debug, "compiling " ++ name⟩] }).2.warnings.take
                s.warnings.length ++
            (((topLevel importer text).outcome
              { s with log := s.log ++ [⟨.debug, "compiling " ++ name⟩] }).2.warnings.drop
                s.warnings.length).map (·.inFile name text) }) :=
  rfl

theorem source_endsAt (h : EndsFrom s importer importer') (name text : String) :
    EndsAt s (source importer name text) (source importer' name text) := by
  have htext := topLevel_endsAt (s := { s with log := s.log ++ [⟨.debug, "compiling " ++ name⟩] })
    h text
  constructor
  · rw [outcome_source, outcome_source, htext.same]
  · rw [outcome_source]
    have hlasts := htext.lasts
    generalize ((topLevel importer text).outcome _).1 = result at hlasts ⊢
    intro hexhausted
    cases result with
    | ok => cases hexhausted
    | error e =>
      -- naming a file does not make another failure of one
      cases e with
      | exhausted => exact hlasts rfl
      | fault | crash => cases hexhausted
  · exact htext.begun

/-- A file that was not begun is compiled once it is; any other one is left out. -/
theorem importWith_endsAt {files : File.Tree} {compile compile' : String → String → Compile Unit}
    (hcompile : ∀ place text, place ∉ s.imported → files.node? place = some (.file (.text text)) →
      ∀ name, EndsAt { s with imported := s.imported ++ [place] } (compile name text)
        (compile' name text))
    (path : File.Path) (position : Option Position) :
    EndsAt s (importWith files compile path position) (importWith files compile' path position) := by
  cases hread : files.read path with
  | error problem =>
    constructor
    · rw [importWith_unreadable hread, importWith_unreadable hread]
    · rw [importWith_unreadable hread]
      exact fun h => nomatch h
    · rw [importWith_unreadable hread]
      exact fun _ hplace => hplace
  | ok found =>
    obtain ⟨place, text⟩ := found
    by_cases hbegun : place ∈ s.imported
    · have hskip : ∀ compile, (importWith files compile path position).outcome s =
          outcome (debug ("'" ++ path.text ++ "' already compiled, skipping")) s := fun compile => by
        rw [outcome_importWith hread, if_pos (List.contains_iff_mem.mpr hbegun)]
      constructor
      · rw [hskip, hskip]
      · rw [hskip]
        exact fun h => nomatch h
      · rw [hskip]
        exact fun _ hplace => hplace
    · have hnew := hcompile place text hbegun (File.Tree.node?_of_read hread)
        (s.settings.displayName path)
      constructor
      · rw [importWith_new hread hbegun, importWith_new hread hbegun]
        exact hnew.same
      · rw [importWith_new hread hbegun]
        exact hnew.lasts
      · rw [importWith_new hread hbegun]
        exact fun p hp => hnew.begun p (List.mem_append_left _ hp)

end Compile

/-- How many files of the tree were not begun yet. -/
def Session.unbegun (files : File.Tree) (s : Session) : Nat :=
  ((files.nodes.map Prod.fst).toFinset \ s.imported.toFinset).card

namespace Session

variable {files : File.Tree} {s t : Session}

theorem unbegun_le (h : ∀ place ∈ s.imported, place ∈ t.imported) :
    t.unbegun files ≤ s.unbegun files := by
  refine Finset.card_le_card (Finset.sdiff_subset_sdiff (Finset.Subset.refl _) fun place hplace => ?_)
  exact List.mem_toFinset.mpr (h place (List.mem_toFinset.mp hplace))

theorem unbegun_le_length : s.unbegun files ≤ files.nodes.length := by
  refine (Finset.card_le_card Finset.sdiff_subset).trans ?_
  exact (List.toFinset_card_le _).trans (List.length_map _).le

/-- A file that is begun is one less that is left. -/
theorem unbegun_lt {place : File.Place} {text : String} (hnew : place ∉ s.imported)
    (hnode : files.node? place = some (.file (.text text))) :
    Session.unbegun files { s with imported := s.imported ++ [place] } < s.unbegun files := by
  have hmem : place ∈ files.nodes.map Prod.fst := by
    unfold File.Tree.node? at hnode
    split at hnode
    · cases hnode
    · obtain ⟨before, behind, hnodes, -⟩ := List.lookup_eq_some_iff.mp hnode
      rw [hnodes]
      simp
  refine Finset.card_lt_card (Finset.ssubset_iff_of_subset ?_ |>.mpr ⟨place, ?_, ?_⟩)
  · refine Finset.sdiff_subset_sdiff (Finset.Subset.refl _) fun p hp => ?_
    exact List.mem_toFinset.mpr (List.mem_append_left _ (List.mem_toFinset.mp hp))
  · exact Finset.mem_sdiff.mpr ⟨List.mem_toFinset.mpr hmem, fun h => hnew (List.mem_toFinset.mp h)⟩
  · simp

end Session

namespace Compile

/-- Every bound that is not below the number of files left will do. -/
theorem importWithin_endsAt {files : File.Tree} {depth depth' : Nat} {s : Session}
    (h : s.unbegun files ≤ depth) (h' : s.unbegun files ≤ depth') (path : File.Path)
    (position : Option Position) :
    EndsAt s (importWithin files depth path position) (importWithin files depth' path position) := by
  -- each file that is begun is one less that is left
  induction depth generalizing depth' s path position with
  | zero =>
    have hcompile : ∀ compile compile' : String → String → Compile Unit, EndsAt s
        (importWith files compile path position) (importWith files compile' path position) := by
      intro compile compile'
      refine importWith_endsAt (fun place text hnew hnode => ?_) path position
      exact absurd (Session.unbegun_lt hnew hnode) (by omega)
    cases depth' <;> exact hcompile _ _
  | succ depth ih =>
    cases depth' with
    | zero =>
      refine importWith_endsAt (fun place text hnew hnode => ?_) path position
      exact absurd (Session.unbegun_lt hnew hnode) (by omega)
    | succ depth' =>
      refine importWith_endsAt (fun place text hnew hnode name => ?_) path position
      have hless := Session.unbegun_lt hnew hnode
      refine source_endsAt (fun t ht path position => ?_) name text
      have hle : t.unbegun files ≤ Session.unbegun files { s with imported := s.imported ++ [place] } :=
        Session.unbegun_le ht
      exact ih (by omega) (by omega) path position

theorem importFile_endsAt (files : File.Tree) (s : Session) (path : File.Path)
    (position : Option Position) :
    EndsAt s (importFile files path position) (importFile files path position) := by
  have hle : s.unbegun files ≤ files.nodes.length + 1 :=
    Session.unbegun_le_length.trans (Nat.le_succ _)
  exact importWithin_endsAt hle hle path position

theorem step_lasts {m : Compile Unit} (h : ∀ s : Session, (m.outcome s).1 ≠ .error .exhausted)
    (s : Session) : ((step m).outcome s).1 ≠ .error .exhausted := by
  rw [step_outcome]
  split
  · exact h s
  · exact fun hfault => nomatch hfault

end Compile

/-- No task reaches a bound, whatever the session has done before. -/
theorem Task.lasts (t : Task) (s : Session) : (t.compile.outcome s).1 ≠ .error .exhausted := by
  have hfile : ∀ files path (s : Session),
      ((Compile.importFile files path none).outcome s).1 ≠ .error .exhausted := fun files path s =>
    (Compile.importFile_endsAt files s path none).lasts
  cases t with
  | text files name source =>
    refine Compile.step_lasts (fun s => ?_) s
    exact (Compile.source_endsAt (fun t _ path position =>
      Compile.importFile_endsAt files t path position) name source).lasts
  | file files path => exact Compile.step_lasts (hfile files path) s
  | entry files =>
    show ((Session.compileEntry files).outcome s).1 ≠ _
    rw [Compile.outcome_compileEntry]
    exact Compile.step_lasts (hfile files _) s

/-- Compilation ends. A condition is read within as many nested steps as it has characters; the ranges
of a switch are halved down to single cases; bodies are compiled within as many nested bodies as
characters stand between brackets, in every session; and an import is compiled within as many nested
files as were not begun yet. Higher bounds lead to the same, and no task reaches its bounds. -/
theorem compilation_ends :
    (∀ (position : Position) (tokens : List Token) (bound : Nat), Condition.weight tokens < bound →
      Condition.parseWithin bound position tokens = Condition.parseTokens position tokens ∧
        ∀ noted, ((Condition.parseTokens position tokens).run.run noted).1 ≠ .error .exhausted) ∧
    (∀ (low : Int) (count bound : Nat), count ≤ bound →
      dispatchWithin bound low count = dispatchTree low count ∧
        (1 < count → dispatchTree low count = .node low (low + count - 1) (dispatchTree low (count / 2))
          (dispatchTree (low + (count / 2 : Nat)) (count - count / 2)))) ∧
    (∀ (statements : List Statement) (size depth bound : Nat), (∀ st ∈ statements, st.Within size) →
      size < depth → depth ≤ bound →
      Compile.block bound statements = Compile.block depth statements ∧
        ∀ s : Session, ((Compile.block depth statements).outcome s).1 ≠ .error .exhausted) ∧
    (∀ (files : File.Tree) (s : Session) (depth bound : Nat), s.unbegun files ≤ depth →
      depth ≤ bound → ∀ (path : File.Path) (position : Option Position),
      (Compile.importWithin files bound path position).outcome s =
          (Compile.importWithin files depth path position).outcome s ∧
        ((Compile.importWithin files depth path position).outcome s).1 ≠ .error .exhausted) ∧
    ∀ (t : Task) (s : Session), (t.compile.outcome s).1 ≠ .error .exhausted := by
  refine ⟨?_, ?_, ?_, ?_, Task.lasts⟩
  · intro position tokens bound hbound
    have hends := Condition.parseWithin_ends position (Nat.lt_succ_self _) hbound
    exact ⟨hends.same, hends.lasts⟩
  · intro low count bound hbound
    exact ⟨dispatchWithin_eq le_rfl hbound low, dispatchTree_of_lt low⟩
  · intro statements size depth bound hstatements hsize hdepth
    have hends := Compile.block_ends hdepth size hsize statements hstatements
    exact ⟨hends.same, hends.lasts⟩
  · intro files s depth bound hdepth hbound path position
    have hends := Compile.importWithin_endsAt hdepth (hdepth.trans hbound) path position
    exact ⟨hends.same, hends.lasts⟩

end Packwright
