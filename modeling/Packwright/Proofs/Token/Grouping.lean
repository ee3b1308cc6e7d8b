import Packwright.Proofs.Token.Tiling

/-!
# Statements with and without terminators

Whether statements have to be terminated does not change the lexemes of a text, only how they are
grouped. Without terminators a statement is all that stands between two semicolons. With them a
statement also ends at the brace of a block, so each one is a piece of a statement of the first kind,
and no token may be left behind the last end.

## Main definitions

- `tokenRuns` — the runs of tokens between semicolons
- `idleSemicolons` — the semicolons that close no token
- `closesBlock`, `openTokens` — braces that end a block, and what stands behind the last end

## Main results

- `groupLexemes_runs` — statements without terminators are the runs between semicolons
- `groupLexemes_required` — statements with terminators leave no token open
- `groupLexemes_pieces` — each of them is a piece of a run
- `modes_differ_in_grouping` — all of it for a text
-/

namespace Packwright

/-- The position of a semicolon. -/
def Lexeme.semicolon? : Lexeme → Option Position
  | .token _ => none
  | .semicolon p => some p

/-- The runs of tokens between semicolons: one before each semicolon, and one behind the last. -/
def tokenRuns : List Lexeme → List (List Token)
  | [] => [[]]
  | .token t :: rest => (tokenRuns rest).modifyHead (t :: ·)
  | .semicolon _ :: rest => [] :: tokenRuns rest

/-- The runs of tokens when some tokens stand in front. -/
def runsBehind (current : List Token) (all : List Lexeme) : List (List Token) :=
  (tokenRuns all).modifyHead (current ++ ·)

/-- The semicolons whose run of tokens is empty. -/
def emptyRuns (runs : List (List Token)) (semicolons : List Position) : List Position :=
  ((runs.zip semicolons).filter (·.1.isEmpty)).map Prod.snd

/-- The semicolons that close no token. -/
def idleSemicolons (all : List Lexeme) : List Position :=
  emptyRuns (tokenRuns all) (all.filterMap Lexeme.semicolon?)

/-- Whether a token is the brace that ends the block of a statement with the tokens before it. -/
def closesBlock (before : List Token) (t : Token) : Bool :=
  t.isGroup .curly && opensBlock (before ++ [t])

/-- The tokens behind the last end of a statement, with one more lexeme. -/
def openWith (before : List Token) : Lexeme → List Token
  | .token t => if closesBlock before t then [] else before ++ [t]
  | .semicolon _ => []

/-- The tokens that remain behind the last semicolon or block-closing brace. -/
def openTokens (all : List Lexeme) : List Token := all.foldl openWith []

/-! ### Without terminators -/

theorem tokenRuns_ne_nil (all : List Lexeme) : tokenRuns all ≠ [] := by
  induction all with
  | nil => exact List.cons_ne_nil _ _
  | cons lexeme rest ih =>
    cases lexeme with
    | token t => rwa [tokenRuns, Ne, List.modifyHead_eq_nil_iff]
    | semicolon p => exact List.cons_ne_nil _ _

@[simp] theorem runsBehind_nil (all : List Lexeme) : runsBehind [] all = tokenRuns all := by
  show (tokenRuns all).modifyHead id = tokenRuns all
  rw [List.modifyHead_id]
  rfl

/-- A token in front belongs to the first run. -/
theorem runsBehind_token (current : List Token) (t : Token) (rest : List Lexeme) :
    runsBehind current (.token t :: rest) = runsBehind (current ++ [t]) rest := by
  rw [runsBehind, tokenRuns, List.modifyHead_modifyHead, runsBehind]
  congr 1
  funext run
  simp

theorem runsBehind_semicolon (current : List Token) (p : Position) (rest : List Lexeme) :
    runsBehind current (.semicolon p :: rest) = current :: tokenRuns rest := by
  rw [runsBehind, tokenRuns, List.modifyHead_cons, List.append_nil]

/-- The first run begins with the tokens that stand in front. -/
theorem exists_mem_runsBehind (current : List Token) (all : List Lexeme) :
    ∃ run ∈ runsBehind current all, current <+: run := by
  obtain ⟨first, more, hruns⟩ := List.exists_cons_of_ne_nil (tokenRuns_ne_nil all)
  refine ⟨current ++ first, ?_, List.prefix_append current first⟩
  rw [runsBehind, hruns, List.modifyHead_cons]
  exact List.mem_cons_self

theorem emptyRuns_cons (run : List Token) (runs : List (List Token)) (p : Position)
    (semicolons : List Position) :
    emptyRuns (run :: runs) (p :: semicolons) =
      if run.isEmpty then p :: emptyRuns runs semicolons else emptyRuns runs semicolons := by
  by_cases hrun : run.isEmpty = true <;> simp [emptyRuns, hrun]

/-- The warning at a semicolon that closes no token. -/
def emptyStatementAt (p : Position) : Warning := ⟨.emptyStatement, some p.location⟩

/-- Statements without terminators are the runs between semicolons that have a token, with a warning
for each semicolon behind one that has none. -/
theorem groupLexemes_runs (current : List Token) (all : List Lexeme) :
    groupLexemes .optional current all = .ok
      { statements := ((runsBehind current all).filter (!·.isEmpty)).map Statement.mk
        warnings := (emptyRuns (runsBehind current all) (all.filterMap Lexeme.semicolon?)).map
          emptyStatementAt } := by
  induction all generalizing current with
  | nil =>
    cases hlast : current.getLast? with
    | none =>
      obtain rfl := List.getLast?_eq_none_iff.mp hlast
      rfl
    | some last =>
      have hne : current ≠ [] := by
        rintro rfl
        cases hlast
      simp [groupLexemes, hlast, runsBehind, tokenRuns, emptyRuns, hne]
  | cons lexeme rest ih =>
    cases lexeme with
    | token t =>
      rw [runsBehind_token, groupLexemes]
      exact ih (current ++ [t])
    | semicolon p =>
      have hrest := ih []
      rw [runsBehind_nil] at hrest
      rw [runsBehind_semicolon, groupLexemes, hrest,
        List.filterMap_cons_some (by rfl : Lexeme.semicolon? (.semicolon p) = some p),
        emptyRuns_cons]
      by_cases hempty : current.isEmpty = true
      · simp [hempty, Except.map, emptyStatementAt]
      · simp [hempty, Except.map]

/-! ### With terminators -/

theorem endsAtBrace_required (current : List Token) (t : Token) :
    endsAtBrace .required (current ++ [t]) = closesBlock current t := by
  simp [endsAtBrace, closesBlock]

/-- Statements with terminators are there if no token is left open; else the fault stands behind the
last token. -/
theorem groupLexemes_required (current : List Token) (all : List Lexeme) :
    match (all.foldl openWith current).getLast? with
    | none => ∃ r, groupLexemes .required current all = .ok r
    | some last => groupLexemes .required current all =
        .error (.located .missingSemicolon (missingSemicolonAt last)) := by
  induction all generalizing current with
  | nil =>
    rw [List.foldl_nil, groupLexemes]
    cases current.getLast? with
    | none => exact ⟨_, rfl⟩
    | some last => rfl
  | cons lexeme rest ih =>
    -- what is left open behind the rest decides, whatever statement ends here
    have hmap : ∀ f : Reading → Reading,
        match (rest.foldl openWith []).getLast? with
        | none => ∃ r, (groupLexemes .required [] rest).map f = .ok r
        | some last => (groupLexemes .required [] rest).map f =
            .error (.located .missingSemicolon (missingSemicolonAt last)) := by
      intro f
      have hrest := ih []
      split at hrest
      · obtain ⟨r, hr⟩ := hrest
        exact ⟨f r, by rw [hr]; rfl⟩
      · rw [hrest]
        rfl
    rw [List.foldl_cons]
    cases lexeme with
    | token t =>
      rw [groupLexemes, endsAtBrace_required, openWith]
      by_cases hcloses : closesBlock current t = true
      · rw [if_pos hcloses, if_pos hcloses]
        exact hmap _
      · rw [if_neg hcloses, if_neg hcloses]
        exact ih (current ++ [t])
    | semicolon p =>
      rw [groupLexemes, openWith]
      by_cases hempty : current.isEmpty = true
      · rw [if_pos hempty]
        exact hmap _
      · rw [if_neg hempty]
        exact hmap _

/-- Each statement with a terminator has a token, and is a piece of a run between semicolons. The
tokens of the run that stand before the current statement are in `before`. -/
theorem groupLexemes_pieces {current : List Token} {all : List Lexeme} {r : Reading}
    (before : List Token) (h : groupLexemes .required current all = .ok r) :
    ∀ st ∈ r.statements, st.tokens ≠ [] ∧
      ∃ run ∈ runsBehind (before ++ current) all, st.tokens <:+: run := by
  induction all generalizing current before r with
  | nil =>
    intro st hst
    rw [groupLexemes] at h
    cases hlast : current.getLast? with
    | none =>
      rw [hlast] at h
      obtain rfl := Except.ok.inj h
      cases hst
    | some last =>
      rw [hlast] at h
      cases h
  | cons lexeme rest ih =>
    intro st hst
    cases lexeme with
    | token t =>
      rw [runsBehind_token, List.append_assoc]
      rw [groupLexemes] at h
      by_cases hends : endsAtBrace .required (current ++ [t]) = true
      · rw [if_pos hends] at h
        obtain ⟨later, hlater, rfl⟩ := exists_of_map_ok h
        cases List.mem_cons.mp hst with
        | inl hfirst =>
          obtain ⟨run, hrun, hfront⟩ := exists_mem_runsBehind (before ++ (current ++ [t])) rest
          subst hfirst
          refine ⟨by simp, run, hrun, ?_⟩
          exact (List.suffix_append before _).isInfix.trans hfront.isInfix
        | inr hrest =>
          have hpiece := ih (before ++ (current ++ [t])) hlater st hrest
          rwa [List.append_nil] at hpiece
      · rw [if_neg hends] at h
        exact ih before h st hst
    | semicolon p =>
      rw [runsBehind_semicolon]
      -- a later statement is a piece of a later run
      have hlater : ∀ {r' : Reading}, groupLexemes .required [] rest = .ok r' →
          st ∈ r'.statements → st.tokens ≠ [] ∧
            ∃ run ∈ (before ++ current) :: tokenRuns rest, st.tokens <:+: run := by
        intro r' hr' hst'
        obtain ⟨hne, run, hrun, hpiece⟩ := ih [] hr' st hst'
        rw [List.nil_append, runsBehind_nil] at hrun
        exact ⟨hne, run, List.mem_cons_of_mem _ hrun, hpiece⟩
      rw [groupLexemes] at h
      by_cases hempty : current.isEmpty = true
      · rw [if_pos hempty] at h
        obtain ⟨r', hr', rfl⟩ := exists_of_map_ok h
        exact hlater hr' hst
      · rw [if_neg hempty] at h
        obtain ⟨r', hr', rfl⟩ := exists_of_map_ok h
        cases List.mem_cons.mp hst with
        | inl hfirst =>
          subst hfirst
          refine ⟨by simpa using hempty, before ++ current, List.mem_cons_self, ?_⟩
          exact (List.suffix_append before current).isInfix
        | inr hrest => exact hlater hr' hrest

/-! ### The two modes -/

/-- The two modes differ only in grouping. If a text cannot be read without terminators, it cannot be
read with them, for the same fault. Else its lexemes are laid out in it, and the statements without
terminators are the runs of tokens between semicolons that are not empty, with one warning for each
semicolon that closes no token. If no token is left behind the last semicolon or block-closing brace,
the statements with terminators have the same tokens, each statement being a piece of one without
terminators; if a token is left, the fault is a missing semicolon. -/
theorem modes_differ_in_grouping (start : Position) (source : String) :
    (∀ f, tokenize .optional start source = .error f →
      tokenize .required start source = .error f) ∧
    ∀ r, tokenize .optional start source = .ok r →
      ∃ all, lexemes start source.toList = .ok all ∧ Layout ⟨0, start⟩ all source.toList ∧
        r.statements.map Statement.tokens = (tokenRuns all).filter (!·.isEmpty) ∧
        r.warnings = (idleSemicolons all).map emptyStatementAt ∧
        (openTokens all = [] →
          ∃ r', tokenize .required start source = .ok r' ∧ r'.tokens = r.tokens ∧
            ∀ st' ∈ r'.statements, ∃ st ∈ r.statements, st'.tokens <:+: st.tokens) ∧
        (openTokens all ≠ [] →
          ∃ f, tokenize .required start source = .error f ∧ f.cause = .missingSemicolon ∧
            f.cause.message = "expected ';' at end of statement") := by
  constructor
  · intro f hf
    cases hall : lexemes start source.toList with
    | error f' =>
      rw [tokenize, hall] at hf ⊢
      exact hf
    | ok all =>
      rw [tokenize, hall] at hf
      exact absurd ((groupLexemes_runs [] all).symm.trans hf) (by simp)
  · intro r hr
    obtain ⟨all, hall, hgroup⟩ := exists_of_bind_ok hr
    have hruns := groupLexemes_runs [] all
    rw [runsBehind_nil] at hruns
    obtain rfl : _ = r := Except.ok.inj (hruns.symm.trans hgroup)
    have hrequired : tokenize .required start source = groupLexemes .required [] all := by
      rw [tokenize, hall]
      rfl
    have hcases := groupLexemes_required [] all
    refine ⟨all, hall, lexemes_layout hall, ?_, rfl, fun hnone => ?_, fun hsome => ?_⟩
    · rw [List.map_map]
      exact List.map_id _
    · rw [openTokens] at hnone
      rw [hnone] at hcases
      obtain ⟨r', hr'⟩ := hcases
      refine ⟨r', hrequired.trans hr', ?_, fun st' hst' => ?_⟩
      · rw [groupLexemes_tokens hr', groupLexemes_tokens hgroup]
      · obtain ⟨hne, run, hrun, hpiece⟩ := groupLexemes_pieces [] hr' st' hst'
        rw [List.nil_append, runsBehind_nil] at hrun
        have hrun' : run ≠ [] := by
          rintro rfl
          exact hne (List.infix_nil.mp hpiece)
        refine ⟨⟨run⟩, List.mem_map_of_mem (List.mem_filter.mpr ⟨hrun, ?_⟩), hpiece⟩
        simpa using hrun'
    · rw [← openTokens, List.getLast?_eq_some_getLast hsome] at hcases
      exact ⟨_, hrequired.trans hcases, rfl, rfl⟩

/-- A block and a command behind it, with a semicolon too many. -/
def blockText : String := "if (a) \x7b b; \x7d say c;;"

/-- The last command has no semicolon. -/
def looseText : String := "say a; say b"

/-- A group that is not closed. -/
def unclosedText : String := "say (a"

def unclosedFault : Fault := .located (.neverClosed '(') ⟨1, 5⟩

/-- Without terminators the block and the command are one statement, with them they are two. -/
theorem block_differs_in_grouping :
    (tokenize .optional Position.start unclosedText = .error unclosedFault ∧
      tokenize .required Position.start unclosedText = .error unclosedFault) ∧
    (∃ r r' all, tokenize .optional Position.start blockText = .ok r ∧
      lexemes Position.start blockText.toList = .ok all ∧ openTokens all = [] ∧
      tokenize .required Position.start blockText = .ok r' ∧ r'.tokens = r.tokens ∧
      r.statements.length = 1 ∧ r'.statements.length = 2 ∧
      r.warnings = [emptyStatementAt ⟨1, 21⟩] ∧
      ∀ st' ∈ r'.statements, ∃ st ∈ r.statements, st'.tokens <:+: st.tokens) ∧
    ∃ r all f, tokenize .optional Position.start looseText = .ok r ∧
      lexemes Position.start looseText.toList = .ok all ∧ openTokens all ≠ [] ∧
      tokenize .required Position.start looseText = .error f ∧ f.cause = .missingSemicolon := by
  have hunclosed : tokenize .optional Position.start unclosedText = .error unclosedFault := by
    decide +kernel
  have hblock : (tokenize .optional Position.start blockText).toOption.map
      (fun r => (r.statements.length, r.warnings)) = some (1, [emptyStatementAt ⟨1, 21⟩]) := by
    decide +kernel
  have hblock' : (tokenize .required Position.start blockText).toOption.map
      (·.statements.length) = some 2 := by
    decide +kernel
  have hopen : (lexemes Position.start blockText.toList).toOption.map openTokens = some [] := by
    decide +kernel
  have hloose : (tokenize .optional Position.start looseText).toOption.isSome = true := by
    decide +kernel
  have hleft : (lexemes Position.start looseText.toList).toOption.map
      (fun all => (openTokens all).length) = some 2 := by
    decide +kernel
  refine ⟨⟨hunclosed, (modes_differ_in_grouping _ _).1 _ hunclosed⟩, ?_, ?_⟩
  · cases hr : tokenize .optional Position.start blockText with
    | error f =>
      rw [hr] at hblock
      cases hblock
    | ok r =>
      rw [hr] at hblock
      obtain ⟨hlength, hwarnings⟩ := Prod.mk.inj (Option.some.inj hblock)
      obtain ⟨all, hall, -, -, -, hclosed, -⟩ := (modes_differ_in_grouping _ _).2 r hr
      rw [hall] at hopen
      have hnone : openTokens all = [] := Option.some.inj hopen
      obtain ⟨r', hr', htokens, hpieces⟩ := hclosed hnone
      rw [hr'] at hblock'
      exact ⟨r, r', all, rfl, hall, hnone, hr', htokens, hlength, Option.some.inj hblock',
        hwarnings, hpieces⟩
  · cases hr : tokenize .optional Position.start looseText with
    | error f =>
      rw [hr] at hloose
      cases hloose
    | ok r =>
      obtain ⟨all, hall, -, -, -, -, hopened⟩ := (modes_differ_in_grouping _ _).2 r hr
      rw [hall] at hleft
      have hsome : openTokens all ≠ [] := by
        intro hnil
        have hlength : (openTokens all).length = 2 := Option.some.inj hleft
        rw [hnil] at hlength
        cases hlength
      obtain ⟨f, hf, hcause, -⟩ := hopened hsome
      exact ⟨r, all, f, rfl, hall, hsome, hf, hcause⟩

end Packwright
