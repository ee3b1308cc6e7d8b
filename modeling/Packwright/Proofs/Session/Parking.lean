import Packwright.Proofs.Session.Outcomes
import Packwright.Proofs.Session.Reading

/-!
# Blocks in one pass

A block can also be compiled statement by statement. The arms of a chain and the body of a `do` are
then parked until a later statement, or the end of the block, shows that the construct is over. Each
statement but an `else` first emits a parked chain, and a parked body accepts nothing but its
`while`. The commands and the session are those of the constructs, compiled in turn.

## Main definitions

- `Progress` — the commands so far and what is parked
- `Compile.advance`, `Compile.onePass` — one statement in this state, and a whole block
- `Compile.inTurn` — constructs in turn, at any level

## Main results

- `Compile.onePass_eq_inTurn` — one pass does what the constructs do in turn
- `Compile.blockAt_eq_onePass` — a block at any level is compiled as in one pass
-/

namespace Packwright

/-- The body of a `do` that waits for its `while`. -/
structure PendingDo where
  keyword : Token
  /-- The number of the loop. -/
  id : Nat
  body : List Command

/-- A block in the middle of one pass. -/
structure Progress where
  out : List Command
  /-- The arms of a chain that may go on. -/
  chain : Option (List Branch)
  pending : Option PendingDo

namespace Compile

/-! ### One pass -/

/-- Emits a parked chain. -/
def flush (p : Progress) : Compile Progress :=
  match p.chain with
  | none => return p
  | some arms => return { p with out := p.out ++ (← chainCommands arms), chain := none }

/-- Fails if a `do` waits for its `while`. -/
def expectNoDo (p : Progress) : Compile Unit :=
  match p.pending with
  | none => return
  | some d => failAt d.keyword .doWithoutWhile

/-- Compiles the body of a `do`. -/
def beginDo (inner : Block) (keyword : Token) (rest : List Token) : Compile PendingDo :=
  match rest with
  | [braces] => do
    let id ← takeId .doWhileLoop
    return ⟨keyword, id, ← body inner braces⟩
  | _ => failAt keyword .doShape

/-- Compiles the `while` behind the body of a `do`. -/
def finishDo (d : PendingDo) (keyword : Token) (rest : List Token) : Compile (List Command) := do
  let name := toString d.id
  let head ← ofExcept (doWhileHead keyword rest)
  let c ← condition head
  let again ← call (Feature.doWhileLoop.path name)
  let _ ← allocate .doWhileLoop name (d.body ++ c.guardedCommands again)
  return [again]

/-- Compiles a statement: what may go on is parked, other commands come behind those so far. Those
go to the load function before an import. -/
def park (inner : Block) (importer : Importer) (level : Level) (p : Progress) (kind : StatementKind)
    (first : Token) (rest : List Token) : Compile Progress :=
  match kind with
  | .ifBranch => return { p with chain := some [← ifBranch inner first rest] }
  | .elseBranch =>
    match p.chain with
    | none => failAt first .elseWithoutIf
    | some arms => do
      let closed := (arms.getLast?.map (·.condition.isNone)).getD false
      return { p with chain := some (arms ++ [← elseBranch inner closed first rest]) }
  | .doLoop => return { p with pending := some (← beginDo inner first rest) }
  | .whileLoop =>
    match p.pending with
    | none => return { p with out := p.out ++ (← whileLoop inner first rest) }
    | some d => return { p with out := p.out ++ (← finishDo d first rest), pending := none }
  | .importFile => do
    let target ← ofExcept (importTarget first rest)
    modifyPack (·.extendLoad p.out)
    importer ((← get).settings.importPath target.value) (some target.position)
    return { p with out := [] }
  | kind => return { p with out := p.out ++ (← statement inner level kind first rest) }

/-- Goes on with a statement. -/
def advance (inner : Block) (importer : Importer) (level : Level) (p : Progress) (s : Statement) :
    Compile Progress := do
  let p ← if s.kind = .elseBranch then pure p else flush p
  if s.kind ≠ .whileLoop then expectNoDo p
  match s.tokens with
  | [] => return p
  | first :: rest => do
    ofExcept (level.check s.kind first)
    park inner importer level p s.kind first rest

/-- Goes on to the end of the block. -/
def passFrom (inner : Block) (importer : Importer) (level : Level) (p : Progress)
    (statements : List Statement) : Compile (List Command) := do
  let p ← flush (← statements.foldlM (advance inner importer level) p)
  expectNoDo p
  return p.out

/-- Compiles the statements of a block one by one. -/
def onePass (inner : Block) (importer : Importer) (level : Level) (statements : List Statement) :
    Compile (List Command) :=
  passFrom inner importer level ⟨[], none, none⟩ statements

/-! ### Constructs in turn -/

/-- Compiles constructs at a level in turn, behind the commands so far. -/
def inTurn (inner : Block) (importer : Importer) (level : Level) (out : List Command) :
    List Construct → Compile (List Command)
  | [] => return out
  | c :: rest =>
    match level, c.import? with
    | .top, some (keyword, tokens) => do
      let target ← ofExcept (importTarget keyword tokens)
      modifyPack (·.extendLoad out)
      importer ((← get).settings.importPath target.value) (some target.position)
      inTurn inner importer level [] rest
    | _, _ => do
      let commands ← construct inner level c
      inTurn inner importer level (out ++ commands) rest

/-- Compiles the statements of a block at a level, with at most `depth` bodies inside one another
in it: the top level of a file, the functions of a class, or a body. -/
def blockAt (depth : Nat) (importer : Importer) : Level → List Statement → Compile (List Command)
  | .top, statements => topConstructs (block depth) importer [] (constructs statements)
  | .inClass path, statements => do
    classFunctions (block depth) path statements
    return []
  | .body, statements => block (depth + 1) statements

/-! ### What parked constructs become -/

variable {inner : Block} {importer : Importer} {level : Level} {out : List Command}

/-- The commands of a chain whose arms so far are parked, given the `else` statements behind them. -/
def restOfChain (inner : Block) (arms : List Branch) (elses : List Statement) :
    Compile (List Command) := do
  chainCommands (← elseBranches inner arms elses)

/-- The commands of a `do` whose body is parked, given the `while` behind it. -/
def restOfDo (d : PendingDo) (tail : Option Statement) : Compile (List Command) :=
  match tail.map Statement.tokens with
  | some (keyword :: tokens) => finishDo d keyword tokens
  | _ => failAt d.keyword .doWithoutWhile

theorem chain_eq (keyword : Token) (rest : List Token) (elses : List Statement) :
    chain inner keyword rest elses =
      ifBranch inner keyword rest >>= fun arm => restOfChain inner [arm] elses :=
  rfl

theorem doWhile_eq (keyword : Token) (rest : List Token) (tail : Option Statement) :
    doWhile inner keyword rest tail =
      beginDo inner keyword rest >>= fun d => restOfDo d tail := by
  unfold doWhile beginDo restOfDo
  rcases rest with _ | ⟨braces, _ | ⟨extra, rest⟩⟩
  · rfl
  · simp only [bind_assoc, pure_bind]
    rfl
  · rfl

theorem restOfChain_cons {s : Statement} {keyword : Token} {tokens : List Token}
    (htokens : s.tokens = keyword :: tokens) (arms : List Branch) (elses : List Statement) :
    restOfChain inner arms (s :: elses) =
      elseBranch inner ((arms.getLast?.map (·.condition.isNone)).getD false) keyword tokens >>=
        fun arm => restOfChain inner (arms ++ [arm]) elses := by
  simp [restOfChain, elseBranches, htokens]

theorem check_of_not_inClass (hlevel : ∀ path, level ≠ .inClass path) {k : StatementKind}
    (hk : k = .elseBranch ∨ k = .whileLoop) (first : Token) : level.check k first = .ok () := by
  cases level with
  | top => rfl
  | inClass path => exact absurd rfl (hlevel path)
  | body => rcases hk with rfl | rfl <;> rfl

/-- Inside a class, only functions are allowed. -/
theorem not_inClass_of_check {k : StatementKind} {first : Token} {u : Unit}
    (hcheck : level.check k first = .ok u) (hk : k ≠ .function) (path : FunctionPath) :
    level ≠ .inClass path := by
  rintro rfl
  simp only [Level.check, if_neg hk] at hcheck
  cases hcheck

theorem failAt_bind {α β : Type} (t : Token) (cause : Cause) (g : α → Compile β) :
    failAt t cause >>= g = failAt t cause :=
  rfl

theorem passFrom_nil (p : Progress) :
    passFrom inner importer level p [] =
      flush p >>= fun p => expectNoDo p >>= fun _ => pure p.out := by
  simp [passFrom]

theorem passFrom_cons (p : Progress) (s : Statement) (rest : List Statement) :
    passFrom inner importer level p (s :: rest) =
      advance inner importer level p s >>= fun p => passFrom inner importer level p rest := by
  simp [passFrom]

/-- A statement other than an `else` emits a parked chain first. -/
theorem passFrom_cons_of_chain (arms : List Branch) {s : Statement} (hs : s.kind ≠ .elseBranch)
    (rest : List Statement) :
    passFrom inner importer level ⟨out, some arms, none⟩ (s :: rest) =
      chainCommands arms >>= fun commands =>
        passFrom inner importer level ⟨out ++ commands, none, none⟩ (s :: rest) := by
  simp [passFrom_cons, advance, hs, flush]

/-- A statement other than a `while` fails behind the body of a `do`. -/
theorem passFrom_cons_of_pending (d : PendingDo) {s : Statement} (hs : s.kind ≠ .whileLoop)
    (rest : List Statement) :
    passFrom inner importer level ⟨out, none, some d⟩ (s :: rest) =
      failAt d.keyword .doWithoutWhile := by
  simp [passFrom_cons, advance, hs, flush, expectNoDo, failAt_bind]

/-- The `while` behind the body of a `do` ends the loop. -/
theorem passFrom_cons_of_while (d : PendingDo) {s : Statement} (hs : s.kind = .whileLoop)
    {first : Token} {tokens : List Token} (htokens : s.tokens = first :: tokens)
    (hlevel : ∀ path, level ≠ .inClass path) (rest : List Statement) :
    passFrom inner importer level ⟨out, none, some d⟩ (s :: rest) =
      finishDo d first tokens >>= fun commands =>
        passFrom inner importer level ⟨out ++ commands, none, none⟩ rest := by
  simp [passFrom_cons, advance, hs, htokens, flush, check_of_not_inClass hlevel, park, ofExcept]

/-- With nothing parked, a statement only has to be allowed at the level. -/
theorem passFrom_cons_of_nothing {s : Statement} {first : Token} {tokens : List Token}
    (htokens : s.tokens = first :: tokens) (rest : List Statement) :
    passFrom inner importer level ⟨out, none, none⟩ (s :: rest) =
      ofExcept (level.check s.kind first) >>= fun _ =>
        park inner importer level ⟨out, none, none⟩ s.kind first tokens >>= fun p =>
          passFrom inner importer level p rest := by
  simp [passFrom_cons, advance, flush, expectNoDo, htokens]

/-- Only an import at the top level is not compiled like other constructs. -/
theorem inTurn_cons {c : Construct} (hc : level = .top → c.import? = none)
    (rest : List Construct) :
    inTurn inner importer level out (c :: rest) =
      construct inner level c >>= fun commands =>
        inTurn inner importer level (out ++ commands) rest := by
  cases level with
  | top => simp only [inTurn, hc rfl]
  | inClass path | body => simp only [inTurn]

theorem construct_chain {s : Statement} {first : Token} {tokens : List Token}
    (htokens : s.tokens = first :: tokens) (elses : List Statement) :
    construct inner level (.chain s elses) =
      ofExcept (level.check s.kind first) >>= fun _ =>
        ifBranch inner first tokens >>= fun arm => restOfChain inner [arm] elses := by
  simp only [construct, atLevel, htokens, chain_eq]

theorem construct_doWhile {s : Statement} {first : Token} {tokens : List Token}
    (htokens : s.tokens = first :: tokens) (tail : Option Statement) :
    construct inner level (.doWhile s tail) =
      ofExcept (level.check s.kind first) >>= fun _ =>
        beginDo inner first tokens >>= fun d => restOfDo d tail := by
  simp only [construct, atLevel, htokens, doWhile_eq]

theorem construct_single {s : Statement} {first : Token} {tokens : List Token}
    (htokens : s.tokens = first :: tokens) :
    construct inner level (.single s) =
      ofExcept (level.check s.kind first) >>= fun _ =>
        statement inner level s.kind first tokens := by
  simp only [construct, atLevel, htokens]

/-! ### One pass against constructs -/

/-- The `while` at the front of statements and the constructs behind it. -/
def splitWhile : List Statement → List Construct → Option Statement × List Construct
  | [], .single w :: later =>
    if w.kind = .whileLoop then (some w, later) else (none, .single w :: later)
  | elses, later => (none, elses.map .single ++ later)

theorem constructs_eq (l : List Statement) :
    constructs l = (splitElses l).1.map .single ++ (splitElses l).2 :=
  rfl

theorem addStatement_doLoop {s : Statement} (hs : s.kind = .doLoop) (elses : List Statement)
    (later : List Construct) :
    addStatement s elses later =
      .doWhile s (splitWhile elses later).1 :: (splitWhile elses later).2 := by
  unfold addStatement splitWhile
  rw [hs]
  rcases elses with _ | ⟨e, elses⟩
  · rcases later with _ | ⟨_ | _ | w, later⟩
    · rfl
    · rfl
    · rfl
    · by_cases hw : w.kind = .whileLoop <;> simp [hw]
  · rfl

theorem addStatement_single {s : Statement} (hif : s.kind ≠ .ifBranch) (hdo : s.kind ≠ .doLoop)
    (elses : List Statement) (later : List Construct) :
    addStatement s elses later = .single s :: (elses.map .single ++ later) := by
  unfold addStatement
  split
  · contradiction
  · contradiction
  · rfl

theorem constructs_cons {s : Statement} (hif : s.kind ≠ .ifBranch) (hdo : s.kind ≠ .doLoop)
    (helse : s.kind ≠ .elseBranch) (later : List Statement) :
    constructs (s :: later) = .single s :: constructs later := by
  unfold constructs
  rw [splitElses]
  simp only [helse, if_false, List.map_nil, List.nil_append]
  exact addStatement_single hif hdo _ _

theorem splitWhile_addStatement {s : Statement} (hs : s.kind ≠ .whileLoop) (elses : List Statement)
    (later : List Construct) : (splitWhile [] (addStatement s elses later)).1 = none := by
  unfold addStatement
  split
  · rfl
  · split
    · split <;> rfl
    · rfl
  · simp [splitWhile, hs]

/-- In one pass, statements do what their constructs do in turn: with nothing parked, behind the arms
of a chain and behind the body of a `do`. Nothing is parked inside a class. -/
structure Resumes (inner : Block) (importer : Importer) (level : Level) (l : List Statement) :
    Prop where
  nothing : ∀ out, passFrom inner importer level ⟨out, none, none⟩ l =
    inTurn inner importer level out (constructs l)
  chain : (∀ path, level ≠ .inClass path) → ∀ out arms,
    passFrom inner importer level ⟨out, some arms, none⟩ l =
      restOfChain inner arms (splitElses l).1 >>= fun commands =>
        inTurn inner importer level (out ++ commands) (splitElses l).2
  pending : (∀ path, level ≠ .inClass path) → ∀ out d,
    passFrom inner importer level ⟨out, none, some d⟩ l =
      restOfDo d (splitWhile (splitElses l).1 (splitElses l).2).1 >>= fun commands =>
        inTurn inner importer level (out ++ commands)
          (splitWhile (splitElses l).1 (splitElses l).2).2

theorem resumes_nil : Resumes inner importer level [] where
  nothing out := by simp [passFrom_nil, flush, expectNoDo, constructs, splitElses, inTurn]
  chain _ out arms := by
    simp [passFrom_nil, flush, expectNoDo, splitElses, inTurn, restOfChain, elseBranches]
  pending _ out d := by
    rw [passFrom_nil]
    rfl

/-- An `else` is one more arm of a parked chain, and misplaced anywhere else. -/
theorem resumes_cons_else {s : Statement} {l : List Statement} (hs : s.kind = .elseBranch)
    (ih : Resumes inner importer level l) : Resumes inner importer level (s :: l) := by
  obtain ⟨first, tokens, htokens⟩ := Statement.exists_tokens hs (by decide)
  have hsplit : splitElses (s :: l) = (s :: (splitElses l).1, (splitElses l).2) := by
    simp [splitElses, hs]
  refine ⟨?nothing, ?chain, ?pending⟩
  case nothing =>
    intro out
    have himport : (Construct.single s).import? = none := by simp [Construct.import?, hs]
    rw [passFrom_cons_of_nothing htokens, constructs_eq, hsplit, List.map_cons, List.cons_append,
      inTurn_cons fun _ => himport, construct_single htokens, bind_assoc, hs]
    rfl
  case chain =>
    intro hlevel out arms
    rw [hsplit, restOfChain_cons htokens]
    simp only [bind_assoc, ← ih.chain hlevel]
    simp [passFrom_cons, advance, hs, htokens, expectNoDo, check_of_not_inClass hlevel, park,
      ofExcept]
  case pending =>
    intro hlevel out d
    rw [hsplit, passFrom_cons_of_pending d (by rw [hs]; decide)]
    rfl

theorem passFrom_ifBranch {s : Statement} {l : List Statement} (hs : s.kind = .ifBranch)
    (ih : Resumes inner importer level l) (out : List Command) :
    passFrom inner importer level ⟨out, none, none⟩ (s :: l) =
      inTurn inner importer level out (.chain s (splitElses l).1 :: (splitElses l).2) := by
  obtain ⟨first, tokens, htokens⟩ := Statement.exists_tokens hs (by decide)
  rw [passFrom_cons_of_nothing htokens, inTurn_cons fun _ => rfl, construct_chain htokens,
    bind_assoc]
  -- a level that takes an `if` takes the `else` statements behind it as well
  cases hcheck : level.check s.kind first with
  | error f => rfl
  | ok u =>
    have hlevel := not_inClass_of_check hcheck (by rw [hs]; decide)
    simp only [bind_assoc, ← ih.chain hlevel]
    simp [hs, park]

theorem passFrom_doLoop {s : Statement} {l : List Statement} (hs : s.kind = .doLoop)
    (ih : Resumes inner importer level l) (out : List Command) :
    passFrom inner importer level ⟨out, none, none⟩ (s :: l) =
      inTurn inner importer level out
        (.doWhile s (splitWhile (splitElses l).1 (splitElses l).2).1 ::
          (splitWhile (splitElses l).1 (splitElses l).2).2) := by
  obtain ⟨first, tokens, htokens⟩ := Statement.exists_tokens hs (by decide)
  rw [passFrom_cons_of_nothing htokens, inTurn_cons fun _ => rfl, construct_doWhile htokens,
    bind_assoc]
  cases hcheck : level.check s.kind first with
  | error f => rfl
  | ok u =>
    have hlevel := not_inClass_of_check hcheck (by rw [hs]; decide)
    simp only [bind_assoc, ← ih.pending hlevel]
    simp [hs, park]

/-- With nothing parked, a statement that is not parked and no import adds its commands. -/
theorem park_statement {k : StatementKind} (hif : k ≠ .ifBranch) (helse : k ≠ .elseBranch)
    (hdo : k ≠ .doLoop) (himport : k ≠ .importFile) (out : List Command) (first : Token)
    (rest : List Token) :
    park inner importer level ⟨out, none, none⟩ k first rest =
      statement inner level k first rest >>= fun commands =>
        pure ⟨out ++ commands, none, none⟩ := by
  cases k <;> first | rfl | contradiction

/-- An import at the top level takes the commands so far; at other levels it fails. -/
theorem passFrom_importFile {s : Statement} {l : List Statement} (hs : s.kind = .importFile)
    (ih : Resumes inner importer level l) (out : List Command) :
    passFrom inner importer level ⟨out, none, none⟩ (s :: l) =
      inTurn inner importer level out (.single s :: constructs l) := by
  obtain ⟨first, tokens, htokens⟩ := Statement.exists_tokens hs (by decide)
  rw [passFrom_cons_of_nothing htokens]
  cases level with
  | top =>
    have himport : (Construct.single s).import? = some (first, tokens) := by
      simp [Construct.import?, hs, htokens]
    simp [inTurn, himport, ← ih.nothing, hs, park, Level.check, ofExcept]
  | inClass path | body =>
    rw [inTurn_cons (by simp), construct_single htokens, hs]
    rfl

theorem passFrom_single {s : Statement} {l : List Statement} (hif : s.kind ≠ .ifBranch)
    (helse : s.kind ≠ .elseBranch) (hdo : s.kind ≠ .doLoop) (himport : s.kind ≠ .importFile)
    (ih : Resumes inner importer level l) (out : List Command) :
    passFrom inner importer level ⟨out, none, none⟩ (s :: l) =
      inTurn inner importer level out (.single s :: constructs l) := by
  have hnone : (Construct.single s).import? = none :=
    Construct.import?_eq_none (by simpa [Construct.statements] using himport)
  rw [inTurn_cons fun _ => hnone]
  rcases htokens : s.tokens with _ | ⟨first, tokens⟩
  · simp [passFrom_cons, advance, htokens, flush, expectNoDo, construct, atLevel, ih.nothing]
  · rw [passFrom_cons_of_nothing htokens, construct_single htokens,
      park_statement hif helse hdo himport]
    simp only [bind_assoc, pure_bind, ih.nothing]

/-- A statement other than an `else` begins a construct, but for the `while` of a parked body. -/
theorem resumes_cons {s : Statement} {l : List Statement} (hs : s.kind ≠ .elseBranch)
    (ih : Resumes inner importer level l) : Resumes inner importer level (s :: l) := by
  have hsplit : splitElses (s :: l) = ([], addStatement s (splitElses l).1 (splitElses l).2) := by
    simp [splitElses, hs]
  have hnothing : ∀ out, passFrom inner importer level ⟨out, none, none⟩ (s :: l) =
      inTurn inner importer level out (addStatement s (splitElses l).1 (splitElses l).2) := by
    intro out
    by_cases hif : s.kind = .ifBranch
    · rw [passFrom_ifBranch hif ih]
      simp [addStatement, hif]
    by_cases hdo : s.kind = .doLoop
    · rw [passFrom_doLoop hdo ih, addStatement_doLoop hdo]
    rw [addStatement_single hif hdo, ← constructs_eq]
    by_cases himport : s.kind = .importFile
    · exact passFrom_importFile himport ih out
    · exact passFrom_single hif hs hdo himport ih out
  refine ⟨?nothing, ?chain, ?pending⟩
  case nothing =>
    intro out
    rw [hnothing, constructs_eq, hsplit]
    rfl
  case chain =>
    intro hlevel out arms
    -- the chain is over, so it is emitted and nothing is parked any more
    rw [passFrom_cons_of_chain arms hs]
    simp only [hnothing, hsplit]
    rfl
  case pending =>
    intro hlevel out d
    rw [hsplit]
    by_cases hwhile : s.kind = .whileLoop
    · obtain ⟨first, tokens, htokens⟩ := Statement.exists_tokens hwhile (by decide)
      rw [passFrom_cons_of_while d hwhile htokens hlevel,
        addStatement_single (by simp [hwhile]) (by simp [hwhile]), ← constructs_eq]
      simp [splitWhile, hwhile, restOfDo, htokens, ih.nothing]
    · rw [passFrom_cons_of_pending d hwhile, splitWhile_addStatement hwhile]
      rfl

/-- One pass over the statements does what their constructs do in turn, whatever is parked. -/
theorem resumes (l : List Statement) : Resumes inner importer level l := by
  induction l with
  | nil => exact resumes_nil
  | cons s l ih =>
    by_cases hs : s.kind = .elseBranch
    · exact resumes_cons_else hs ih
    · exact resumes_cons hs ih

/-- One pass over a block does what its constructs do in turn. -/
theorem onePass_eq_inTurn (inner : Block) (importer : Importer) (level : Level)
    (statements : List Statement) :
    onePass inner importer level statements =
      inTurn inner importer level [] (constructs statements) :=
  (resumes statements).nothing []

/-! ### Blocks at a level -/

theorem inTurn_top (out : List Command) (cs : List Construct) :
    inTurn inner importer .top out cs = topConstructs inner importer out cs := by
  induction cs generalizing out with
  | nil => rfl
  | cons c rest ih =>
    rcases hc : c.import? with _ | ⟨keyword, tokens⟩ <;> simp only [inTurn, topConstructs, hc, ih]

theorem inTurn_body (out : List Command) (cs : List Construct) :
    inTurn inner importer .body out cs =
      bodyConstructs inner cs >>= fun commands => pure (out ++ commands) := by
  induction cs generalizing out with
  | nil => simp [inTurn, bodyConstructs]
  | cons c rest ih => simp [inTurn_cons, bodyConstructs, ih]

/-- The statements of a class are its functions, and nothing is parked. -/
theorem passFrom_inClass (path : FunctionPath) (out : List Command) (l : List Statement) :
    passFrom inner importer (.inClass path) ⟨out, none, none⟩ l =
      classFunctions inner path l >>= fun _ => pure out := by
  induction l with
  | nil => simp [passFrom_nil, flush, expectNoDo, classFunctions]
  | cons s rest ih =>
    rcases htokens : s.tokens with _ | ⟨first, tokens⟩
    · simp [passFrom_cons, advance, htokens, flush, expectNoDo, classFunctions, ih]
    · rw [passFrom_cons_of_nothing htokens]
      simp only [classFunctions, htokens, bind_assoc]
      by_cases hs : s.kind = .function
      · rw [hs, park_statement (by decide) (by decide) (by decide) (by decide)]
        simp [statement, Level.functions, ih]
      · simp only [Level.check, if_neg hs]
        rfl

/-- A block at any level is compiled as in one pass. -/
theorem blockAt_eq_onePass (depth : Nat) (importer : Importer) (level : Level)
    (statements : List Statement) :
    blockAt depth importer level statements =
      onePass (block depth) importer level statements := by
  cases level with
  | top => rw [onePass_eq_inTurn, inTurn_top, blockAt]
  | inClass path => rw [onePass, passFrom_inClass, blockAt]
  | body =>
    rw [onePass_eq_inTurn, inTurn_body, blockAt, block]
    simp

end Compile

end Packwright
