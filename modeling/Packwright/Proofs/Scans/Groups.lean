import Packwright.Proofs.Census.Counting
import Packwright.Proofs.Termination.Constructs
import Packwright.Proofs.Token.Semicolons

/-!
# Groups that are opened

Compilation reads a text more than once: first the text of a file, and then the inside of each group that
statements, conditions or arguments stand in, from where the group was found. Which groups are opened, for
what, and in which order, can be told from the text of a file alone if it compiles. Each time some
semicolons may be found that end nothing. The session keeps the warnings about them, but for those inside
conditions and argument lists, which only go to the log.

The groups that a construct opens are among its tokens, in their order. What is read inside a group has
tokens of its own that differ from one another, so no group is opened twice, and no text is read twice.

## Main definitions

- `Purpose`, `Purpose.isKept` — what a text is read for, and what becomes of its warnings
- `Opening`, `Opening.ofConstruct`, `Opening.inside` — the groups that are opened in a construct, and
  inside a group
- `Scan`, `Opening.scans` — a text that is read, and all that is read inside a group
- `Tour`, `Task.tour` — all that is read for files, and for a task
- `groupsOf`, `Opening.Among` — the groups among some tokens, and groups that are opened in their order
- `Scan.ReadsIn` — a scan of a text, or of the inside of a group there

## Main results

- `Opening.among_ofConstruct`, `Opening.among_inside` — the groups of a construct and inside a group
- `Opening.scans_eq`, `Opening.scans_induction` — what is read for a group, and for those inside of it
- `Opening.nodup_scans`, `Opening.scans_readIn` — no group is read twice, and each is in the text
-/

namespace Packwright

/-! ### What is read -/

/-- What a text is read for. -/
inductive Purpose where
  | file
  | body
  | classBody
  | switchBody
  | forHeader
  | condition
  /-- The arguments of a call. -/
  | arguments (b : Builtin)
  deriving DecidableEq, Repr, Inhabited

namespace Purpose

/-- How statements end in the text. -/
def terminator : Purpose → Terminator
  | file | body | classBody | switchBody => .required
  | forHeader | condition | arguments _ => .optional

/-- Whether the session keeps the warnings. Those of conditions and argument lists only go to the
log. -/
def isKept : Purpose → Bool
  | condition | arguments _ => false
  | _ => true

end Purpose

/-! ### Groups of a construct -/

/-- A group that is opened, and what for. -/
structure Opening where
  purpose : Purpose
  group : Token
  deriving DecidableEq, Repr, Inhabited

namespace Opening

open Census (reading noting)

/-- Every round group in a condition holds a condition. -/
def ofCondition (tokens : List Token) : List Opening :=
  (tokens.filter (·.isGroup .round)).map fun t => ⟨.condition, t⟩

/-- The groups behind `if` or `while`. -/
def ofHead : List Token → List Opening
  | [head, braces] => [⟨.condition, head⟩, ⟨.body, braces⟩]
  | _ => []

/-- The groups behind `else`. -/
def ofElse : List Token → List Opening
  | [] => []
  | [braces] => [⟨.body, braces⟩]
  | _ :: rest => ofHead rest

/-- The arguments of a call. -/
def ofCall (b : Builtin) : List Token → List Opening
  | [group] => [⟨.arguments b, group⟩]
  | _ => []

/-- The right side of an assignment, which may be a call. -/
def ofAssigned (right : List Token) : List Opening :=
  match right with
  | [] => []
  | first :: rest =>
    if Compile.isValueToken {} first then []
    else
      match (Statement.mk right).kind with
      | .builtin b => ofCall b rest
      | _ => []

def ofPlainVariable (first : Token) (rest : List Token) : List Opening :=
  if Census.isGet first rest then []
  else
    match Assignment.ofTokens? (first :: rest) with
    | some a => if a.operator = .assign then ofAssigned a.right else []
    | none => []

/-- A variable statement. -/
def ofVariable (first : Token) (rest : List Token) : List Opening :=
  if first.isWord "let" then
    match rest with
    | [] => []
    | name :: rest => ofPlainVariable name rest
  else ofPlainVariable first rest

/-- The body of a function, behind its first word. -/
def ofFunction : List Token → List Opening
  | [_, _, braces] => [⟨.body, braces⟩]
  | _ => []

/-- The condition behind the `while` of a `do`. -/
def ofTail : List Token → List Opening
  | [head] => [⟨.condition, head⟩]
  | _ => []

/-- The body of a `do`. -/
def ofDo : List Token → List Opening
  | [braces] => [⟨.body, braces⟩]
  | _ => []

/-- A statement of its own. -/
def ofStatement (kind : StatementKind) (first : Token) (rest : List Token) : List Opening :=
  match kind, rest with
  | .function, rest => ofFunction rest
  | .classDefinition, [_, braces] => [⟨.classBody, braces⟩]
  | .ifBranch, rest | .whileLoop, rest => ofHead rest
  | .forLoop, [head, braces] => [⟨.forHeader, head⟩, ⟨.body, braces⟩]
  | .switch, [_, braces] => [⟨.switchBody, braces⟩]
  | .doLoop, rest => ofDo rest
  | .variableChange, rest => ofVariable first rest
  | .builtin b, rest => ofCall b rest
  | _, _ => []

/-- The groups of a statement, by its first token and those behind. -/
def ofTokens (s : Statement) (groups : Token → List Token → List Opening) : List Opening :=
  match s.tokens with
  | [] => []
  | first :: rest => groups first rest

def ofConstruct : Construct → List Opening
  | .chain s elses => ofTokens s fun _ rest => ofHead rest ++ elses.flatMap fun e => ofElse e.tokens.tail
  | .doWhile s tail =>
    ofTokens s fun _ rest => ofDo rest ++ tail.toList.flatMap fun w => ofTail w.tokens.tail
  | .single s => ofTokens s (ofStatement s.kind)

/-- The statements of a body. -/
def ofBlock (statements : List Statement) : List Opening := (constructs statements).flatMap ofConstruct

/-- The cases of a switch. -/
def ofCases (statements : List Statement) : List Opening :=
  reading (statements.foldlM addCaseStatement []) fun cases =>
    cases.flatMap fun c => ofBlock c.withoutBreaks.statements

/-- The header of a `for`. -/
def ofHeader : List Statement → List Opening
  | [init, test, step] => ofBlock [init] ++ ofCondition test.tokens ++ ofBlock [step]
  | _ => []

/-- The handler among the arguments of a call. -/
def ofArguments (b : Builtin) (group : Token) : List Opening :=
  if b = .playerOnEvent then
    noting (Arguments.parse group) fun args => reading (b.bind {} args) fun bound =>
      reading (bound.arrow "handler") fun handler => [⟨.body, handler⟩]
  else []

/-- The groups that are opened inside a group, given what is read there. -/
def inside (o : Opening) (r : Reading) : List Opening :=
  match o.purpose with
  | .file | .body => ofBlock r.statements
  | .classBody => r.statements.flatMap fun s => ofFunction s.tokens.tail
  | .switchBody => ofCases r.statements
  | .forHeader => ofHeader r.statements
  | .condition => r.statements.flatMap fun s => ofCondition s.tokens
  | .arguments b => ofArguments b o.group

end Opening

/-! ### Scans -/

/-- A text that is read. -/
structure Scan where
  purpose : Purpose
  /-- The groups that the text is inside of, the outermost one first. -/
  groups : List Token := []
  /-- The file of the text, unless that was given. -/
  place : Option File.Place := none
  /-- The name and the text of the file, then those of the files that import it. -/
  files : List (String × String) := []
  /-- The warnings, which are about semicolons that end nothing. -/
  noted : List Warning
  deriving DecidableEq, Repr

namespace Scan

/-- The same inside one more group. -/
def within (group : Token) (scan : Scan) : Scan := { scan with groups := group :: scan.groups }

/-- The same in a file with a name and a text, or in one that this file imports. -/
def inFile (name text : String) (scan : Scan) : Scan :=
  { scan with files := scan.files ++ [(name, text)] }

/-- The same in a file at some place, or in one that this file imports. -/
def at_ (place : File.Place) (scan : Scan) : Scan := { scan with place := scan.place.or (some place) }

/-- The warnings with the names of their files. -/
def located (scan : Scan) : List Warning :=
  scan.noted.map fun w => scan.files.foldl (fun w file => w.inFile file.1 file.2) w

end Scan

namespace Opening

/-- What is read for a group and inside of it, with at most so many groups inside one another. -/
def scansWithin : Nat → Opening → List Scan
  | 0, _ => []
  | depth + 1, o =>
    Census.reading (o.group.tokenizeInner o.purpose.terminator) fun r =>
      { purpose := o.purpose, groups := [o.group], noted := r.warnings } ::
        ((o.inside r).flatMap (scansWithin depth)).map (Scan.within o.group)

/-- What is read for a group and inside of it. -/
def scans (o : Opening) : List Scan := o.scansWithin o.group.length

end Opening

/-! ### Files -/

/-- What is read behind some files, and the files that were begun then. -/
abbrev Tour := List File.Place → List Scan × List File.Place

namespace Tour

/-- What is read without any file. -/
def only (scans : List Scan) : Tour := fun begun => (scans, begun)

/-- One part behind another, which finds the files of that one begun. -/
def append (first second : Tour) : Tour := fun begun =>
  ((first begun).1 ++ (second (first begun).2).1, (second (first begun).2).2)

/-- Goes on with what was read. -/
def reading {ε α : Type} (x : Except ε α) (tour : α → Tour) : Tour :=
  match x with
  | .ok a => tour a
  | .error _ => only []

/-- Something more is known of all that is read. -/
def map (f : Scan → Scan) (tour : Tour) : Tour := fun begun => ((tour begun).1.map f, (tour begun).2)

/-- The constructs of the top level. -/
def topConstructs (settings : Settings) (importer : File.Path → Tour) : List Construct → Tour
  | [] => only []
  | c :: rest =>
    let later := topConstructs settings importer rest
    match c.import? with
    | some (keyword, tokens) =>
      reading (importTarget keyword tokens) fun target =>
        append (importer (settings.importPath target.value)) later
    | none => append (only ((Opening.ofConstruct c).flatMap Opening.scans)) later

/-- The text of a file. -/
def topLevel (settings : Settings) (importer : File.Path → Tour) (text : String) : Tour :=
  reading (tokenize .required Position.start text) fun r =>
    append (only [{ purpose := .file, noted := r.warnings }])
      (topConstructs settings importer (constructs r.statements))

/-- A file with a name and a text. -/
def source (settings : Settings) (importer : File.Path → Tour) (name text : String) : Tour :=
  (topLevel settings importer text).map (Scan.inFile name text)

/-- A file by its path, given how its text is read. A file that was begun before is left out. -/
def importWith (settings : Settings) (files : File.Tree) (read : String → String → Tour)
    (path : File.Path) : Tour :=
  reading (files.read path) fun found begun =>
    if begun.contains found.1 then ([], begun)
    else (read (settings.displayName path) found.2).map (Scan.at_ found.1) (begun ++ [found.1])

/-- A file by its path, with at most so many files inside one another. -/
def importWithin (settings : Settings) (files : File.Tree) : Nat → File.Path → Tour
  | 0 => importWith settings files fun _ _ => only []
  | depth + 1 => importWith settings files (source settings (importWithin settings files depth))

end Tour

/-- All that is read for a task, in order, and the files that are begun. -/
def Task.tour (settings : Settings) (t : Task) : Tour :=
  let importer := Tour.importWithin settings t.files (t.files.nodes.length + 1)
  match t with
  | .text _ name source => Tour.source settings importer name source
  | .file _ path => importer path
  | .entry _ => importer settings.entryPath

/-! ### Groups among tokens -/

/-- The groups among some tokens. -/
def groupsOf (tokens : List Token) : List Token := tokens.filter fun t => t.inner?.isSome

section groupsOf

variable {tokens : List Token} {t : Token}

@[simp]
theorem groupsOf_append (xs ys : List Token) : groupsOf (xs ++ ys) = groupsOf xs ++ groupsOf ys :=
  List.filter_append ..

theorem sublist_groupsOf {xs ys : List Token} (h : xs.Sublist ys) :
    (groupsOf xs).Sublist (groupsOf ys) :=
  h.filter _

/-- What is left of a word is no group. -/
theorem groupsOf_tailFrom (t : Token) (k : Nat) : groupsOf (t.tailFrom k) = [] := by
  refine List.filter_eq_nil_iff.mpr fun u hu => ?_
  cases hinner : u.inner? with
  | none => simp
  | some inner => exact absurd (t.within_tailFrom k (n := 0) u hu inner hinner) (Nat.not_lt_zero _)

theorem mem_groupsOf : t ∈ groupsOf tokens ↔ t ∈ tokens ∧ t.inner?.isSome := List.mem_filter

end groupsOf

/-- The tokens of a text differ from one another. -/
theorem Reading.nodup_tokens {terminator : Terminator} {start : Position} {source : String} {r : Reading}
    (h : tokenize terminator start source = .ok r) : r.tokens.Nodup := by
  have htiles := tokenize_tiles h
  refine List.Pairwise.imp_of_mem (fun {t u} ht _ hle htu => ?_) htiles.pairwise
  obtain ⟨before, after, hsource, hstands⟩ := htiles.exists_of_mem ht
  obtain ⟨hstart, hstop, -, -⟩ := hstands.slice hsource
  have hpos := Text.byteLength_pos hstands.nonempty
  rw [htu] at hpos hstart hstop hle
  omega

namespace Opening

/-- The groups that are opened are among the tokens, in their order. -/
def Among (os : List Opening) (tokens : List Token) : Prop :=
  (groupsOf (os.map group)).Sublist (groupsOf tokens)

section Among

variable {os os' : List Opening} {tokens tokens' : List Token} {first : Token} {rest : List Token}

theorem among_nil (tokens : List Token) : Among [] tokens := List.nil_sublist _

/-- All groups are tokens, in their order. -/
theorem among_of_sublist (h : (os.map group).Sublist tokens) : Among os tokens := sublist_groupsOf h

theorem Among.trans (h : Among os tokens) (hle : (groupsOf tokens).Sublist (groupsOf tokens')) :
    Among os tokens' :=
  List.Sublist.trans h hle

/-- More tokens around. -/
theorem Among.mono (h : Among os tokens) (hle : tokens.Sublist tokens') : Among os tokens' :=
  h.trans (sublist_groupsOf hle)

theorem Among.append (h : Among os tokens) (h' : Among os' tokens') :
    Among (os ++ os') (tokens ++ tokens') := by
  unfold Among
  rw [List.map_append, groupsOf_append, groupsOf_append]
  exact List.Sublist.append h h'

theorem Among.flatMap {α : Type} {l : List α} {f : α → List Opening} {g : α → List Token}
    (h : ∀ a ∈ l, Among (f a) (g a)) : Among (l.flatMap f) (l.flatMap g) := by
  induction l with
  | nil => exact among_nil _
  | cons a l ih =>
    obtain ⟨ha, hl⟩ := List.forall_mem_cons.mp h
    exact ha.append (ih hl)

/-- Each group is one of the tokens. -/
theorem Among.mem (h : Among os tokens) {o : Opening} (ho : o ∈ os) (hgroup : o.group.inner?.isSome) :
    o.group ∈ tokens :=
  (mem_groupsOf.mp (h.subset (mem_groupsOf.mpr ⟨List.mem_map_of_mem ho, hgroup⟩))).1

/-! #### Constructs -/

theorem among_ofCondition (tokens : List Token) : Among (ofCondition tokens) tokens := by
  refine among_of_sublist ?_
  rw [ofCondition, List.map_map, show group ∘ (fun t => (⟨.condition, t⟩ : Opening)) = id from rfl,
    List.map_id]
  exact List.filter_sublist

theorem among_ofHead (rest : List Token) : Among (ofHead rest) rest := by
  unfold ofHead
  split
  · exact among_of_sublist (List.Sublist.refl _)
  · exact among_nil _

theorem among_ofElse (rest : List Token) : Among (ofElse rest) rest := by
  unfold ofElse
  split
  · exact among_nil _
  · exact among_of_sublist (List.Sublist.refl _)
  · exact (among_ofHead _).mono (List.sublist_cons_self _ _)

theorem among_ofCall (b : Builtin) (rest : List Token) : Among (ofCall b rest) rest := by
  unfold ofCall
  split
  · exact among_of_sublist (List.Sublist.refl _)
  · exact among_nil _

theorem among_ofAssigned (right : List Token) : Among (ofAssigned right) right := by
  unfold ofAssigned
  split
  · exact among_nil _
  · split
    · exact among_nil _
    · split
      · exact (among_ofCall _ _).mono (List.sublist_cons_self _ _)
      · exact among_nil _

/-- The right side of an operator has the groups that stand there. -/
theorem groupsOf_right {a : Assignment} (h : Assignment.ofTokens? tokens = some a) :
    (groupsOf a.right).Sublist (groupsOf tokens) := by
  unfold Assignment.ofTokens? at h
  split at h
  · cases h
  next first rest =>
  split at h
  · obtain ⟨⟨target, tail⟩, -, rfl⟩ := Option.map_eq_some_iff.mp h
    rw [groupsOf_append, groupsOf_tailFrom, List.nil_append]
    exact sublist_groupsOf (List.sublist_cons_self _ _)
  split at h
  · cases h
  next next rest _ =>
  obtain ⟨o, -, rfl⟩ := Option.map_eq_some_iff.mp h
  rw [groupsOf_append, groupsOf_tailFrom, List.nil_append]
  exact sublist_groupsOf ((List.sublist_cons_self _ _).trans (List.sublist_cons_self _ _))

theorem among_ofPlainVariable (first : Token) (rest : List Token) :
    Among (ofPlainVariable first rest) (first :: rest) := by
  unfold ofPlainVariable
  split
  · exact among_nil _
  · split
    · next hsplit =>
      split
      · exact (among_ofAssigned _).trans (groupsOf_right hsplit)
      · exact among_nil _
    · exact among_nil _

theorem among_ofVariable (first : Token) (rest : List Token) :
    Among (ofVariable first rest) (first :: rest) := by
  unfold ofVariable
  split
  · split
    · exact among_nil _
    · exact (among_ofPlainVariable _ _).mono (List.sublist_cons_self _ _)
  · exact among_ofPlainVariable _ _

theorem among_ofFunction (rest : List Token) : Among (ofFunction rest) rest := by
  unfold ofFunction
  split
  · exact among_of_sublist (((List.Sublist.refl _).cons _).cons _)
  · exact among_nil _

theorem among_ofTail (rest : List Token) : Among (ofTail rest) rest := by
  unfold ofTail
  split
  · exact among_of_sublist (List.Sublist.refl _)
  · exact among_nil _

theorem among_ofDo (rest : List Token) : Among (ofDo rest) rest := by
  unfold ofDo
  split
  · exact among_of_sublist (List.Sublist.refl _)
  · exact among_nil _

theorem among_ofStatement (kind : StatementKind) (first : Token) (rest : List Token) :
    Among (ofStatement kind first rest) (first :: rest) := by
  have hrest : rest.Sublist (first :: rest) := List.sublist_cons_self _ _
  unfold ofStatement
  split
  · exact (among_ofFunction _).mono hrest
  · exact among_of_sublist (((List.Sublist.refl _).cons _).cons _)
  · exact (among_ofHead _).mono hrest
  · exact (among_ofHead _).mono hrest
  · exact among_of_sublist ((List.Sublist.refl _).cons _)
  · exact among_of_sublist (((List.Sublist.refl _).cons _).cons _)
  · exact (among_ofDo _).mono hrest
  · exact among_ofVariable _ _
  · exact (among_ofCall _ _).mono hrest
  · exact among_nil _

theorem among_ofTokens (s : Statement) {groups : Token → List Token → List Opening}
    (h : ∀ first rest, s.tokens = first :: rest → Among (groups first rest) (first :: rest ++ tokens)) :
    Among (ofTokens s groups) (s.tokens ++ tokens) := by
  unfold ofTokens
  split
  · exact among_nil _
  · next htokens =>
    rw [htokens]
    exact h _ _ htokens

/-- A construct opens groups of its statements. -/
theorem among_ofConstruct (c : Construct) :
    Among (ofConstruct c) (c.statements.flatMap Statement.tokens) := by
  cases c with
  | chain s elses =>
    rw [Construct.statements, List.flatMap_cons]
    refine among_ofTokens s fun first rest _ => ?_
    refine ((among_ofHead _).mono (List.sublist_cons_self _ _)).append (Among.flatMap fun e _ => ?_)
    exact (among_ofElse _).mono (List.tail_sublist _)
  | doWhile s tail =>
    rw [Construct.statements, List.flatMap_cons]
    refine among_ofTokens s fun first rest _ => ?_
    refine ((among_ofDo _).mono (List.sublist_cons_self _ _)).append (Among.flatMap fun w _ => ?_)
    exact (among_ofTail _).mono (List.tail_sublist _)
  | single s =>
    rw [Construct.statements, List.flatMap_cons]
    refine among_ofTokens s fun first rest _ => ?_
    exact (among_ofStatement _ _ _).mono (List.sublist_append_left _ _)

theorem among_constructs (cs : List Construct) :
    Among (cs.flatMap ofConstruct)
      ((cs.flatMap Construct.statements).flatMap Statement.tokens) := by
  rw [List.flatMap_assoc]
  exact Among.flatMap fun c _ => among_ofConstruct c

theorem among_ofBlock (statements : List Statement) :
    Among (ofBlock statements) (statements.flatMap Statement.tokens) := by
  have h := among_constructs (constructs statements)
  rwa [statements_constructs] at h

/-! #### Groups inside a group -/

/-- The tokens of some cases. -/
def tokensOf (cases : List Case) : List Token :=
  cases.flatMap fun c => c.statements.flatMap Statement.tokens

theorem groupsOf_splitCase {keyword : Token} {head : CaseHead} (h : splitCase keyword rest = .ok head) :
    (groupsOf head.rest).Sublist (groupsOf rest) := by
  unfold splitCase at h
  split at h
  · cases h
  next label behind =>
  have hbehind : behind.Sublist (label :: behind) := List.sublist_cons_self _ _
  split at h
  · obtain rfl := Except.ok.inj h
    rw [groupsOf_append, groupsOf_tailFrom, List.nil_append]
    exact sublist_groupsOf hbehind
  split at h
  · cases h
  next next more =>
  split at h
  · obtain rfl := Except.ok.inj h
    rw [groupsOf_append, groupsOf_tailFrom, List.nil_append]
    exact sublist_groupsOf ((List.sublist_cons_self _ _).trans hbehind)
  · cases h

theorem tokensOf_addToLast (s : Statement) (cases : List Case) :
    (tokensOf (addToLast s cases)).Sublist (tokensOf cases ++ s.tokens) := by
  unfold addToLast
  split
  · exact List.nil_sublist _
  · next last hlast =>
    obtain ⟨front, rfl⟩ := List.getLast?_eq_some_iff.mp hlast
    simp [tokensOf]

/-- A statement of the body adds its groups to the cases. -/
theorem groupsOf_addCaseStatement {cases cases' : List Case} {s : Statement}
    (h : addCaseStatement cases s = .ok cases') :
    (groupsOf (tokensOf cases')).Sublist (groupsOf (tokensOf cases ++ s.tokens)) := by
  unfold addCaseStatement at h
  split at h
  · obtain rfl := Except.ok.inj h
    exact sublist_groupsOf (List.sublist_append_left _ _)
  next first rest htokens =>
  split at h
  · obtain ⟨head, hhead, h⟩ := exists_of_bind_ok h
    obtain ⟨label, -, h⟩ := exists_of_bind_ok h
    obtain rfl := Except.ok.inj h
    have hnew :
        tokensOf [⟨label, if head.rest.isEmpty then [] else [⟨head.rest⟩]⟩] = head.rest := by
      cases head.rest <;> simp [tokensOf]
    rw [show tokensOf (cases ++ [_]) = tokensOf cases ++ tokensOf [_] from List.flatMap_append, hnew,
      groupsOf_append, groupsOf_append, htokens]
    refine List.Sublist.append_left ?_ _
    exact (groupsOf_splitCase hhead).trans (sublist_groupsOf (List.sublist_cons_self _ _))
  split at h
  · cases h
  · obtain rfl := Except.ok.inj h
    exact sublist_groupsOf (tokensOf_addToLast s cases)

theorem groupsOf_cases {statements : List Statement} {cases cases' : List Case}
    (h : statements.foldlM addCaseStatement cases = .ok cases') :
    (groupsOf (tokensOf cases')).Sublist
      (groupsOf (tokensOf cases ++ statements.flatMap Statement.tokens)) := by
  induction statements generalizing cases with
  | nil =>
    obtain rfl := Except.ok.inj h
    exact sublist_groupsOf (List.sublist_append_left _ _)
  | cons s statements ih =>
    rw [List.foldlM_cons] at h
    obtain ⟨next, hnext, h⟩ := exists_of_bind_ok h
    refine (ih h).trans ?_
    rw [List.flatMap_cons, ← List.append_assoc, groupsOf_append, groupsOf_append _ (_ : List Token)]
    exact List.Sublist.append_right (groupsOf_addCaseStatement hnext) _

theorem statements_withoutBreaks (c : Case) : c.withoutBreaks.statements.Sublist c.statements := by
  refine List.filter_sublist.trans ?_
  unfold dropFinalBreak
  split
  · split
    · exact List.dropLast_sublist _
    · exact List.Sublist.refl _
  · exact List.Sublist.refl _

theorem among_ofCases (statements : List Statement) :
    Among (ofCases statements) (statements.flatMap Statement.tokens) := by
  unfold ofCases
  cases hcases : statements.foldlM addCaseStatement [] with
  | error f => exact among_nil _
  | ok cases =>
    have hall : Among (cases.flatMap fun c => ofBlock c.withoutBreaks.statements) (tokensOf cases) :=
      Among.flatMap fun c _ =>
        (among_ofBlock _).mono ((statements_withoutBreaks c).flatMap Statement.tokens)
    exact hall.trans (groupsOf_cases hcases)

theorem among_ofHeader (statements : List Statement) :
    Among (ofHeader statements) (statements.flatMap Statement.tokens) := by
  unfold ofHeader
  split
  · next init test step =>
    have hall := ((among_ofBlock [init]).append (among_ofCondition test.tokens)).append
      (among_ofBlock [step])
    simpa using hall
  · exact among_nil _

/-- The handler of a call stands among its arguments. -/
theorem mem_of_handler {b : Builtin} {group : Token} {args : Arguments}
    (hargs : (Arguments.parse group).Gives args) {scope : Scope} {bound : Bindings}
    (hbound : b.bind scope args = .ok bound) {handler : Token}
    (hhandler : bound.arrow "handler" = .ok handler) {r : Reading}
    (hread : group.tokenizeInner .optional = .ok r) : handler ∈ r.tokens := by
  rcases Arguments.parse_arrowsIn hargs with hnone | ⟨r', st, hread', hst, harrows⟩
  · exact absurd (Builtin.bind_arrow hnone hbound hhandler) List.not_mem_nil
  · rw [hread] at hread'
    obtain rfl := Except.ok.inj hread'
    exact List.mem_flatMap.mpr ⟨st, hst, Builtin.bind_arrow harrows hbound hhandler⟩

theorem among_ofArguments (b : Builtin) {group : Token} {r : Reading}
    (hread : group.tokenizeInner .optional = .ok r) : Among (ofArguments b group) r.tokens := by
  unfold ofArguments Census.noting
  split
  · rcases hargs : (Arguments.parse group).run.run [] with ⟨e | args, noted⟩
    · exact among_nil _
    rw [Census.reading]
    cases hbound : b.bind {} args with
    | error f => exact among_nil _
    | ok bound =>
      rw [Census.reading]
      cases hhandler : bound.arrow "handler" with
      | error f => exact among_nil _
      | ok handler =>
        have hmem := mem_of_handler ⟨noted, hargs⟩ hbound hhandler hread
        exact among_of_sublist (List.singleton_sublist.mpr hmem)
  · exact among_nil _

/-- The groups that are opened inside a group are among what is read there. -/
theorem among_inside {o : Opening} {r : Reading}
    (hread : o.group.tokenizeInner o.purpose.terminator = .ok r) : Among (o.inside r) r.tokens := by
  unfold inside Reading.tokens
  split
  · exact among_ofBlock _
  · exact among_ofBlock _
  · exact Among.flatMap fun s _ => (among_ofFunction _).mono (List.tail_sublist _)
  · exact among_ofCases _
  · exact among_ofHeader _
  · exact Among.flatMap fun s _ => among_ofCondition _
  · next b hpurpose =>
    rw [hpurpose] at hread
    exact among_ofArguments b hread

end Among

/-! ### Scans of a group -/

section scans

variable {o : Opening} {r : Reading} {depth depth' : Nat}

/-- What is opened inside a group has less between its brackets. -/
theorem within_inside {inner : String} (hinner : o.group.inner? = some inner)
    (hread : o.group.tokenizeInner o.purpose.terminator = .ok r) :
    ∀ o' ∈ o.inside r, o'.group.Within inner.toList.length := by
  intro o' ho' text htext
  have hmem := (among_inside hread).mem ho' (by rw [htext]; rfl)
  obtain ⟨st, hst, ht⟩ := List.mem_flatMap.mp hmem
  rw [Token.tokenizeInner, hinner] at hread
  exact tokenize_within hread st hst _ ht text htext

theorem scansWithin_succ (hread : o.group.tokenizeInner o.purpose.terminator = .ok r) (depth : Nat) :
    o.scansWithin (depth + 1) =
      { purpose := o.purpose, groups := [o.group], noted := r.warnings } ::
        ((o.inside r).flatMap (scansWithin depth)).map (Scan.within o.group) := by
  rw [scansWithin, hread, Census.reading]

/-- What cannot be read is not read. -/
theorem scansWithin_of_error {f : Fault} (hread : o.group.tokenizeInner o.purpose.terminator = .error f)
    (depth : Nat) : o.scansWithin depth = [] := by
  cases depth with
  | zero => rfl
  | succ depth =>
    rw [scansWithin, hread]
    rfl

/-- What can be read is a group. -/
theorem exists_inner (hread : o.group.tokenizeInner o.purpose.terminator = .ok r) :
    ∃ inner, o.group.inner? = some inner := by
  unfold Token.tokenizeInner at hread
  split at hread
  · next inner hinner => exact ⟨inner, hinner⟩
  · cases hread

/-- Any bound that suffices gives the same scans. -/
theorem scansWithin_eq (h : o.group.Within depth) (h' : o.group.Within depth') :
    o.scansWithin depth = o.scansWithin depth' := by
  induction depth generalizing o depth' with
  | zero =>
    cases hread : o.group.tokenizeInner o.purpose.terminator with
    | error f => rw [scansWithin_of_error hread, scansWithin_of_error hread]
    | ok r =>
      obtain ⟨inner, hinner⟩ := exists_inner hread
      exact absurd (h inner hinner) (Nat.not_lt_zero _)
  | succ depth ih =>
    cases hread : o.group.tokenizeInner o.purpose.terminator with
    | error f => rw [scansWithin_of_error hread, scansWithin_of_error hread]
    | ok r =>
      obtain ⟨inner, hinner⟩ := exists_inner hread
      have hlt := h inner hinner
      obtain ⟨depth', rfl⟩ : ∃ n, depth' = n + 1 :=
        Nat.exists_eq_add_one_of_ne_zero (Nat.ne_zero_of_lt (h' inner hinner))
      have hlt' := h' inner hinner
      rw [scansWithin_succ hread, scansWithin_succ hread, List.flatMap_congr fun o' ho' => ?_]
      have hwithin := within_inside hinner hread o' ho'
      exact ih (hwithin.mono (by omega)) (hwithin.mono (by omega))

/-- What is read for a group, and then for those inside of it. -/
theorem scans_eq (hread : o.group.tokenizeInner o.purpose.terminator = .ok r) :
    o.scans = { purpose := o.purpose, groups := [o.group], noted := r.warnings } ::
      ((o.inside r).flatMap scans).map (Scan.within o.group) := by
  obtain ⟨inner, hinner⟩ := exists_inner hread
  have hlength := Token.length_of_inner? hinner
  rw [scans, hlength, scansWithin_succ hread, List.flatMap_congr fun o' ho' => ?_]
  have hwithin := within_inside hinner hread o' ho'
  refine scansWithin_eq (hwithin.mono (by omega)) fun text htext => ?_
  rw [Token.length_of_inner? htext]
  omega

theorem scans_of_error {f : Fault} (hread : o.group.tokenizeInner o.purpose.terminator = .error f) :
    o.scans = [] :=
  scansWithin_of_error hread _

/-- What holds of a group if it holds of those that are opened inside of it, holds of every group. -/
theorem scans_induction {motive : Opening → Prop}
    (unread : ∀ o f, o.group.tokenizeInner o.purpose.terminator = .error f → motive o)
    (read : ∀ o r, o.group.tokenizeInner o.purpose.terminator = .ok r →
      (∀ o' ∈ o.inside r, motive o') → motive o) (o : Opening) : motive o := by
  -- what is opened inside a group is shorter
  induction hlength : o.group.length using Nat.strong_induction_on generalizing o with
  | _ n ih =>
  cases hread : o.group.tokenizeInner o.purpose.terminator with
  | error f => exact unread o f hread
  | ok r =>
    obtain ⟨inner, hinner⟩ := exists_inner hread
    refine read o r hread fun o' ho' => ?_
    cases htext : o'.group.inner? with
    | none => exact unread o' _ (by rw [Token.tokenizeInner, htext])
    | some text =>
      have hshorter := within_inside hinner hread o' ho' text htext
      refine ih o'.group.length ?_ o' rfl
      rw [← hlength, Token.length_of_inner? htext, Token.length_of_inner? hinner]
      omega

/-- Every scan is of the group, or of one inside of it. -/
theorem head?_groups {scan : Scan} (h : scan ∈ o.scans) :
    scan.groups.head? = some o.group ∧ o.group.inner?.isSome := by
  cases hread : o.group.tokenizeInner o.purpose.terminator with
  | error f =>
    rw [scans_of_error hread] at h
    cases h
  | ok r =>
    obtain ⟨inner, hinner⟩ := exists_inner hread
    refine ⟨?_, by rw [hinner]; rfl⟩
    rw [scans_eq hread] at h
    rcases List.mem_cons.mp h with rfl | h
    · rfl
    · obtain ⟨scan, -, rfl⟩ := List.mem_map.mp h
      rfl

theorem groups_ne_nil {scan : Scan} (h : scan ∈ o.scans) : scan.groups ≠ [] := by
  intro hnil
  have hhead := (head?_groups h).1
  rw [hnil] at hhead
  cases hhead

/-- Groups are read before anything is known of their file. -/
theorem bare_of_mem {scan : Scan} (h : scan ∈ o.scans) : scan.place = none ∧ scan.files = [] := by
  suffices hdepth : ∀ depth (o : Opening), ∀ scan ∈ o.scansWithin depth,
      scan.place = none ∧ scan.files = [] from hdepth _ o scan h
  intro depth
  induction depth with
  | zero => exact fun _ => List.forall_mem_nil _
  | succ depth ih =>
    intro o scan hscan
    cases hread : o.group.tokenizeInner o.purpose.terminator with
    | error f =>
      rw [scansWithin_of_error hread] at hscan
      cases hscan
    | ok r =>
      rw [scansWithin_succ hread] at hscan
      rcases List.mem_cons.mp hscan with rfl | hscan
      · exact ⟨rfl, rfl⟩
      · obtain ⟨inner, hinner, rfl⟩ := List.mem_map.mp hscan
        obtain ⟨o', -, hinner⟩ := List.mem_flatMap.mp hinner
        exact ih o' inner hinner

/-- Groups that differ are not read twice, if none of them is. -/
theorem nodup_flatMap_scans {os : List Opening} (hgroups : (groupsOf (os.map group)).Nodup)
    (heach : ∀ o ∈ os, (o.scans.map Scan.groups).Nodup) :
    ((os.flatMap scans).map Scan.groups).Nodup := by
  induction os with
  | nil => exact List.nodup_nil
  | cons o os ih =>
    obtain ⟨ho, hos⟩ := List.forall_mem_cons.mp heach
    rw [List.map_cons, ← List.singleton_append, groupsOf_append] at hgroups
    obtain ⟨-, hrest, hdisjoint⟩ := List.nodup_append.mp hgroups
    rw [List.flatMap_cons, List.map_append]
    refine List.nodup_append.mpr ⟨ho, ih hrest hos, fun a ha b hb hab => ?_⟩
    obtain ⟨scan, hscan, rfl⟩ := List.mem_map.mp ha
    obtain ⟨scan', hscan', rfl⟩ := List.mem_map.mp hb
    obtain ⟨o', ho', hscan'⟩ := List.mem_flatMap.mp hscan'
    obtain ⟨hhead, hgroup⟩ := head?_groups hscan
    obtain ⟨hhead', hgroup'⟩ := head?_groups hscan'
    have hsame : o.group = o'.group := by
      rw [hab, hhead'] at hhead
      exact (Option.some.inj hhead).symm
    exact hdisjoint o.group (mem_groupsOf.mpr ⟨List.mem_singleton_self _, hgroup⟩) o'.group
      (mem_groupsOf.mpr ⟨List.mem_map_of_mem ho', hgroup'⟩) hsame

/-- The groups inside a group differ from one another. -/
theorem nodup_inside (hread : o.group.tokenizeInner o.purpose.terminator = .ok r) :
    (groupsOf ((o.inside r).map group)).Nodup := by
  obtain ⟨inner, hinner⟩ := exists_inner hread
  have htokens := hread
  rw [Token.tokenizeInner, hinner] at htokens
  exact ((Reading.nodup_tokens htokens).filter _).sublist (among_inside hread)

/-- No group is read twice. -/
theorem nodup_scans (o : Opening) : (o.scans.map Scan.groups).Nodup := by
  induction o using scans_induction with
  | unread o f hread =>
    rw [scans_of_error hread]
    exact List.nodup_nil
  | read o r hread ih =>
    have hrest := nodup_flatMap_scans (nodup_inside hread) ih
    have hmap : (((o.inside r).flatMap scans).map (Scan.within o.group)).map Scan.groups =
        (((o.inside r).flatMap scans).map Scan.groups).map (o.group :: ·) := by
      rw [List.map_map, List.map_map]
      rfl
    rw [scans_eq hread, List.map_cons, hmap]
    refine List.nodup_cons.mpr ⟨fun hmem => ?_, hrest.map (List.cons_injective)⟩
    -- the scan of the group itself is in no group inside
    obtain ⟨groups, hgroups, hnil⟩ := List.mem_map.mp hmem
    obtain rfl : groups = [] := List.tail_eq_of_cons_eq hnil
    obtain ⟨scan, hscan, hnone⟩ := List.mem_map.mp hgroups
    obtain ⟨o', -, hscan⟩ := List.mem_flatMap.mp hscan
    exact groups_ne_nil hscan hnone

end scans

end Opening

/-! ### Scans of a text -/

/-- The scan reads a text, or the inside of a group in it, and takes down the warnings. -/
def Scan.ReadsIn (start : Position) (source : String) (scan : Scan) : Prop :=
  ∃ r, ReadsWithin scan.purpose.terminator r start source scan.groups ∧ scan.noted = r.warnings

/-- What is read for a group of a text is in the text. -/
theorem Opening.scans_readIn {terminator : Terminator} {start : Position} {source : String} {r : Reading}
    {o : Opening} (hread : tokenize terminator start source = .ok r) (hmem : o.group ∈ r.tokens) :
    ∀ scan ∈ o.scans, scan.ReadsIn start source := by
  induction o using scans_induction generalizing terminator start source r with
  | unread o f hinside =>
    rw [scans_of_error hinside]
    exact List.forall_mem_nil _
  | read o inside hinside ih =>
    obtain ⟨inner, hinner⟩ := exists_inner hinside
    have htext := hinside
    rw [Token.tokenizeInner, hinner] at htext
    rw [scans_eq hinside]
    refine List.forall_mem_cons.mpr ⟨⟨inside, .inner hread hmem hinner (.whole htext), rfl⟩, ?_⟩
    refine List.forall_mem_map.mpr (List.forall_mem_flatMap.mpr fun o' ho' scan hscan => ?_)
    have hgroup := (among_inside hinside).mem ho' (head?_groups hscan).2
    obtain ⟨r', hr', hnoted⟩ := ih o' ho' htext hgroup scan hscan
    exact ⟨r', .inner hread hmem hinner hr', hnoted⟩

end Packwright
