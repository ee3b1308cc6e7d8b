import Packwright.Session.Source

/-!
# Regular faults

Most faults say what is wrong with the text of the user. The others tell of a broken promise inside
the program, or of a generated function that is there twice. Whatever text they are given, readers
fail only with regular faults.

## Main definitions

- `Cause.isRegular`, `Failure.isRegular` — what may go wrong in a text
- `endsRegularly`, `Noting.Regular` — readers that fail only so

## Main results

- `tokenize_regular` — reading tokens
- `Arguments.parse_regular`, `Condition.parse_regular` — reading arguments and conditions
-/

namespace Packwright

variable {α β : Type}

/-- The cause is no broken promise inside the program, and no generated function that is there
already. -/
def Cause.isRegular : Cause → Bool
  | .privateDefined _ => false
  | c => c.kind ≠ .internal

theorem Cause.isRegular_iff {c : Cause} :
    c.isRegular = true ↔ c.kind ≠ .internal ∧ ∀ path, c ≠ .privateDefined path := by
  cases c with
  | other kind text => cases kind <;> simp [isRegular, Cause.kind]
  | _ => simp [isRegular, kind]

/-- A fault is regular when its cause is; to stop for another reason than a fault always is. -/
def Failure.isRegular : Failure → Bool
  | .fault f => f.cause.isRegular
  | .crash | .exhausted => true

/-- The result is a value or a regular fault. -/
def endsRegularly : Except Fault α → Bool
  | .ok _ => true
  | .error f => f.cause.isRegular

section

variable {x : Except Fault α}

theorem endsRegularly_bind {f : α → Except Fault β} (hx : endsRegularly x)
    (hf : ∀ a, x = .ok a → endsRegularly (f a)) : endsRegularly (x >>= f) := by
  cases x with
  | ok a => exact hf a rfl
  | error e => exact hx

theorem endsRegularly_map {f : α → β} (hx : endsRegularly x) : endsRegularly (x.map f) := by
  cases x with
  | ok a => rfl
  | error e => exact hx

theorem endsRegularly_forM {f : α → Except Fault PUnit} (hf : ∀ a, endsRegularly (f a))
    (l : List α) : endsRegularly (l.forM f) := by
  induction l with
  | nil => rfl
  | cons a l ih =>
    rw [List.forM_eq_forM, List.forM_cons]
    exact endsRegularly_bind (hf a) fun _ _ => ih

theorem forM_eq_ok_iff {f : α → Except Fault PUnit} {l : List α} :
    l.forM f = .ok () ↔ ∀ a ∈ l, f a = .ok () := by
  induction l with
  | nil => exact ⟨fun _ a ha => (nomatch ha), fun _ => rfl⟩
  | cons a l ih =>
    rw [List.forM_eq_forM] at ih ⊢
    rw [List.forM_cons, List.forall_mem_cons, ← ih]
    cases f a with
    | ok u => exact ⟨fun h => ⟨rfl, h⟩, fun h => h.2⟩
    | error e => exact ⟨fun h => (nomatch h), fun h => (nomatch h.1)⟩

theorem endsRegularly_mapM {f : α → Except Fault β} {l : List α}
    (hf : ∀ a ∈ l, endsRegularly (f a)) : endsRegularly (l.mapM f) := by
  induction l with
  | nil => rfl
  | cons a l ih =>
    obtain ⟨ha, hl⟩ := List.forall_mem_cons.mp hf
    rw [List.mapM_cons]
    exact endsRegularly_bind ha fun _ _ => endsRegularly_bind (ih hl) fun _ _ => rfl

theorem endsRegularly_foldlM {f : β → α → Except Fault β} (hf : ∀ b a, endsRegularly (f b a))
    (l : List α) (start : β) : endsRegularly (l.foldlM f start) := by
  induction l generalizing start with
  | nil => rfl
  | cons a l ih =>
    rw [List.foldlM_cons]
    exact endsRegularly_bind (hf start a) fun next _ => ih next

end

/-! ### Tokens -/

theorem Nest.step_regular (n : Nest) (p : Position) (c : Char) : endsRegularly (n.step p c) := by
  unfold Nest.step
  repeat' split
  all_goals rfl

namespace Lexer

theorem seek_regular (before : List Lexeme) (k : Cursor) (c : Char) (next : Option Char) :
    endsRegularly (seek before k c next) := by
  unfold seek
  repeat' split
  all_goals rfl

theorem step_regular (k : Cursor) (c : Char) (next : Option Char) (mode : Mode) :
    endsRegularly (step k c next mode) := by
  cases mode with
  | seeking =>
    rw [step]
    split
    · rfl
    · exact seek_regular ..
  | comment => rfl
  | doubled => rfl
  | word start text nest =>
    rw [step]
    split
    · exact endsRegularly_bind (nest.step_regular _ c) fun _ _ => rfl
    · split
      · rfl
      · split
        · rfl
        · exact seek_regular ..
  | string start text escaped =>
    rw [step]
    repeat' split
    all_goals rfl
  | group start bracket text nest =>
    refine endsRegularly_bind (nest.step_regular _ c) fun nest' _ => ?_
    split <;> rfl

theorem finish_regular (k : Cursor) (mode : Mode) : endsRegularly (finish k mode) := by
  unfold finish
  repeat' split
  all_goals rfl

theorem run_regular (mode : Mode) (k : Cursor) (cs : List Char) : endsRegularly (run mode k cs) := by
  induction cs generalizing mode k with
  | nil => exact finish_regular k mode
  | cons c rest ih =>
    exact endsRegularly_bind (step_regular ..) fun _ _ => endsRegularly_bind (ih ..) fun _ _ => rfl

end Lexer

theorem groupLexemes_regular (terminator : Terminator) (lexemes : List Lexeme)
    (current : List Token) : endsRegularly (groupLexemes terminator current lexemes) := by
  induction lexemes generalizing current with
  | nil =>
    unfold groupLexemes
    repeat' split
    all_goals rfl
  | cons lexeme rest ih =>
    cases lexeme with
    | token t =>
      unfold groupLexemes
      split
      · exact endsRegularly_map (ih _)
      · exact ih _
    | semicolon p =>
      unfold groupLexemes
      split
      · exact endsRegularly_map (ih _)
      · exact endsRegularly_map (ih _)

/-- Reading the statements of a text fails only with regular faults. -/
theorem tokenize_regular (terminator : Terminator) (start : Position) (source : String) :
    endsRegularly (tokenize terminator start source) :=
  endsRegularly_bind (Lexer.run_regular ..) fun _ _ => groupLexemes_regular ..

theorem Token.tokenizeInner_regular (terminator : Terminator) (t : Token) :
    endsRegularly (t.tokenizeInner terminator) := by
  unfold Token.tokenizeInner
  split
  · exact tokenize_regular ..
  · rfl

theorem scoreValue_regular {text : String} {cause : Cause} (h : scoreValue text = .error cause) :
    cause.isRegular := by
  unfold scoreValue at h
  split at h
  · split at h
    · cases h
    · cases h
      rfl
  · cases h

theorem Token.scoreValue_regular (t : Token) : endsRegularly t.scoreValue := by
  unfold Token.scoreValue
  split
  · rfl
  · split
    · rfl
    · next hvalue => exact Packwright.scoreValue_regular hvalue

/-! ### Parts of statements -/

theorem headAndBody_regular (keyword : Token) (rest : List Token) :
    endsRegularly (headAndBody keyword rest) := by
  unfold headAndBody
  repeat' split
  all_goals rfl

theorem doWhileHead_regular (keyword : Token) (rest : List Token) :
    endsRegularly (Compile.doWhileHead keyword rest) := by
  unfold Compile.doWhileHead
  repeat' split
  all_goals rfl

theorem splitCase_regular (keyword : Token) (rest : List Token) :
    endsRegularly (splitCase keyword rest) := by
  unfold splitCase
  repeat' split
  all_goals rfl

theorem labelValue_regular (cases : List Case) (head : CaseHead) :
    endsRegularly (labelValue cases head) := by
  unfold labelValue
  split
  · rfl
  · split
    · rfl
    · split
      · next hvalue => exact scoreValue_regular hvalue
      · rfl
      · split <;> rfl

theorem addCaseStatement_regular (cases : List Case) (s : Statement) :
    endsRegularly (addCaseStatement cases s) := by
  unfold addCaseStatement
  split
  · rfl
  · split
    · exact endsRegularly_bind (splitCase_regular ..) fun head _ =>
        endsRegularly_bind (labelValue_regular cases head) fun _ _ => rfl
    · split <;> rfl

theorem functionHead_regular (level : Level) (keyword : Token) (rest : List Token) :
    endsRegularly (functionHead level.functions keyword rest) := by
  unfold functionHead
  split
  · cases level with
    | body => rfl
    | top | inClass =>
      simp only [Level.functions]
      repeat' split
      all_goals rfl
  · rfl

theorem classHead_regular (keyword : Token) (rest : List Token) :
    endsRegularly (classHead keyword rest) := by
  unfold classHead
  repeat' split
  all_goals rfl

theorem resourceHead_regular (keyword : Token) (rest : List Token) :
    endsRegularly (resourceHead keyword rest) := by
  unfold resourceHead
  repeat' split
  all_goals rfl

theorem importTarget_regular (keyword : Token) (rest : List Token) :
    endsRegularly (importTarget keyword rest) := by
  unfold importTarget
  repeat' split
  all_goals rfl

theorem Level.check_regular (level : Level) (kind : StatementKind) (first : Token) :
    endsRegularly (level.check kind first) := by
  unfold Level.check
  repeat' split
  all_goals rfl

theorem validateSpace_regular (space : String) : endsRegularly (validateSpace space) := by
  unfold validateSpace
  repeat' split
  all_goals rfl

/-! ### Readers that note warnings -/

namespace Noting

/-- The reader fails only with regular faults, whatever it has noted before. -/
def Regular (m : Noting α) : Prop :=
  ∀ noted failure, (m.run.run noted).1 = .error failure → failure.isRegular = true

variable {m : Noting α}

theorem regular_pure (a : α) : (pure a : Noting α).Regular :=
  fun _ _ h => nomatch h

theorem regular_throw {failure : Failure} (h : failure.isRegular) :
    (throw failure : Noting α).Regular := by
  intro _ failure' hfailure
  exact Except.error.inj hfailure ▸ h

theorem regular_fail {f : Fault} (h : f.cause.isRegular) :
    (fail f : Noting α).Regular :=
  regular_throw h

theorem regular_note (warnings : List Warning) : (note warnings).Regular :=
  fun _ _ h => nomatch h

theorem regular_ofExcept {x : Except Fault α} (h : endsRegularly x) :
    (ofExcept x).Regular := by
  cases x with
  | ok a => exact regular_pure a
  | error f => exact regular_fail h

theorem Regular.bind {f : α → Noting β} (hm : m.Regular)
    (hf : ∀ a, (f a).Regular) : (m >>= f).Regular := by
  intro noted failure h
  simp only [ExceptT.run_bind, StateT.run_bind] at h
  have hfirst := hm noted
  generalize m.run.run noted = result at h hfirst
  obtain ⟨value, noted'⟩ := result
  cases value with
  | ok a => exact hf a noted' failure h
  | error e =>
    obtain rfl : e = failure := Except.error.inj h
    exact hfirst e rfl

theorem regular_mapM {f : α → Noting β} (hf : ∀ a, (f a).Regular) (l : List α) :
    (l.mapM f).Regular := by
  induction l with
  | nil => exact regular_pure _
  | cons a l ih =>
    rw [List.mapM_cons]
    exact (hf a).bind fun _ => ih.bind fun _ => regular_pure _

end Noting

namespace Arguments

theorem addSegment_regular (lastComma : Option Position) (list : Arguments) (s : Segment) :
    endsRegularly (addSegment lastComma list s) := by
  unfold addSegment
  repeat' split
  all_goals rfl

/-- Reading an argument list fails only with regular faults. -/
theorem parse_regular (group : Token) : (parse group).Regular := by
  unfold parse
  split
  · refine (Noting.regular_ofExcept (Token.tokenizeInner_regular ..)).bind fun reading => ?_
    refine (Noting.regular_note _).bind fun _ => ?_
    split
    · exact Noting.regular_pure _
    · exact Noting.regular_ofExcept (endsRegularly_foldlM (addSegment_regular _) _ _)
    · exact Noting.regular_fail rfl
  · exact Noting.regular_fail rfl

end Arguments

namespace Condition

theorem splitFrom_regular (symbol : String) (tokens : List Token) (last : Option Token)
    (current : List Token) : endsRegularly (splitFrom symbol last current tokens) := by
  induction tokens generalizing last current with
  | nil =>
    unfold splitFrom
    repeat' split
    all_goals rfl
  | cons t rest ih =>
    unfold splitFrom
    split
    · split
      · rfl
      · rfl
      · exact endsRegularly_map (ih _ _)
    · exact ih _ _

theorem exists_of_firstOutside {test : List Char → Option α} {o : Text.Outside} {cs before : List Char}
    {found : α} (h : Text.firstOutside test o cs = some (before, found)) :
    ∃ rest, test rest = some found := by
  induction cs generalizing o before with
  | nil => cases h
  | cons c cs ih =>
    rw [Text.firstOutside] at h
    split at h
    · next hhere =>
      obtain ⟨-, rfl⟩ := Prod.mk.inj (Option.some.inj h)
      split at hhere
      · exact ⟨_, hhere⟩
      · cases hhere
    · obtain ⟨⟨before', found'⟩, hlater, heq⟩ := Option.map_eq_some_iff.mp h
      obtain ⟨-, rfl⟩ := Prod.mk.inj heq
      exact ih hlater

theorem find_regular {cs : List Char} {failure : Failure}
    (h : Comparison.find cs = .error failure) : failure.isRegular := by
  unfold Comparison.find at h
  split at h
  · cases h
  · next hfound =>
    obtain rfl := Except.error.inj h
    obtain ⟨rest, hprobe⟩ := exists_of_firstOutside hfound
    unfold Comparison.probe at hprobe
    split at hprobe
    · cases hprobe
    · split at hprobe
      · obtain ⟨c, -, hc⟩ := Option.map_eq_some_iff.mp hprobe
        cases hc
      · cases hprobe
        rfl
  · cases h

theorem checkLiteral_regular {tokens : List Token} {last : Token} {failure : Failure}
    (h : checkLiteral tokens last = .error failure) : failure.isRegular := by
  unfold checkLiteral at h
  rcases hfind : Comparison.find (joinTokens tokens).toList with e | found
  · simp only [hfind] at h
    cases h
    exact find_regular hfind
  · simp only [hfind, bind, Except.bind] at h
    split at h
    · cases h
    · split at h
      · cases h
      · split at h
        · next hvalue =>
          cases h
          exact scoreValue_regular hvalue
        · cases h
        · split at h
          · cases h
            rfl
          · cases h

theorem parseLeaf_regular (first : Token) (rest : List Token) :
    (parseLeaf first rest).Regular := by
  unfold parseLeaf
  refine (Noting.regular_ofExcept (endsRegularly_forM (fun t => ?_) _)).bind fun _ => ?_
  · unfold checkLeafToken
    repeat' split
    all_goals rfl
  · split
    · exact Noting.regular_pure _
    · next hfailure => exact Noting.regular_throw (checkLiteral_regular hfailure)

theorem parseGroup_regular {read : Position → List Token → Noting Condition}
    (hread : ∀ p tokens, (read p tokens).Regular) (group : Token) :
    (parseGroup read group).Regular := by
  unfold parseGroup
  split
  · refine (Noting.regular_ofExcept (Token.tokenizeInner_regular ..)).bind fun reading => ?_
    refine (Noting.regular_note _).bind fun _ => ?_
    split
    · exact Noting.regular_fail rfl
    · exact hread _ _
    · exact Noting.regular_fail rfl
  · exact Noting.regular_fail rfl

theorem parseWithin_regular (depth : Nat) (at_ : Position) (tokens : List Token) :
    (parseWithin depth at_ tokens).Regular := by
  induction depth generalizing at_ tokens with
  | zero => exact Noting.regular_throw rfl
  | succ depth ih =>
    cases tokens with
    | nil => exact Noting.regular_fail rfl
    | cons first rest =>
      unfold parseWithin
      refine (Noting.regular_ofExcept (splitFrom_regular ..)).bind fun ors => ?_
      split
      · exact (Noting.regular_mapM (ih _) _).bind fun _ => Noting.regular_pure _
      · refine (Noting.regular_ofExcept (splitFrom_regular ..)).bind fun ands => ?_
        split
        · exact (Noting.regular_mapM (ih _) _).bind fun _ => Noting.regular_pure _
        · split
          · exact Noting.regular_fail rfl
          · exact (ih _ _).bind fun _ => Noting.regular_pure _
          · split
            · exact parseGroup_regular ih first
            · exact parseLeaf_regular first rest

theorem parseTokens_regular (at_ : Position) (tokens : List Token) :
    (parseTokens at_ tokens).Regular :=
  parseWithin_regular _ at_ tokens

/-- Reading a condition fails only with regular faults. -/
theorem parse_regular (group : Token) : (parse group).Regular :=
  parseGroup_regular parseTokens_regular group

end Condition

end Packwright
