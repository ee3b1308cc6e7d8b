import Packwright.Proofs.Session.Emission

/-!
# What a text means

The statements of a text mean a program: chains of `if` and `else` choose the first arm whose
condition holds, loops repeat their bodies, and every other statement runs the commands that it is
compiled to. The variable that a `for` declares has a holder of its own inside the loop.

## Main definitions

- `Construct.Fits` — constructs as they are split off a list of statements
- `loopScope` — the renamings inside a `for`
- `ReadsBlock`, `ReadsConstruct`, `ReadsBody`, `ReadsElses` — the program that a part of a text means

## Main results

- `constructs_fit` — constructs split off a list of statements fit
-/

namespace Packwright

/-! ### Constructs -/

/-- The statements of a construct are of the kinds that make it one. -/
def Construct.Fits : Construct → Prop
  | .chain first elses => first.kind = .ifBranch ∧ ∀ s ∈ elses, s.kind = .elseBranch
  | .doWhile first tail => first.kind = .doLoop ∧ ∀ s ∈ tail, s.kind = .whileLoop
  | .single s => s.kind ≠ .ifBranch ∧ s.kind ≠ .doLoop

theorem single_fits {s : Statement} (h : s.kind = .elseBranch) : (Construct.single s).Fits := by
  simp [Construct.Fits, h]

theorem addStatement_fit {s : Statement} {elses : List Statement} {rest : List Construct}
    (helses : ∀ e ∈ elses, e.kind = .elseBranch) (hrest : ∀ c ∈ rest, c.Fits) :
    ∀ c ∈ addStatement s elses rest, c.Fits := by
  have hlater : ∀ c ∈ elses.map Construct.single ++ rest, c.Fits := by
    intro c hc
    rcases List.mem_append.mp hc with hc | hc
    · obtain ⟨e, he, rfl⟩ := List.mem_map.mp hc
      exact single_fits (helses e he)
    · exact hrest c hc
  unfold addStatement
  split
  · next hkind => exact List.forall_mem_cons.mpr ⟨⟨hkind, helses⟩, hrest⟩
  · next hkind =>
    split
    · next w rest' =>
      obtain ⟨-, hrest'⟩ := List.forall_mem_cons.mp hrest
      split
      · next hw => exact List.forall_mem_cons.mpr ⟨⟨hkind, by simpa using hw⟩, hrest'⟩
      · exact List.forall_mem_cons.mpr ⟨⟨hkind, by simp⟩, hrest⟩
    · exact List.forall_mem_cons.mpr ⟨⟨hkind, by simp⟩, hlater⟩
  · next hif hdo => exact List.forall_mem_cons.mpr ⟨⟨hif, hdo⟩, hlater⟩

theorem splitElses_fit (statements : List Statement) :
    (∀ e ∈ (splitElses statements).1, e.kind = .elseBranch) ∧
      ∀ c ∈ (splitElses statements).2, c.Fits := by
  induction statements with
  | nil => simp [splitElses]
  | cons s rest ih =>
    unfold splitElses
    simp only
    split
    · next hkind => exact ⟨List.forall_mem_cons.mpr ⟨hkind, ih.1⟩, ih.2⟩
    · exact ⟨by simp, addStatement_fit ih.1 ih.2⟩

/-- Constructs split off a list of statements fit. -/
theorem constructs_fit (statements : List Statement) : ∀ c ∈ constructs statements, c.Fits := by
  obtain ⟨helses, hlater⟩ := splitElses_fit statements
  intro c hc
  rcases List.mem_append.mp hc with hc | hc
  · obtain ⟨e, he, rfl⟩ := List.mem_map.mp hc
    exact single_fits (helses e he)
  · exact hlater c hc

theorem Statement.exists_tokens {s : Statement} {k : StatementKind} (h : s.kind = k)
    (hk : k ≠ .vanilla) : ∃ first rest, s.tokens = first :: rest := by
  obtain ⟨tokens⟩ := s
  cases tokens with
  | nil => exact absurd h.symm hk
  | cons first rest => exact ⟨first, rest, rfl⟩

/-! ### Programs of a text -/

/-- The renamings inside a `for` with a number: a variable that its first part declares gets a
holder of its own. -/
def loopScope (scope : Scope) (id : Nat) : List Token → Scope
  | first :: second :: _ =>
    if first.isWord "let" then
      match leadingVariable? second.text with
      | some name =>
        scope.push.bind name
          ("$__for_" ++ toString id ++ "__" ++ String.ofList (name.toList.drop 1))
      | none => scope.push
    else scope.push
  | _ => scope.push

/-- A statement is compiled to commands, in some session with the given renamings. -/
def CompiledTo (scope : Scope) (s : Statement) (cs : List Command) : Prop :=
  ∃ (depth : Nat) (level : Level) (before after : Session), before.scope = scope ∧
    (Compile.construct (Compile.block depth) level (.single s)).outcome before = (.ok cs, after)

mutual

/-- The program of several constructs, one after the other. -/
inductive ReadsBlock : Scope → List Construct → Program → Prop
  | nil {scope : Scope} : ReadsBlock scope [] .skip
  | cons {scope : Scope} {c : Construct} {rest : List Construct} {p q : Program}
    (hc : ReadsConstruct scope c p) (hrest : ReadsBlock scope rest q) :
    ReadsBlock scope (c :: rest) (.seq p q)

/-- The program of a body in braces. -/
inductive ReadsBody : Scope → Token → Program → Prop
  | braces {scope : Scope} {t : Token} {r : Reading} {p : Program} (hgroup : t.isGroup .curly = true)
    (hread : t.tokenizeInner .required = .ok r)
    (hblock : ReadsBlock scope (constructs r.statements) p) : ReadsBody scope t p

/-- The program of a construct. -/
inductive ReadsConstruct : Scope → Construct → Program → Prop
  | chain {g : Guard} {keyword : Token} {rest : List Token} {elses : List Statement}
    {head braces : Token} {p q : Program}
    (hhead : headAndBody keyword rest = .ok (head, braces))
    (hcondition : (Condition.parse head).Gives g.condition) (hp : ReadsBody g.scope braces p)
    (hq : ReadsElses g.scope elses q) :
    ReadsConstruct g.scope (.chain ⟨keyword :: rest⟩ elses) (.choose g p q)
  | whileLoop {g : Guard} {keyword : Token} {rest : List Token} {head braces : Token} {p : Program}
    (hkind : Statement.kind ⟨keyword :: rest⟩ = .whileLoop)
    (hhead : headAndBody keyword rest = .ok (head, braces))
    (hcondition : (Condition.parse head).Gives g.condition) (hp : ReadsBody g.scope braces p) :
    ReadsConstruct g.scope (.single ⟨keyword :: rest⟩) (.repeatWhile g p)
  | doWhile {g : Guard} {keyword braces whileKeyword head : Token} {tokens : List Token}
    {p : Program} (hp : ReadsBody g.scope braces p)
    (hhead : Compile.doWhileHead whileKeyword tokens = .ok head)
    (hcondition : (Condition.parse head).Gives g.condition) :
    ReadsConstruct g.scope (.doWhile ⟨[keyword, braces]⟩ (some ⟨whileKeyword :: tokens⟩))
      (.doWhile p g)
  | forLoop {scope : Scope} {g : Guard} {keyword : Token} {rest : List Token} {head braces : Token}
    {r : Reading} {start test step : Statement} {p q body : Program} (id : Nat)
    (hkind : Statement.kind ⟨keyword :: rest⟩ = .forLoop)
    (hhead : headAndBody keyword rest = .ok (head, braces))
    (hread : head.tokenizeInner .optional = .ok r) (hparts : r.statements = [start, test, step])
    (hscope : g.scope = loopScope scope id start.tokens)
    (hp : ReadsBlock g.scope (constructs [start]) p)
    (hcondition : (Condition.parseTokens head.position test.tokens).Gives g.condition)
    (hq : ReadsBlock g.scope (constructs [step]) q) (hbody : ReadsBody g.scope braces body) :
    ReadsConstruct scope (.single ⟨keyword :: rest⟩) (.forLoop p g q body)
  | other {scope : Scope} {s : Statement} {cs : List Command}
    (hkind : s.kind ≠ .ifBranch ∧ s.kind ≠ .whileLoop ∧ s.kind ≠ .doLoop ∧ s.kind ≠ .forLoop)
    (hcompiled : CompiledTo scope s cs) : ReadsConstruct scope (.single s) (.commands cs)

/-- The program of the `else` statements of a chain. -/
inductive ReadsElses : Scope → List Statement → Program → Prop
  | none {scope : Scope} : ReadsElses scope [] .skip
  | otherwise {scope : Scope} {keyword braces : Token} {p : Program}
    (hp : ReadsBody scope braces p) : ReadsElses scope [⟨[keyword, braces]⟩] p
  | elseIf {g : Guard} {keyword next : Token} {more : List Token} {rest : List Statement}
    {head braces : Token} {p q : Program} (hif : next.isWord "if" = true)
    (hhead : headAndBody next more = .ok (head, braces))
    (hcondition : (Condition.parse head).Gives g.condition) (hp : ReadsBody g.scope braces p)
    (hq : ReadsElses g.scope rest q) :
    ReadsElses g.scope (⟨keyword :: next :: more⟩ :: rest) (.choose g p q)

end

/-! ### What is read -/

theorem Noting.Gives.unique {α : Type} {m : Noting α} {a b : α} (ha : m.Gives a) (hb : m.Gives b) :
    a = b := by
  obtain ⟨w, ha⟩ := ha
  obtain ⟨w', hb⟩ := hb
  rw [ha] at hb
  exact Except.ok.inj (Prod.mk.inj hb).1

section

variable {scope : Scope} {st : Statement} {p : Program}

theorem ReadsBlock.exists_of_singleton {c : Construct} (h : ReadsBlock scope [c] p) :
    ∃ q, ReadsConstruct scope c q ∧ p = .seq q .skip := by
  cases h with
  | cons hc hrest =>
    cases hrest with
    | nil => exact ⟨_, hc, rfl⟩

theorem ReadsConstruct.exists_of_while (hkind : st.kind = .whileLoop)
    (h : ReadsConstruct scope (.single st) p) :
    ∃ (g : Guard) (keyword head braces : Token) (rest : List Token) (q : Program),
      st.tokens = keyword :: rest ∧ headAndBody keyword rest = .ok (head, braces) ∧
      (Condition.parse head).Gives g.condition ∧ ReadsBody g.scope braces q ∧
      p = .repeatWhile g q := by
  cases h with
  | whileLoop _ hhead hcondition hp => exact ⟨_, _, _, _, _, _, rfl, hhead, hcondition, hp, rfl⟩
  | forLoop id hkind' =>
    rw [hkind] at hkind'
    cases hkind'
  | other hkind' => exact absurd hkind hkind'.2.1

theorem ReadsConstruct.exists_of_variableChange (hkind : st.kind = .variableChange)
    (h : ReadsConstruct scope (.single st) p) : ∃ cs, p = .commands cs := by
  cases h with
  | whileLoop hkind' =>
    rw [hkind] at hkind'
    cases hkind'
  | forLoop id hkind' =>
    rw [hkind] at hkind'
    cases hkind'
  | other => exact ⟨_, rfl⟩

end

end Packwright
