import Packwright.Proofs.Searches
import Packwright.Proofs.Session.Outcomes

/-!
# Rendering with numbered flags

Rendering takes the numbers of its flags from a counter of 32 bits. As long as there are numbers left
and the leaves can be read, it gives the clauses and commands of `Condition.render`, which counts
without a bound, and leaves its counter behind. Otherwise it stops the program, with a counter that
never goes back.

## Main definitions

- `Flagging.Yields` — a step that gives a value, or stops the program for lack of numbers
- `Condition.Readable` — no leaf stops the program

## Main results

- `Condition.rendering_yields` — rendering by a counter and rendering without a bound
- `Condition.rendering_completes_iff` — when rendering gives a result
- `Compile.render_cases`, `Compile.takeId_cases` — rendering and taking numbers in a session
-/

namespace Packwright

/-! ### Steps that take numbers -/

namespace Flagging

variable {α β : Type} {readable readable' : Prop} {value : Nat → α × Nat} {m : Flagging α}

/-- Started with any counter, the step gives what `value` does without a bound, or stops the program.
If everything is readable, it stops only where a number is taken from a counter that is spent. -/
structure Yields (readable : Prop) (value : Nat → α × Nat) (m : Flagging α) : Prop where
  grows (n : Nat) : n ≤ (value n).2
  run (n : UInt32) : match m.run.run n with
    | (.ok a, n') => readable ∧ value n.toNat = (a, n'.toNat)
    | (.error e, n') => e = .crash ∧ n.toNat ≤ n'.toNat ∧
        (readable → UInt32.size ≤ n'.toNat + 1 ∧ n'.toNat + 1 ≤ (value n.toNat).2)

theorem yields_pure (a : α) : Yields True (fun n => (a, n)) (pure a) :=
  ⟨Nat.le_refl, fun _ => ⟨trivial, rfl⟩⟩

theorem Yields.congr {value' : Nat → α × Nat} (h : m.Yields readable value)
    (hreadable : readable' ↔ readable) (hvalue : ∀ n, value' n = value n) :
    m.Yields readable' value' := by
  rw [funext hvalue, propext hreadable]
  exact h

theorem next_yields : Yields True (fun n => (n, n + 1)) next := by
  refine ⟨Nat.le_succ, fun n => ?_⟩
  by_cases h : UInt32.size ≤ n.toNat + 1
  · have hrun : next.run.run n = (.error .crash, n) := by
      show (if UInt32.size ≤ n.toNat + 1 then (throw .crash : Flagging Nat) else _).run.run n = _
      rw [if_pos h]
      rfl
    rw [hrun]
    exact ⟨rfl, Nat.le_refl _, fun _ => ⟨h, Nat.le_refl _⟩⟩
  · have hrun : next.run.run n = (.ok n.toNat, n + 1) := by
      show (if UInt32.size ≤ n.toNat + 1 then (throw .crash : Flagging Nat) else _).run.run n = _
      rw [if_neg h]
      rfl
    have hnext : (n + 1).toNat = n.toNat + 1 :=
      (UInt32.toNat_add n 1).trans (Nat.mod_eq_of_lt (Nat.lt_of_not_le h))
    rw [hrun]
    exact ⟨trivial, by rw [hnext]⟩

/-- One step after another, which starts with the counter that the first one leaves. -/
theorem Yields.bind {f : α → Flagging β} {value' : α → Nat → β × Nat} (hm : m.Yields readable value)
    (hf : ∀ a, (f a).Yields readable' (value' a)) :
    Yields (readable ∧ readable') (fun n => value' (value n).1 (value n).2) (m >>= f) := by
  refine ⟨fun n => Nat.le_trans (hm.grows n) ((hf _).grows _), fun n => ?_⟩
  have hfirst := hm.run n
  simp only [ExceptT.run_bind, StateT.run_bind]
  generalize m.run.run n = result at hfirst ⊢
  obtain ⟨e | a, n'⟩ := result
  · obtain ⟨hcrash, hle, hspent⟩ := hfirst
    refine ⟨hcrash, hle, fun h => ⟨(hspent h.1).1, ?_⟩⟩
    exact Nat.le_trans (hspent h.1).2 ((hf _).grows _)
  · obtain ⟨hreadable, hvalue⟩ := hfirst
    have hsecond := (hf a).run n'
    show match (f a).run.run n' with | (.ok b, n₂) => _ | (.error e, n₂) => _
    generalize (f a).run.run n' = result at hsecond ⊢
    obtain ⟨e | b, n₂⟩ := result
    · obtain ⟨hcrash, hle, hspent⟩ := hsecond
      have hstart := hm.grows n.toNat
      rw [hvalue] at hstart
      refine ⟨hcrash, Nat.le_trans hstart hle, fun h => ?_⟩
      rw [hvalue]
      exact hspent h.2
    · refine ⟨⟨hreadable, hsecond.1⟩, ?_⟩
      rw [hvalue]
      exact hsecond.2

end Flagging

/-! ### Leaves -/

/-- What holds of all clauses that the parts of a text can become holds of the clause of the text. -/
theorem Clause.ofText_induction {scope : Scope} {text : String} {P : Clause → Prop}
    (raw : ∀ (keyword body : String) (negated : Bool), Text.after? keyword text = some body →
      P ⟨negated, .written (Text.trim body)⟩)
    (ranged : ∀ clause, ofMatches? scope text = some clause → P clause)
    (compared : ∀ left sign right score clause,
      Comparison.find text.toList = .ok (some (left, sign, right)) →
      Score.parseIn? scope (String.ofList left) = some score →
      ofComparison? scope score sign (String.ofList (Text.trimList right)) = some clause → P clause)
    (positive : ∀ score, Score.parseIn? scope text = some score →
      P ⟨false, .inRange score (.atLeast 1)⟩)
    (written : P ⟨false, .written text⟩) : P (ofText scope text) := by
  unfold ofText read
  rcases hif : Text.after? "if " text with _ | body
  case some => exact raw _ _ _ hif
  rcases hunless : Text.after? "unless " text with _ | body
  case some => exact raw _ _ _ hunless
  rcases hranged : ofMatches? scope text with _ | clause
  case some => exact ranged clause hranged
  unfold readPlain
  rcases hfind : Comparison.find text.toList with e | _ | ⟨left, sign, right⟩
  · exact written
  · rcases hscore : Score.parseIn? scope text with _ | score
    · exact written
    · exact positive score hscore
  · show P ((ofSides? scope left sign right).getD ⟨false, .written text⟩)
    rcases hclause : ofSides? scope left sign right with _ | clause
    · exact written
    · obtain ⟨score, hscore, hcompared⟩ := Option.bind_eq_some_iff.mp hclause
      exact compared left sign right score clause hfind hscore hcompared

/-! ### Conditions -/

namespace Condition

/-- A leaf that cannot be read stops the program. -/
theorem eq_crash_of_leafClause {scope : Scope} {tokens : List Token} {e : Failure}
    (h : leafClause scope tokens = .error e) : e = .crash := by
  unfold leafClause Clause.read Clause.readPlain at h
  split at h
  · cases h
  split at h
  · cases h
  split at h
  · cases h
  rcases hfind : Comparison.find (leafText tokens).toList with e' | found
  · rw [hfind] at h
    obtain rfl : e' = e := Except.error.inj h
    exact Comparison.eq_crash_of_find hfind
  · rw [hfind] at h
    rcases found with _ | ⟨left, c, right⟩
    · dsimp only [bind, Except.bind] at h
      split at h <;> cases h
    · cases h

mutual

/-- Every leaf can be read; none stops the program. -/
def Readable (scope : Scope) : Condition → Prop
  | .leaf tokens => ∃ clause, leafClause scope tokens = .ok clause
  | .all body | .any body => ReadableIn scope body
  | .not body => Readable scope body

/-- Every leaf of the parts can be read. -/
def ReadableIn (scope : Scope) : List Condition → Prop
  | [] => True
  | c :: rest => Readable scope c ∧ ReadableIn scope rest

end

/-- The step of a leaf takes no number. -/
theorem leafClause_yields (scope : Scope) (tokens : List Token) :
    (liftM (leafClause scope tokens) : Flagging Clause).Yields (Readable scope (.leaf tokens))
      fun n => (Clause.ofText scope (leafText tokens), n) := by
  refine ⟨Nat.le_refl, fun n => ?_⟩
  rcases h : leafClause scope tokens with e | clause
  · refine ⟨eq_crash_of_leafClause h, Nat.le_refl _, fun hreadable => ?_⟩
    obtain ⟨clause, hclause⟩ := hreadable
    cases h.symm.trans hclause
  · refine ⟨⟨clause, h⟩, ?_⟩
    rw [Clause.ofText, show Clause.read scope (leafText tokens) = .ok clause from h]

theorem readableIn_iff {scope : Scope} {body : List Condition} :
    ReadableIn scope body ↔ ∀ c ∈ body, Readable scope c := by
  induction body with
  | nil => simp [ReadableIn]
  | cons c rest ih => rw [ReadableIn, ih, List.forall_mem_cons]

/-- A leaf that is checked can be read. -/
theorem readable_of_checkLiteral {tokens : List Token} {last : Token}
    (h : checkLiteral tokens last = .ok ()) (scope : Scope) : Readable scope (.leaf tokens) := by
  rw [Readable]
  unfold leafClause Clause.read
  split
  · exact ⟨_, rfl⟩
  split
  · exact ⟨_, rfl⟩
  split
  · exact ⟨_, rfl⟩
  unfold Clause.readPlain
  rcases hfind : Comparison.find (leafText tokens).toList with e | _ | ⟨left, sign, right⟩
  · replace hfind : Comparison.find (joinTokens tokens).toList = .error e := hfind
    simp only [checkLiteral, hfind, bind, Except.bind] at h
    cases h
  · cases Score.parseIn? scope (leafText tokens) <;> exact ⟨_, rfl⟩
  · exact ⟨_, rfl⟩

mutual

/-- Rendering by a counter gives what rendering without a bound does, as long as there are numbers
left and the leaves can be read. -/
theorem rendering_yields (scope : Scope) :
    (c : Condition) → (rendering scope c).Yields (Readable scope c) (render scope c)
  | .leaf tokens =>
    ((leafClause_yields scope tokens).bind fun clause =>
      Flagging.yields_pure (⟨[], [clause]⟩ : Rendered)).congr (iff_of_eq (and_true _)).symm fun _ => rfl
  | .all body => renderingAll_yields scope body
  | .not body =>
    ((rendering_yields scope body).bind fun r => Flagging.yields_pure r.negate).congr
      (by simp [Readable]) fun _ => rfl
  | .any body =>
    (Flagging.next_yields.bind fun n =>
      (renderingAny_yields scope (logicFlag n) body).bind fun setting =>
        Flagging.yields_pure (⟨.set (logicFlag n) 0 :: setting,
          [⟨false, .inRange (logicFlag n) (.exactly 1)⟩]⟩ : Rendered)).congr
      (by simp [Readable]) fun _ => rfl

theorem renderingAll_yields (scope : Scope) :
    (body : List Condition) →
      (renderingAll scope body).Yields (ReadableIn scope body) (renderAll scope body)
  | [] => Flagging.yields_pure ({} : Rendered)
  | c :: rest =>
    ((rendering_yields scope c).bind fun r =>
      (renderingAll_yields scope rest).bind fun s => Flagging.yields_pure (r.and s)).congr
      (by simp [ReadableIn]) fun _ => rfl

theorem renderingAny_yields (scope : Scope) (flag : Score) :
    (body : List Condition) →
      (renderingAny scope flag body).Yields (ReadableIn scope body) (renderAny scope flag body)
  | [] => Flagging.yields_pure []
  | c :: rest =>
    ((rendering_yields scope c).bind fun r =>
      (renderingAny_yields scope flag rest).bind fun more =>
        Flagging.yields_pure (r.guardedCommands (.set flag 1) ++ more)).congr
      (by simp [ReadableIn]) fun _ => rfl

end

variable {scope : Scope} {c : Condition} {n n' : UInt32}

/-- A result is that of rendering without a bound. -/
theorem render_of_rendering {r : Rendered} (h : (rendering scope c).run.run n = (.ok r, n')) :
    Readable scope c ∧ render scope c n.toNat = (r, n'.toNat) := by
  have hrun := (rendering_yields scope c).run n
  rw [h] at hrun
  exact hrun

/-- Rendering fails in no other way than by stopping the program. -/
theorem eq_crash_of_rendering {e : Failure} (h : (rendering scope c).run.run n = (.error e, n')) :
    e = .crash := by
  have hrun := (rendering_yields scope c).run n
  rw [h] at hrun
  exact hrun.1

/-- Rendering gives a result exactly if the leaves can be read and there are numbers left. -/
theorem rendering_completes_iff :
    (∃ r n', (rendering scope c).run.run n = (.ok r, n')) ↔
      Readable scope c ∧ (render scope c n.toNat).2 < UInt32.size := by
  constructor
  · rintro ⟨r, n', h⟩
    obtain ⟨hreadable, hrender⟩ := render_of_rendering h
    rw [hrender]
    exact ⟨hreadable, n'.toNat_lt⟩
  · rintro ⟨hreadable, hleft⟩
    have hrun := (rendering_yields scope c).run n
    rcases h : (rendering scope c).run.run n with ⟨e | r, n'⟩
    · rw [h] at hrun
      obtain ⟨-, -, hspent⟩ := hrun
      have := hspent hreadable
      omega
    · exact ⟨r, n', rfl⟩

end Condition

/-! ### In a session -/

theorem Registry.peekId_setCounter (r : Registry) (feature other : String) (n : UInt32) :
    (r.setCounter feature n).peekId other =
      if other = feature then n.toNat else r.peekId other := by
  unfold Registry.peekId Registry.counter Registry.setCounter
  split
  · next heq => simp [heq]
  · next hne =>
    have hlookup : (r.counters.filter (·.1 ≠ feature)).lookup other = r.counters.lookup other := by
      induction r.counters with
      | nil => rfl
      | cons c counters ih =>
        by_cases hc : c.1 = feature
        · rw [List.filter_cons_of_neg (by simpa using hc), ih, List.lookup_cons,
            beq_false_of_ne (hc ▸ hne)]
        · rw [List.filter_cons_of_pos (by simpa using hc), List.lookup_cons, List.lookup_cons, ih]
    rw [List.lookup_cons, beq_false_of_ne hne, hlookup]

namespace Compile

variable {s : Session} {c : Condition}

/-- Rendering in a session sets the counter of flags. -/
theorem render_outcome (c : Condition) (s : Session) :
    (render c).outcome s =
      let r := s.pack.generated
      let (result, n) := (c.rendering s.scope).run.run (r.counter Feature.logic.name)
      (result, { s with pack := { s.pack with generated := r.setCounter Feature.logic.name n } }) :=
  rfl

/-- Rendering in a session moves the counter of flags, never back. A result is that of rendering
without a bound; without one the program stops, and the counter is spent if the condition can be
read. -/
theorem render_cases (c : Condition) (s : Session) :
    ∃ (result : Except Failure Rendered) (n : UInt32),
      (render c).outcome s = (result, { s with pack := { s.pack with
        generated := s.pack.generated.setCounter Feature.logic.name n } }) ∧
      s.pack.generated.peekId Feature.logic.name ≤ n.toNat ∧
      match result with
      | .ok r => c.render s.scope (s.pack.generated.peekId Feature.logic.name) = (r, n.toNat)
      | .error e => e = .crash ∧ (c.Readable s.scope → UInt32.size ≤ n.toNat + 1) := by
  obtain ⟨hgrows, hrun⟩ := Condition.rendering_yields s.scope c
  replace hrun := hrun (s.pack.generated.counter Feature.logic.name)
  rw [render_outcome]
  dsimp only
  generalize (c.rendering s.scope).run.run (s.pack.generated.counter Feature.logic.name) = outcome
    at hrun ⊢
  obtain ⟨e | r, n⟩ := outcome
  · obtain ⟨hcrash, hle, hspent⟩ := hrun
    exact ⟨_, n, rfl, hle, hcrash, fun h => (hspent h).1⟩
  · obtain ⟨-, hrender⟩ := hrun
    refine ⟨_, n, rfl, ?_, hrender⟩
    have hle := hgrows (s.pack.generated.counter Feature.logic.name).toNat
    rw [hrender] at hle
    exact hle

theorem takeId_spent {f : Feature} (h : s.pack.generated.isSpent f.name = true) :
    (takeId f).outcome s = (.error .crash, s) := by
  show (if s.pack.generated.isSpent f.name = true then (throw .crash : Compile Nat) else _).run.run s
    = _
  rw [if_pos h]
  rfl

theorem takeId_left {f : Feature} (h : s.pack.generated.isSpent f.name = false) :
    (takeId f).outcome s = (.ok (s.pack.generated.peekId f.name), { s with pack := { s.pack with
      generated := s.pack.generated.setCounter f.name (s.pack.generated.counter f.name + 1) } }) := by
  show (if s.pack.generated.isSpent f.name = true then (throw .crash : Compile Nat) else _).run.run s
    = _
  rw [if_neg (by simp [h])]
  rfl

/-- A family gives its next number, and its counter counts on by one, or its counter is spent and the
program stops. -/
theorem takeId_cases (f : Feature) (s : Session) :
    (s.pack.generated.isSpent f.name = true ∧ (takeId f).outcome s = (.error .crash, s)) ∨
    ∃ n : UInt32, n.toNat = s.pack.generated.peekId f.name + 1 ∧
      (takeId f).outcome s = (.ok (s.pack.generated.peekId f.name), { s with pack := { s.pack with
        generated := s.pack.generated.setCounter f.name n } }) := by
  rcases h : s.pack.generated.isSpent f.name with _ | _
  · refine .inr ⟨_, ?_, takeId_left h⟩
    have hlt : (s.pack.generated.counter f.name).toNat + 1 < UInt32.size :=
      Nat.lt_of_not_le (of_decide_eq_false h)
    exact (UInt32.toNat_add ..).trans (Nat.mod_eq_of_lt hlt)
  · exact .inl ⟨rfl, takeId_spent h⟩

variable {E : Session → Prop}

theorem Meets.takeId {f : Feature} {Q : Nat → Session → Prop}
    (hQ : ∀ n : UInt32, n.toNat = s.pack.generated.peekId f.name + 1 →
      Q (s.pack.generated.peekId f.name) { s with pack := { s.pack with
        generated := s.pack.generated.setCounter f.name n } })
    (hE : E s) : (takeId f).Meets s Q E := by
  unfold Meets
  rcases takeId_cases f s with ⟨-, hrun⟩ | ⟨n, hn, hrun⟩
  · rw [hrun]
    exact hE
  · rw [hrun]
    exact hQ n hn

theorem Meets.render {Q : Rendered → Session → Prop}
    (hQ : ∀ (r : Rendered) (n : UInt32), s.pack.generated.peekId Feature.logic.name ≤ n.toNat →
      c.render s.scope (s.pack.generated.peekId Feature.logic.name) = (r, n.toNat) →
      Q r { s with pack := { s.pack with
        generated := s.pack.generated.setCounter Feature.logic.name n } })
    (hE : ∀ n : UInt32, s.pack.generated.peekId Feature.logic.name ≤ n.toNat →
      E { s with pack := { s.pack with
        generated := s.pack.generated.setCounter Feature.logic.name n } }) :
    (render c).Meets s Q E := by
  unfold Meets
  obtain ⟨result, n, hrun, hle, hresult⟩ := render_cases c s
  rw [hrun]
  cases result with
  | ok r => exact hQ r n hle hresult
  | error e => exact hE n hle

end Compile

end Packwright
