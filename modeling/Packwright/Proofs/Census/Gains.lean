import Packwright.Proofs.Census.Counting
import Packwright.Proofs.Session.Numbering

/-!
# What sessions gain

A session gains items if each family of numbered functions goes on by as many numbers as there are
items of it, and by the names that the items get under these numbers. The functions of the square root
are all there, or none of them is. Steps of a compilation are told by the items that a session gains
where they succeed; what they leave where they fail has the functions of the square root in order.

## Main definitions

- `Session.names` — the names of a family
- `Sqrt.entries`, `Session.Rooted` — the functions of the square root, and that they are in order
- `Session.Gains` — the items that a session gains, and further names that it was due
- `Compile.Gains` — the same of a step
- `Compile.Counts` — a step becomes what a census tells

## Main results

- `Session.Gains.trans`, `Session.Gains.numbered` — gains one after the other, and a number taken first
- `Compile.Gains.bind`, `Compile.gains_takeId`, `Compile.gains_register` — steps
-/

namespace Packwright

/-! ### Items -/

namespace Item

variable {f g : Feature} {i : Item} {items items' : List Item} {n : Nat}

@[simp] theorem ofFamily_nil : ofFamily f [] = [] := rfl

theorem ofFamily_append : ofFamily f (items ++ items') = ofFamily f items ++ ofFamily f items' :=
  List.filter_append ..

theorem ofFamily_cons_self (h : i.feature = f) :
    ofFamily f (i :: items) = i :: ofFamily f items :=
  List.filter_cons_of_pos (by simpa using h)

theorem ofFamily_cons_of_ne (h : i.feature ≠ f) : ofFamily f (i :: items) = ofFamily f items :=
  List.filter_cons_of_neg (by simpa using h)

@[simp] theorem generated_nil : generated f [] n = 0 := rfl

theorem generated_append : generated f (items ++ items') n =
    generated f items n + generated f items' (n + (ofFamily f items).length) := by
  simp [generated, ofFamily_append, List.zipIdx_append]

theorem generated_cons_self (h : i.feature = f) :
    generated f (i :: items) n = i.names n + generated f items (n + 1) := by
  simp [generated, ofFamily_cons_self h]

theorem generated_cons_of_ne (h : i.feature ≠ f) :
    generated f (i :: items) n = generated f items n := by
  rw [generated, ofFamily_cons_of_ne h, generated]

end Item

/-! ### Sessions -/

/-- The functions of the square root, as they are registered. -/
def Sqrt.entries (space : String) : List Entry :=
  [((Feature.mathSqrt.name, mainName), ⟨Feature.mathSqrt.path mainName,
      mainBody (.call ((Feature.mathSqrt.path stepName).inSpace space))⟩),
    ((Feature.mathSqrt.name, stepName), ⟨Feature.mathSqrt.path stepName,
      stepBody (.call ((Feature.mathSqrt.path mainName).inSpace space))⟩)]

namespace Session

/-- The number that is given out next in a family. -/
abbrev peek (s : Session) (f : Feature) : Nat := s.pack.generated.peekId f.name

/-- The entries of a family. -/
abbrev ofFamily (s : Session) (f : Feature) : List Entry := s.entries.filter fun e => e.1.1 = f.name

/-- The names that are registered in a family. -/
def names (s : Session) (f : Feature) : Multiset String := (s.ofFamily f).map fun e => e.1.2

/-- The functions of the square root are there just when the session knows of them. -/
def Rooted (s : Session) : Prop :=
  s.ofFamily .mathSqrt = if s.sqrtEmitted then Sqrt.entries s.settings.space else []

/-- The session gains items, and some more names: each family goes on by its numbers and names, the
functions of the square root come with the first root, and there are none for flags. -/
structure Gains (items : List Item) (extra : Feature → Multiset String) (s s' : Session) : Prop where
  settings : s'.settings = s.settings
  numbers : ∀ f : Feature, f.isNumbered = true → s'.peek f = s.peek f + (Item.ofFamily f items).length
  names : ∀ f : Feature, f.isNumbered = true →
    s'.names f = s.names f + (Item.generated f items (s.peek f) + extra f)
  flags : s'.names .logic = s.names .logic
  sqrtEmitted : s'.sqrtEmitted = (s.sqrtEmitted || decide (Item.root ∈ items))
  rooted : s.Rooted → s'.Rooted

variable {s s₁ s' : Session} {items items' : List Item} {extra extra' : Feature → Multiset String}

/-- Neither functions nor their numbers have changed. -/
theorem Gains.of_same (hsettings : s'.settings = s.settings)
    (hgenerated : s'.pack.generated = s.pack.generated) (hsqrt : s'.sqrtEmitted = s.sqrtEmitted) :
    Gains [] 0 s s' := by
  have hentries : s'.entries = s.entries := by rw [Session.entries, hgenerated]
  have hnames : ∀ f, s'.names f = s.names f := by
    intro f
    rw [Session.names, ofFamily, hentries]
    rfl
  refine ⟨hsettings, fun f _ => ?_, fun f _ => ?_, hnames _, ?_, fun h => ?_⟩
  · rw [peek, hgenerated, Item.ofFamily_nil, List.length_nil, Nat.add_zero]
  · rw [hnames, Item.generated_nil, Pi.zero_apply, add_zero, add_zero]
  · rw [hsqrt]
    simp
  · rw [Rooted, ofFamily, hentries, hsqrt, hsettings]
    exact h

theorem Gains.refl (s : Session) : Gains [] 0 s s := .of_same rfl rfl rfl

/-- Gains one after the other. -/
theorem Gains.trans (h : Gains items extra s s₁) (h' : Gains items' extra' s₁ s') :
    Gains (items ++ items') (extra + extra') s s' := by
  refine ⟨h'.settings.trans h.settings, fun f hf => ?_, fun f hf => ?_, h'.flags.trans h.flags, ?_,
    h'.rooted ∘ h.rooted⟩
  · rw [h'.numbers f hf, h.numbers f hf, Item.ofFamily_append, List.length_append, Nat.add_assoc]
  · rw [h'.names f hf, h.names f hf, h.numbers f hf, Item.generated_append, Pi.add_apply]
    abel
  · rw [h'.sqrtEmitted, h.sqrtEmitted, Bool.or_assoc]
    simp [List.mem_append]

/-- Nothing that counts happens before and after. -/
theorem Gains.within {s₂ : Session} (h : Gains items extra s₁ s₂) (hbefore : Gains [] 0 s s₁)
    (hafter : Gains [] 0 s₂ s') : Gains items extra s s' := by
  have hall := (hbefore.trans h).trans hafter
  rwa [List.nil_append, List.append_nil, zero_add, add_zero] at hall

/-- The number of an item was taken first, and its names are due. -/
theorem Gains.numbered {i : Item} (hi : i.feature.isNumbered = true)
    (h : Gains items (extra + Pi.single i.feature (i.names (s.peek i.feature))) s₁ s')
    (hsettings : s₁.settings = s.settings) (hentries : s₁.entries = s.entries)
    (hsqrt : s₁.sqrtEmitted = s.sqrtEmitted)
    (hnumbers : ∀ f : Feature, s₁.peek f = s.peek f + if f = i.feature then 1 else 0) :
    Gains (i :: items) extra s s' := by
  have hnames : ∀ f, s₁.names f = s.names f := by
    intro f
    rw [Session.names, ofFamily, hentries]
    rfl
  have hroot : i ≠ Item.root := by
    rintro rfl
    cases hi
  refine ⟨h.settings.trans hsettings, fun f hf => ?_, fun f hf => ?_, h.flags.trans (hnames _), ?_,
    fun hs => h.rooted ?_⟩
  · rw [h.numbers f hf, hnumbers f]
    by_cases hown : f = i.feature
    · rw [if_pos hown, Item.ofFamily_cons_self hown.symm, List.length_cons]
      omega
    · rw [if_neg hown, Item.ofFamily_cons_of_ne (Ne.symm hown), Nat.add_zero]
  · rw [h.names f hf, hnames f, hnumbers f, Pi.add_apply]
    by_cases hown : f = i.feature
    · subst hown
      rw [if_pos rfl, Item.generated_cons_self rfl, Pi.single_eq_same]
      abel
    · rw [if_neg hown, Item.generated_cons_of_ne (Ne.symm hown), Pi.single_eq_of_ne hown, Nat.add_zero,
        add_zero (extra f)]
  · rw [h.sqrtEmitted, hsqrt]
    simp [List.mem_cons, hroot.symm]
  · rw [Rooted, ofFamily, hentries, hsqrt, hsettings]
    exact hs

/-- The functions of the square root stay in order when no function was registered. -/
theorem Rooted.quiet (h : s.Rooted) (hq : s.Quiet s') : s'.Rooted := by
  rw [Rooted, ofFamily, hq.entries, hq.sqrtEmitted, hq.settings]
  exact h

/-- One more function of a family. -/
theorem ofFamily_withEntry (s : Session) (f : Feature) (name : String) (commands : List Command)
    (g : Feature) : (s.withEntry f name commands).ofFamily g =
      s.ofFamily g ++ if g = f then [((f.name, name), ⟨f.path name, commands⟩)] else [] := by
  rw [ofFamily, Session.entries, withEntry, List.filter_append]
  by_cases hg : g = f
  · simp [hg]
  · have hname : f.name ≠ g.name := fun h => hg (Feature.name_injective h).symm
    simp [hg, hname]

/-- One more function is registered. -/
theorem gains_withEntry (s : Session) {f : Feature} (hf : f.isNumbered = true) (name : String)
    (commands : List Command) : Gains [] (Pi.single f {name}) s (s.withEntry f name commands) := by
  have hsqrt : f ≠ .mathSqrt := by
    rintro rfl
    cases hf
  have hlogic : f ≠ .logic := by
    rintro rfl
    cases hf
  refine ⟨rfl, fun _ _ => rfl, fun g _ => ?_, ?_, by simp [withEntry], fun hs => ?_⟩
  · rw [Session.names, ofFamily_withEntry, List.map_append, Item.generated_nil, zero_add,
      ← Multiset.coe_add]
    by_cases hg : g = f
    · subst hg
      simp [Session.names]
    · simp [Session.names, hg]
  · rw [Session.names, ofFamily_withEntry, if_neg hlogic.symm, List.append_nil]
    rfl
  · rw [Rooted, ofFamily_withEntry, if_neg hsqrt.symm, List.append_nil]
    exact hs

/-- A root is gained when the functions of the square root are there, or when they come. -/
theorem Gains.root (hsettings : s'.settings = s.settings)
    (hcounters : s'.pack.generated.counters = s.pack.generated.counters)
    (hentries : s'.entries =
      s.entries ++ if s.sqrtEmitted then [] else Sqrt.entries s.settings.space)
    (hsqrt : s'.sqrtEmitted = true) : Gains [.root] 0 s s' := by
  have hfamily : ∀ f : Feature, s'.ofFamily f = s.ofFamily f ++
      if s.sqrtEmitted = false ∧ f = .mathSqrt then Sqrt.entries s.settings.space else [] := by
    intro f
    rw [ofFamily, hentries, List.filter_append]
    cases s.sqrtEmitted with
    | true => rfl
    | false =>
      by_cases hf : f = .mathSqrt
      · simp [hf, Sqrt.entries]
      · have hname : Feature.mathSqrt.name ≠ f.name := fun h => hf (Feature.name_injective h).symm
        simp [hf, Sqrt.entries, hname]
  refine ⟨hsettings, fun f hf => ?_, fun f hf => ?_, ?_, ?_, fun hs => ?_⟩
  · have hother : Item.root.feature ≠ f := by
      rintro rfl
      cases hf
    rw [Item.ofFamily_cons_of_ne hother, Item.ofFamily_nil, peek, Registry.peekId, Registry.counter,
      hcounters]
    rfl
  · have hother : Item.root.feature ≠ f := by
      rintro rfl
      cases hf
    rw [Item.generated_cons_of_ne hother, Item.generated_nil, Pi.zero_apply, Session.names, hfamily,
      if_neg fun h => hother h.2.symm, List.append_nil, zero_add, add_zero]
    rfl
  · rw [Session.names, hfamily, if_neg (by simp), List.append_nil]
    rfl
  · rw [hsqrt]
    simp
  · rw [Rooted, hfamily, hs, hsqrt, hsettings]
    cases s.sqrtEmitted <;> simp

end Session

/-! ### Steps -/

namespace Compile

variable {α β : Type} {m : Compile α} {items items' : List Item}
  {extra extra' : Feature → Multiset String} {P P' : α → Prop} {Q : β → Prop}

-- This is a structure, so that naming a step for which it holds does not run the step.
/-- Where the step succeeds, the session gains the items and the names, and the result is as told. -/
structure Gains (m : Compile α) (items : List Item) (extra : Feature → Multiset String := 0)
    (P : α → Prop := fun _ => True) : Prop where
  meets : ∀ s : Session, m.Meets s (fun a s' => s.Gains items extra s' ∧ P a)
    fun s' => s.Rooted → s'.Rooted

/-- The step becomes what the census tells. -/
abbrev Counts (m : Compile (List Command)) (c : Census) : Prop :=
  m.Gains c.items 0 fun cs => cs.length = c.commands

theorem Gains.mono (h : m.Gains items extra P) (hP : ∀ a, P a → P' a) : m.Gains items extra P' :=
  ⟨fun s => (h.meets s).mono (fun _ _ h => ⟨h.1, hP _ h.2⟩) fun _ => id⟩

/-- One step after another. -/
theorem Gains.bind {f : α → Compile β} (h : m.Gains items extra P)
    (hf : ∀ a, P a → (f a).Gains items' extra' Q) :
    (m >>= f).Gains (items ++ items') (extra + extra') Q := by
  refine ⟨fun s => (h.meets s).bind (fun _ => id) fun a s₁ h₁ => ?_⟩
  obtain ⟨hgains, hP⟩ := h₁
  exact ((hf a hP).meets s₁).mono (fun b s' h' => ⟨hgains.trans h'.1, h'.2⟩)
    fun s' h' => h' ∘ hgains.rooted

/-- A step behind one that asks for nothing. -/
theorem Gains.next {f : α → Compile β} (h : m.Gains [] 0 P)
    (hf : ∀ a, P a → (f a).Gains items extra Q) : (m >>= f).Gains items extra Q := by
  have hboth := h.bind hf
  rwa [List.nil_append, zero_add] at hboth

/-- A step behind one that registers no names that are due. -/
theorem Gains.then {f : α → Compile β} (h : m.Gains items 0 P)
    (hf : ∀ a, P a → (f a).Gains items' extra Q) : (m >>= f).Gains (items ++ items') extra Q := by
  have hboth := h.bind hf
  rwa [zero_add] at hboth

/-- A step behind one that only registers names that are due. -/
theorem Gains.due {f : α → Compile β} (h : m.Gains [] extra P)
    (hf : ∀ a, P a → (f a).Gains items extra' Q) : (m >>= f).Gains items (extra + extra') Q :=
  h.bind hf

/-- A step before one that asks for nothing. -/
theorem Gains.last {f : α → Compile β} (h : m.Gains items extra P)
    (hf : ∀ a, P a → (f a).Gains [] 0 Q) : (m >>= f).Gains items extra Q := by
  have hboth := h.bind hf
  rwa [List.append_nil, add_zero] at hboth

theorem gains_pure {a : α} (h : P a) : (pure a : Compile α).Gains [] 0 P :=
  ⟨fun s => ⟨.refl s, h⟩⟩

theorem gains_throw {e : Failure} : (throw e : Compile α).Gains items extra P := ⟨fun _ => id⟩

theorem gains_fail {f : Fault} : (fail f : Compile α).Gains items extra P := ⟨fun _ => id⟩

theorem gains_failAt {t : Token} {cause : Cause} :
    (failAt t cause : Compile α).Gains items extra P :=
  ⟨fun _ => id⟩

theorem gains_get {f : Session → Compile β} (hf : ∀ s, (f s).Gains items extra Q) :
    (get >>= f).Gains items extra Q :=
  ⟨fun s => (hf s).meets s⟩

/-- A step that cannot change the session; what it gives is known of what follows. -/
theorem gains_ofExcept {x : Except Fault α} {f : α → Compile β}
    (hf : ∀ a, x = .ok a → (f a).Gains items extra Q) : (ofExcept x >>= f).Gains items extra Q := by
  cases x with
  | ok a => exact hf a rfl
  | error fault => exact ⟨fun _ => id⟩

theorem gains_modify {f : Session → Session} (hf : ∀ s : Session, s.Gains [] 0 (f s)) :
    (modify f : Compile PUnit).Gains [] :=
  ⟨fun s => ⟨hf s, trivial⟩⟩

/-! ### Small steps -/

theorem gains_debug (text : String) : (debug text).Gains [] :=
  gains_modify fun _ => .of_same rfl rfl rfl

theorem gains_warn (notice : Notice) (p : Position) : (warn notice p).Gains [] :=
  gains_modify fun _ => .of_same rfl rfl rfl

/-- A step on a pack that leaves the generated functions alone. -/
theorem gains_modifyPack {f : Pack → Pack} (hf : ∀ p : Pack, (f p).generated = p.generated) :
    (modifyPack f).Gains [] :=
  gains_modify fun s => .of_same rfl (hf s.pack) rfl

theorem gains_declare (name criteria : String) : (modifyPack (·.declare name criteria)).Gains [] :=
  gains_modifyPack fun p => (p.generated_declare name criteria).1

theorem gains_registerConstant (n : Int) : (modifyPack (·.registerConstant n)).Gains [] :=
  gains_modifyPack fun p => (p.generated_registerConstant n).1

theorem generated_extendFunction (p : Pack) (path : FunctionPath) (commands : List Command) :
    (p.extendFunction path commands).generated = p.generated := by
  unfold Pack.extendFunction
  split <;> rfl

theorem gains_extendFunction (path : FunctionPath) (commands : List Command) :
    (modifyPack (·.extendFunction path commands)).Gains [] :=
  gains_modifyPack fun p => generated_extendFunction p path commands

theorem gains_call (path : FunctionPath) : (call path).Gains [] :=
  gains_get fun _ => gains_pure trivial

/-- What a reader gives is known of what follows. -/
theorem gains_ofNoting (m : Noting α) : (ofNoting m).Gains [] 0 fun a => (m.run.run []).1 = .ok a := by
  refine ⟨fun s => ?_⟩
  unfold ofNoting
  rcases m.run.run [] with ⟨result, warnings⟩
  cases result with
  | ok a => exact ⟨.of_same rfl rfl rfl, rfl⟩
  | error failure => exact fun h => h

theorem gains_tokenizeInner (terminator : Terminator) (t : Token) :
    (tokenizeInner terminator t).Gains [] 0 fun statements =>
      ∃ r, t.tokenizeInner terminator = .ok r ∧ statements = r.statements := by
  refine ⟨fun s => ?_⟩
  unfold tokenizeInner
  cases hinner : t.inner? with
  | none => exact fun h => h
  | some inner =>
    have hread : t.tokenizeInner terminator = Packwright.tokenize terminator t.innerStart inner := by
      rw [Token.tokenizeInner, hinner]
    rw [hread]
    show (tokenize terminator t.innerStart inner).Meets s _ _
    unfold tokenize
    cases Packwright.tokenize terminator t.innerStart inner with
    | ok r => exact ⟨.of_same rfl rfl rfl, r, rfl, rfl⟩
    | error f => exact fun h => h

/-- A number is taken from a family, and what follows registers the names of the item. -/
theorem gains_takeId {f : Feature} {k : Nat → Compile β} (i : Item) (hi : i.feature = f)
    (hf : f.isNumbered = true)
    (hk : ∀ id, (k id).Gains items (extra + Pi.single f (i.names id)) Q) :
    (takeId f >>= k).Gains (i :: items) extra Q := by
  subst hi
  refine ⟨fun s => meets_bind.mpr (.takeId (fun n hn => ?_) fun h => h)⟩
  refine ((hk (s.peek i.feature)).meets _).mono
    (fun b s' h => ⟨h.1.numbered hf rfl rfl rfl fun f => ?_, h.2⟩) fun s' h => h
  rw [Session.peek, Registry.peekId_setCounter]
  by_cases hown : f = i.feature
  · rw [hown, if_pos rfl, if_pos rfl]
    exact hn
  · rw [if_neg fun h => hown (Feature.name_injective h), if_neg hown, Nat.add_zero]

theorem gains_register {f : Feature} (hf : f.isNumbered = true) (name : String)
    (commands : List Command) : (register f name commands).Gains [] (Pi.single f {name}) := by
  refine ⟨fun s => (register_meets f name commands).with_outcome.mono (fun path s' h => ?_)
    fun s' h => h.1.symm ▸ id⟩
  obtain ⟨hrun, -, hadds⟩ := h
  rw [outcome_register commands hadds.fresh] at hrun
  obtain ⟨-, rfl⟩ := Prod.mk.inj hrun
  exact ⟨s.gains_withEntry hf name commands, trivial⟩

theorem gains_allocate {f : Feature} (hf : f.isNumbered = true) (name : String)
    (commands : List Command) : (allocate f name commands).Gains [] (Pi.single f {name}) := by
  exact (gains_register hf name commands).last fun _ _ =>
    (gains_debug _).next fun _ _ => gains_pure trivial

theorem gains_registerNext {f : Feature} (i : Item) (hi : i.feature = f) (hf : f.isNumbered = true)
    (hnames : ∀ id, i.names id = {toString id}) (commands : List Command) :
    (registerNext f commands).Gains [i] :=
  gains_takeId i hi hf fun id => by
    rw [zero_add, hnames id]
    exact gains_register hf _ commands

theorem gains_allocateNext {f : Feature} (i : Item) (hi : i.feature = f) (hf : f.isNumbered = true)
    (hnames : ∀ id, i.names id = {toString id}) (commands : List Command) :
    (allocateNext f commands).Gains [i] :=
  (gains_registerNext i hi hf hnames commands).last fun _ _ =>
    (gains_debug _).next fun _ _ => gains_pure trivial

/-! ### Conditions -/

end Compile

namespace Condition

mutual

/-- The commands in front of the clauses are those that prepare them, whatever the scope and the flags. -/
theorem length_before_render (scope : Scope) (c : Condition) (n : Nat) :
    (c.render scope n).1.before.length = c.preparations := by
  cases c with
  | leaf tokens => rfl
  | all body =>
    rw [render, preparations]
    exact length_before_renderAll scope body n
  | not body =>
    rw [render, preparations]
    exact length_before_render scope body n
  | any body =>
    rw [render, preparations]
    exact congrArg (· + 1) (length_renderAny scope (logicFlag n) body (n + 1))

theorem length_before_renderAll (scope : Scope) (body : List Condition) (n : Nat) :
    (renderAll scope body n).1.before.length = preparationsAll body := by
  cases body with
  | nil => rfl
  | cons c rest =>
    rw [renderAll, preparationsAll, ← length_before_render scope c n,
      ← length_before_renderAll scope rest (c.render scope n).2]
    exact List.length_append

theorem length_renderAny (scope : Scope) (flag : Score) (body : List Condition) (n : Nat) :
    (renderAny scope flag body n).1.length = preparationsAny body := by
  cases body with
  | nil => rfl
  | cons c rest =>
    rw [renderAny, preparationsAny, ← length_before_render scope c n,
      ← length_renderAny scope flag rest (c.render scope n).2]
    simp only [Rendered.guardedCommands, List.length_append, List.length_singleton]

end

end Condition

theorem Census.noting_eq {α β : Type} [Inhabited β] {m : Noting α} {a : α}
    (h : (m.run.run []).1 = .ok a) (count : α → β) : Census.noting m count = count a := by
  rw [Census.noting, h, Census.reading]

namespace Compile

/-- Rendering moves on the counter of flags only. -/
theorem gains_render (c : Condition) :
    (render c).Gains [] 0 fun r => r.before.length = c.preparations := by
  refine ⟨fun s => .render (fun r n _ hrender => ⟨?_, ?_⟩) fun _ _ h => h⟩
  swap
  · rw [← c.length_before_render s.scope (s.pack.generated.peekId Feature.logic.name), hrender]
  refine ⟨rfl, fun f hf => ?_, fun f _ => ?_, rfl, by simp, fun h => h⟩
  · have hlogic : f.name ≠ Feature.logic.name := fun h => by
      rw [Feature.name_injective h] at hf
      cases hf
    rw [Session.peek, Registry.peekId_setCounter, if_neg hlogic, Item.ofFamily_nil, List.length_nil,
      Nat.add_zero]
  · rw [Item.generated_nil, Pi.zero_apply, add_zero, add_zero]
    rfl

theorem gains_condition (group : Token) :
    (condition group).Gains [] 0 fun r => r.before.length = Census.preparations group := by
  refine (gains_ofNoting _).next fun c hc => (gains_render c).mono fun r hr => ?_
  rw [Census.preparations, Census.noting_eq hc, hr]

end Compile

end Packwright
