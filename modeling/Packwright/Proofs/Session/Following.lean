import Packwright.Proofs.Dispatch
import Packwright.Proofs.File.Places
import Packwright.Proofs.Session.Numbering
import Packwright.Proofs.Token.Moves

/-!
# Steps that follow one another

Dots in the source name of a function become slashes, so no dot is left in its path. The names of
generated functions are plain: words without dots, with single slashes between them.

Compilation changes a pack in few ways, and what it does depends neither on where in a file a text
stands nor on the commands that are in the load function already. One step follows another one if it
succeeds whenever the other one does, with the same effect, in a session whose load function may lack
commands at its end.

## Main definitions

- `FunctionPath.Dotless` — a path without dots
- `PlainName` — words without dots, with single slashes between them
- `Pack.Change` — the ways in which the compilation of a construct changes a pack
- `Session.Builds` — what the compilation of constructs makes of a session
- `Pack.ahead`, `Session.Ahead` — the same but for commands at the end of the load function
- `Compile.Follows` — a step with the effect of another one
- `Noting.Follows` — a reader with the result of another one

## Main results

- `functionHead_dotless`, `classHead_dotless` — the paths of definitions
- `plainName_nat`, `plainName_dispatch`, `PlainName.slash` — the names of generated functions
- `resourceHead_kind` — the kinds of resources
- `Compile.Follows.bind` — one step after another
- `Compile.follows_takeId`, `Compile.follows_register`, `Compile.follows_define` — the small steps
-/

namespace Packwright

/-! ### Paths without dots -/

/-- There is no dot in a path. -/
def FunctionPath.Dotless (p : FunctionPath) : Prop := '.' ∉ p.text.toList

namespace FunctionPath

theorem dotless_loadPath : loadPath.Dotless := by
  unfold Dotless
  decide

theorem dotless_tickPath : tickPath.Dotless := by
  unfold Dotless
  decide

/-- The dots of a source name become slashes. -/
theorem dotless_ofName (name : String) : (ofName name).Dotless := by
  unfold Dotless ofName Text.replaceChar
  rw [String.toList_ofList]
  intro h
  obtain ⟨c, -, hc⟩ := List.mem_flatMap.mp h
  by_cases hdot : c = '.'
  · simp [hdot] at hc
  · rw [if_neg hdot, List.mem_singleton] at hc
    exact hdot hc.symm

theorem Dotless.under {parent p : FunctionPath} (hparent : parent.Dotless) (hp : p.Dotless) :
    (parent.under p).Dotless := by
  unfold FunctionPath.under
  split
  · exact hp
  · unfold Dotless at hparent hp ⊢
    simp [hparent, hp]

end FunctionPath

/-- Where functions may be defined at a level, they are put behind a path without dots. -/
def Level.Dotless (level : Except Cause FunctionPath) : Prop :=
  ∀ above, level = .ok above → above.Dotless

theorem Level.dotless_top : Level.Dotless Level.top.functions := by
  intro above h
  rw [← Except.ok.inj h]
  exact List.not_mem_nil

theorem Level.dotless_body : Level.Dotless Level.body.functions := by
  intro above h
  cases h

/-- A function has a path without dots. -/
theorem functionHead_dotless {level : Except Cause FunctionPath} (hlevel : Level.Dotless level)
    {keyword : Token} {rest : List Token} {head : FunctionHead}
    (h : functionHead level keyword rest = .ok head) : head.path.Dotless := by
  unfold functionHead at h
  split at h
  · split at h
    · cases h
    · next above =>
      split at h
      · cases h
      · split at h
        · cases h
        · split at h
          · cases h
          · split at h
            · cases h
            · rw [← Except.ok.inj h]
              exact (hlevel above rfl).under (FunctionPath.dotless_ofName _)
  · cases h

/-- A class has a path without dots. -/
theorem classHead_dotless {keyword : Token} {rest : List Token} {path : FunctionPath} {body : Token}
    (h : classHead keyword rest = .ok (path, body)) : path.Dotless := by
  unfold classHead at h
  split at h
  · split at h
    · cases h
    · split at h
      · cases h
      · obtain ⟨rfl, -⟩ := Prod.mk.inj (Except.ok.inj h)
        exact FunctionPath.dotless_ofName _
  · cases h

/-! ### Names of generated functions -/

/-- The name is made of words without dots, with single slashes between them. -/
def PlainName (name : String) : Prop := '.' ∉ name.toList ∧ [] ∉ File.splitSlashes name.toList

theorem plainName_word {name : String} (hne : name.toList ≠ [])
    (h : ∀ c ∈ name.toList, c ≠ '.' ∧ c ≠ '/') : PlainName name := by
  refine ⟨fun hdot => (h _ hdot).1 rfl, ?_⟩
  rw [File.splitSlashes_of_not_mem fun hslash => (h _ hslash).2 rfl, List.mem_singleton]
  exact hne.symm

theorem PlainName.slash {a b : String} (ha : PlainName a) (hb : PlainName b) :
    PlainName (a ++ "/" ++ b) := by
  have hlist : (a ++ "/" ++ b).toList = a.toList ++ '/' :: b.toList := by simp
  unfold PlainName
  rw [hlist, File.splitSlashes_append]
  simp [ha.1, hb.1, ha.2, hb.2]

theorem mem_toString_int {n : Int} {c : Char} (h : c ∈ (toString n).toList) :
    c.isDigit = true ∨ c = '-' := by
  cases n with
  | ofNat n => exact .inl (isDigit_of_mem_toString h)
  | negSucc n =>
    have hlist : (toString (Int.negSucc n)).toList = '-' :: (toString (n + 1)).toList := by
      show ("-" ++ toString (n + 1)).toList = _
      simp
    rw [hlist, List.mem_cons] at h
    exact h.symm.imp_left isDigit_of_mem_toString

/-- A name of digits and minus signs is plain. -/
theorem plainName_digits {name : String} (hne : name.toList ≠ [])
    (h : ∀ c ∈ name.toList, c.isDigit = true ∨ c = '-') : PlainName name := by
  refine plainName_word hne fun c hc => ?_
  rcases h c hc with hdigit | rfl
  · constructor
    · rintro rfl
      exact Bool.noConfusion hdigit
    · rintro rfl
      exact Bool.noConfusion hdigit
  · decide

theorem plainName_nat (n : Nat) : PlainName (toString n) := by
  refine plainName_digits ?_ fun c hc => .inl (isDigit_of_mem_toString hc)
  rw [Nat.toString_eq_repr, Nat.toList_repr]
  exact Nat.toDigits_ne_nil

theorem plainName_int (n : Int) : PlainName (toString n) :=
  plainName_digits (toString_int_tail n).1 fun _ => mem_toString_int

theorem plainName_dispatch (d : Dispatch) : PlainName d.name := by
  unfold Dispatch.name
  split
  · exact plainName_int d.low
  · refine plainName_digits (by simp) fun c hc => ?_
    simp only [String.toList_append, List.mem_append] at hc
    rcases hc with (hc | hc) | hc
    · exact mem_toString_int hc
    · exact .inr (List.mem_singleton.mp hc)
    · exact mem_toString_int hc

theorem Sqrt.plainName_mainName : PlainName Sqrt.mainName :=
  plainName_word (by decide) (by simp [mainName])

theorem Sqrt.plainName_stepName : PlainName Sqrt.stepName :=
  plainName_word (by decide) (by simp [stepName])

/-! ### Kinds of resources -/

/-- The kind of a resource has no dot in it. -/
theorem resourceHead_kind {keyword : Token} {rest : List Token} {head : ResourceHead}
    (h : resourceHead keyword rest = .ok head) : '.' ∉ head.kind.toList := by
  unfold resourceHead at h
  split at h
  · split at h
    · cases h
    · next kindText hkind =>
      split at h
      · cases h
      · split at h
        · cases h
        · rw [← Except.ok.inj h]
          intro hdot
          have hall := List.all_eq_true.mp (Option.filter_eq_some_iff.mp hkind).2 _ hdot
          exact absurd hall (by decide)
  · cases h

/-! ### Changes of a pack -/

/-- What a construct does to a pack in one step. Nothing is taken away, and the load function is not
touched. Names of generated functions are plain; the paths of others and the kinds of resources have no
dots. -/
inductive Pack.Change (p : Pack) : Pack → Prop
  | count {feature : String} {n : UInt32} (hn : p.generated.peekId feature ≤ n.toNat) :
    Change p { p with generated := p.generated.setCounter feature n }
  | generate (f : Feature) {name : String} (commands : List Command) (hname : PlainName name)
    (hfree : ∀ e ∈ p.generated.entries, e.1 ≠ (f.name, name)) :
    Change p { p with generated := { p.generated with
      entries := p.generated.entries ++ [((f.name, name), ⟨f.path name, commands⟩)] } }
  | declare (name criteria : String) : Change p (p.declare name criteria)
  | constant (n : Int) : Change p (p.registerConstant n)
  | define {path : FunctionPath} (commands : List Command) (hfree : p.hasFunction path = false)
    (hload : path ≠ loadPath) (hdots : path.Dotless) :
    Change p { p with functions := p.functions ++ [⟨path, commands⟩] }
  | tick (commands : List Command) : Change p (p.extendTick commands)
  | resource {key : ResourceKey} (json : String) (hfree : ∀ r ∈ p.resources, r.1 ≠ key)
    (hkind : '.' ∉ key.kind.toList) :
    Change p { p with resources := p.resources ++ [(key, json)] }

/-- The second session comes from the first one by compiling constructs: the pack was changed step by
step, and no file was begun. -/
structure Session.Builds (s s' : Session) : Prop where
  settings : s'.settings = s.settings
  imported : s'.imported = s.imported
  changes : Relation.ReflTransGen Pack.Change s.pack s'.pack

/-- The pack with commands at the end of its load function. -/
def Pack.ahead (p : Pack) (out : List Command) : Pack :=
  p.updateFunction loadPath (·.extend out)

/-- The first session is the second one with commands at the end of its load function, as far as
compilation of constructs can tell. -/
structure Session.Ahead (out : List Command) (s s' : Session) : Prop where
  settings : s.settings = s'.settings
  scope : s.scope = s'.scope
  tickDefined : s.tickDefined = s'.tickDefined
  sqrtEmitted : s.sqrtEmitted = s'.sqrtEmitted
  pack : s.pack = s'.pack.ahead out

theorem tickPath_ne_loadPath : tickPath ≠ loadPath := by decide

namespace Pack

variable (p : Pack) (out : List Command)

theorem ahead_nil : p.ahead [] = p := by
  have hsame : ∀ f ∈ p.functions, (if f.path = loadPath then f.extend [] else f) = f := by
    intro f _
    split
    · simp [PackFunction.extend]
    · rfl
  rw [ahead, updateFunction, List.map_congr_left hsame, List.map_id']

theorem ahead_ahead (more : List Command) : (p.ahead out).ahead more = p.ahead (out ++ more) := by
  unfold ahead updateFunction
  simp only [List.map_map]
  congr 1
  refine List.map_congr_left fun f _ => ?_
  rw [Function.comp_apply]
  by_cases hf : f.path = loadPath
  · simp [hf, PackFunction.extend]
  · simp [hf]

theorem function?_ahead (path : FunctionPath) :
    (p.ahead out).function? path =
      (p.function? path).map fun f => if f.path = loadPath then f.extend out else f :=
  Session.find?_map_extend p.functions loadPath path out

@[simp] theorem hasFunction_ahead (path : FunctionPath) :
    (p.ahead out).hasFunction path = p.hasFunction path := by
  rw [hasFunction, function?_ahead, Option.isSome_map, hasFunction]

/-- A load function that is there is extended at its end. -/
theorem extendLoad_eq_ahead (h : p.hasFunction loadPath = true) : p.extendLoad out = p.ahead out :=
  if_pos h

theorem ahead_declare (name criteria : String) :
    (p.ahead out).declare name criteria = (p.declare name criteria).ahead out := by
  unfold declare
  show (if p.isDeclared name then _ else _) = _
  split <;> rfl

theorem ahead_registerConstant (n : Int) :
    (p.ahead out).registerConstant n = (p.registerConstant n).ahead out := by
  unfold registerConstant
  show (let q := if p.constants.isEmpty then (p.ahead out).declare constantObjective "dummy"
      else p.ahead out
    if q.constants.contains n then q else { q with constants := q.constants ++ [n] }) = _
  rw [ahead_declare]
  by_cases hempty : p.constants.isEmpty = true
  · simp only [hempty, if_true]
    show (if (p.declare _ _).constants.contains n then _ else _) = _
    split <;> rfl
  · simp only [hempty, Bool.false_eq_true, if_false]
    show (if p.constants.contains n then _ else _) = _
    split <;> rfl

/-- Commands for another function than the load function. -/
theorem ahead_extendFunction {path : FunctionPath} (hpath : path ≠ loadPath)
    (commands : List Command) :
    (p.ahead out).extendFunction path commands = (p.extendFunction path commands).ahead out := by
  unfold extendFunction
  rw [hasFunction_ahead]
  split
  · unfold ahead updateFunction
    simp only [List.map_map]
    congr 1
    refine List.map_congr_left fun f _ => ?_
    rw [Function.comp_apply, Function.comp_apply]
    by_cases hf : f.path = loadPath
    · simp [hf, Ne.symm hpath, PackFunction.extend]
    · by_cases hf' : f.path = path
      · simp [hf', hpath, PackFunction.extend]
      · simp [hf, hf']
  · simp [ahead, updateFunction, hpath]

end Pack

namespace Session

variable {s s₁ s₂ s' : Session} {out : List Command}

theorem Builds.refl (s : Session) : s.Builds s := ⟨rfl, rfl, .refl⟩

theorem Builds.trans (h : s.Builds s₁) (h' : s₁.Builds s₂) : s.Builds s₂ :=
  ⟨h'.settings.trans h.settings, h'.imported.trans h.imported, h.changes.trans h'.changes⟩

theorem Builds.of_pack (hsettings : s'.settings = s.settings) (himported : s'.imported = s.imported)
    (hpack : s'.pack = s.pack) : s.Builds s' :=
  ⟨hsettings, himported, hpack ▸ .refl⟩

theorem Builds.of_change {p : Pack} (h : s.pack.Change p) : s.Builds { s with pack := p } :=
  ⟨rfl, rfl, .single h⟩

theorem Ahead.refl (s : Session) : s.Ahead [] s := ⟨rfl, rfl, rfl, rfl, s.pack.ahead_nil.symm⟩

theorem Ahead.generated (h : s.Ahead out s') : s.pack.generated = s'.pack.generated := by
  rw [h.pack]
  rfl

theorem Ahead.hasFunction (h : s.Ahead out s') (path : FunctionPath) :
    s.pack.hasFunction path = s'.pack.hasFunction path := by
  rw [h.pack, Pack.hasFunction_ahead]

/-- Both packs get the same generated functions and counters. -/
theorem Ahead.withGenerated (h : s.Ahead out s') (r : Registry) :
    Ahead out { s with pack := { s.pack with generated := r } }
      { s' with pack := { s'.pack with generated := r } } := by
  refine ⟨h.settings, h.scope, h.tickDefined, h.sqrtEmitted, ?_⟩
  rw [h.pack]
  rfl

/-- The same change of both packs. -/
theorem Ahead.modifyPack (h : s.Ahead out s') {f : Pack → Pack}
    (hf : f (s'.pack.ahead out) = (f s'.pack).ahead out) :
    Ahead out { s with pack := f s.pack } { s' with pack := f s'.pack } := by
  refine ⟨h.settings, h.scope, h.tickDefined, h.sqrtEmitted, ?_⟩
  show f s.pack = _
  rw [h.pack, hf]

end Session

/-! ### Readers -/

namespace Noting

variable {α β γ δ : Type} {R : α → β → Prop} {Q : γ → δ → Prop}

/-- Where the first reader gives a value the second one gives a related value, whatever was noted
before. -/
def Follows (R : α → β → Prop) (m : Noting α) (m' : Noting β) : Prop :=
  ∀ ws ws' a rest, m.run.run ws = (.ok a, rest) →
    ∃ b rest', m'.run.run ws' = (.ok b, rest') ∧ R a b

theorem run_bind (m : Noting α) (f : α → Noting γ) (ws : List Warning) :
    (m >>= f).run.run ws =
      match m.run.run ws with
      | (.ok a, rest) => (f a).run.run rest
      | (.error e, rest) => (.error e, rest) := by
  simp only [ExceptT.run_bind, StateT.run_bind]
  generalize m.run.run ws = r
  obtain ⟨result, rest⟩ := r
  cases result <;> rfl

theorem follows_pure {a : α} {b : β} (h : R a b) : Follows R (pure a) (pure b) := by
  rintro ws ws' a' rest ⟨⟩
  exact ⟨b, ws', rfl, h⟩

theorem follows_throw {e : Failure} {m' : Noting β} : Follows R (throw e) m' := by
  rintro ws ws' a rest ⟨⟩

theorem follows_fail {f : Fault} {m' : Noting β} : Follows R (fail f) m' := follows_throw

theorem Follows.bind {m : Noting α} {m' : Noting β} {f : α → Noting γ} {f' : β → Noting δ}
    (h : Follows R m m') (hf : ∀ a b, R a b → Follows Q (f a) (f' b)) :
    Follows Q (m >>= f) (m' >>= f') := by
  intro ws ws' c rest hrun
  rw [run_bind] at hrun
  rcases hm : m.run.run ws with ⟨_ | a, ws₁⟩
  · rw [hm] at hrun
    cases hrun
  · rw [hm] at hrun
    obtain ⟨b, ws₁', hm', hR⟩ := h ws ws' a ws₁ hm
    rw [run_bind, hm']
    exact hf a b hR ws₁ ws₁' c rest hrun

theorem follows_ofExcept {x : Except Fault α} {y : Except Fault β} (h : Agrees R x y) :
    Follows R (ofExcept x) (ofExcept y) := by
  cases x with
  | error e => exact follows_throw
  | ok a =>
    obtain ⟨b, rfl, hab⟩ := h a rfl
    exact follows_pure hab

theorem follows_note (ws ws' : List Warning) : Follows (fun _ _ => True) (note ws) (note ws') := by
  rintro before before' a rest ⟨⟩
  exact ⟨(), before' ++ ws', rfl, trivial⟩

theorem follows_mapM {f : γ → Noting α} {f' : δ → Noting β} {g : γ → δ}
    (h : ∀ c, Follows R (f c) (f' (g c))) (cs : List γ) :
    Follows (List.Forall₂ R) (cs.mapM f) ((cs.map g).mapM f') := by
  induction cs with
  | nil => exact follows_pure .nil
  | cons c cs ih =>
    rw [List.map_cons, List.mapM_cons, List.mapM_cons]
    refine (h c).bind fun a b hab => ih.bind fun as bs hrest => ?_
    exact follows_pure (.cons hab hrest)

end Noting

/-! ### Steps -/

namespace Compile

variable {α β γ δ : Type} {R R' : α → β → Prop} {Q : γ → δ → Prop} {m : Compile α} {m' : Compile β}

/-- The second step follows the first one. Whether it succeeds or fails, the first one does to a
session what constructs do; where it succeeds and the load function is ahead by some commands, the
second one succeeds with a related result and leaves it ahead by the same commands. -/
structure Follows (R : α → β → Prop) (m : Compile α) (m' : Compile β) : Prop where
  builds : ∀ s : Session, s.Builds (m.outcome s).2
  agrees : ∀ {out : List Command} {s s' : Session}, s.Ahead out s' → ∀ {a : α} {t : Session},
    m.outcome s = (.ok a, t) → ∃ b t', m'.outcome s' = (.ok b, t') ∧ R a b ∧ t.Ahead out t'

theorem Follows.mono (h : Follows R m m') (hR : ∀ a b, R a b → R' a b) : Follows R' m m' := by
  refine ⟨h.builds, fun hs a t hrun => ?_⟩
  obtain ⟨b, t', hrun', hab, ht⟩ := h.agrees hs hrun
  exact ⟨b, t', hrun', hR a b hab, ht⟩

theorem follows_pure {a : α} {b : β} (h : R a b) : Follows R (pure a) (pure b) := by
  refine ⟨fun s => .refl s, ?_⟩
  rintro out s s' hs a' t ⟨⟩
  exact ⟨b, s', rfl, h, hs⟩

theorem follows_throw {e : Failure} : Follows R (throw e) m' := by
  refine ⟨fun s => .refl s, ?_⟩
  rintro out s s' hs a t ⟨⟩

theorem follows_fail {f : Fault} : Follows R (fail f) m' := follows_throw

theorem follows_failAt {t : Token} {cause : Cause} : Follows R (failAt t cause) m' := follows_throw

/-- One step after another. -/
theorem Follows.bind {f : α → Compile γ} {f' : β → Compile δ} (h : Follows R m m')
    (hf : ∀ a b, R a b → Follows Q (f a) (f' b)) : Follows Q (m >>= f) (m' >>= f') := by
  constructor
  · intro s
    have hbuilds := h.builds s
    rw [outcome_bind]
    rcases hrun : m.outcome s with ⟨e | a, t⟩
    · rw [hrun] at hbuilds
      exact hbuilds
    · -- the first step follows itself, so its result is related to one of the second step
      rw [hrun] at hbuilds
      obtain ⟨b, -, -, hab, -⟩ := h.agrees (.refl s) hrun
      exact hbuilds.trans ((hf a b hab).builds t)
  · intro out s s' hs c t hrun
    rw [outcome_bind] at hrun
    rcases hm : m.outcome s with ⟨e | a, t₁⟩
    · rw [hm] at hrun
      cases hrun
    · rw [hm] at hrun
      obtain ⟨b, t₁', hm', hab, ht₁⟩ := h.agrees hs hm
      rw [outcome_bind, hm']
      exact (hf a b hab).agrees ht₁ hrun

theorem follows_mapM {f : γ → Compile α} {f' : δ → Compile β} {g : γ → δ}
    (h : ∀ c, Follows R (f c) (f' (g c))) (cs : List γ) :
    Follows (List.Forall₂ R) (cs.mapM f) ((cs.map g).mapM f') := by
  induction cs with
  | nil => exact follows_pure .nil
  | cons c cs ih =>
    rw [List.map_cons, List.mapM_cons, List.mapM_cons]
    refine (h c).bind fun a b hab => ih.bind fun as bs hrest => ?_
    exact follows_pure (.cons hab hrest)

theorem follows_forM {f : γ → Compile PUnit} {f' : δ → Compile PUnit} {g : γ → δ}
    (h : ∀ c, Follows (fun _ _ => True) (f c) (f' (g c))) (cs : List γ) :
    Follows (fun _ _ => True) (cs.forM f) ((cs.map g).forM f') := by
  induction cs with
  | nil => exact follows_pure trivial
  | cons c cs ih =>
    rw [List.map_cons, List.forM_eq_forM, List.forM_eq_forM, List.forM_cons, List.forM_cons]
    exact (h c).bind fun _ _ _ => ih

/-! ### Small steps -/

/-- What is read from the session is the same, but for the end of the load function. -/
theorem follows_get : Follows (fun s s' => ∃ out, Session.Ahead out s s') get get := by
  refine ⟨fun s => .refl s, ?_⟩
  rintro out s s' hs a t ⟨⟩
  exact ⟨s', s', rfl, ⟨out, hs⟩, hs⟩

theorem follows_modify {f f' : Session → Session} (hbuilds : ∀ s : Session, s.Builds (f s))
    (hahead : ∀ {out : List Command} {s s' : Session}, s.Ahead out s' → (f s).Ahead out (f' s')) :
    Follows (fun _ _ => True) (modify f) (modify f') := by
  refine ⟨fun s => hbuilds s, ?_⟩
  rintro out s s' hs a t ⟨⟩
  exact ⟨_, f' s', rfl, trivial, hahead hs⟩

/-- A change of the pack that does not depend on the end of the load function. -/
theorem follows_modifyPack {f : Pack → Pack} (hchange : ∀ p : Pack, p.Change (f p))
    (hahead : ∀ p out, f (Pack.ahead p out) = (f p).ahead out) :
    Follows (fun _ _ => True) (modifyPack f) (modifyPack f) :=
  follows_modify (fun s => .of_change (hchange s.pack)) fun hs => hs.modifyPack (hahead _ _)

theorem follows_debug (text text' : String) :
    Follows (fun _ _ => True) (debug text) (debug text') :=
  follows_modify (fun _ => .of_pack rfl rfl rfl)
    fun hs => ⟨hs.settings, hs.scope, hs.tickDefined, hs.sqrtEmitted, hs.pack⟩

theorem follows_warn (notice notice' : Notice) (p p' : Position) :
    Follows (fun _ _ => True) (warn notice p) (warn notice' p') :=
  follows_modify (fun _ => .of_pack rfl rfl rfl)
    fun hs => ⟨hs.settings, hs.scope, hs.tickDefined, hs.sqrtEmitted, hs.pack⟩

theorem follows_rename (name holder : String) :
    Follows (fun _ _ => True) (rename name holder) (rename name holder) := by
  refine follows_modify (fun _ => .of_pack rfl rfl rfl) fun hs => ?_
  exact ⟨hs.settings, congrArg (Scope.bind name holder) hs.scope, hs.tickDefined, hs.sqrtEmitted,
    hs.pack⟩

theorem follows_declare (name criteria : String) :
    Follows (fun _ _ => True) (modifyPack (·.declare name criteria))
      (modifyPack (·.declare name criteria)) :=
  follows_modifyPack (fun _ => .declare name criteria) fun p out => p.ahead_declare out _ _

theorem follows_registerConstant (n : Int) :
    Follows (fun _ _ => True) (modifyPack (·.registerConstant n))
      (modifyPack (·.registerConstant n)) :=
  follows_modifyPack (fun _ => .constant n) fun p out => p.ahead_registerConstant out n

theorem follows_extendTick (commands : List Command) :
    Follows (fun _ _ => True) (modifyPack (·.extendTick commands))
      (modifyPack (·.extendTick commands)) :=
  follows_modifyPack (fun _ => .tick commands)
    fun p out => p.ahead_extendFunction out tickPath_ne_loadPath commands

theorem follows_ofExcept {x : Except Fault α} {y : Except Fault β} (h : Agrees R x y) :
    Follows R (ofExcept x) (ofExcept y) := by
  cases x with
  | error e => exact follows_throw
  | ok a =>
    obtain ⟨b, rfl, hab⟩ := h a rfl
    exact follows_pure hab

theorem follows_ofNoting {m : Noting α} {m' : Noting β} (h : Noting.Follows R m m') :
    Follows R (ofNoting m) (ofNoting m') := by
  unfold ofNoting
  rcases hrun : m.run.run [] with ⟨e | a, ws⟩
  · constructor
    · exact fun s => .of_pack rfl rfl rfl
    · rintro out s s' hs a t ⟨⟩
  · obtain ⟨b, ws', hrun', hab⟩ := h [] [] a ws hrun
    rw [hrun']
    refine Follows.bind (R := fun _ _ => True) ?_ fun _ _ _ => follows_pure hab
    exact follows_modify (fun _ => .of_pack rfl rfl rfl)
      fun hs => ⟨hs.settings, hs.scope, hs.tickDefined, hs.sqrtEmitted, hs.pack⟩

/-- Statements inside a group, here and further down. -/
theorem follows_tokenizeInner (v : Move) (terminator : Terminator) (t : Token) :
    Follows (fun a b => b = a.map (Statement.moved v.inside)) (tokenizeInner terminator t)
      (tokenizeInner terminator (t.moved v)) := by
  have hread : ∀ t : Token, tokenizeInner terminator t =
      ofExcept (t.tokenizeInner terminator) >>= fun reading => do
        modify fun s => { s with warnings := s.warnings ++ reading.warnings }
        return reading.statements := by
    intro t
    cases hinner : t.inner? with
    | none =>
      simp only [tokenizeInner, Token.tokenizeInner, hinner]
      rfl
    | some inner =>
      simp only [tokenizeInner, Token.tokenizeInner, hinner]
      rfl
  rw [hread, hread]
  refine (follows_ofExcept (t.tokenizeInner_moved v terminator)).bind ?_
  rintro reading _ rfl
  refine Follows.bind (R := fun _ _ => True) ?_ fun _ _ _ => follows_pure rfl
  exact follows_modify (fun _ => .of_pack rfl rfl rfl)
    fun hs => ⟨hs.settings, hs.scope, hs.tickDefined, hs.sqrtEmitted, hs.pack⟩

theorem follows_call (path : FunctionPath) : Follows Eq (call path) (call path) := by
  refine follows_get.bind ?_
  rintro s s' ⟨out, hs⟩
  rw [hs.settings]
  exact follows_pure rfl

theorem follows_score? (text : String) : Follows Eq (score? text) (score? text) := by
  refine follows_get.bind ?_
  rintro s s' ⟨out, hs⟩
  rw [hs.scope]
  exact follows_pure rfl

theorem follows_takeId (f : Feature) : Follows Eq (takeId f) (takeId f) := by
  constructor
  · intro s
    rcases takeId_cases f s with ⟨-, hrun⟩ | ⟨n, hn, hrun⟩
    · rw [hrun]
      exact .refl s
    · rw [hrun]
      exact .of_change (.count (by omega))
  · intro out s s' hs id t hrun
    rcases hspent : s.pack.generated.isSpent f.name with _ | _
    · rw [takeId_left hspent] at hrun
      obtain ⟨hid, rfl⟩ := Prod.mk.inj hrun
      rw [hs.generated] at hspent hid ⊢
      exact ⟨_, _, takeId_left hspent, (Except.ok.inj hid).symm, hs.withGenerated _⟩
    · rw [takeId_spent hspent] at hrun
      cases hrun

theorem follows_register (f : Feature) {name : String} (hname : PlainName name)
    (commands : List Command) :
    Follows Eq (register f name commands) (register f name commands) := by
  constructor
  · intro s
    have hregister := register_meets (s := s) f name commands
    rw [meets_iff] at hregister
    rcases hrun : (register f name commands).outcome s with ⟨e | path, t⟩
    · rw [(hregister.2 e t hrun).1]
      exact .refl s
    · have hadds := (hregister.1 path t hrun).2
      rw [outcome_register commands hadds.fresh] at hrun
      obtain ⟨-, rfl⟩ := Prod.mk.inj hrun
      exact .of_change (.generate f commands hname hadds.fresh)
  · intro out s s' hs path t hrun
    have hadds := ((register_meets (s := s) f name commands).of_ok hrun).2
    rw [outcome_register commands hadds.fresh] at hrun
    obtain ⟨hpath, rfl⟩ := Prod.mk.inj hrun
    -- a name that is free in one session is free in the other one
    have hfree : ∀ e ∈ s'.entries, e.1 ≠ (f.name, name) := by
      rw [Session.entries, ← hs.generated]
      exact hadds.fresh
    refine ⟨_, _, outcome_register commands hfree, (Except.ok.inj hpath).symm, ?_⟩
    rw [Session.withEntry, Session.withEntry, Session.entries, Session.entries, hs.generated]
    exact hs.withGenerated _

theorem follows_allocate (f : Feature) {name : String} (hname : PlainName name)
    (commands : List Command) :
    Follows Eq (allocate f name commands) (allocate f name commands) := by
  refine (follows_register f hname commands).bind ?_
  rintro path _ rfl
  exact (follows_debug _ _).bind fun _ _ _ => follows_pure rfl

theorem follows_registerNext (f : Feature) (commands : List Command) :
    Follows Eq (registerNext f commands) (registerNext f commands) := by
  refine (follows_takeId f).bind ?_
  rintro id _ rfl
  exact follows_register f (plainName_nat id) commands

theorem follows_allocateNext (f : Feature) (commands : List Command) :
    Follows Eq (allocateNext f commands) (allocateNext f commands) := by
  refine (follows_registerNext f commands).bind ?_
  rintro path _ rfl
  exact (follows_debug _ _).bind fun _ _ _ => follows_pure rfl

theorem follows_render {c c' : Condition} (h : ∀ scope, c.rendering scope = c'.rendering scope) :
    Follows Eq (render c) (render c') := by
  constructor
  · intro s
    obtain ⟨result, n, hrun, hle, -⟩ := render_cases c s
    rw [hrun]
    exact .of_change (.count hle)
  · intro out s s' hs r t hrun
    -- flags are numbered by the counter, which is part of the registry
    rw [render_outcome] at hrun
    obtain ⟨hresult, rfl⟩ := Prod.mk.inj hrun
    have hother : (render c').outcome s' = (.ok r, { s' with pack := { s'.pack with
        generated := s.pack.generated.setCounter Feature.logic.name
          ((c.rendering s.scope).run.run (s.pack.generated.counter Feature.logic.name)).2 } }) := by
      rw [render_outcome, ← h, ← hs.scope, ← hs.generated]
      exact congrArg (·, _) hresult
    exact ⟨r, _, hother, rfl, hs.withGenerated _⟩

theorem follows_inScope (h : Follows R m m') : Follows R (inScope m) (inScope m') := by
  constructor
  · intro s
    have hbuilds := h.builds { s with scope := s.scope.push }
    rw [outcome_inScope]
    exact ⟨hbuilds.settings, hbuilds.imported, hbuilds.changes⟩
  · intro out s s' hs a t hm
    rw [outcome_inScope] at hm
    have hpush : Session.Ahead out { s with scope := s.scope.push }
        { s' with scope := s'.scope.push } :=
      ⟨hs.settings, congrArg Scope.push hs.scope, hs.tickDefined, hs.sqrtEmitted, hs.pack⟩
    rcases hinner : m.outcome { s with scope := s.scope.push } with ⟨result, t₁⟩
    rw [hinner] at hm
    obtain ⟨rfl, rfl⟩ := Prod.mk.inj hm
    obtain ⟨b, t₁', hinner', hab, ht₁⟩ := h.agrees hpush hinner
    refine ⟨b, { t₁' with scope := t₁'.scope.pop }, by rw [outcome_inScope, hinner'], hab, ?_⟩
    exact ⟨ht₁.settings, congrArg Scope.pop ht₁.scope, ht₁.tickDefined, ht₁.sqrtEmitted, ht₁.pack⟩

/-- The compiler of bodies follows another one, and may be given statements further down. -/
def FollowsBlock (block block' : Block) : Prop :=
  ∀ (v : Move) (statements : List Statement),
    Follows Eq (block statements) (block' (statements.map (Statement.moved v)))

theorem follows_body {block block' : Block} (hblock : FollowsBlock block block') (v : Move)
    (t : Token) : Follows Eq (body block t) (body block' (t.moved v)) := by
  unfold body
  rw [Token.isGroup_moved]
  split
  · refine (follows_tokenizeInner v .required t).bind ?_
    rintro statements _ rfl
    exact hblock v.inside statements
  · exact follows_failAt

end Compile

end Packwright
