import Packwright.Proofs.Regular
import Packwright.Proofs.Session.Emission

/-!
# Numbers of generated functions

Each family of generated functions has a supply of numbers, and the name of a function begins with
one that was taken from it. A number is never given out again, so what is registered under it later
is new. The functions of the square root have no number of their own; they are there once, as if
they had taken the only number of their family.

## Main definitions

- `StartsWithNumber`, `Feature.Numbers` — the number that a name belongs to
- `Session.supply`, `Session.Counted` — the numbers that are given out
- `Session.Leads` — how far compilation can have gone from a session
- `Session.Reserves` — a number that was taken, with the names that are registered under it
- `Compile.Keeps`, `Compile.Steady` — steps that go on in this way and fail only regularly

## Main results

- `Session.Leads.trans`, `Session.Reserves.leads` — compilation goes on, numbers stay reserved
- `Compile.takeId_keeps`, `Compile.register_keeps` — to take a number and to use it
- `Compile.Steady.bind` — one step after another
-/

namespace Packwright

/-! ### Names and numbers -/

/-- What stands before the first separator can be read back. -/
theorem append_separator_inj {sep : Char} {a b x y : List Char} (ha : sep ∉ a) (hb : sep ∉ b)
    (h : a ++ sep :: x = b ++ sep :: y) : a = b ∧ x = y := by
  have hfront : ∀ front rest : List Char, sep ∉ front →
      (front ++ sep :: rest).takeWhile (· ≠ sep) = front := by
    intro front rest hmem
    have hother : ∀ c ∈ front, decide (c ≠ sep) = true :=
      fun c hc => decide_eq_true (ne_of_mem_of_not_mem hc hmem)
    rw [List.takeWhile_append_of_pos hother]
    simp
  obtain rfl : a = b := by rw [← hfront a x ha, h, hfront b y hb]
  exact ⟨rfl, (List.cons.inj (List.append_cancel_left h)).2⟩

/-- The name is a number, or it begins with one and a slash. -/
def StartsWithNumber (name : String) (n : Nat) : Prop :=
  name = toString n ∨ ∃ rest, name = toString n ++ "/" ++ rest

theorem isDigit_of_mem_toString {n : Nat} {c : Char} (h : c ∈ (toString n).toList) :
    c.isDigit = true := by
  rw [Nat.toString_eq_repr, Nat.toList_repr] at h
  exact Nat.isDigit_of_mem_toDigits (by omega) (by omega) h

theorem StartsWithNumber.takeWhile {name : String} {n : Nat} (h : StartsWithNumber name n) :
    name.toList.takeWhile Char.isDigit = (toString n).toList := by
  have hdigits : ∀ c ∈ (toString n).toList, c.isDigit = true := fun c => isDigit_of_mem_toString
  rcases h with rfl | ⟨rest, rfl⟩
  · rw [List.takeWhile_eq_self_iff]
    exact hdigits
  · rw [String.toList_append, String.toList_append, List.append_assoc,
      List.takeWhile_append_of_pos hdigits]
    simp

/-- A name begins with one number only. -/
theorem StartsWithNumber.unique {name : String} {m n : Nat} (hm : StartsWithNumber name m)
    (hn : StartsWithNumber name n) : m = n := by
  have heq : (toString m).toList = (toString n).toList := hm.takeWhile.symm.trans hn.takeWhile
  exact Nat.repr_inj.mp (String.toList_inj.mp heq)

/-- The number that the name of a generated function belongs to. -/
def Feature.Numbers (f : Feature) (name : String) (n : Nat) : Prop :=
  if f = .mathSqrt then n = 0 else StartsWithNumber name n

theorem Feature.Numbers.unique {f : Feature} {name : String} {m n : Nat} (hm : f.Numbers name m)
    (hn : f.Numbers name n) : m = n := by
  unfold Feature.Numbers at hm hn
  split at hm
  · next hf =>
    rw [if_pos hf] at hn
    exact hm.trans hn.symm
  · next hf =>
    rw [if_neg hf] at hn
    exact hm.unique hn

theorem Feature.numbers_toString {f : Feature} (hf : f ≠ .mathSqrt) (n : Nat) :
    f.Numbers (toString n) n := by
  rw [Feature.Numbers, if_neg hf]
  exact .inl rfl

theorem Feature.name_injective {f g : Feature} (h : f.name = g.name) : f = g := by
  revert h
  cases f <;> cases g <;> decide

/-! ### Packs -/

theorem Pack.hasFunction_iff (p : Pack) (path : FunctionPath) :
    p.hasFunction path = true ↔ path ∈ p.functions.map PackFunction.path := by
  simp [Pack.hasFunction, Pack.function?]

theorem Pack.generated_declare (p : Pack) (name criteria : String) :
    (p.declare name criteria).generated = p.generated ∧
      (p.declare name criteria).functions = p.functions := by
  unfold Pack.declare
  split <;> exact ⟨rfl, rfl⟩

theorem Pack.generated_registerConstant (p : Pack) (n : Int) :
    (p.registerConstant n).generated = p.generated ∧
      (p.registerConstant n).functions = p.functions := by
  unfold Pack.registerConstant
  simp only
  split <;> split <;> first | exact ⟨rfl, rfl⟩ | exact p.generated_declare _ _

/-! ### How far compilation has gone -/

namespace Session

/-- How many numbers of a family are given out; the functions of the square root count as one. -/
def supply (s : Session) (f : Feature) : Nat :=
  if f = .mathSqrt then s.sqrtEmitted.toNat else s.pack.generated.peekId f.name

/-- A function inside the reserved segment was warned about. -/
def Warned (s : Session) : Prop := ∃ w ∈ s.warnings, ∃ path, w.notice = .privateFunction path

/-- Every generated function belongs to a number that was given out. -/
def Counted (s : Session) : Prop :=
  ∀ e ∈ s.entries, ∃ (f : Feature) (n : Nat), e.1.1 = f.name ∧ f.Numbers e.1.2 n ∧ n < s.supply f

/-- The paths of the user functions. -/
abbrev paths (s : Session) : List FunctionPath := s.pack.functions.map PackFunction.path

/-- No two user functions have one path, and those inside the reserved segment were warned about. -/
structure Separate (s : Session) : Prop where
  distinct : s.paths.Nodup
  warned : ∀ path ∈ s.paths, path.isPrivate = true → s.Warned

/-- Compilation can have led from the first session to the second: no number was given back, and what
was registered since belongs to numbers that were given out since. -/
structure Leads (s s' : Session) : Prop where
  supply : ∀ f, s.supply f ≤ s'.supply f
  entries : ∀ e ∈ s'.entries, (∃ old ∈ s.entries, old.1 = e.1) ∨ ∃ (f : Feature) (n : Nat),
    e.1.1 = f.name ∧ f.Numbers e.1.2 n ∧ s.supply f ≤ n ∧ n < s'.supply f
  warned : s.Warned → s'.Warned
  separate : s.Separate → s'.Separate

/-- The number is given out, and of the names that belong to it only the given ones are
registered. -/
structure Reserves (s : Session) (f : Feature) (n : Nat) (names : Set String) : Prop where
  given : n < s.supply f
  only : ∀ e ∈ s.entries, e.1.1 = f.name → f.Numbers e.1.2 n → e.1.2 ∈ names

variable {s s₁ s₂ s' base : Session} {f : Feature} {n : Nat} {names : Set String}

theorem Leads.refl (s : Session) : s.Leads s :=
  ⟨fun _ => le_rfl, fun e he => .inl ⟨e, he, rfl⟩, id, id⟩

theorem Leads.trans (h : s.Leads s₁) (h' : s₁.Leads s₂) : s.Leads s₂ := by
  refine ⟨fun f => (h.supply f).trans (h'.supply f), fun e he => ?_, h'.warned ∘ h.warned,
    h'.separate ∘ h.separate⟩
  rcases h'.entries e he with ⟨e₁, he₁, hkey₁⟩ | ⟨f, n, hname, hn, hfrom, hto⟩
  · rcases h.entries e₁ he₁ with ⟨old, hold, hkey⟩ | ⟨f, n, hname, hn, hfrom, hto⟩
    · exact .inl ⟨old, hold, hkey.trans hkey₁⟩
    · rw [hkey₁] at hname hn
      exact .inr ⟨f, n, hname, hn, hfrom, hto.trans_le (h'.supply f)⟩
  · exact .inr ⟨f, n, hname, hn, (h.supply f).trans hfrom, hto⟩

theorem Leads.counted (h : s.Leads s') (hs : s.Counted) : s'.Counted := by
  intro e he
  rcases h.entries e he with ⟨old, hold, hkey⟩ | ⟨f, n, hname, hn, -, hto⟩
  · obtain ⟨f, n, hname, hn, hto⟩ := hs old hold
    rw [hkey] at hname hn
    exact ⟨f, n, hname, hn, hto.trans_le (h.supply f)⟩
  · exact ⟨f, n, hname, hn, hto⟩

/-- A number stays reserved: whatever is registered later belongs to later numbers. -/
theorem Reserves.leads (hr : s.Reserves f n names) (h : s.Leads s') : s'.Reserves f n names := by
  refine ⟨hr.given.trans_le (h.supply f), fun e he hname hn => ?_⟩
  rcases h.entries e he with ⟨old, hold, hkey⟩ | ⟨g, m, hname', hm, hfrom, -⟩
  · rw [← hkey] at hname hn ⊢
    exact hr.only old hold hname hn
  · obtain rfl := Feature.name_injective (hname.symm.trans hname')
    obtain rfl := hn.unique hm
    exact absurd hr.given (by omega)

theorem Reserves.mono {names' : Set String} (hr : s.Reserves f n names) (hsub : names ⊆ names') :
    s.Reserves f n names' :=
  ⟨hr.given, fun e he hname hn => hsub (hr.only e he hname hn)⟩

/-- Neither numbers nor generated functions have changed. -/
theorem Leads.of_generated (hgenerated : s'.pack.generated = s.pack.generated)
    (hsqrt : s'.sqrtEmitted = s.sqrtEmitted) (hwarned : s.Warned → s'.Warned)
    (hseparate : s.Separate → s'.Separate) : s.Leads s' := by
  have hsupply : ∀ f, s'.supply f = s.supply f := by
    intro f
    rw [Session.supply, Session.supply, hsqrt, hgenerated]
  refine ⟨fun f => (hsupply f).ge, fun e he => .inl ⟨e, ?_, rfl⟩, hwarned, hseparate⟩
  rwa [Session.entries, ← hgenerated]

/-- Nothing that matters for numbers and functions has changed. -/
theorem Leads.of_same (hgenerated : s'.pack.generated = s.pack.generated)
    (hfunctions : s'.pack.functions = s.pack.functions) (hsqrt : s'.sqrtEmitted = s.sqrtEmitted)
    (hwarned : s.Warned → s'.Warned) : s.Leads s' := by
  have hpaths : s'.paths = s.paths := by rw [Session.paths, hfunctions]
  refine .of_generated hgenerated hsqrt hwarned fun h => ⟨hpaths ▸ h.distinct, ?_⟩
  exact fun path hpath hprivate => hwarned (h.warned path (hpaths ▸ hpath) hprivate)

theorem leads_warnings (s : Session) (ws : List Warning) :
    s.Leads { s with warnings := s.warnings ++ ws } :=
  .of_same rfl rfl rfl fun ⟨w, hw, hnotice⟩ => ⟨w, List.mem_append_left _ hw, hnotice⟩

theorem leads_declare (s : Session) (name criteria : String) :
    s.Leads { s with pack := s.pack.declare name criteria } :=
  .of_same (s.pack.generated_declare _ _).1 (s.pack.generated_declare _ _).2 rfl id

theorem leads_registerConstant (s : Session) (n : Int) :
    s.Leads { s with pack := s.pack.registerConstant n } :=
  .of_same (s.pack.generated_registerConstant n).1 (s.pack.generated_registerConstant n).2 rfl id

/-- The counter of a family has gone up. -/
theorem leads_setCounter {m : UInt32} (hm : s.pack.generated.peekId f.name ≤ m.toNat) :
    s.Leads { s with pack := { s.pack with generated := s.pack.generated.setCounter f.name m } } := by
  refine ⟨fun g => ?_, fun e he => .inl ⟨e, he, rfl⟩, id, fun h => ⟨h.distinct, h.warned⟩⟩
  unfold Session.supply
  split
  · exact le_rfl
  · rw [Registry.peekId_setCounter]
    split
    · next heq =>
      rw [heq]
      exact hm
    · exact le_rfl

/-- A user function was added at a path that was free, with a warning if it is reserved. -/
theorem Separate.append (h : s.Separate) (path : FunctionPath) (hfree : path ∉ s.paths)
    (hpaths : s'.paths = s.paths ++ [path]) (hwarned : s.Warned → s'.Warned)
    (hprivate : path.isPrivate = true → s'.Warned) : s'.Separate := by
  constructor
  · rw [hpaths, List.nodup_append]
    refine ⟨h.distinct, List.nodup_singleton _, fun a ha b hb => ?_⟩
    rw [List.mem_singleton.mp hb]
    exact ne_of_mem_of_not_mem ha hfree
  · rw [hpaths]
    intro other hmem hreserved
    rcases List.mem_append.mp hmem with hold | hnew
    · exact hwarned (h.warned other hold hreserved)
    · exact hprivate (List.mem_singleton.mp hnew ▸ hreserved)

/-- Commands are put into a function outside the reserved segment. -/
theorem leads_extendFunction (s : Session) {path : FunctionPath} (hpath : path.isPrivate = false)
    (commands : List Command) :
    s.Leads { s with pack := s.pack.extendFunction path commands } := by
  by_cases htaken : s.pack.hasFunction path = true
  · have hpack : s.pack.extendFunction path commands =
        s.pack.updateFunction path (·.extend commands) := if_pos htaken
    rw [hpack]
    have hpaths : Session.paths { s with pack := s.pack.updateFunction path (·.extend commands) } =
        s.paths := by
      rw [Session.paths, Session.paths, Pack.updateFunction, List.map_map]
      refine List.map_congr_left fun f _ => ?_
      rw [Function.comp_apply]
      split <;> rfl
    exact .of_generated rfl rfl id fun h =>
      ⟨hpaths ▸ h.distinct, fun other hmem => h.warned other (hpaths ▸ hmem)⟩
  · have hpack : s.pack.extendFunction path commands =
        { s.pack with functions := s.pack.functions ++ [⟨path, commands⟩] } := if_neg htaken
    rw [hpack]
    refine .of_generated rfl rfl id fun h => h.append path ?_ (by simp [Session.paths]) id ?_
    · rwa [← Pack.hasFunction_iff]
    · simp [hpath]

/-- The session with one more generated function. -/
def withEntry (s : Session) (f : Feature) (name : String) (commands : List Command) : Session :=
  { s with pack := { s.pack with generated := { s.pack.generated with
      entries := s.entries ++ [((f.name, name), ⟨f.path name, commands⟩)] } } }

/-- A function is registered under a number that was taken since the base. -/
theorem Leads.withEntry (h : base.Leads s) (hfrom : base.supply f ≤ n) (hto : n < s.supply f)
    {name : String} (hname : f.Numbers name n) (commands : List Command) :
    base.Leads (s.withEntry f name commands) := by
  refine ⟨h.supply, fun e he => ?_, h.warned, fun hs => ?_⟩
  · rcases List.mem_append.mp he with he | he
    · exact h.entries e he
    · rw [List.mem_singleton.mp he]
      exact .inr ⟨f, n, rfl, hname, hfrom, hto⟩
  · exact ⟨(h.separate hs).distinct, (h.separate hs).warned⟩

/-- The functions of the square root are registered together. -/
theorem leads_sqrt (hnew : s.supply .mathSqrt = 0) (first second : String)
    (commands commands' : List Command) :
    s.Leads { (s.withEntry .mathSqrt first commands).withEntry .mathSqrt second commands' with
      sqrtEmitted := true } := by
  refine ⟨fun f => ?_, fun e he => ?_, id, fun h => ⟨h.distinct, h.warned⟩⟩
  · by_cases hf : f = .mathSqrt
    · rw [hf, hnew]
      exact Nat.zero_le _
    · rw [Session.supply, Session.supply, if_neg hf, if_neg hf]
      exact le_rfl
  · have hown : e ∈ s.entries ∨ e.1.1 = Feature.mathSqrt.name := by
      rcases List.mem_append.mp he with he | he
      · rcases List.mem_append.mp he with he | he
        · exact .inl he
        · exact .inr (by rw [List.mem_singleton.mp he])
      · exact .inr (by rw [List.mem_singleton.mp he])
    rcases hown with hold | hname
    · exact .inl ⟨e, hold, rfl⟩
    · exact .inr ⟨.mathSqrt, 0, hname, rfl, hnew.le, Nat.zero_lt_one⟩

theorem Reserves.withEntry (hr : s.Reserves f n names) (name : String) (commands : List Command) :
    (s.withEntry f name commands).Reserves f n (insert name names) := by
  refine ⟨hr.given, fun e he hname hn => ?_⟩
  rcases List.mem_append.mp he with he | he
  · exact Set.mem_insert_of_mem _ (hr.only e he hname hn)
  · rw [List.mem_singleton.mp he]
    exact Set.mem_insert ..

end Session

/-! ### Steps that keep numbers apart -/

namespace Compile

variable {α β : Type} {m : Compile α} {base s : Session} {P : α → Prop} {Q Q' : α → Session → Prop}

/-- Compilation goes on from the base, and after a success `Q` holds of the result and the session;
a failure is regular. -/
def Keeps (base : Session) (m : Compile α) (s : Session) (Q : α → Session → Prop) : Prop :=
  match m.outcome s with
  | (.ok a, s') => base.Leads s' ∧ Q a s'
  | (.error e, s') => base.Leads s' ∧ e.isRegular = true

/-- From any session compilation goes on, and after a success `P` holds of the result; a failure is
regular. -/
def Steady (m : Compile α) (P : α → Prop := fun _ => True) : Prop :=
  ∀ s : Session, s.Counted → m.Keeps s s fun a _ => P a

/-- Compilation goes on whether the step succeeds or fails. -/
theorem keeps_iff : m.Keeps base s Q ↔ base.Leads (m.outcome s).2 ∧
    (∀ a, (m.outcome s).1 = .ok a → Q a (m.outcome s).2) ∧
      ∀ e, (m.outcome s).1 = .error e → e.isRegular = true := by
  unfold Keeps
  obtain ⟨value, s'⟩ := m.outcome s
  cases value <;> simp

theorem keeps_pure {a : α} (hs : base.Leads s) (hQ : Q a s) :
    (pure a : Compile α).Keeps base s Q :=
  ⟨hs, hQ⟩

theorem keeps_throw {e : Failure} (hs : base.Leads s) (he : e.isRegular) :
    (throw e : Compile α).Keeps base s Q :=
  ⟨hs, he⟩

theorem Keeps.mono (h : m.Keeps base s Q) (hQ : ∀ a s', base.Leads s' → Q a s' → Q' a s') :
    m.Keeps base s Q' := by
  rw [keeps_iff] at h ⊢
  obtain ⟨hleads, hok, hregular⟩ := h
  exact ⟨hleads, fun a ha => hQ a _ hleads (hok a ha), hregular⟩

theorem Keeps.bind {f : α → Compile β} {R : β → Session → Prop} (h : m.Keeps base s Q)
    (hf : ∀ a s', base.Leads s' → Q a s' → (f a).Keeps base s' R) :
    (m >>= f).Keeps base s R := by
  unfold Keeps at h ⊢
  rw [outcome_bind]
  generalize m.outcome s = result at h ⊢
  obtain ⟨value, s'⟩ := result
  cases value with
  | ok a => exact hf a s' h.1 h.2
  | error e => exact h

/-- A step that cannot fail. -/
theorem keeps_of_meets (h : m.Meets s (fun a s' => base.Leads s' ∧ Q a s') fun _ => False) :
    m.Keeps base s Q := by
  unfold Meets at h
  unfold Keeps
  generalize m.outcome s = result at h ⊢
  obtain ⟨value, s'⟩ := result
  cases value with
  | ok a => exact h
  | error e => exact h.elim

/-- What goes on from a later session goes on from the base. -/
theorem Keeps.since (hs : base.Leads s) (h : m.Keeps s s Q) :
    m.Keeps base s fun a s' => s.Leads s' ∧ Q a s' := by
  rw [keeps_iff] at h ⊢
  obtain ⟨hleads, hok, hregular⟩ := h
  exact ⟨hs.trans hleads, fun a ha => ⟨hleads, hok a ha⟩, hregular⟩

theorem Steady.keeps (h : m.Steady P) (hs : base.Leads s) (hc : s.Counted) :
    m.Keeps base s fun a s' => s.Leads s' ∧ P a :=
  (h s hc).since hs

theorem Steady.mono {P' : α → Prop} (h : m.Steady P) (hP : ∀ a, P a → P' a) : m.Steady P' :=
  fun s hs => (h s hs).mono fun a _ _ => hP a

theorem steady_pure {a : α} (ha : P a) : (pure a : Compile α).Steady P :=
  fun s _ => keeps_pure (.refl s) ha

theorem steady_throw {e : Failure} (he : e.isRegular) : (throw e : Compile α).Steady P :=
  fun s _ => keeps_throw (.refl s) he

theorem steady_fail {f : Fault} (hf : f.cause.isRegular) : (fail f : Compile α).Steady P :=
  steady_throw hf

theorem steady_failAt {cause : Cause} (t : Token) (hcause : cause.isRegular) :
    (failAt t cause : Compile α).Steady P :=
  steady_fail hcause

theorem keeps_get (hs : base.Leads s) :
    (get : Compile Session).Keeps base s fun a s' => a = s ∧ s' = s :=
  ⟨hs, rfl, rfl⟩

theorem steady_get : (get : Compile Session).Steady := fun s _ => ⟨.refl s, trivial⟩

theorem steady_modify {f : Session → Session} (hf : ∀ s : Session, s.Leads (f s)) :
    (modify f : Compile PUnit).Steady :=
  fun s _ => ⟨hf s, trivial⟩

/-- One step after another. -/
theorem Steady.bind {f : α → Compile β} {R : β → Prop} (h : m.Steady P)
    (hf : ∀ a, P a → (f a).Steady R) : (m >>= f).Steady R := by
  intro s hs
  refine (h s hs).bind fun a s' hleads ha => ?_
  exact ((hf a ha).keeps hleads (hleads.counted hs)).mono fun _ _ _ h => h.2

/-- What is known of the results of a step may be used beside. -/
theorem Steady.and_meets {P' : α → Prop} (h : m.Steady P)
    (h' : ∀ s, m.Meets s (fun a _ => P' a) fun _ => True) : m.Steady fun a => P a ∧ P' a := by
  intro s hs
  have hkeeps := h s hs
  rw [keeps_iff] at hkeeps ⊢
  obtain ⟨hleads, hok, hregular⟩ := hkeeps
  exact ⟨hleads, fun a ha => ⟨hok a ha, (h' s).of_ok (Prod.ext ha rfl)⟩, hregular⟩

theorem steady_mapM {f : β → Compile α} (hf : ∀ b, (f b).Steady) (l : List β) :
    (l.mapM f).Steady := by
  induction l with
  | nil => exact steady_pure trivial
  | cons b l ih =>
    rw [List.mapM_cons]
    exact (hf b).bind fun _ _ => ih.bind fun _ _ => steady_pure trivial

theorem steady_forM {f : β → Compile PUnit} (hf : ∀ b, (f b).Steady) (l : List β) :
    (l.forM f).Steady := by
  induction l with
  | nil => exact steady_pure trivial
  | cons b l ih =>
    rw [List.forM_eq_forM, List.forM_cons]
    exact (hf b).bind fun _ _ => ih

theorem steady_ofExcept {x : Except Fault α} (hx : endsRegularly x) :
    (ofExcept x).Steady fun a => x = .ok a := by
  cases x with
  | ok a => exact steady_pure rfl
  | error f => exact steady_fail hx

/-- A step inside a scope of its own; what holds before and after does not depend on renamings. -/
theorem keeps_inScope (h : m.Keeps base { s with scope := s.scope.push } fun _ _ => True) :
    (inScope m).Keeps base s fun _ _ => True := by
  have hpop : ∀ s' : Session, s'.Leads { s' with scope := s'.scope.pop } :=
    fun s' => .of_same rfl rfl rfl id
  rw [keeps_iff] at h ⊢
  obtain ⟨hleads, -, hregular⟩ := h
  rw [outcome_inScope]
  exact ⟨hleads.trans (hpop _), fun _ _ => trivial, hregular⟩

/-! ### Small steps -/

theorem steady_debug (text : String) : (debug text).Steady :=
  steady_modify fun _ => .of_same rfl rfl rfl id

theorem steady_warn (notice : Notice) (p : Position) : (warn notice p).Steady :=
  steady_modify fun s => s.leads_warnings _

theorem steady_declare (name criteria : String) : (modifyPack (·.declare name criteria)).Steady :=
  steady_modify fun s => s.leads_declare name criteria

theorem steady_extendFunction {path : FunctionPath} (hpath : path.isPrivate = false)
    (commands : List Command) : (modifyPack (·.extendFunction path commands)).Steady :=
  steady_modify fun s => s.leads_extendFunction hpath commands

theorem steady_call (path : FunctionPath) : (call path).Steady :=
  steady_get.bind fun _ _ => steady_pure trivial

theorem steady_score? (text : String) : (score? text).Steady :=
  steady_get.bind fun _ _ => steady_pure trivial

theorem steady_ofNoting {m : Noting α} (hm : m.Regular) : (ofNoting m).Steady := by
  unfold ofNoting
  have hregular := hm []
  generalize m.run.run [] = result at hregular ⊢
  obtain ⟨value, warnings⟩ := result
  refine .bind (steady_modify ?_) fun _ _ => ?_
  · exact fun _ => .of_same rfl rfl rfl id
  · cases value with
    | ok a => exact steady_pure trivial
    | error e => exact steady_throw (hregular e rfl)

theorem steady_tokenize (terminator : Terminator) (start : Position) (source : String) :
    (tokenize terminator start source).Steady := by
  refine (steady_ofExcept (tokenize_regular ..)).bind fun reading _ => ?_
  refine .bind (steady_modify ?_) fun _ _ => steady_pure trivial
  exact fun s => s.leads_warnings _

theorem steady_tokenizeInner (terminator : Terminator) (t : Token) :
    (tokenizeInner terminator t).Steady := by
  unfold tokenizeInner
  split
  · exact steady_tokenize _ _ _
  · exact steady_failAt t rfl

theorem steady_render (c : Condition) : (render c).Steady := by
  intro s _
  obtain ⟨result, n, hrun, hle, hresult⟩ := render_cases c s
  unfold Keeps
  rw [hrun]
  cases result with
  | ok r => exact ⟨s.leads_setCounter hle, trivial⟩
  | error e => exact ⟨s.leads_setCounter hle, hresult.1 ▸ rfl⟩

theorem steady_condition (group : Token) : (condition group).Steady :=
  (steady_ofNoting (Condition.parse_regular group)).bind fun c _ => steady_render c

/-- The compiler of bodies fails only regularly. -/
def SteadyBlock (block : Block) : Prop := ∀ statements, (block statements).Steady

theorem steady_body {block : Block} (hblock : SteadyBlock block) (t : Token) :
    (body block t).Steady := by
  unfold body
  split
  · exact (steady_tokenizeInner _ t).bind fun statements _ => hblock statements
  · exact steady_failAt t rfl

/-! ### Taking and using numbers -/

/-- A number that is taken is reserved, and no name that belongs to it is registered. -/
theorem takeId_keeps {f : Feature} (hf : f ≠ .mathSqrt) (hs : base.Leads s) (hc : s.Counted) :
    (takeId f).Keeps base s fun id s' => s.supply f = id ∧ s'.Reserves f id ∅ := by
  have hsupply : s.supply f = s.pack.generated.peekId f.name := if_neg hf
  unfold Keeps
  rcases takeId_cases f s with ⟨-, hrun⟩ | ⟨m, hm, hrun⟩
  · rw [hrun]
    exact ⟨hs, rfl⟩
  rw [hrun]
  refine ⟨hs.trans (s.leads_setCounter (by omega)), hsupply, ?_, fun e he hname hn => ?_⟩
  · rw [Session.supply, if_neg hf, Registry.peekId_setCounter, if_pos rfl]
    omega
  · obtain ⟨g, m, hname', hm, hlt⟩ := hc e he
    obtain rfl := Feature.name_injective (hname.symm.trans hname')
    obtain rfl := hn.unique hm
    exact absurd (hsupply ▸ hlt) (lt_irrefl _)

/-- A function is registered under a name that is free. -/
theorem outcome_register {f : Feature} {name : String} (commands : List Command)
    (hfree : ∀ e ∈ s.entries, e.1 ≠ (f.name, name)) :
    (register f name commands).outcome s = (.ok (f.path name), s.withEntry f name commands) := by
  have hnone : s.pack.generated.contains f.name name = false := by
    rw [Registry.contains, Registry.get?, Option.isSome_eq_false_iff, Option.isNone_iff_eq_none,
      List.lookup_eq_none_iff]
    exact fun e he => bne_iff_ne.mpr (hfree e he).symm
  have hok : s.pack.generated.insert f.name name commands =
      .ok (f.path name, { s.pack.generated with
        entries := s.entries ++ [((f.name, name), ⟨f.path name, commands⟩)] }) := by
    simp [Registry.insert, hnone, Feature.path]
  have hrun : (register f name commands).outcome s =
      (ofCause (s.pack.generated.insert f.name name commands) >>= fun p => do
        set { s with pack := { s.pack with generated := p.2 } }
        return p.1).outcome s := rfl
  rw [hrun, hok]
  rfl

theorem register_succeeds {f : Feature} {name : String} (commands : List Command)
    (hfree : ∀ e ∈ s.entries, e.1 ≠ (f.name, name)) :
    (register f name commands).Meets s (fun _ s' => s' = s.withEntry f name commands)
      fun _ => False := by
  unfold Meets
  rw [outcome_register commands hfree]

/-- A step that needs no reserved number leaves the reserved ones as they are. -/
theorem Steady.bind_reserving {f : Feature} {n : Nat} {names : Set String} {k : α → Compile β}
    {R : β → Session → Prop} (h : m.Steady P) (hs : base.Leads s) (hc : base.Counted)
    (hr : s.Reserves f n names)
    (hk : ∀ a s', base.Leads s' → s'.Reserves f n names → P a → (k a).Keeps base s' R) :
    (m >>= k).Keeps base s R :=
  (h.keeps hs (hs.counted hc)).bind fun a s' hs' ha => hk a s' hs' (hr.leads ha.1) ha.2

/-- A function is registered under a reserved number, by a name that is not registered yet. -/
theorem register_keeps {f : Feature} {n : Nat} {names : Set String} {name : String}
    (hs : base.Leads s) (hfrom : base.supply f ≤ n) (hr : s.Reserves f n names)
    (hname : f.Numbers name n) (hnew : name ∉ names) (commands : List Command) :
    (register f name commands).Keeps base s fun _ s' => s'.Reserves f n (insert name names) := by
  unfold Keeps
  rw [outcome_register commands fun e he hkey => ?_]
  · exact ⟨hs.withEntry hfrom hr.given hname commands, hr.withEntry name commands⟩
  · obtain ⟨hfeature, rfl⟩ := Prod.mk.inj hkey
    exact hnew (hr.only e he hfeature hname)

theorem allocate_keeps {f : Feature} {n : Nat} (hf : f ≠ .mathSqrt) (hs : base.Leads s)
    (hc : base.Counted) (hfrom : base.supply f ≤ n) (hr : s.Reserves f n ∅)
    (commands : List Command) :
    (allocate f (toString n) commands).Keeps base s fun _ _ => True := by
  refine (register_keeps hs hfrom hr (Feature.numbers_toString hf n) (Set.notMem_empty _) commands).bind
    fun path s₁ hs₁ _ => ?_
  refine ((steady_debug _).keeps hs₁ (hs₁.counted hc)).bind fun _ s₂ hs₂ _ => ?_
  exact keeps_pure hs₂ trivial

theorem steady_registerNext {f : Feature} (hf : f ≠ .mathSqrt) (commands : List Command) :
    (registerNext f commands).Steady := by
  intro s hs
  refine (takeId_keeps hf (.refl s) hs).bind fun id s₁ hs₁ h => ?_
  obtain ⟨hid, hr⟩ := h
  exact (register_keeps hs₁ hid.le hr (Feature.numbers_toString hf id) (Set.notMem_empty _)
    commands).mono fun _ _ _ _ => trivial

theorem steady_allocateNext {f : Feature} (hf : f ≠ .mathSqrt) (commands : List Command) :
    (allocateNext f commands).Steady :=
  (steady_registerNext hf commands).bind fun _ _ =>
    (steady_debug _).bind fun _ _ => steady_pure trivial

end Compile

end Packwright
