import Packwright.Proofs.ArgumentTexts
import Packwright.Proofs.Binding
import Packwright.Proofs.Token.Respacing

/-!
# Arguments by place and by name

A call of a built-in function gives each parameter the argument that is passed for it, whether by its place or
by its name. What the arguments are bound to depends only on which parameter each of them is passed for: a
call whose last positional arguments are written behind the names of their parameters instead, in any order,
is accepted under the same conditions and has the same values.

## Main definitions

- `TokensAlike`, `Argument.Alike`, `Value.Alike` — what is written alike, at whatever place
- `Arguments.Passes` — the argument that is passed for a parameter
- `Arguments.Binds` — the value of a parameter
- `Arguments.Bindable` — the lists that a function accepts
- `Arguments.Renames` — a list that passes some of the positional arguments of another one by name

## Main results

- `ParamKind.convert?_alike` — arguments that are alike have values that are
- `Builtin.bind_eq_ok_iff`, `Builtin.exists_bind_iff` — what binding gives, and when
- `Arguments.RenamesFrom.bindable_iff`, `Arguments.RenamesFrom.bind_alike` — the same for the renamed list
- `call_binds_by_place_or_name` — the three laws for lists as they are read
-/

namespace Packwright

/-! ### Alike arguments -/

/-- Tokens that have the same kinds and texts one by one and that touch where the others do; they may stand at
different places. -/
structure TokensAlike (tokens tokens' : List Token) : Prop where
  shapes : tokens'.map Token.shape = tokens.map Token.shape
  gaps : adjacencies tokens' = adjacencies tokens

/-- Arguments that are written alike. -/
inductive Argument.Alike : Argument → Argument → Prop
  | plain {tokens tokens' : List Token} (h : TokensAlike tokens tokens') :
    Alike (.plain tokens) (.plain tokens')
  | arrow {body body' : Token} (h : TokensAlike [body] [body']) : Alike (.arrow body) (.arrow body')

/-- Values that are equal, but that an arrow function may stand at another place. -/
inductive Value.Alike : Value → Value → Prop
  | same (v : Value) : Alike v v
  | arrow {body body' : Token} (h : TokensAlike [body] [body']) : Alike (.arrow body) (.arrow body')

/-- Values of one parameter that are alike. -/
def Bound.Alike (own own' : Bound) : Prop := own.name = own'.name ∧ own.value.Alike own'.value

/-- Calls of one function whose values are alike one by one. -/
structure Bindings.Alike (bound bound' : Bindings) : Prop where
  builtin : bound.builtin = bound'.builtin
  values : List.Forall₂ Bound.Alike bound.values bound'.values

namespace Token

variable {t t' : Token}

theorem kind_eq_of_shape (h : t'.shape = t.shape) : t'.kind = t.kind := congrArg Prod.fst h

theorem text_eq_of_shape (h : t'.shape = t.shape) : t'.text = t.text :=
  String.toList_inj.mp (congrArg Prod.snd h)

theorem word?_eq_of_shape (h : t'.shape = t.shape) : t'.word? = t.word? := by
  rw [word?, word?, kind_eq_of_shape h, text_eq_of_shape h]

theorem value_eq_of_shape (h : t'.shape = t.shape) : t'.value = t.value := by
  rw [value, value, kind_eq_of_shape h, text_eq_of_shape h]

theorem stringValue_eq_of_shape (h : t'.shape = t.shape) :
    (if t'.isString then some t'.value else none) = if t.isString then some t.value else none := by
  have hstring : t'.isString = t.isString := by
    unfold isString
    rw [kind_eq_of_shape h]
  rw [hstring, value_eq_of_shape h]

/-- The place of a literal is seen only in a fault. -/
theorem int?_eq_of_shape (h : t'.shape = t.shape) : t'.int? = t.int? := by
  rw [int?, int?, scoreValue, scoreValue, word?_eq_of_shape h]
  rcases t.word? with _ | w
  · rfl
  · rcases hvalue : Packwright.scoreValue w with cause | v
    · simp only [hvalue]
    · simp only [hvalue]

end Token

namespace TokensAlike

variable {tokens tokens' : List Token}

/-- Texts that depend on kinds and texts alone are joined alike. -/
theorem joinBy {text : Token → List Char} (htext : ∀ t t' : Token, t'.shape = t.shape → text t' = text t)
    (h : TokensAlike tokens tokens') : joinBy text tokens' = joinBy text tokens := by
  obtain ⟨hshapes, hgaps⟩ := h
  induction tokens generalizing tokens' with
  | nil => rw [List.map_eq_nil_iff.mp hshapes]
  | cons t more ih =>
    obtain ⟨t', more', rfl, ht, hmore⟩ := List.map_eq_cons_iff.mp hshapes
    rcases more with _ | ⟨next, rest⟩
    · rw [List.map_eq_nil_iff.mp hmore]
      exact htext t t' ht
    · obtain ⟨next', rest', rfl, hnext, hrest⟩ := List.map_eq_cons_iff.mp hmore
      obtain ⟨hgap, hgaps⟩ := List.cons.inj hgaps
      rw [Packwright.joinBy, Packwright.joinBy, htext t t' ht, hgap, ih hmore hgaps]

/-- What is read off a single token is read off alike ones. -/
theorem single {β : Type} {f : Token → Option β} (hf : ∀ t t' : Token, t'.shape = t.shape → f t' = f t) :
    TokensAlike tokens tokens' →
      (match tokens' with | [t] => f t | _ => none) = (match tokens with | [t] => f t | _ => none) := by
  intro h
  have hlength : tokens'.length = tokens.length := by simpa using congrArg List.length h.shapes
  rcases tokens with _ | ⟨t, _ | ⟨next, rest⟩⟩
  · rw [List.length_eq_zero_iff.mp hlength]
  · obtain ⟨t', rfl⟩ := List.length_eq_one_iff.mp hlength
    exact hf t t' (List.cons.inj h.shapes).1
  · obtain ⟨t', next', rest', rfl⟩ : ∃ t' next' rest', tokens' = t' :: next' :: rest' := by
      rcases tokens' with _ | ⟨t', _ | ⟨next', rest'⟩⟩
      · cases hlength
      · cases hlength
      · exact ⟨t', next', rest', rfl⟩
    rfl

end TokensAlike

namespace Argument.Alike

variable {a a' : Argument}

theorem tokens (h : a.Alike a') : TokensAlike a.tokens a'.tokens := by
  cases h with
  | plain h => exact h
  | arrow h => exact h

theorem int? (h : a.Alike a') : a'.int? = a.int? :=
  TokensAlike.single (fun _ _ => Token.int?_eq_of_shape) h.tokens

theorem word? (h : a.Alike a') : a'.word? = a.word? :=
  TokensAlike.single (fun _ _ => Token.word?_eq_of_shape) h.tokens

theorem string? (h : a.Alike a') : a'.string? = a.string? :=
  TokensAlike.single (fun _ _ => Token.stringValue_eq_of_shape) h.tokens

theorem text (h : a.Alike a') : a'.text = a.text := by
  rw [Argument.text, Argument.text, joinTokens, joinTokens]
  exact congrArg String.ofList (h.tokens.joinBy fun t t' ht => by rw [Token.value_eq_of_shape ht])

end Argument.Alike

/-- Arguments that are alike are converted to values that are. -/
theorem ParamKind.convert?_alike {a a' : Argument} (h : a.Alike a') (kind : ParamKind) (scope : Scope) :
    Option.Rel Value.Alike (kind.convert? scope a) (kind.convert? scope a') := by
  have same : ∀ {x x' : Option Value}, x' = x → Option.Rel Value.Alike x x' := by
    intro x x' hx
    subst hx
    cases x' with
    | none => exact .none
    | some v => exact .some (.same v)
  cases kind with
  | integer | number | score | scoreOrInteger | selector | objective =>
    apply same
    simp only [convert?, h.int?, h.word?, h.string?]
  | text =>
    cases h with
    | plain h =>
      apply same
      simp only [convert?, (Argument.Alike.plain h).string?, (Argument.Alike.plain h).text]
    | arrow h => exact .none
  | arrow =>
    cases h with
    | plain h => exact .none
    | arrow h => exact .some (.arrow h)

theorem isSome_eq_of_rel {α β : Type} {R : α → β → Prop} {x : Option α} {y : Option β}
    (h : Option.Rel R x y) : x.isSome = y.isSome := by
  cases h with
  | none => rfl
  | some _ => rfl

/-! ### What is passed -/

section

variable {α β ε : Type} {f : α → Except ε β} {l : List α} {out : List β}

theorem mapM_eq_ok_iff : l.mapM f = .ok out ↔ List.Forall₂ (fun a b => f a = .ok b) l out := by
  induction l generalizing out with
  | nil =>
    rw [List.mapM_nil, List.forall₂_nil_left_iff]
    exact ⟨fun h => (Except.ok.inj h).symm, fun h => congrArg Except.ok h.symm⟩
  | cons a l ih =>
    rw [List.mapM_cons, List.forall₂_cons_left_iff]
    constructor
    · intro h
      obtain ⟨b, hb, h⟩ := exists_of_bind_ok h
      obtain ⟨rest, hrest, h⟩ := exists_of_bind_ok h
      exact ⟨b, rest, hb, ih.mp hrest, (Except.ok.inj h).symm⟩
    · rintro ⟨b, rest, hb, hrest, rfl⟩
      rw [hb, ih.mpr hrest]
      rfl

theorem exists_mapM_ok (h : ∀ a ∈ l, ∃ b, f a = .ok b) : ∃ out, l.mapM f = .ok out := by
  simp only [mapM_eq_ok_iff]
  induction l with
  | nil => exact ⟨[], .nil⟩
  | cons a l ih =>
    obtain ⟨⟨b, hb⟩, hl⟩ := List.forall_mem_cons.mp h
    obtain ⟨out, hout⟩ := ih hl
    exact ⟨b :: out, .cons hb hout⟩

end

namespace Arguments

/-- The list has an argument for the parameter `p` that stands at `i` in a declaration: by its place, or by the
name. -/
inductive Passes (args : Arguments) (i : Nat) (p : Param) (a : Argument) : Prop
  | place (h : args.positional[i]? = some a)
  | name (h : (p.name, a) ∈ args.keywords)

/-- What the parameter `p` at `i` in a declaration is bound to: the value of the argument that is passed for it,
or its default if there is none. -/
inductive Binds (scope : Scope) (args : Arguments) (i : Nat) (p : Param) : Bound → Prop
  | passed {a : Argument} {v : Value} (ha : args.Passes i p a) (hv : p.kind.convert? scope a = some v) :
    Binds scope args i p ⟨p.name, v, a.position⟩
  | default {d : String} {v : Value} (hnone : ∀ a, ¬args.Passes i p a) (hd : p.default? = some d)
    (hv : p.kind.default? d = some v) : Binds scope args i p ⟨p.name, v, args.position⟩

theorem Binds.fits {scope : Scope} {args : Arguments} {i : Nat} {p : Param} {own : Bound}
    (h : Binds scope args i p own) : p.kind.fits own.value := by
  cases h with
  | passed _ hv => exact ParamKind.convert?_fits hv
  | default _ _ hv => exact ParamKind.default?_fits hv

/-- Every argument has a parameter of its own. -/
structure Places (b : Builtin) (args : Arguments) : Prop where
  count : args.positional.length ≤ b.params.length
  keywords : ∀ keyword ∈ args.keywords,
    ∃ i p, b.params[i]? = some p ∧ p.name = keyword.1 ∧ args.positional.length ≤ i

/-- Every argument has a parameter of its own and is of its kind, and every parameter without a default has an
argument. -/
structure Bindable (b : Builtin) (scope : Scope) (args : Arguments) : Prop extends args.Places b where
  required : ∀ i p, b.params[i]? = some p → p.default? = none → ∃ a, args.Passes i p a
  converts : ∀ i p a, b.params[i]? = some p → args.Passes i p a → (p.kind.convert? scope a).isSome

end Arguments

namespace Builtin

variable {b : Builtin} {scope : Scope} {args : Arguments} {i j : Nat} {p q : Param} {a a' : Argument}
  {own : Bound} {bound : Bindings}

/-- No two parameters have one name. -/
theorem params_nodup (b : Builtin) : (b.params.map Param.name).Nodup := by
  cases b <;> decide

theorem index_eq_of_name (hp : b.params[i]? = some p) (hq : b.params[j]? = some q) (h : p.name = q.name) :
    i = j := by
  obtain ⟨hi, -⟩ := List.getElem?_eq_some_iff.mp hp
  refine (List.getElem?_inj (by simpa using hi) b.params_nodup).mp ?_
  rw [List.getElem?_map, List.getElem?_map, hp, hq, Option.map_some, Option.map_some, h]

theorem findIdx?_name (hp : b.params[i]? = some p) : b.params.findIdx? (·.name = p.name) = some i := by
  obtain ⟨hi, rfl⟩ := List.getElem?_eq_some_iff.mp hp
  refine List.findIdx?_eq_some_iff_getElem.mpr ⟨hi, by simp, fun j hj => ?_⟩
  have hne : b.params[j].name ≠ b.params[i].name := fun h =>
    hj.ne (index_eq_of_name (List.getElem?_eq_getElem (hj.trans hi)) hp h)
  simpa using hne

theorem checkCount_eq_ok_iff : b.checkCount args = .ok () ↔ args.positional.length ≤ b.params.length := by
  rw [checkCount, ← List.getElem?_eq_none_iff]
  cases args.positional[b.params.length]? with
  | none => simp
  | some extra => simp

theorem checkKeyword_eq_ok_iff {keyword : String × Argument} : b.checkKeyword args keyword = .ok () ↔
    ∃ i p, b.params[i]? = some p ∧ p.name = keyword.1 ∧ args.positional.length ≤ i := by
  obtain ⟨name, value⟩ := keyword
  simp only [checkKeyword]
  constructor
  · intro h
    split at h
    · cases h
    · next index hindex =>
      obtain ⟨hlt, hname, -⟩ := List.findIdx?_eq_some_iff_getElem.mp hindex
      split at h
      · cases h
      · next hle => exact ⟨index, _, List.getElem?_eq_getElem hlt, by simpa using hname, by omega⟩
  · rintro ⟨i, p, hp, rfl, hle⟩
    rw [findIdx?_name hp]
    exact if_neg hle.not_gt

/-- A parameter is passed at most one argument. -/
theorem passes_unique (hnodup : (args.keywords.map Prod.fst).Nodup) (hplaces : args.Places b)
    (hp : b.params[i]? = some p) (ha : args.Passes i p a) (ha' : args.Passes i p a') : a = a' := by
  have hone : ∀ {x x'}, args.positional[i]? = some x → (p.name, x') ∉ args.keywords := by
    intro x x' hx hname
    obtain ⟨j, q, hq, hqname, hle⟩ := hplaces.keywords _ hname
    obtain ⟨hi, -⟩ := List.getElem?_eq_some_iff.mp hx
    exact absurd (index_eq_of_name hq hp hqname) (by omega)
  cases ha with
  | place hx =>
    cases ha' with
    | place hx' => exact Option.some.inj (hx.symm.trans hx')
    | name hx' => exact absurd hx' (hone hx)
  | name hx =>
    cases ha' with
    | place hx' => exact absurd hx (hone hx')
    | name hx' => exact congrArg Prod.snd (List.inj_on_of_nodup_map hnodup hx hx' rfl)

/-- The argument that is looked up for a parameter is the one that is passed for it. -/
theorem lookup_eq_some_iff (hnodup : (args.keywords.map Prod.fst).Nodup) (hplaces : args.Places b)
    (hp : b.params[i]? = some p) :
    (args.positional[i]?).or (args.keyword? p.name) = some a ↔ args.Passes i p a := by
  have hsome : ∀ {a}, (args.positional[i]?).or (args.keyword? p.name) = some a → args.Passes i p a := by
    intro a h
    rcases Option.or_eq_some_iff.mp h with hplace | ⟨-, hname⟩
    · exact .place hplace
    · obtain ⟨front, back, heq, -⟩ := List.lookup_eq_some_iff.mp hname
      exact .name (heq ▸ List.mem_append_right front List.mem_cons_self)
  refine ⟨hsome, fun ha => ?_⟩
  rcases hlookup : (args.positional[i]?).or (args.keyword? p.name) with _ | found
  · obtain ⟨hplace, hname⟩ := Option.or_eq_none_iff.mp hlookup
    cases ha with
    | place h => exact absurd h (by simp [hplace])
    | name h => simpa using List.lookup_eq_none_iff.mp hname _ h
  · rw [passes_unique hnodup hplaces hp (hsome hlookup) ha]

/-- What one parameter is bound to. -/
theorem bindParam_eq_ok_iff (hnodup : (args.keywords.map Prod.fst).Nodup) (hplaces : args.Places b)
    (hp : b.params[i]? = some p) : b.bindParam scope args (p, i) = .ok own ↔ args.Binds scope i p own := by
  have hlookup := fun a => lookup_eq_some_iff (a := a) hnodup hplaces hp
  constructor
  · intro h
    unfold bindParam at h
    simp only at h
    split at h
    · next a ha =>
      split at h
      · next v hv =>
        obtain rfl := Except.ok.inj h
        exact .passed ((hlookup a).mp ha) hv
      · cases h
    · next hnone =>
      split at h
      · cases h
      · next d hd =>
        split at h
        · next v hv =>
          obtain rfl := Except.ok.inj h
          exact .default (fun a ha => by simp [hnone] at hlookup; exact hlookup a ha) hd hv
        · cases h
  · intro h
    cases h with
    | passed ha hv => simp only [bindParam, (hlookup _).mpr ha, hv]
    | default hnone hd hv =>
      have hlookup' : (args.positional[i]?).or (args.keyword? p.name) = none :=
        Option.eq_none_iff_forall_ne_some.mpr fun a ha => hnone a ((hlookup a).mp ha)
      simp only [bindParam, hlookup', hd, hv]

/-- What the parameters of a list are bound to one by one is what all of them are bound to. -/
theorem mapM_bindParam_eq_ok_iff (hnodup : (args.keywords.map Prod.fst).Nodup) (hplaces : args.Places b)
    {values : List Bound} : b.params.zipIdx.mapM (b.bindParam scope args) = .ok values ↔
      values.length = b.params.length ∧
        ∀ i p own, b.params[i]? = some p → values[i]? = some own → args.Binds scope i p own := by
  rw [mapM_eq_ok_iff, List.forall₂_iff_get]
  constructor
  · rintro ⟨hlength, h⟩
    refine ⟨by simpa using hlength.symm, fun i p own hp hown => ?_⟩
    obtain ⟨hi, rfl⟩ := List.getElem?_eq_some_iff.mp hp
    obtain ⟨hi', rfl⟩ := List.getElem?_eq_some_iff.mp hown
    refine (bindParam_eq_ok_iff hnodup hplaces hp).mp ?_
    simpa using h i (by simpa using hi) hi'
  · rintro ⟨hlength, h⟩
    refine ⟨by simpa using hlength.symm, fun i hi hi' => ?_⟩
    have hlt : i < b.params.length := by simpa using hi
    have hp := List.getElem?_eq_getElem hlt
    simpa using (bindParam_eq_ok_iff hnodup hplaces hp).mpr (h i _ _ hp (List.getElem?_eq_getElem hi'))

/-- What binding gives. -/
theorem bind_eq_ok_iff (hnodup : (args.keywords.map Prod.fst).Nodup) :
    b.bind scope args = .ok bound ↔ args.Places b ∧ bound.builtin = b ∧
      bound.values.length = b.params.length ∧
        ∀ i p own, b.params[i]? = some p → bound.values[i]? = some own → args.Binds scope i p own := by
  constructor
  · intro h
    obtain ⟨⟨⟩, hcount, h⟩ := exists_of_bind_ok h
    obtain ⟨⟨⟩, hkeywords, h⟩ := exists_of_bind_ok h
    obtain ⟨values, hvalues, h⟩ := exists_of_bind_ok h
    obtain rfl := Except.ok.inj h
    have hplaces : args.Places b := ⟨checkCount_eq_ok_iff.mp hcount,
      fun keyword hmem => checkKeyword_eq_ok_iff.mp (forM_eq_ok_iff.mp hkeywords keyword hmem)⟩
    exact ⟨hplaces, rfl, (mapM_bindParam_eq_ok_iff hnodup hplaces).mp hvalues⟩
  · rintro ⟨hplaces, hbuiltin, hvalues⟩
    obtain ⟨builtin, values⟩ := bound
    obtain rfl : builtin = b := hbuiltin
    have hkeywords : args.keywords.forM (builtin.checkKeyword args) = .ok () :=
      forM_eq_ok_iff.mpr fun keyword hmem => checkKeyword_eq_ok_iff.mpr (hplaces.keywords keyword hmem)
    have hmap : builtin.params.zipIdx.mapM (builtin.bindParam scope args) = .ok values :=
      (mapM_bindParam_eq_ok_iff hnodup hplaces).mpr hvalues
    rw [Builtin.bind, checkCount_eq_ok_iff.mpr hplaces.count, hkeywords, hmap]
    rfl

/-- Binding gives values exactly when every argument has a parameter of its own and is of its kind, and every
parameter has an argument or a default. -/
theorem exists_bind_iff (hnodup : (args.keywords.map Prod.fst).Nodup) :
    (∃ bound, b.bind scope args = .ok bound) ↔ args.Bindable b scope := by
  constructor
  · rintro ⟨bound, h⟩
    obtain ⟨hplaces, -, hlength, hbinds⟩ := (bind_eq_ok_iff hnodup).mp h
    have hown : ∀ i p, b.params[i]? = some p → ∃ own, args.Binds scope i p own := by
      intro i p hp
      obtain ⟨hi, -⟩ := List.getElem?_eq_some_iff.mp hp
      exact ⟨_, hbinds i p _ hp (List.getElem?_eq_getElem (hi.trans_eq hlength.symm))⟩
    refine ⟨hplaces, fun i p hp hnone => ?_, fun i p a hp ha => ?_⟩
    · obtain ⟨own, hbind⟩ := hown i p hp
      cases hbind with
      | passed ha hv => exact ⟨_, ha⟩
      | default _ hd _ => exact absurd hd (by simp [hnone])
    · obtain ⟨own, hbind⟩ := hown i p hp
      cases hbind with
      | passed ha' hv =>
        rw [passes_unique hnodup hplaces hp ha ha', hv]
        rfl
      | default hnone _ _ => exact absurd ha (hnone a)
  · intro h
    obtain ⟨values, hvalues⟩ := exists_mapM_ok (f := b.bindParam scope args) (l := b.params.zipIdx) <| by
      rintro ⟨p, i⟩ hmem
      have hp : b.params[i]? = some p := List.mem_zipIdx_iff_getElem?.mp hmem
      simp only [bindParam_eq_ok_iff hnodup h.toPlaces hp]
      by_cases hpassed : ∃ a, args.Passes i p a
      · obtain ⟨a, ha⟩ := hpassed
        obtain ⟨v, hv⟩ := Option.isSome_iff_exists.mp (h.converts i p a hp ha)
        exact ⟨_, .passed ha hv⟩
      · rcases hd : p.default? with _ | d
        · exact absurd (h.required i p hp hd) hpassed
        · obtain ⟨v, hv⟩ := Option.isSome_iff_exists.mp
            (b.default_fits p (List.mem_of_getElem? hp) d hd)
          exact ⟨_, .default (not_exists.mp hpassed) hd hv⟩
    exact ⟨⟨b, values⟩, (bind_eq_ok_iff hnodup).mpr
      ⟨h.toPlaces, rfl, (mapM_bindParam_eq_ok_iff hnodup h.toPlaces).mp hvalues⟩⟩

end Builtin

/-! ### Names instead of places -/

theorem exists_getElem?_of_forall₂ {α β : Type} {R : α → β → Prop} {l : List α} {l' : List β} {a : α}
    {i : Nat} (h : List.Forall₂ R l l') (ha : l[i]? = some a) : ∃ a', l'[i]? = some a' ∧ R a a' := by
  induction h generalizing i with
  | nil => cases ha
  | @cons x x' l l' hx _ ih =>
    cases i with
    | zero =>
      obtain rfl := Option.some.inj ha
      exact ⟨x', rfl, hx⟩
    | succ i => exact ih ha

theorem exists_mem_of_forall₂ {α β : Type} {R : α → β → Prop} {l : List α} {l' : List β} {a : α}
    (h : List.Forall₂ R l l') (ha : a ∈ l) : ∃ a' ∈ l', R a a' := by
  obtain ⟨i, hi⟩ := List.mem_iff_getElem?.mp ha
  obtain ⟨a', ha', hrel⟩ := exists_getElem?_of_forall₂ h hi
  exact ⟨a', List.mem_of_getElem? ha', hrel⟩

/-- The arguments behind the names of the parameters from the `n`-th on. -/
def Builtin.namedFrom (b : Builtin) (n : Nat) (back : List Argument) : List (String × Argument) :=
  ((b.params.drop n).map Param.name).zip back

theorem Builtin.mem_namedFrom_iff {b : Builtin} {front back : List Argument} {name : String} {a : Argument} :
    (name, a) ∈ b.namedFrom front.length back ↔ ∃ i p, b.params[i]? = some p ∧ p.name = name ∧
      front.length ≤ i ∧ (front ++ back)[i]? = some a := by
  constructor
  · intro hmem
    obtain ⟨j, hj⟩ := List.mem_iff_getElem?.mp hmem
    obtain ⟨hname, hback⟩ := List.getElem?_zip_eq_some.mp hj
    rw [List.getElem?_map, List.getElem?_drop] at hname
    obtain ⟨p, hp, hpname⟩ := Option.map_eq_some_iff.mp hname
    refine ⟨front.length + j, p, hp, hpname, Nat.le_add_right _ _, ?_⟩
    rwa [List.getElem?_append_right (Nat.le_add_right _ _), Nat.add_sub_cancel_left]
  · rintro ⟨i, p, hp, rfl, hle, ha⟩
    refine List.mem_iff_getElem?.mpr ⟨i - front.length, List.getElem?_zip_eq_some.mpr ⟨?_, ?_⟩⟩
    · rw [List.getElem?_map, List.getElem?_drop, Nat.add_sub_cancel' hle, hp]
      rfl
    · rwa [List.getElem?_append_right hle] at ha

theorem Builtin.nodup_namedFrom (b : Builtin) (n : Nat) (back : List Argument) :
    ((b.namedFrom n back).map Prod.fst).Nodup := by
  have hnames : ((b.params.drop n).map Param.name).Nodup :=
    b.params_nodup.sublist ((List.drop_sublist n b.params).map Param.name)
  rw [namedFrom, List.zip_eq_zip_take_min, List.map_fst_zip (by simp)]
  exact hnames.sublist (List.take_sublist _ _)

namespace Arguments

/-- The second list is the first one, but that the positional arguments of `back` stand behind the names of
their parameters, and the keyword arguments in whatever order. -/
structure RenamesFrom (b : Builtin) (front back : List Argument) (named : List (String × Argument))
    (args args' : Arguments) : Prop where
  splits : args.positional = front ++ back
  count : args.positional.length ≤ b.params.length
  kept : List.Forall₂ Argument.Alike front args'.positional
  order : (args.keywords ++ b.namedFrom front.length back).Perm named
  keywords : List.Forall₂ (fun k k' => k'.1 = k.1 ∧ k.2.Alike k'.2) named args'.keywords

/-- The second list passes some of the last positional arguments of the first one by name. -/
def Renames (b : Builtin) (args args' : Arguments) : Prop :=
  ∃ front back named, RenamesFrom b front back named args args'

namespace RenamesFrom

variable {b : Builtin} {front back : List Argument} {named : List (String × Argument)}
  {args args' : Arguments} {scope : Scope} {i : Nat} {p : Param} {a a' : Argument}

/-- The arguments that have a name are the keyword arguments of the first list and those of `back`, each of them
with the name of its parameter. -/
theorem mem_named_iff {name : String} (h : RenamesFrom b front back named args args') :
    (name, a) ∈ named ↔ (name, a) ∈ args.keywords ∨ ∃ i p, b.params[i]? = some p ∧ p.name = name ∧
      front.length ≤ i ∧ args.positional[i]? = some a := by
  rw [← h.order.mem_iff, List.mem_append, Builtin.mem_namedFrom_iff, h.splits]

/-- What is passed for a parameter is passed for it in the other list as well. -/
theorem passes (h : RenamesFrom b front back named args args') (hp : b.params[i]? = some p)
    (ha : args.Passes i p a) : ∃ a', a.Alike a' ∧ args'.Passes i p a' := by
  have hnamed (hmem : (p.name, a) ∈ named) : ∃ a', a.Alike a' ∧ args'.Passes i p a' := by
    obtain ⟨⟨name, a'⟩, hmem', rfl, halike⟩ := exists_mem_of_forall₂ h.keywords hmem
    exact ⟨a', halike, .name hmem'⟩
  cases ha with
  | name hmem => exact hnamed (h.mem_named_iff.mpr (.inl hmem))
  | place hplace =>
    by_cases hle : front.length ≤ i
    · exact hnamed (h.mem_named_iff.mpr (.inr ⟨i, p, hp, rfl, hle, hplace⟩))
    · rw [h.splits, List.getElem?_append_left (by omega)] at hplace
      obtain ⟨a', ha', halike⟩ := exists_getElem?_of_forall₂ h.kept hplace
      exact ⟨a', halike, .place ha'⟩

/-- What is passed for a parameter in the other list was passed for it before. -/
theorem exists_passes (h : RenamesFrom b front back named args args') (hp : b.params[i]? = some p)
    (ha' : args'.Passes i p a') : ∃ a, a.Alike a' ∧ args.Passes i p a := by
  cases ha' with
  | name hmem' =>
    obtain ⟨⟨name, a⟩, hmem, hname, halike⟩ := exists_mem_of_forall₂ h.keywords.flip hmem'
    obtain rfl : p.name = name := hname
    refine ⟨a, halike, ?_⟩
    rcases h.mem_named_iff.mp hmem with hname | ⟨j, q, hq, hqname, -, hplace⟩
    · exact .name hname
    · obtain rfl := Builtin.index_eq_of_name hq hp hqname
      exact .place hplace
  | place hplace' =>
    obtain ⟨a, ha, halike⟩ := exists_getElem?_of_forall₂ h.kept.flip hplace'
    refine ⟨a, halike, .place ?_⟩
    rw [h.splits, List.getElem?_append_left (List.getElem?_eq_some_iff.mp ha).1, ha]

/-- The names of the other list are those of the first one and of the parameters of `back`. -/
theorem nodup_iff (h : RenamesFrom b front back named args args') : (args'.keywords.map Prod.fst).Nodup ↔
    ((args.keywords ++ b.namedFrom front.length back).map Prod.fst).Nodup := by
  have hnames : List.Forall₂ (· = ·) (named.map Prod.fst) (args'.keywords.map Prod.fst) :=
    List.forall₂_map_left_iff.mpr (List.forall₂_map_right_iff.mpr (h.keywords.imp fun _ _ hk => hk.1.symm))
  rw [List.forall₂_eq_eq_eq] at hnames
  rw [(h.order.map Prod.fst).nodup_iff, hnames]

/-- The names of the other list differ if those of the first one do and no argument of it was passed twice. -/
theorem nodup (h : RenamesFrom b front back named args args') (hnodup : (args.keywords.map Prod.fst).Nodup)
    (hplaces : args.Places b) : (args'.keywords.map Prod.fst).Nodup := by
  rw [h.nodup_iff, List.map_append]
  refine List.nodup_append.mpr ⟨hnodup, b.nodup_namedFrom _ _, fun name hname name' hname' => ?_⟩
  obtain ⟨keyword, hkeyword, rfl⟩ := List.mem_map.mp hname
  obtain ⟨⟨_, a⟩, hpassed, rfl⟩ := List.mem_map.mp hname'
  obtain ⟨i, p, hp, hpname, hle⟩ := hplaces.keywords keyword hkeyword
  obtain ⟨j, q, hq, hqname, -, ha⟩ := Builtin.mem_namedFrom_iff.mp hpassed
  rw [← h.splits] at ha
  intro heq
  obtain rfl := Builtin.index_eq_of_name hp hq (hpname.trans (heq.trans hqname.symm))
  exact absurd (List.getElem?_eq_some_iff.mp ha).1 (by omega)

/-- In both lists every argument has a parameter of its own, or in none. -/
theorem places_iff (h : RenamesFrom b front back named args args')
    (hnodup : (args'.keywords.map Prod.fst).Nodup) : args'.Places b ↔ args.Places b := by
  have hlength : args'.positional.length = front.length := h.kept.length_eq.symm
  have hle : front.length ≤ args.positional.length := by simp [h.splits]
  constructor
  · refine fun hplaces => ⟨h.count, fun ⟨name, a⟩ hmem => ?_⟩
    obtain ⟨⟨name', a'⟩, hmem', rfl, -⟩ :=
      exists_mem_of_forall₂ h.keywords (h.mem_named_iff.mpr (.inl hmem))
    obtain ⟨i, p, hp, rfl, hi⟩ := hplaces.keywords _ hmem'
    refine ⟨i, p, hp, rfl, Nat.le_of_not_lt fun hlt => ?_⟩
    -- the argument at `i` would get a name that is there already
    have hnamed : (p.name, args.positional[i]) ∈ b.namedFrom front.length back :=
      Builtin.mem_namedFrom_iff.mpr ⟨i, p, hp, rfl, hlength ▸ hi, h.splits ▸ List.getElem?_eq_getElem hlt⟩
    have hnames := h.nodup_iff.mp hnodup
    rw [List.map_append, List.nodup_append] at hnames
    exact hnames.2.2 _ (List.mem_map_of_mem hmem) _ (List.mem_map_of_mem hnamed) rfl
  · refine fun hplaces => ⟨hlength ▸ hle.trans h.count, fun ⟨name, a'⟩ hmem' => ?_⟩
    obtain ⟨⟨name', a⟩, hmem, rfl, -⟩ := exists_mem_of_forall₂ h.keywords.flip hmem'
    rw [hlength]
    rcases h.mem_named_iff.mp hmem with hname | ⟨i, p, hp, hname, hi, -⟩
    · obtain ⟨i, p, hp, hname, hi⟩ := hplaces.keywords _ hname
      exact ⟨i, p, hp, hname, hle.trans hi⟩
    · exact ⟨i, p, hp, hname, hi⟩

/-- Both lists are accepted, or none. -/
theorem bindable_iff (h : RenamesFrom b front back named args args')
    (hnodup : (args'.keywords.map Prod.fst).Nodup) : args'.Bindable b scope ↔ args.Bindable b scope := by
  constructor
  · refine fun hbindable => ⟨(h.places_iff hnodup).mp hbindable.toPlaces, fun i p hp hnone => ?_,
      fun i p a hp ha => ?_⟩
    · obtain ⟨a', ha'⟩ := hbindable.required i p hp hnone
      obtain ⟨a, -, ha⟩ := h.exists_passes hp ha'
      exact ⟨a, ha⟩
    · obtain ⟨a', halike, ha'⟩ := h.passes hp ha
      rw [isSome_eq_of_rel (p.kind.convert?_alike halike scope)]
      exact hbindable.converts i p a' hp ha'
  · refine fun hbindable => ⟨(h.places_iff hnodup).mpr hbindable.toPlaces, fun i p hp hnone => ?_,
      fun i p a' hp ha' => ?_⟩
    · obtain ⟨a, ha⟩ := hbindable.required i p hp hnone
      obtain ⟨a', -, ha'⟩ := h.passes hp ha
      exact ⟨a', ha'⟩
    · obtain ⟨a, halike, ha⟩ := h.exists_passes hp ha'
      rw [← isSome_eq_of_rel (p.kind.convert?_alike halike scope)]
      exact hbindable.converts i p a hp ha

/-- A parameter is bound to values that are alike. -/
theorem binds (h : RenamesFrom b front back named args args') (hnodup : (args'.keywords.map Prod.fst).Nodup)
    (hplaces : args'.Places b) (hp : b.params[i]? = some p) {own own' : Bound}
    (hown : args.Binds scope i p own) (hown' : args'.Binds scope i p own') : own.Alike own' := by
  cases hown with
  | passed ha hv =>
    obtain ⟨a', halike, ha'⟩ := h.passes hp ha
    cases hown' with
    | passed hx' hv' =>
      obtain rfl := Builtin.passes_unique hnodup hplaces hp ha' hx'
      have hrel := p.kind.convert?_alike halike scope
      rw [hv, hv'] at hrel
      cases hrel with
      | some hrel => exact ⟨rfl, hrel⟩
    | default hnone _ _ => exact absurd ha' (hnone a')
  | default hnone hd hv =>
    cases hown' with
    | passed ha' _ =>
      obtain ⟨a, -, ha⟩ := h.exists_passes hp ha'
      exact absurd ha (hnone a)
    | default _ hd' hv' =>
      obtain rfl := Option.some.inj (hd.symm.trans hd')
      obtain rfl := Option.some.inj (hv.symm.trans hv')
      exact ⟨rfl, .same _⟩

/-- If the first list has values, the other one has values that are alike. -/
theorem bind_alike (h : RenamesFrom b front back named args args') (hnodup : (args.keywords.map Prod.fst).Nodup)
    {bound : Bindings} (hbind : b.bind scope args = .ok bound) :
    ∃ bound', b.bind scope args' = .ok bound' ∧ bound.Alike bound' := by
  obtain ⟨hplaces, hbuiltin, hlength, hvalues⟩ := (Builtin.bind_eq_ok_iff hnodup).mp hbind
  have hnodup' := h.nodup hnodup hplaces
  obtain ⟨bound', hbind'⟩ := (Builtin.exists_bind_iff hnodup').mpr
    ((h.bindable_iff hnodup').mpr ((Builtin.exists_bind_iff hnodup).mp ⟨bound, hbind⟩))
  obtain ⟨hplaces', hbuiltin', hlength', hvalues'⟩ := (Builtin.bind_eq_ok_iff hnodup').mp hbind'
  refine ⟨bound', hbind', hbuiltin.trans hbuiltin'.symm, ?_⟩
  refine List.forall₂_iff_get.mpr ⟨hlength.trans hlength'.symm, fun i hi hi' => ?_⟩
  have hp := List.getElem?_eq_getElem (hi.trans_eq hlength)
  exact h.binds hnodup' hplaces' hp (hvalues i _ _ hp (List.getElem?_eq_getElem hi))
    (hvalues' i _ _ hp (List.getElem?_eq_getElem hi'))

end RenamesFrom

/-- The names of a list that is read differ. -/
theorem nodup_of_parse {group : Token} {args : Arguments} (h : (parse group).Gives args) :
    (args.keywords.map Prod.fst).Nodup := by
  obtain ⟨r, hread, ⟨-, rfl⟩ | ⟨st, hst, hargs⟩⟩ := exists_of_parse h
  · exact List.nodup_nil
  · obtain ⟨inner, -, htokenize⟩ := Token.tokenize_of_tokenizeInner hread
    refine (ofTokens_takes (fun t ht b hkind => tokenize_groupText htokenize ?_ hkind) hargs).nodup
    rw [Reading.tokens, hst]
    simpa using ht

end Arguments

/-- A built-in function accepts a list of arguments exactly when every argument has a parameter of its own and is
of its kind, and every parameter has an argument or a default. Then each of its parameters, in their order, has
one value of its kind: that of the argument that is passed for it, or the default if there is none. And passing
some of the last positional arguments by name, in whatever order, gives values that are alike; a list that is
read so is accepted only if the first one is. -/
theorem call_binds_by_place_or_name {group : Token} {args : Arguments}
    (h : (Arguments.parse group).Gives args) (b : Builtin) (scope : Scope) :
    ((∃ bound, b.bind scope args = .ok bound) ↔ args.Bindable b scope) ∧
      (∀ bound, b.bind scope args = .ok bound → bound.builtin = b ∧
        bound.values.length = b.params.length ∧ ∀ i p, b.params[i]? = some p →
          ∃ own, bound.values[i]? = some own ∧ p.kind.fits own.value ∧ args.Binds scope i p own) ∧
      ∀ args', args.Renames b args' →
        (∀ bound, b.bind scope args = .ok bound →
          ∃ bound', b.bind scope args' = .ok bound' ∧ bound.Alike bound') ∧
        ∀ group', (Arguments.parse group').Gives args' → ∀ bound', b.bind scope args' = .ok bound' →
          ∃ bound, b.bind scope args = .ok bound := by
  have hnodup := Arguments.nodup_of_parse h
  refine ⟨Builtin.exists_bind_iff hnodup, fun bound hbind => ?_, fun args' ⟨front, back, named, hrenames⟩ =>
    ⟨fun bound => hrenames.bind_alike hnodup, fun group' h' bound' hbind' => ?_⟩⟩
  · obtain ⟨-, hbuiltin, hlength, hvalues⟩ := (Builtin.bind_eq_ok_iff hnodup).mp hbind
    refine ⟨hbuiltin, hlength, fun i p hp => ?_⟩
    have hown := List.getElem?_eq_getElem ((List.getElem?_eq_some_iff.mp hp).1.trans_eq hlength.symm)
    have hbinds := hvalues i p _ hp hown
    exact ⟨_, hown, hbinds.fits, hbinds⟩
  · have hnodup' := Arguments.nodup_of_parse h'
    rw [Builtin.exists_bind_iff hnodup, ← hrenames.bindable_iff hnodup', ← Builtin.exists_bind_iff hnodup']
    exact ⟨bound', hbind'⟩

theorem Noting.gives_of_toOption {α : Type} {m : Noting α} {a : α}
    (h : (m.run.run []).1.toOption = some a) : m.Gives a := by
  rcases hrun : m.run.run [] with ⟨result, warnings⟩
  rw [hrun] at h
  cases result with
  | error f => cases h
  | ok a' =>
    cases h
    exact ⟨warnings, hrun⟩

/-- All arguments by their places. -/
def placedGroup : Token :=
  ⟨.group .round, ⟨0, 26, ⟨1, 1⟩⟩, "(jumps, () => \x7bsay;\x7d, \"c\")"⟩

/-- The last two of them by name, in the other order. -/
def namedGroup : Token :=
  ⟨.group .round, ⟨0, 43, ⟨1, 1⟩⟩, "(jumps, criteria=\"c\", handler=() => \x7bsay;\x7d)"⟩

def jumpsArgument : Argument := .plain [⟨.word, ⟨0, 5, ⟨1, 2⟩⟩, "jumps"⟩]

def handlerArgument (start : Nat) (column : UInt32) : Argument :=
  .arrow ⟨.group .curly, ⟨start, start + 6, ⟨1, column⟩⟩, "\x7bsay;\x7d"⟩

def criteriaArgument (start : Nat) (column : UInt32) : Argument :=
  .plain [⟨.string "c", ⟨start, start + 3, ⟨1, column⟩⟩, "\"c\""⟩]

def placedArguments : Arguments :=
  ⟨[jumpsArgument, handlerArgument 13 15, criteriaArgument 21 23], [], ⟨1, 1⟩⟩

def namedArguments : Arguments :=
  ⟨[jumpsArgument], [("criteria", criteriaArgument 16 18), ("handler", handlerArgument 35 37)], ⟨1, 1⟩⟩

theorem event_call_binds_by_place_or_name :
    (Arguments.parse placedGroup).Gives placedArguments ∧ (Arguments.parse namedGroup).Gives namedArguments ∧
      placedArguments.Renames .playerOnEvent namedArguments ∧
      ∃ bound bound', Builtin.playerOnEvent.bind ⟨[]⟩ placedArguments = .ok bound ∧
        Builtin.playerOnEvent.bind ⟨[]⟩ namedArguments = .ok bound' ∧ bound.Alike bound' := by
  have hplaced : (Arguments.parse placedGroup).Gives placedArguments :=
    Noting.gives_of_toOption (by decide +kernel)
  have hnamed : (Arguments.parse namedGroup).Gives namedArguments :=
    Noting.gives_of_toOption (by decide +kernel)
  have hrenames : placedArguments.Renames .playerOnEvent namedArguments := by
    refine ⟨[jumpsArgument], [handlerArgument 13 15, criteriaArgument 21 23],
      [("criteria", criteriaArgument 21 23), ("handler", handlerArgument 13 15)], rfl, by decide,
      .cons (.plain ⟨rfl, rfl⟩) .nil, .swap _ _ _, ?_⟩
    exact .cons ⟨rfl, .plain ⟨rfl, rfl⟩⟩ (.cons ⟨rfl, .arrow ⟨rfl, rfl⟩⟩ .nil)
  have hbind : ∃ bound, Builtin.playerOnEvent.bind ⟨[]⟩ placedArguments = .ok bound := ⟨_, rfl⟩
  obtain ⟨bound, hbound⟩ := hbind
  obtain ⟨-, -, hlast⟩ := call_binds_by_place_or_name hplaced .playerOnEvent ⟨[]⟩
  obtain ⟨bound', hbound', halike⟩ := (hlast _ hrenames).1 bound hbound
  exact ⟨hplaced, hnamed, hrenames, bound, bound', hbound, hbound', halike⟩

end Packwright
