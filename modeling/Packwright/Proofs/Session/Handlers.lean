import Packwright.Proofs.Session.Emission
import Packwright.Proofs.Session.Growth
import Packwright.Proofs.Token.Tiling

/-!
# Handlers among arguments

The body of an arrow function that an argument is bound to is one of the tokens inside the argument
list, so the calls in it are calls inside the text.

## Main definitions

- `Arguments.ArrowsIn` — the bodies of arrow functions are among some tokens

## Main results

- `Builtin.of_get_bind` — a bound value comes from an argument or a default
- `Builtin.bind_arrow` — a bound arrow function comes from an argument
- `UserCalls.Includes.handler` — the calls of a handler are calls of the user
-/

namespace Packwright

theorem Argument.ofTokens_arrow {tokens : List Token} {body : Token}
    (h : (Argument.ofTokens tokens).arrow? = some body) : ∃ a b, tokens = [a, b, body] := by
  unfold Argument.ofTokens at h
  split at h
  · next a b c =>
    split at h
    · exact ⟨a, b, by rw [Option.some.inj h]⟩
    · cases h
  · cases h

namespace Arguments

/-- The bodies of the arrow functions among the arguments are among the tokens. -/
structure ArrowsIn (tokens : List Token) (args : Arguments) : Prop where
  positional : ∀ a ∈ args.positional, ∀ body, a.arrow? = some body → body ∈ tokens
  keywords : ∀ k ∈ args.keywords, ∀ body, k.2.arrow? = some body → body ∈ tokens

theorem mem_of_tailFrom_append {t a b body : Token} {n : Nat} {rest : List Token}
    (h : t.tailFrom n ++ rest = [a, b, body]) : body ∈ rest := by
  unfold Token.tailFrom at h
  split at h
  · obtain ⟨-, rfl⟩ := List.cons.inj h
    simp
  · obtain rfl : rest = [a, b, body] := h
    simp

theorem splitKeyword_third {first a b body : Token} {rest : List Token}
    (h : (splitKeyword first rest).2 = [a, b, body]) : body ∈ first :: rest := by
  have hsame : first :: rest = [a, b, body] → body ∈ first :: rest := by
    intro h
    rw [h]
    simp
  unfold splitKeyword at h
  split at h
  · exact hsame h
  · split at h
    · split at h
      · exact List.mem_cons_of_mem _ (mem_of_tailFrom_append h)
      · exact hsame h
    · split at h
      · exact hsame h
      · split at h
        · split at h
          · exact List.mem_cons_of_mem _ (List.mem_cons_of_mem _ (mem_of_tailFrom_append h))
          · exact hsame h
        · exact hsame h

theorem mem_segments {current tokens : List Token} {segment : Segment}
    (h : segment ∈ segments current tokens) :
    ∀ t ∈ segment.tokens, t ∈ current ∨ t ∈ tokens := by
  induction tokens generalizing current with
  | nil =>
    rw [List.mem_singleton.mp h]
    exact fun t ht => .inl ht
  | cons first rest ih =>
    intro t ht
    unfold segments at h
    split at h
    · rcases List.mem_cons.mp h with rfl | h
      · exact .inl ht
      · rcases ih h t ht with hnil | hrest
        · exact absurd hnil List.not_mem_nil
        · exact .inr (List.mem_cons_of_mem _ hrest)
    · rcases ih h t ht with hfront | hrest
      · rcases List.mem_append.mp hfront with hfront | hfirst
        · exact .inl hfront
        · exact .inr (List.mem_singleton.mp hfirst ▸ List.mem_cons_self ..)
      · exact .inr (List.mem_cons_of_mem _ hrest)

theorem addSegment_arrowsIn {tokens : List Token} {lastComma : Option Position}
    {args args' : Arguments} {segment : Segment} (hargs : args.ArrowsIn tokens)
    (hsegment : ∀ t ∈ segment.tokens, t ∈ tokens)
    (h : addSegment lastComma args segment = .ok args') : args'.ArrowsIn tokens := by
  unfold addSegment at h
  split at h
  · cases h
  · next first rest htokens =>
    rw [htokens] at hsegment
    have harrow : ∀ key inner body, splitKeyword first rest = (key, inner) →
        (Argument.ofTokens inner).arrow? = some body → body ∈ tokens := by
      intro key inner body hsplit hbody
      obtain ⟨a, b, rfl⟩ := Argument.ofTokens_arrow hbody
      exact hsegment body (splitKeyword_third (by rw [hsplit]))
    split at h
    · cases h
    · next name inner hsplit =>
      split at h
      · cases h
      · obtain rfl := Except.ok.inj h
        refine ⟨hargs.positional, fun k hk body hbody => ?_⟩
        rcases List.mem_append.mp hk with hk | hk
        · exact hargs.keywords k hk body hbody
        · rw [List.mem_singleton.mp hk] at hbody
          exact harrow _ _ body hsplit hbody
    · next inner hsplit =>
      split at h
      · obtain rfl := Except.ok.inj h
        refine ⟨fun a ha body hbody => ?_, hargs.keywords⟩
        rcases List.mem_append.mp ha with ha | ha
        · exact hargs.positional a ha body hbody
        · rw [List.mem_singleton.mp ha] at hbody
          exact harrow _ _ body hsplit hbody
      · cases h

theorem ofTokens_arrowsIn {position : Position} {tokens : List Token} {args : Arguments}
    (h : ofTokens position tokens = .ok args) : args.ArrowsIn tokens := by
  refine foldlM_keeps (P := ArrowsIn tokens) (fun args segment args' hsegment hargs hadd => ?_)
    ⟨by simp, by simp⟩ h
  refine addSegment_arrowsIn hargs (fun t ht => ?_) hadd
  exact (mem_segments hsegment t ht).resolve_left List.not_mem_nil

/-- An argument list is read from the only statement in its bracket, if there is one. -/
theorem exists_of_parse {group : Token} {args : Arguments} (h : (parse group).Gives args) :
    ∃ r, group.tokenizeInner .optional = .ok r ∧
      ((r.statements = [] ∧ args = { position := group.position }) ∨
        ∃ st, r.statements = [st] ∧ ofTokens group.position st.tokens = .ok args) := by
  obtain ⟨warnings, hrun⟩ := h
  unfold parse at hrun
  split at hrun
  · rcases hread : group.tokenizeInner .optional with fault | r
    · rw [hread] at hrun
      cases hrun
    rw [hread] at hrun
    refine ⟨r, rfl, ?_⟩
    rcases hstatements : r.statements with _ | ⟨st, _ | ⟨second, rest⟩⟩
    · simp only [Noting.ofExcept, pure_bind, hstatements] at hrun
      cases hrun
      exact .inl ⟨rfl, rfl⟩
    · simp only [Noting.ofExcept, pure_bind, hstatements] at hrun
      rcases hargs : ofTokens group.position st.tokens with fault | args'
      · rw [hargs] at hrun
        cases hrun
      · rw [hargs] at hrun
        cases hrun
        exact .inr ⟨st, rfl, hargs⟩
    · simp only [Noting.ofExcept, pure_bind, hstatements] at hrun
      cases hrun
  · cases hrun

/-- The arrow functions of an argument list have their bodies inside it. -/
theorem parse_arrowsIn {group : Token} {args : Arguments} (h : (parse group).Gives args) :
    args.ArrowsIn [] ∨ ∃ (r : Reading) (st : Statement),
      group.tokenizeInner .optional = .ok r ∧ st ∈ r.statements ∧ args.ArrowsIn st.tokens := by
  obtain ⟨r, hread, ⟨-, rfl⟩ | ⟨st, hst, hargs⟩⟩ := exists_of_parse h
  · exact .inl ⟨by simp, by simp⟩
  · exact .inr ⟨r, st, hread, by simp [hst], ofTokens_arrowsIn hargs⟩

end Arguments

/-! ### Bound handlers -/

theorem ParamKind.convert?_arrow {scope : Scope} {a : Argument} {kind : ParamKind} {body : Token}
    (h : kind.convert? scope a = some (.arrow body)) : a.arrow? = some body := by
  -- no other kind makes an arrow function out of what it reads
  have hother : ∀ {α : Type} {f : α → Value} {x : Option α}, (∀ y, f y ≠ .arrow body) →
      x.map f ≠ some (.arrow body) := by
    intro α f x hf hx
    obtain ⟨y, -, hy⟩ := Option.map_eq_some_iff.mp hx
    exact hf y hy
  cases kind with
  | integer => exact absurd h (hother (by simp))
  | number => exact absurd h (hother (by simp))
  | score => exact absurd h (hother (by simp))
  | scoreOrInteger =>
    rcases Option.or_eq_some_iff.mp h with h | ⟨-, h⟩
    · exact absurd h (hother (by simp))
    · exact absurd h (hother (by simp))
  | text => cases a <;> simp [ParamKind.convert?] at h
  | selector => exact absurd h (hother (by simp))
  | objective => exact absurd h (hother (by simp))
  | arrow => simpa [ParamKind.convert?] using h

theorem ParamKind.default?_ne_arrow {text : String} {kind : ParamKind} {body : Token} :
    kind.default? text ≠ some (.arrow body) := by
  intro h
  cases kind with
  | integer =>
    simp only [ParamKind.default?] at h
    split at h <;> simp at h
  | _ => simp [ParamKind.default?] at h

theorem mapM_ok_mem {α β ε : Type} {f : α → Except ε β} {l : List α} {out : List β}
    (h : l.mapM f = .ok out) : ∀ b ∈ out, ∃ a ∈ l, f a = .ok b := by
  induction l generalizing out with
  | nil =>
    rw [List.mapM_nil] at h
    obtain rfl := Except.ok.inj h
    simp
  | cons a l ih =>
    rw [List.mapM_cons] at h
    obtain ⟨b, hb, h⟩ := exists_of_bind_ok h
    obtain ⟨rest, hrest, h⟩ := exists_of_bind_ok h
    obtain rfl := Except.ok.inj h
    refine List.forall_mem_cons.mpr ⟨⟨a, List.mem_cons_self .., hb⟩, fun b hb => ?_⟩
    obtain ⟨a', ha', hb'⟩ := ih hrest b hb
    exact ⟨a', List.mem_cons_of_mem _ ha', hb'⟩

namespace Builtin

variable {b : Builtin} {scope : Scope} {args : Arguments} {tokens : List Token}

/-- The value of a parameter is that of its argument or of its default. -/
theorem of_bindParam_ok {p : Param} {index : Nat} {own : Bound}
    (h : b.bindParam scope args (p, index) = .ok own) : own.name = p.name ∧
      ((∃ a, (args.positional[index]?).or (args.keyword? p.name) = some a ∧
        p.kind.convert? scope a = some own.value) ∨
      ∃ d, p.default? = some d ∧ p.kind.default? d = some own.value) := by
  unfold bindParam at h
  simp only at h
  split at h
  · next a ha =>
    split at h
    · next v hv =>
      obtain rfl := Except.ok.inj h
      exact ⟨rfl, .inl ⟨a, ha, hv⟩⟩
    · cases h
  · split at h
    · cases h
    · next d hd =>
      split at h
      · next v hv =>
        obtain rfl := Except.ok.inj h
        exact ⟨rfl, .inr ⟨d, hd, hv⟩⟩
      · cases h

/-- A value that is found under a name was bound to a parameter of this name. -/
theorem of_get_bind {bound : Bindings} (h : b.bind scope args = .ok bound) {name : String} {v : Value}
    (hv : bound.get name = .ok v) : ∃ p ∈ b.params, p.name = name ∧
      ((∃ (a : Argument) (index : Nat),
        (args.positional[index]?).or (args.keyword? p.name) = some a ∧
          p.kind.convert? scope a = some v) ∨
      ∃ d, p.default? = some d ∧ p.kind.default? d = some v) := by
  obtain ⟨-, -, h⟩ := exists_of_bind_ok h
  obtain ⟨-, -, h⟩ := exists_of_bind_ok h
  obtain ⟨values, hvalues, h⟩ := exists_of_bind_ok h
  obtain rfl := Except.ok.inj h
  unfold Bindings.get at hv
  split at hv
  · next own hfound =>
    obtain rfl := Except.ok.inj hv
    obtain ⟨⟨p, index⟩, hp, hbound⟩ := mapM_ok_mem hvalues own (List.mem_of_find?_eq_some hfound)
    obtain ⟨hname, horigin⟩ := of_bindParam_ok hbound
    have hown : own.name = name := by simpa using List.find?_some hfound
    refine ⟨p, List.fst_mem_of_mem_zipIdx hp, hname.symm.trans hown, ?_⟩
    exact horigin.imp_left fun ⟨a, ha, hv⟩ => ⟨a, index, ha, hv⟩
  · cases hv

/-- A bound arrow function comes from an argument. -/
theorem bind_arrow (hargs : args.ArrowsIn tokens) {bound : Bindings}
    (h : b.bind scope args = .ok bound) {name : String} {body : Token}
    (hbody : bound.arrow name = .ok body) : body ∈ tokens := by
  obtain ⟨v, hv, hbody⟩ := exists_of_bind_ok hbody
  obtain rfl : v = .arrow body := by
    cases v with
    | arrow own => exact congrArg Value.arrow (Except.ok.inj hbody)
    | _ => cases hbody
  obtain ⟨p, -, -, ⟨a, index, ha, hv⟩ | ⟨d, -, hv⟩⟩ := of_get_bind h hv
  · have harrow := ParamKind.convert?_arrow hv
    rcases Option.or_eq_some_iff.mp ha with ha | ⟨-, ha⟩
    · exact hargs.positional a (List.mem_of_getElem? ha) body harrow
    · obtain ⟨front, back, hsplit, -⟩ := List.lookup_eq_some_iff.mp ha
      exact hargs.keywords (p.name, a) (by simp [hsplit]) body harrow
  · exact absurd hv ParamKind.default?_ne_arrow

end Builtin

/-- The calls of a handler are calls of the user. -/
theorem UserCalls.Includes.handler {U : UserCalls} {s : Session} {tokens : List Token}
    (hin : U.Includes s tokens) {group : Token} (hgroup : group ∈ tokens) {b : Builtin}
    {scope : Scope} {args : Arguments} (hparse : (Arguments.parse group).Gives args)
    {bound : Bindings} (hbind : b.bind scope args = .ok bound) {name : String} {body : Token}
    (hbody : bound.arrow name = .ok body) : ∃ inner, U.Includes s inner ∧ body ∈ inner := by
  rcases Arguments.parse_arrowsIn hparse with hnone | ⟨r, st, hread, hst, harrows⟩
  · exact absurd (Builtin.bind_arrow hnone hbind hbody) List.not_mem_nil
  · exact ⟨st.tokens, hin.group hgroup hread st hst, Builtin.bind_arrow harrows hbind hbody⟩

end Packwright
