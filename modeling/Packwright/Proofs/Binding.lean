import Packwright.Proofs.Regular
import Packwright.Proofs.Session.Handlers
import Packwright.Proofs.Token.Tiling

/-!
# Bound arguments

A call of a built-in function gives every declared parameter a value of the kind that it declares:
an argument that fits, or its default, which always does. So the expansion of a call finds each value
it asks for.

## Main definitions

- `ParamKind.fits`, `Builtin.Declares` — values and parameters of a kind
- `Bindings.Complete` — every parameter has a value that fits

## Main results

- `Builtin.default_fits` — every default passes the check of its parameter
- `Builtin.bind_regular`, `Builtin.bind_complete` — what binding gives
- `Bindings.Complete.int`, `Bindings.Complete.text` — values that are asked for are there
-/

namespace Packwright

/-- The value is of the kind that a parameter declares. -/
def ParamKind.fits : ParamKind → Value → Bool
  | .integer, .int _ => true
  | .number, .number _ => true
  | .score, .score _ => true
  | .scoreOrInteger, .int _ => true
  | .scoreOrInteger, .score _ => true
  | .text, .text _ => true
  | .selector, .text _ => true
  | .objective, .text _ => true
  | .arrow, .arrow _ => true
  | _, _ => false

section

variable {kind : ParamKind} {v : Value}

theorem ParamKind.fits_of_map {α : Type} {f : α → Value} {x : Option α} (hf : ∀ a, kind.fits (f a))
    (h : x.map f = some v) : kind.fits v := by
  obtain ⟨a, -, rfl⟩ := Option.map_eq_some_iff.mp h
  exact hf a

theorem ParamKind.convert?_fits {scope : Scope} {a : Argument} (h : kind.convert? scope a = some v) :
    kind.fits v := by
  cases kind with
  | scoreOrInteger =>
    rcases Option.or_eq_some_iff.mp h with h | ⟨-, h⟩
    · exact fits_of_map (fun _ => rfl) h
    · exact fits_of_map (fun _ => rfl) h
  | text =>
    cases a with
    | arrow body => cases h
    | plain tokens =>
      cases h
      rfl
  | integer | number | score | selector | objective | arrow => exact fits_of_map (fun _ => rfl) h

theorem ParamKind.default?_fits {text : String} (h : kind.default? text = some v) :
    kind.fits v := by
  cases kind with
  | integer =>
    rw [ParamKind.default?] at h
    split at h
    · cases h
      rfl
    · cases h
  | number => exact fits_of_map (fun _ => rfl) h
  | text | selector | objective =>
    cases h
    rfl
  | score | scoreOrInteger | arrow => cases h

end

theorem exists_of_mapM_ok {α β ε : Type} {f : α → Except ε β} {l : List α} {out : List β}
    (h : l.mapM f = .ok out) : ∀ a ∈ l, ∃ b ∈ out, f a = .ok b := by
  induction l generalizing out with
  | nil => simp
  | cons a l ih =>
    rw [List.mapM_cons] at h
    obtain ⟨b, hb, h⟩ := exists_of_bind_ok h
    obtain ⟨rest, hrest, h⟩ := exists_of_bind_ok h
    obtain rfl := Except.ok.inj h
    refine List.forall_mem_cons.mpr ⟨⟨b, List.mem_cons_self .., hb⟩, fun a' ha' => ?_⟩
    obtain ⟨b', hb', heq⟩ := ih hrest a' ha'
    exact ⟨b', List.mem_cons_of_mem _ hb', heq⟩

/-- The function declares a parameter of a kind under a name. -/
def Builtin.Declares (b : Builtin) (name : String) (kind : ParamKind) : Prop :=
  ∃ p ∈ b.params, p.name = name ∧ p.kind = kind

instance (b : Builtin) (name : String) (kind : ParamKind) : Decidable (b.Declares name kind) :=
  inferInstanceAs (Decidable (∃ p ∈ b.params, _))

/-- Every parameter that the function declares has a value that fits. -/
def Bindings.Complete (b : Builtin) (args : Bindings) : Prop :=
  ∀ name kind, b.Declares name kind → ∃ v, args.get name = .ok v ∧ kind.fits v = true

namespace Builtin

/-- Every default passes the check of its own parameter. -/
theorem default_fits (b : Builtin) :
    ∀ p ∈ b.params, ∀ d, p.default? = some d → (p.kind.default? d).isSome := by
  have hall : ∀ p ∈ b.params, (p.default?.map fun d => (p.kind.default? d).isSome) ≠ some false := by
    cases b <;> decide +kernel
  intro p hp d hd
  simpa [hd, Option.isSome_iff_ne_none] using hall p hp

/-- No two parameters of a function have one name. -/
theorem eq_of_params_name (b : Builtin) :
    ∀ p ∈ b.params, ∀ q ∈ b.params, p.name = q.name → p = q := by
  cases b <;> decide

variable {b : Builtin} {scope : Scope} {args : Arguments}

theorem bindParam_regular {p : Param} (hp : p ∈ b.params) (index : Nat) :
    endsRegularly (b.bindParam scope args (p, index)) := by
  unfold bindParam
  simp only
  split
  · split <;> rfl
  · split
    · rfl
    · next d hd =>
      split
      · rfl
      · next hnone =>
        have hfits := b.default_fits p hp d hd
        rw [hnone] at hfits
        cases hfits

theorem bindParam_fits {indexed : Param × Nat} {bound : Bound}
    (h : b.bindParam scope args indexed = .ok bound) :
    bound.name = indexed.1.name ∧ indexed.1.kind.fits bound.value := by
  obtain ⟨hname, ⟨a, -, hv⟩ | ⟨d, -, hv⟩⟩ := of_bindParam_ok h
  · exact ⟨hname, ParamKind.convert?_fits hv⟩
  · exact ⟨hname, ParamKind.default?_fits hv⟩

/-- Binding fails only with regular faults: no default is refused. -/
theorem bind_regular (b : Builtin) (scope : Scope) (args : Arguments) :
    endsRegularly (b.bind scope args) := by
  refine endsRegularly_bind ?_ fun _ _ => endsRegularly_bind ?_ fun _ _ =>
    endsRegularly_bind ?_ fun _ _ => rfl
  · unfold checkCount
    split <;> rfl
  · refine endsRegularly_forM (fun keyword => ?_) _
    unfold checkKeyword
    simp only
    split
    · rfl
    · split <;> rfl
  · exact endsRegularly_mapM fun indexed hmem =>
      bindParam_regular (List.fst_mem_of_mem_zipIdx hmem) indexed.2

/-- Binding gives every declared parameter a value that fits. -/
theorem bind_complete {bound : Bindings} (h : b.bind scope args = .ok bound) :
    bound.Complete b := by
  obtain ⟨-, -, h⟩ := exists_of_bind_ok h
  obtain ⟨-, -, h⟩ := exists_of_bind_ok h
  obtain ⟨values, hvalues, h⟩ := exists_of_bind_ok h
  obtain rfl := Except.ok.inj h
  rintro name kind ⟨p, hp, rfl, rfl⟩
  obtain ⟨index, hindex⟩ : ∃ index, (p, index) ∈ b.params.zipIdx := by
    simpa [List.mem_zipIdx_iff_getElem?] using List.mem_iff_getElem?.mp hp
  obtain ⟨own, hown, hbound⟩ := exists_of_mapM_ok hvalues _ hindex
  rcases hfound : values.find? (·.name = p.name) with _ | v
  · exact absurd (bindParam_fits hbound).1 (by simpa using List.find?_eq_none.mp hfound own hown)
  · have hname : v.name = p.name := by simpa using List.find?_some hfound
    obtain ⟨⟨q, index'⟩, hq, hv⟩ := mapM_ok_mem hvalues v (List.mem_of_find?_eq_some hfound)
    obtain ⟨hvname, hfits⟩ := bindParam_fits hv
    obtain rfl := b.eq_of_params_name p hp q (List.fst_mem_of_mem_zipIdx hq)
      (hname.symm.trans hvname)
    exact ⟨v.value, by simp [Bindings.get, hfound], hfits⟩

end Builtin

namespace Bindings.Complete

variable {b : Builtin} {args : Bindings} {name : String}

theorem int (h : args.Complete b) (hdeclared : b.Declares name .integer) :
    ∃ n, args.int name = .ok n := by
  obtain ⟨v, hget, hfits⟩ := h name _ hdeclared
  cases v with
  | int n => exact ⟨n, by rw [Bindings.int, hget]; rfl⟩
  | _ => cases hfits

theorem number (h : args.Complete b) (hdeclared : b.Declares name .number) :
    ∃ d, args.number name = .ok d := by
  obtain ⟨v, hget, hfits⟩ := h name _ hdeclared
  cases v with
  | number d => exact ⟨d, by rw [Bindings.number, hget]; rfl⟩
  | _ => cases hfits

theorem text (h : args.Complete b) (hdeclared : b.Declares name .text ∨ b.Declares name .selector ∨
    b.Declares name .objective) : ∃ t, args.text name = .ok t := by
  obtain ⟨t, hget⟩ : ∃ t, args.get name = .ok (.text t) := by
    rcases hdeclared with hdeclared | hdeclared | hdeclared
    all_goals
      obtain ⟨v, hget, hfits⟩ := h name _ hdeclared
      cases v with
      | text t => exact ⟨t, hget⟩
      | _ => cases hfits
  exact ⟨t, by rw [Bindings.text, hget]; rfl⟩

theorem arrow (h : args.Complete b) (hdeclared : b.Declares name .arrow) :
    ∃ body, args.arrow name = .ok body := by
  obtain ⟨v, hget, hfits⟩ := h name _ hdeclared
  cases v with
  | arrow body => exact ⟨body, by rw [Bindings.arrow, hget]; rfl⟩
  | _ => cases hfits

theorem scoreOrInteger (h : args.Complete b) (hdeclared : b.Declares name .scoreOrInteger) :
    (∃ n, args.get name = .ok (.int n)) ∨ ∃ s, args.get name = .ok (.score s) := by
  obtain ⟨v, hget, hfits⟩ := h name _ hdeclared
  cases v with
  | int n => exact .inl ⟨n, hget⟩
  | score s => exact .inr ⟨s, hget⟩
  | _ => cases hfits

end Bindings.Complete

end Packwright
