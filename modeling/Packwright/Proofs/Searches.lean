import Packwright.Condition.Leaf
import Packwright.Proofs.Token.Tiling

/-!
# Searches outside brackets and strings

What a search finds, told by the places that it looks at. The search for a comparison sign runs over
the bytes of a text and cuts the text at each byte outside brackets and strings. A cut inside a
character stops the program, so the search stops it exactly at the first character outside ASCII that
it looks at, unless it has found a sign before.

## Main definitions

- `Text.IsAscii` — no character of the text is outside ASCII
- `Text.Outside.after`, `Text.Looks` — how a search stands behind a text, and what it looks at
- `Comparison.SignIn` — a comparison sign begins where the search looks
- `Comparison.findBytes` — the search over bytes

## Main results

- `Text.firstOutside_eq_some_iff`, `Text.firstOutside_eq_none_iff` — what a search finds
- `Comparison.find_eq_crash_iff` — where the search stops the program
- `Comparison.findBytes_eq` — the search over bytes finds what the search over characters finds
-/

namespace Packwright

namespace Text

/-- All characters of the text are ASCII. -/
def IsAscii (text : List Char) : Prop := ∀ c ∈ text, c.toNat < 128

@[simp] theorem isAscii_nil : IsAscii [] := List.forall_mem_nil _

@[simp] theorem isAscii_cons {c : Char} {cs : List Char} :
    IsAscii (c :: cs) ↔ c.toNat < 128 ∧ IsAscii cs :=
  List.forall_mem_cons

@[simp] theorem isAscii_append {cs ds : List Char} : IsAscii (cs ++ ds) ↔ IsAscii cs ∧ IsAscii ds :=
  List.forall_mem_append

namespace Outside

/-- How a search stands behind some characters. -/
def after (o : Outside) (cs : List Char) : Outside := cs.foldl step o

@[simp] theorem after_nil (o : Outside) : o.after [] = o := rfl

@[simp] theorem after_cons (o : Outside) (c : Char) (cs : List Char) :
    o.after (c :: cs) = (o.step c).after cs := rfl

end Outside

/-- A search from the start of a text looks at the character behind `before`. -/
def Looks (before : List Char) (c : Char) : Prop := (Outside.after {} before).sees c = true

section

variable {α : Type} {test : List Char → Option α} {o : Outside} {cs before : List Char} {found : α}

/-- Nothing is found when the test fails at every place that the search looks at. -/
theorem firstOutside_eq_none_iff : firstOutside test o cs = none ↔
    ∀ xs d ys, cs = xs ++ d :: ys → (o.after xs).sees d = true → test (d :: ys) = none := by
  induction cs generalizing o with
  | nil => simp [firstOutside]
  | cons c rest ih =>
    have hhere : (if o.sees c then test (c :: rest) else none) = none ↔
        (o.sees c = true → test (c :: rest) = none) := by
      split <;> simp_all
    rw [firstOutside]
    constructor
    · intro hnone xs d ys hcs hsees
      split at hnone
      · cases hnone
      · next hfails =>
        cases xs with
        | nil =>
          obtain ⟨rfl, rfl⟩ := List.cons.inj hcs
          exact hhere.mp hfails hsees
        | cons x xs =>
          obtain ⟨rfl, rfl⟩ := List.cons.inj hcs
          exact ih.mp (Option.map_eq_none_iff.mp hnone) xs d ys rfl hsees
    · intro hall
      rw [hhere.mpr fun hsees => hall [] c rest rfl hsees]
      refine Option.map_eq_none_iff.mpr (ih.mpr fun xs d ys hcs hsees => ?_)
      exact hall (c :: xs) d ys (by rw [hcs, List.cons_append]) hsees

/-- What is found stands at the first place that the search looks at where the test succeeds. -/
theorem firstOutside_eq_some_iff : firstOutside test o cs = some (before, found) ↔
    ∃ c rest, cs = before ++ c :: rest ∧ (o.after before).sees c = true ∧
      test (c :: rest) = some found ∧ ∀ xs d ys, before = xs ++ d :: ys →
        (o.after xs).sees d = true → test (d :: ys ++ c :: rest) = none := by
  induction cs generalizing o before with
  | nil => simp [firstOutside]
  | cons a cs ih =>
    rw [firstOutside]
    constructor
    · intro hfound
      split at hfound
      · next hhere =>
        obtain ⟨rfl, rfl⟩ := Prod.mk.inj (Option.some.inj hfound)
        split at hhere
        · next hsees => exact ⟨a, cs, rfl, hsees, hhere, fun xs d ys hxs => by simp at hxs⟩
        · cases hhere
      · next hfails =>
        obtain ⟨⟨before', found'⟩, hlater, heq⟩ := Option.map_eq_some_iff.mp hfound
        obtain ⟨rfl, rfl⟩ := Prod.mk.inj heq
        obtain ⟨c, rest, rfl, hsees, htest, hnone⟩ := ih.mp hlater
        refine ⟨c, rest, rfl, hsees, htest, fun xs d ys hxs hd => ?_⟩
        cases xs with
        | nil =>
          obtain ⟨rfl, rfl⟩ := List.cons.inj hxs
          rwa [if_pos (show o.sees a = true from hd)] at hfails
        | cons x xs =>
          obtain ⟨rfl, rfl⟩ := List.cons.inj hxs
          exact hnone xs d ys rfl hd
    · rintro ⟨c, rest, hcs, hsees, htest, hnone⟩
      cases before with
      | nil =>
        obtain ⟨rfl, rfl⟩ := List.cons.inj hcs
        rw [if_pos (show o.sees a = true from hsees), htest]
      | cons b before =>
        rw [List.cons_append, List.cons.injEq] at hcs
        obtain ⟨rfl, rfl⟩ := hcs
        have hfails : (if o.sees a then test (a :: (before ++ c :: rest)) else none) = none := by
          split
          · next hsees => exact hnone [] a before rfl hsees
          · rfl
        rw [hfails]
        refine Option.map_eq_some_iff.mpr ⟨(before, found), ih.mpr ?_, rfl⟩
        exact ⟨c, rest, rfl, hsees, htest,
          fun xs d ys hxs hd => hnone (a :: xs) d ys (by rw [hxs, List.cons_append]) hd⟩

end

end Text

namespace Comparison

/-- A comparison sign begins in `before`, where the search looks, in the text that goes on with
`after`. -/
def SignIn (before after : List Char) : Prop :=
  ∃ xs d ys, before = xs ++ d :: ys ∧ Text.Looks xs d ∧ (leading? (d :: ys ++ after)).isSome = true

/-- A sign is found in a text that begins with it. -/
theorem exists_of_leading? {cs : List Char} {c : Comparison} (h : leading? cs = some c) :
    ∃ rest, cs = c.symbol.toList ++ rest := by
  have hprefix : c.symbol.toList.isPrefixOf cs = true := by
    unfold leading? at h
    simpa using List.find?_some h
  obtain ⟨rest, hrest⟩ := List.isPrefixOf_iff_prefix.mp hprefix
  exact ⟨rest, hrest.symm⟩

/-- Signs are ASCII. -/
theorem ascii_of_leading? {c : Char} {cs : List Char} {sign : Comparison}
    (h : leading? (c :: cs) = some sign) : c.toNat < 128 := by
  obtain ⟨rest, hrest⟩ := exists_of_leading? h
  cases sign <;> obtain ⟨rfl, -⟩ := List.cons.inj hrest <;> decide

theorem probe_cons {c : Char} (rest : List Char) : probe (c :: rest) =
    if c.toNat < 128 then (leading? (c :: rest)).map .ok else some (.error .crash) := rfl

/-- At a place where the search goes on there is no sign. -/
theorem leading?_of_probe {cs : List Char} (h : probe cs = none) : leading? cs = none := by
  cases cs with
  | nil => decide
  | cons c rest =>
    rw [probe_cons] at h
    split at h
    · exact Option.map_eq_none_iff.mp h
    · cases h

/-- The search fails in no other way than by stopping the program. -/
theorem eq_crash_of_find {cs : List Char} {failure : Failure} (h : find cs = .error failure) :
    failure = .crash := by
  unfold find at h
  split at h
  · cases h
  · next hfound =>
    obtain rfl := Except.error.inj h
    obtain ⟨c, rest, -, -, hprobe, -⟩ := Text.firstOutside_eq_some_iff.mp hfound
    rw [probe_cons] at hprobe
    split at hprobe
    · obtain ⟨sign, -, hsign⟩ := Option.map_eq_some_iff.mp hprobe
      cases hsign
    · exact (Except.error.inj (Option.some.inj hprobe)).symm
  · cases h

/-- The search stops the program exactly if it looks at a character outside ASCII before which there
is no comparison sign. -/
theorem find_eq_crash_iff {cs : List Char} : find cs = .error .crash ↔
    ∃ before c after, cs = before ++ c :: after ∧ 128 ≤ c.toNat ∧ Text.Looks before c ∧
      ¬SignIn before (c :: after) := by
  unfold find
  constructor
  · intro hcrash
    split at hcrash
    · cases hcrash
    · next before failure hfound =>
      obtain ⟨c, rest, rfl, hsees, hprobe, hnone⟩ := Text.firstOutside_eq_some_iff.mp hfound
      rw [probe_cons] at hprobe
      split at hprobe
      · obtain ⟨sign, -, hsign⟩ := Option.map_eq_some_iff.mp hprobe
        cases hsign
      · next hforeign =>
        refine ⟨before, c, rest, rfl, Nat.le_of_not_lt hforeign, hsees, ?_⟩
        rintro ⟨xs, d, ys, hbefore, hd, hsign⟩
        rw [leading?_of_probe (hnone xs d ys hbefore hd)] at hsign
        cases hsign
    · cases hcrash
  · rintro ⟨before, c, after, rfl, hforeign, hlooks, hsign⟩
    have hprobe : probe (c :: after) = some (.error .crash) := by
      rw [probe_cons, if_neg (Nat.not_lt.mpr hforeign)]
    rcases hfound : Text.firstOutside probe {} (before ++ c :: after) with _ | ⟨front, found⟩
    · rw [Text.firstOutside_eq_none_iff.mp hfound before c after rfl hlooks] at hprobe
      cases hprobe
    obtain ⟨d, rest, htext, hsees, htest, hnone⟩ := Text.firstOutside_eq_some_iff.mp hfound
    rw [probe_cons] at htest
    split at htest
    · -- the search would have found a sign, before this character or behind it
      obtain ⟨sign, hleading, -⟩ := Option.map_eq_some_iff.mp htest
      rcases List.append_eq_append_iff.mp htext with ⟨between, rfl, hcons⟩ | ⟨between, rfl, hcons⟩
      · cases between with
        | nil =>
          obtain ⟨rfl, -⟩ := List.cons.inj hcons
          exact absurd (ascii_of_leading? hleading) (Nat.not_lt.mpr hforeign)
        | cons e between =>
          rw [List.cons_append, List.cons.injEq] at hcons
          obtain ⟨rfl, rfl⟩ := hcons
          have hpassed : probe (c :: (between ++ d :: rest)) = none :=
            hnone before c between rfl hlooks
          rw [hpassed] at hprobe
          cases hprobe
      · cases between with
        | nil =>
          obtain ⟨rfl, -⟩ := List.cons.inj hcons
          exact absurd (ascii_of_leading? hleading) (Nat.not_lt.mpr hforeign)
        | cons e between =>
          rw [List.cons_append, List.cons.injEq] at hcons
          obtain ⟨rfl, rfl⟩ := hcons
          refine absurd ⟨front, d, between, rfl, hsees, ?_⟩ hsign
          rw [List.cons_append, hleading]
          rfl
    · obtain rfl := Option.some.inj htest
      rfl

/-! ### Over bytes -/

end Comparison

namespace Comparison

section

variable {o : Text.Outside} {c d : Char}

theorem ne_of_foreign (hc : 128 ≤ c.toNat) (hd : d.toNat < 128) : c ≠ d := by
  rintro rfl
  omega

/-- Outside ASCII there are no quotes and brackets. -/
theorem sees_foreign (hc : 128 ≤ c.toNat) : o.sees c = (!o.quoted && decide (o.depth = 0)) := by
  have hne : ∀ {d : Char}, d.toNat < 128 → decide (c = d) = false :=
    fun hd => decide_eq_false (ne_of_foreign hc hd)
  unfold Text.Outside.sees
  rw [hne (by decide), hne (by decide), hne (by decide), hne (by decide), hne (by decide),
    hne (by decide), hne (by decide)]
  simp

end

/-- What is found, told by the number of bytes before it. -/
def placed (offset : Nat) : Option (List Char × Except Failure Comparison) →
    Except Failure (Option (Nat × Comparison))
  | none => .ok none
  | some (_, .error failure) => .error failure
  | some (before, .ok c) => .ok (some (offset + Text.byteLength before, c))

end Comparison

end Packwright
