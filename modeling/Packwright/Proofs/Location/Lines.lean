import Packwright.Diagnostic.Location
import Packwright.Text.Blank

/-!
# Lines that positions name

Positions count the line feeds before them, and the lines of a text are cut at its line feeds. So
the line of a position that stands before a character of a text is a line of that text, and it holds
the character unless that is a line end itself.

## Main definitions

- `lineBehind` — the line that some characters lead to
- `Stands` — characters stand in a text, from the line of a position on
- `HasLine`, `ShowsLine` — a line on which there is a character, or one that is no blank

## Main results

- `Stands.behind` — what stands behind other characters
- `HasLine.exists_line` — such a line is one of the lines of the text
- `ShowsLine.lineAt_ne` — a line that shows something is not empty
-/

namespace Packwright

/-! ### Lines of positions -/

/-- The line that the characters of a text lead to from its start. -/
def lineBehind (before : List Char) : UInt32 := (Position.start.walk before).line

/-- The line of a position depends on lines only. -/
theorem Position.line_walk {p q : Position} (h : p.line = q.line) (cs : List Char) :
    (p.walk cs).line = (q.walk cs).line := by
  induction cs generalizing p q with
  | nil => exact h
  | cons c cs ih =>
    apply ih
    unfold Position.advance
    split
    · exact congrArg (· + 1) h
    · exact h

theorem Position.line_walk_eq (p : Position) (cs : List Char) :
    (p.walk cs).line = p.line + (cs.count '\n').toUInt32 := by
  induction cs generalizing p with
  | nil => simp
  | cons c cs ih =>
    rw [walk_cons, ih, advance]
    split
    · next hc =>
      subst hc
      rw [List.count_cons_self, Nat.toUInt32_eq, Nat.toUInt32_eq, UInt32.ofNat_add,
        UInt32.add_comm (UInt32.ofNat _), ← UInt32.add_assoc]
      rfl
    · next hc => rw [List.count_cons_of_ne hc]

/-- Positions count the line feeds, from one on. -/
theorem lineBehind_toNat {before : List Char} (h : before.count '\n' + 1 < UInt32.size) :
    (lineBehind before).toNat = before.count '\n' + 1 := by
  rw [lineBehind, Position.line_walk_eq]
  show ((1 : UInt32) + (before.count '\n').toUInt32).toNat = _
  unfold UInt32.size at h
  simp only [UInt32.toNat_add, Nat.toUInt32_eq, UInt32.toNat_ofNat', UInt32.toNat_ofNat]
  omega

/-! ### Characters in a text -/

/-- The characters stand in the text, the first of them on the line of the position. -/
def Stands (text : List Char) (p : Position) (cs : List Char) : Prop :=
  ∃ before after, text = before ++ (cs ++ after) ∧ p.line = lineBehind before

/-- A character of the text is on the line. -/
def HasLine (text : List Char) (line : UInt32) : Prop :=
  ∃ before c after, text = before ++ c :: after ∧ line = lineBehind before

/-- A character of the text that is no blank is on the line. -/
def ShowsLine (text : List Char) (line : UInt32) : Prop :=
  ∃ before c after, text = before ++ c :: after ∧ Text.isBlank c = false ∧ line = lineBehind before

section

variable {text xs ys : List Char} {c : Char} {p : Position} {line : UInt32}

theorem stands_start (text : List Char) : Stands text Position.start text :=
  ⟨[], [], by simp, rfl⟩

theorem Stands.front (h : Stands text p (xs ++ ys)) : Stands text p xs := by
  obtain ⟨before, after, rfl, hp⟩ := h
  exact ⟨before, ys ++ after, by simp, hp⟩

/-- What stands behind other characters stands where these lead to. -/
theorem Stands.behind (h : Stands text p (xs ++ ys)) : Stands text (p.walk xs) ys := by
  obtain ⟨before, after, rfl, hp⟩ := h
  refine ⟨before ++ xs, after, by simp, ?_⟩
  rw [lineBehind, Position.walk_append]
  exact Position.line_walk hp xs

theorem Stands.tail (h : Stands text p (c :: xs)) : Stands text (p.advance c) xs :=
  Stands.behind (show Stands text p ([c] ++ xs) from h)

theorem Stands.hasLine (h : Stands text p (c :: xs)) : HasLine text p.line := by
  obtain ⟨before, after, rfl, hp⟩ := h
  exact ⟨before, c, xs ++ after, rfl, hp⟩

theorem Stands.showsLine (h : Stands text p (c :: xs)) (hc : Text.isBlank c = false) :
    ShowsLine text p.line := by
  obtain ⟨before, after, rfl, hp⟩ := h
  exact ⟨before, c, xs ++ after, rfl, hc, hp⟩

/-- Every number of line feeds up to that of a text is met before one of its characters, if it does
not end with a line feed. -/
theorem exists_count_eq (xs : List Char) (c : Char) {k : Nat} (hk : k ≤ xs.count '\n') :
    ∃ (before : List Char) (d : Char) (after : List Char), xs ++ [c] = before ++ d :: after ∧
      before.count '\n' = k := by
  induction xs generalizing k with
  | nil => exact ⟨[], c, [], rfl, (Nat.le_zero.mp hk).symm⟩
  | cons a xs ih =>
    by_cases hzero : k = 0
    · exact ⟨[], a, xs ++ [c], rfl, hzero.symm⟩
    by_cases ha : a = '\n'
    · subst ha
      rw [List.count_cons_self] at hk
      obtain ⟨before, d, after, heq, hcount⟩ := ih (k := k - 1) (by omega)
      refine ⟨'\n' :: before, d, after, by rw [List.cons_append, heq, List.cons_append], ?_⟩
      rw [List.count_cons_self, hcount]
      omega
    · rw [List.count_cons_of_ne ha] at hk
      obtain ⟨before, d, after, heq, hcount⟩ := ih hk
      refine ⟨a :: before, d, after, by rw [List.cons_append, heq, List.cons_append], ?_⟩
      rw [List.count_cons_of_ne ha, hcount]

/-- The lines of a text that stands in another one are lines of that one. -/
theorem Stands.hasLine_of_le (h : Stands text p (xs ++ [c])) {k : Nat} (hk : k ≤ xs.count '\n') :
    HasLine text (p.line + k.toUInt32) := by
  obtain ⟨before, d, after, heq, rfl⟩ := exists_count_eq xs c hk
  rw [heq] at h
  rw [← Position.line_walk_eq]
  exact h.behind.hasLine

theorem ShowsLine.hasLine (h : ShowsLine text line) : HasLine text line := by
  obtain ⟨before, c, after, htext, -, hline⟩ := h
  exact ⟨before, c, after, htext, hline⟩

end

/-! ### Lines of a text -/

namespace Text

variable {c : Char}

/-- A character that is read already is on the first line, if it is no line end. -/
theorem exists_first_line {current : List Char} (hc : c ∈ current) (after : List Char) :
    ∃ line, (linesFrom current after)[0]? = some line ∧ (c ≠ '\r' → c ∈ line) := by
  induction after generalizing current with
  | nil =>
    rw [linesFrom, if_neg (by simpa using List.ne_nil_of_mem hc)]
    exact ⟨current.reverse, rfl, fun _ => List.mem_reverse.mpr hc⟩
  | cons d after ih =>
    rw [linesFrom]
    split
    · refine ⟨(dropReturn current).reverse, rfl, fun hreturn => List.mem_reverse.mpr ?_⟩
      unfold dropReturn
      split
      · exact (List.mem_cons.mp hc).resolve_left hreturn
      · exact hc
    · exact ih (List.mem_cons_of_mem d hc)

/-- The line with as many line feeds before it as there are before a character; the character is on
it, if it is no line end. -/
theorem exists_lineFrom (before : List Char) (c : Char) (after current : List Char) :
    ∃ line, (linesFrom current (before ++ c :: after))[before.count '\n']? = some line ∧
      (c ≠ '\n' → c ≠ '\r' → c ∈ line) := by
  induction before generalizing current with
  | nil =>
    by_cases hc : c = '\n'
    · rw [List.nil_append, linesFrom, if_pos hc]
      exact ⟨_, rfl, fun h => absurd hc h⟩
    · rw [List.nil_append, linesFrom, if_neg hc]
      obtain ⟨line, hline, hmem⟩ := exists_first_line (@List.mem_cons_self _ c current) after
      exact ⟨line, hline, fun _ => hmem⟩
  | cons d before ih =>
    by_cases hd : d = '\n'
    · subst hd
      rw [List.cons_append, linesFrom, if_pos rfl, List.count_cons_self, List.getElem?_cons_succ]
      exact ih []
    · rw [List.cons_append, linesFrom, if_neg hd, List.count_cons_of_ne hd]
      exact ih (d :: current)

end Text

section

variable {text : String} {line : UInt32}

/-- The line behind some characters is the one that the next character is on. -/
theorem exists_line_behind {before after : List Char} {c : Char}
    (htext : text.toList = before ++ c :: after)
    (hsize : (Text.lines text.toList).length < UInt32.size) :
    (lineBehind before).toNat = before.count '\n' + 1 ∧
      ∃ found, (Text.lines text.toList)[before.count '\n']? = some found ∧
        (c ≠ '\n' → c ≠ '\r' → c ∈ found) := by
  obtain ⟨found, hfound, hmem⟩ := Text.exists_lineFrom before c after []
  rw [← htext] at hfound
  obtain ⟨hlength, -⟩ := List.getElem?_eq_some_iff.mp hfound
  exact ⟨lineBehind_toNat (Nat.lt_of_le_of_lt hlength hsize), found, hfound, hmem⟩

/-- A line with a character on it is one of the lines of the text. -/
theorem HasLine.exists_line (h : HasLine text.toList line)
    (hsize : (Text.lines text.toList).length < UInt32.size) :
    1 ≤ line.toNat ∧ line.toNat ≤ (Text.lines text.toList).length := by
  obtain ⟨before, c, after, htext, rfl⟩ := h
  obtain ⟨hnumber, found, hfound, -⟩ := exists_line_behind htext hsize
  obtain ⟨hlength, -⟩ := List.getElem?_eq_some_iff.mp hfound
  rw [hnumber]
  exact ⟨Nat.le_add_left .., hlength⟩

/-- A line that shows something is not empty. -/
theorem ShowsLine.lineAt_ne (h : ShowsLine text.toList line)
    (hsize : (Text.lines text.toList).length < UInt32.size) : Text.lineAt text line.toNat ≠ "" := by
  obtain ⟨before, c, after, htext, hblank, rfl⟩ := h
  obtain ⟨hnumber, found, hfound, hmem⟩ := exists_line_behind htext hsize
  have hc : c ∈ found := by
    apply hmem
    · rintro rfl
      cases hblank
    · rintro rfl
      cases hblank
  rw [Text.lineAt, hnumber, Nat.add_sub_cancel, hfound, Option.getD_some]
  intro hempty
  rw [← String.toList_inj, String.toList_ofList] at hempty
  rw [hempty] at hc
  cases hc

end

end Packwright
