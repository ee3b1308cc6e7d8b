import Mathlib.Data.List.Basic
import Packwright.Shell.Highlight

/-!
# Colours leave the line as it is

The stretches of a line make up the line, and colours only put terminal sequences around them. Whoever
deletes the sequences gets the line back, and no colour stays on: the next sequence behind one that
turns a colour on turns it off again.

## Main definitions

- `Text.withoutSequences` — a text without its terminal sequences
- `Text.IsSequence` — what is deleted at once

## Main results

- `flatMap_stretches` — the stretches of a line make up the line
- `highlight_only_colours` — deleting the sequences gives back the line, and colours are turned off
-/

namespace Packwright

/-! ### Terminal sequences -/

namespace Text

/-- The character that begins a terminal sequence. -/
def escapeChar : Char := '\x1b'

/-- A text without its terminal sequences, each of which goes from an escape character up to and with
the next `m`. It may begin inside a sequence. -/
def withoutSequencesFrom (inside : Bool) : List Char → List Char
  | [] => []
  | c :: rest =>
    if inside then withoutSequencesFrom (c ≠ 'm') rest
    else if c = escapeChar then withoutSequencesFrom true rest
    else c :: withoutSequencesFrom false rest

/-- A text without its terminal sequences. -/
def withoutSequences (cs : List Char) : List Char := withoutSequencesFrom false cs

/-- An escape character and what follows it up to the next `m`, with no other escape character. -/
def IsSequence (cs : List Char) : Prop :=
  ∃ body, 'm' ∉ body ∧ escapeChar ∉ body ∧ cs = escapeChar :: (body ++ ['m'])

variable {cs ds before after : List Char}

/-- Text without an escape character stays. -/
theorem withoutSequences_plain (h : escapeChar ∉ cs) (ds : List Char) :
    withoutSequences (cs ++ ds) = cs ++ withoutSequences ds := by
  induction cs with
  | nil => rfl
  | cons c cs ih =>
    obtain ⟨hc, hcs⟩ : escapeChar ≠ c ∧ escapeChar ∉ cs := by simpa using h
    rw [List.cons_append, withoutSequences, withoutSequencesFrom, if_neg Bool.false_ne_true,
      if_neg (Ne.symm hc)]
    exact congrArg (c :: ·) (ih hcs)

/-- A sequence is deleted. -/
theorem withoutSequences_sequence (h : IsSequence cs) (ds : List Char) :
    withoutSequences (cs ++ ds) = withoutSequences ds := by
  obtain ⟨body, hbody, -, rfl⟩ := h
  have hinside : withoutSequencesFrom true (body ++ 'm' :: ds) = withoutSequencesFrom false ds := by
    induction body with
    | nil => rfl
    | cons c body ih =>
      obtain ⟨hc, hbody⟩ : 'm' ≠ c ∧ 'm' ∉ body := by simpa using hbody
      rw [List.cons_append, withoutSequencesFrom, if_pos rfl, decide_eq_true (Ne.symm hc)]
      exact ih hbody
  rw [List.cons_append, List.append_assoc, withoutSequences, withoutSequencesFrom]
  exact hinside

/-- A sequence in a text begins behind the part without escape characters. -/
theorem exists_behind_plain (h : escapeChar ∉ cs) (hsplit : cs ++ ds = before ++ escapeChar :: after) :
    ∃ more, ds = more ++ escapeChar :: after := by
  rcases List.append_eq_append_iff.mp hsplit with ⟨more, -, hds⟩ | ⟨more, hcs, hafter⟩
  · exact ⟨more, hds⟩
  · cases more with
    | nil => exact ⟨[], hafter.symm⟩
    | cons c more =>
      obtain rfl : escapeChar = c := (List.cons.inj hafter).1
      exact absurd (hcs ▸ List.mem_append_right before List.mem_cons_self) h

/-- Behind a sequence that begins a text, the next one begins in the rest. -/
theorem exists_behind_sequence (h : IsSequence cs)
    (hsplit : cs ++ ds = before ++ escapeChar :: after) :
    escapeChar :: after = cs ++ ds ∨ ∃ more, ds = more ++ escapeChar :: after := by
  obtain ⟨body, -, hbody, rfl⟩ := h
  cases before with
  | nil => exact .inl hsplit.symm
  | cons c before =>
    have hplain : escapeChar ∉ body ++ ['m'] := by
      simpa [escapeChar] using hbody
    exact .inr (exists_behind_plain hplain (List.cons.inj hsplit).2)

end Text

theorem Colour.code_isSequence (colour : Colour) : Text.IsSequence colour.code.toList := by
  cases colour
  case comment => exact ⟨"[2;3".toList, by decide, by decide, by decide⟩
  case string => exact ⟨"[33".toList, by decide, by decide, by decide⟩
  case scoreVariable => exact ⟨"[34".toList, by decide, by decide, by decide⟩
  case selector => exact ⟨"[36".toList, by decide, by decide, by decide⟩
  case number => exact ⟨"[35".toList, by decide, by decide, by decide⟩
  case bracket => exact ⟨"[1".toList, by decide, by decide, by decide⟩
  case reserved => exact ⟨"[32".toList, by decide, by decide, by decide⟩
  case builtin => exact ⟨"[1;32".toList, by decide, by decide, by decide⟩

theorem Colour.reset_isSequence : Text.IsSequence Colour.reset.toList :=
  ⟨"[0".toList, by decide, by decide, by decide⟩

/-! ### Stretches -/

theorem stringTail_isPrefix (cs : List Char) : stringTail cs <+: cs := by
  fun_induction stringTail cs with
  | case1 => exact List.prefix_refl _
  | case2 => exact List.cons_prefix_cons.mpr ⟨rfl, List.nil_prefix⟩
  | case3 c rest ih => exact List.cons_prefix_cons.mpr ⟨rfl, List.cons_prefix_cons.mpr ⟨rfl, ih⟩⟩
  | case4 c rest _ _ ih => exact List.cons_prefix_cons.mpr ⟨rfl, ih⟩

/-- A stretch takes its characters from the front of what follows. -/
theorem stretchAt_isPrefix (c : Char) (rest : List Char) : (stretchAt c rest).2 <+: rest := by
  unfold stretchAt
  split_ifs
  · exact List.prefix_refl _
  · exact stringTail_isPrefix rest
  all_goals first | exact List.takeWhile_prefix _ | exact List.nil_prefix

/-- The stretches of a line make up the line. -/
theorem flatMap_stretches (cs : List Char) : (stretches cs).flatMap Stretch.text = cs := by
  fun_induction stretches cs with
  | case1 => rfl
  | case2 c rest colour tail hat ih =>
    have htail : tail <+: rest := by
      have hprefix := stretchAt_isPrefix c rest
      rwa [hat] at hprefix
    rw [List.flatMap_cons, ih, List.cons_append, List.prefix_iff_eq_append.mp htail]

/-! ### Colours -/

/-- A line that is written stretch by stretch, each with its colour. -/
def coloured (ss : List Stretch) : List Char := ss.flatMap fun s => s.render.toList

theorem toList_highlight (line : String) :
    (highlight line).toList = coloured (stretches line.toList) := by
  rw [highlight, String.toList_join, List.flatMap_map, coloured]

theorem Stretch.toList_render (s : Stretch) :
    s.render.toList = match s.colour with
      | some colour => colour.code.toList ++ (s.text ++ Colour.reset.toList)
      | none => s.text := by
  unfold Stretch.render
  cases s.colour with
  | none => simp
  | some colour => simp

variable {ss : List Stretch}

/-- Without the sequences, the text of the stretches is left. -/
theorem withoutSequences_coloured (h : ∀ s ∈ ss, Text.escapeChar ∉ s.text) :
    Text.withoutSequences (coloured ss) = ss.flatMap Stretch.text := by
  induction ss with
  | nil => rfl
  | cons s ss ih =>
    obtain ⟨hs, hss⟩ := List.forall_mem_cons.mp h
    rw [coloured, List.flatMap_cons, ← coloured, List.flatMap_cons, ← ih hss, s.toList_render]
    cases s.colour with
    | none => exact Text.withoutSequences_plain hs _
    | some colour =>
      simp only [List.append_assoc]
      rw [Text.withoutSequences_sequence colour.code_isSequence, Text.withoutSequences_plain hs,
        Text.withoutSequences_sequence Colour.reset_isSequence]

/-- A text begins with the sequence that turns colours off, or with one that turns a colour on and is
followed by the one that turns it off, with no other in between. -/
def TurnsOff (cs : List Char) : Prop :=
  Colour.reset.toList <+: cs ∨ ∃ (colour : Colour) (text rest : List Char),
    Text.escapeChar ∉ text ∧ cs = colour.code.toList ++ (text ++ (Colour.reset.toList ++ rest))

/-- Each sequence of coloured stretches belongs to a colour, which is turned off behind the stretch. -/
theorem turnsOff_coloured (h : ∀ s ∈ ss, Text.escapeChar ∉ s.text) {before after : List Char}
    (hsplit : coloured ss = before ++ Text.escapeChar :: after) :
    TurnsOff (Text.escapeChar :: after) := by
  induction ss generalizing before with
  | nil => simp [coloured] at hsplit
  | cons s ss ih =>
    obtain ⟨hs, hss⟩ := List.forall_mem_cons.mp h
    rw [coloured, List.flatMap_cons, ← coloured, s.toList_render] at hsplit
    cases hcolour : s.colour with
    | none =>
      rw [hcolour] at hsplit
      obtain ⟨more, hmore⟩ := Text.exists_behind_plain hs hsplit
      exact ih hss hmore
    | some colour =>
      simp only [hcolour, List.append_assoc] at hsplit
      rcases Text.exists_behind_sequence colour.code_isSequence hsplit with hon | ⟨more, hmore⟩
      · exact .inr ⟨colour, s.text, _, hs, hon⟩
      obtain ⟨more, hmore⟩ := Text.exists_behind_plain hs hmore
      rcases Text.exists_behind_sequence Colour.reset_isSequence hmore with hoff | ⟨more, hmore⟩
      · exact .inl ⟨_, hoff.symm⟩
      · exact ih hss hmore

/-- For a line without escape characters, deleting the terminal sequences of its coloured version gives
back the line. Each sequence in it turns the colour off, or turns a colour on that the next sequence
turns off. -/
theorem highlight_only_colours (line : String) (h : Text.escapeChar ∉ line.toList) :
    Text.withoutSequences (highlight line).toList = line.toList ∧
    ∀ before after, (highlight line).toList = before ++ Text.escapeChar :: after →
      TurnsOff (Text.escapeChar :: after) := by
  have htexts : ∀ s ∈ stretches line.toList, Text.escapeChar ∉ s.text := fun s hs hmem =>
    h (flatMap_stretches line.toList ▸ List.mem_flatMap.mpr ⟨s, hs, hmem⟩)
  rw [toList_highlight]
  refine ⟨?_, fun before after hsplit => turnsOff_coloured htexts hsplit⟩
  rw [withoutSequences_coloured htexts, flatMap_stretches]

/-- A line with most kinds of stretches, which ends inside a string. -/
def busyLine : String := "if ($n1 > 2.5) \x7b say \u00e9; Math.sqrt @a \"x\\\" // y"

theorem busyLine_only_coloured : Text.escapeChar ∉ busyLine.toList ∧
    Text.withoutSequences (highlight busyLine).toList = busyLine.toList ∧
    ∀ before after, (highlight busyLine).toList = before ++ Text.escapeChar :: after →
      TurnsOff (Text.escapeChar :: after) := by
  have hplain : Text.escapeChar ∉ busyLine.toList := by decide +kernel
  exact ⟨hplain, highlight_only_colours busyLine hplain⟩

end Packwright
