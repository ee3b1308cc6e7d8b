import Packwright.Proofs.Location.Lines
import Packwright.Proofs.Session.Outcomes
import Packwright.Proofs.Token.Nesting
import Packwright.Session.Definition

/-!
# Columns of mistakes in JSON text

A reader of JSON text finds a mistake at a byte of a line, and some character of the text holds this byte. In the
source the mistake is reported on the line of this character. Columns of a source count characters, but here
the bytes before the mistake are counted; so it is reported at the character exactly if the line has only
characters of a single byte before it, and too far to the right otherwise.

## Main definitions

- `lastLine` — what a text has on its last line
- `Json.Holds` — the character that holds a byte of a line
- `Json.Placed` — some character holds the byte of a report

## Main results

- `Json.Report.LiesIn.placed` — a report at a place of the text is about the byte of some character
- `jsonPosition_eq` — where the mistake is reported, counted from this character
- `json_mistake_counts_bytes` — when it is reported at the character
-/

namespace Packwright

/-- The characters behind the last line feed. -/
def lastLine (cs : List Char) : List Char := cs.rtakeWhile (· ≠ '\n')

@[simp] theorem lastLine_nil : lastLine [] = [] := rfl

theorem lastLine_concat (cs : List Char) (c : Char) :
    lastLine (cs ++ [c]) = if c = '\n' then [] else lastLine cs ++ [c] := by
  rw [lastLine, List.rtakeWhile_concat, lastLine]
  by_cases hc : c = '\n'
  · simp [hc]
  · simp [hc]

theorem lastLine_eq_self {cs : List Char} (h : '\n' ∉ cs) : lastLine cs = cs :=
  List.rtakeWhile_eq_self_iff.mpr fun _ hc => by simpa using ne_of_mem_of_not_mem hc h

namespace Position

/-- Behind a line feed, columns start again. -/
theorem walk_eq_of_mem {cs : List Char} (h : '\n' ∈ cs) (p : Position) :
    p.walk cs = ⟨p.line + (cs.count '\n').toUInt32, 1 + (lastLine cs).length.toUInt32⟩ := by
  have hcolumn : ∀ p : Position, (p.walk cs).column = 1 + (lastLine cs).length.toUInt32 := by
    induction cs using List.reverseRecOn with
    | nil => cases h
    | append_singleton cs c ih =>
      intro p
      rw [walk_append, lastLine_concat]
      by_cases hc : c = '\n'
      · subst hc
        rfl
      · have hmem : '\n' ∈ cs := (List.mem_append.mp h).resolve_right fun hone =>
          hc (List.mem_singleton.mp hone).symm
        rw [if_neg hc, walk_cons, walk_nil, advance, if_neg hc, List.length_append]
        show (p.walk cs).column + 1 = _
        rw [ih hmem, List.length_singleton, Nat.toUInt32_eq, Nat.toUInt32_eq, UInt32.ofNat_add, UInt32.add_assoc]
        rfl
  rw [← line_walk_eq, ← hcolumn]

theorem right_right (p : Position) (m n : Nat) : (p.right m).right n = p.right (m + n) := by
  simp only [right, Nat.toUInt32_eq, UInt32.ofNat_add, UInt32.add_assoc]

/-- Only a way round all columns leads back. -/
theorem right_eq_self_iff {p : Position} {n : Nat} (hn : n < UInt32.size) : p.right n = p ↔ n = 0 := by
  rw [right, mk.injEq, and_iff_right rfl, UInt32.add_eq_left, ← UInt32.toNat_inj, Nat.toUInt32_eq,
    UInt32.toNat_ofNat_of_lt' hn]
  rfl

end Position

namespace Json

/-- Behind `front`, the character `c` holds the byte `column` of the line; if the column is zero, it is the first
character of the line. -/
structure Holds (front : List Char) (c : Char) (line column : Nat) : Prop where
  line : line = front.count '\n' + 1
  above : column = 0 ∧ lastLine front = [] ∨ Text.byteLength (lastLine front) < column
  upto : column ≤ Text.byteLength (lastLine front) + c.utf8Size

variable {front : List Char}

/-- The place behind a text, by its line feeds and the bytes of its last line. -/
theorem behind_eq (front : List Char) :
    Place.behind front = ⟨front.count '\n' + 1, Text.byteLength (lastLine front)⟩ := by
  induction front using List.reverseRecOn with
  | nil => rfl
  | append_singleton front c ih =>
    rw [Place.behind_concat, ih, Place.advance, lastLine_concat]
    split
    · next hc => simp [hc]
    · next hc => simp [hc, List.count_append]

/-- Some character of the text holds the byte of the report. -/
def Placed (text : String) (r : Report) : Prop :=
  ∃ front c back, text.toList = front ++ c :: back ∧ Holds front c r.line r.column

/-- At the start of a line, the report is about the character that follows; else about the last one that was
read, or the one that was cut. -/
theorem Report.LiesIn.placed {text : String} {r : Report} (h : r.LiesIn text)
    (hlast : lastLine text.toList ≠ []) : Placed text r := by
  obtain ⟨front, back, more, htext, hmore, hline, hcolumn⟩ := h
  rw [behind_eq] at hline hcolumn
  dsimp only at hline hcolumn
  by_cases hzero : more = 0
  · subst hzero
    by_cases hstart : lastLine front = []
    · have hback : back ≠ [] := by
        rintro rfl
        rw [htext, List.append_nil] at hlast
        exact hlast hstart
      obtain ⟨c, back, rfl⟩ := List.exists_cons_of_ne_nil hback
      refine ⟨front, c, back, htext, hline, .inl ⟨?_, hstart⟩, ?_⟩
      · rw [hcolumn, hstart, Text.byteLength_nil]
      · rw [hcolumn]
        exact Nat.add_le_add_left (Nat.zero_le _) _
    · induction front using List.reverseRecOn with
      | nil => exact absurd rfl hstart
      | append_singleton front c _ =>
        rw [lastLine_concat] at hstart hcolumn
        have hne : c ≠ '\n' := fun heq => hstart (if_pos heq)
        rw [if_neg hne, Text.byteLength_append, Text.byteLength_cons, Text.byteLength_nil] at hcolumn
        have hpos := c.utf8Size_pos
        refine ⟨front, c, back, by rw [htext]; simp, ?_, .inr ?_, ?_⟩
        · rw [hline, List.count_append, List.count_singleton]
          simp [hne]
        · omega
        · omega
  · obtain ⟨c, hc, hcut⟩ := hmore.resolve_left hzero
    obtain ⟨back, rfl⟩ := List.head?_eq_some_iff.mp hc
    exact ⟨front, c, back, htext, hline, .inr (by omega), by omega⟩

namespace Holds

variable {c : Char} {line column : Nat}

/-- The bytes before the mistake on its line, less the characters before the one that holds the byte. -/
def excess (front : List Char) (column : Nat) : Nat := max column 1 - 1 - (lastLine front).length

theorem length_add_excess (h : Holds front c line column) :
    (lastLine front).length + excess front column = max column 1 - 1 := by
  have hle := Text.length_le_byteLength (lastLine front)
  refine Nat.add_sub_cancel' ?_
  obtain ⟨-, hnil⟩ | habove := h.above
  · rw [hnil]
    exact Nat.zero_le _
  · omega

/-- There are none if the mistake is at the start of its line, or at the first byte of a character with only
characters of a single byte before it. -/
theorem excess_eq_zero_iff (h : Holds front c line column) : excess front column = 0 ↔
    column = 0 ∨ column = (lastLine front).length + 1 ∧ ∀ d ∈ lastLine front, d.utf8Size = 1 := by
  have hle := Text.length_le_byteLength (lastLine front)
  have hsum := h.length_add_excess
  rw [← Text.byteLength_eq_length_iff]
  obtain ⟨rfl, hnil⟩ | habove := h.above
  · rw [hnil] at hsum
    simpa using hsum
  · omega

theorem excess_lt {back : List Char} (h : Holds front c line column) :
    excess front column < Text.byteLength (front ++ c :: back) := by
  have hsum := h.length_add_excess
  have hupto := h.upto
  have hpos := c.utf8Size_pos
  have hlast : Text.byteLength (lastLine front) ≤ Text.byteLength front := by
    obtain ⟨before, hbefore⟩ := List.rtakeWhile_suffix (· ≠ '\n') front
    have hlength := congrArg Text.byteLength hbefore
    rw [Text.byteLength_append] at hlength
    exact hlength ▸ Nat.le_add_left _ _
  rw [Text.byteLength_append, Text.byteLength_cons]
  omega

end Holds

end Json

/-- The mistake is reported as many columns behind the character that holds its byte as the line has more bytes
before the mistake than characters before this one. -/
theorem jsonPosition_eq (body : Token) {r : Json.Report} {front : List Char} {c : Char}
    (h : Json.Holds front c r.line r.column) :
    jsonPosition body r = (body.position.walk front).right (Json.Holds.excess front r.column) := by
  have hsum := h.length_add_excess
  unfold jsonPosition
  dsimp only
  rw [h.line, max_eq_left (Nat.le_add_left 1 _), Nat.add_sub_cancel]
  by_cases hfeed : '\n' ∈ front
  · have hcount := List.count_pos_iff.mpr hfeed
    rw [if_neg (by omega), Position.walk_eq_of_mem hfeed, Position.right, Position.mk.injEq]
    refine ⟨rfl, ?_⟩
    rw [show max r.column 1 = 1 + (lastLine front).length + Json.Holds.excess front r.column by omega]
    simp only [Nat.toUInt32_eq, UInt32.ofNat_add]
    rfl
  · rw [if_pos (by simp [List.count_eq_zero.mpr hfeed]), Position.walk_eq_right hfeed, Position.right_right,
      ← hsum, lastLine_eq_self hfeed]

theorem lastLine_groupText {b : Bracket} {cs : List Char} (h : GroupText b cs) : lastLine cs ≠ [] := by
  obtain ⟨inner, -, rfl⟩ := h
  rw [← List.cons_append, lastLine_concat, if_neg (by cases b <;> decide)]
  simp

theorem Compile.newResource_of_report {keyword : Token} {rest : List Token} {head : ResourceHead}
    {r : Json.Report} {s : Session} (hhead : resourceHead keyword rest = .ok head)
    (hdecode : s.settings.codec.decode head.body.text = .error r) : (newResource keyword rest).outcome s =
      (.error (.fault (.located (.invalidJson head.kind head.path r.text) (jsonPosition head.body r))), s) := by
  unfold newResource
  simp only [ofExcept, hhead, pure_bind]
  rw [outcome_get_bind, hdecode]
  rfl

theorem ResourceHead.body_isGroup {keyword : Token} {rest : List Token} {head : ResourceHead}
    (h : resourceHead keyword rest = .ok head) : head.body.kind = .group .curly := by
  unfold resourceHead at h
  split at h
  · split at h
    · cases h
    · split at h
      · cases h
      · split at h
        · cases h
        · next hbody =>
          obtain rfl := Except.ok.inj h
          simpa [Token.isGroup] using hbody
  · cases h

/-- A resource whose text the codec does not accept is refused at a place on the line of the character that holds
the byte of the report, and there always is such a character. The column counts bytes: it is the column of this character
exactly if the mistake is at the start of a line of the text, or at the first byte of the character with only
characters of a single byte before it on the line; otherwise it is too great by the bytes that there
are more than characters. -/
theorem json_mistake_counts_bytes {start : Position} {source : String} {groups : List Token} {keyword : Token}
    {rest : List Token} {head : ResourceHead} {r : Json.Report} {s : Session}
    (hhead : resourceHead keyword rest = .ok head) (hbody : ReadWithin start source groups head.body)
    (hdecode : s.settings.codec.decode head.body.text = .error r) :
    ∃ p, (Compile.newResource keyword rest).outcome s =
        (.error (.fault (.located (.invalidJson head.kind head.path r.text) p)), s) ∧
      ∃ before after, source.toList = before ++ (head.body.text.toList ++ after) ∧
        Json.Placed head.body.text r ∧
        ∀ front c back, head.body.text.toList = front ++ c :: back →
          Json.Holds front c r.line r.column →
          p.line = (start.walk (before ++ front)).line ∧
          p = (start.walk (before ++ front)).right (Json.Holds.excess front r.column) ∧
          (Text.byteLength head.body.text.toList < UInt32.size → (p = start.walk (before ++ front) ↔
            r.column = 0 ∨ r.column = (lastLine front).length + 1 ∧ ∀ d ∈ lastLine front, d.utf8Size = 1)) := by
  have hgroup := hbody.groupText .curly (ResourceHead.body_isGroup hhead)
  obtain ⟨before, after, hsource, -, -, hposition⟩ := hbody.stands
  refine ⟨_, Compile.newResource_of_report hhead hdecode, before, after, hsource,
    (s.settings.codec.decode_lies hdecode).placed (lastLine_groupText hgroup), fun front c back htext h => ?_⟩
  have heq := jsonPosition_eq head.body h
  rw [hposition, ← Position.walk_append] at heq
  refine ⟨by rw [heq]; rfl, heq, fun hsize => ?_⟩
  rw [heq, Position.right_eq_self_iff, h.excess_eq_zero_iff]
  rw [htext] at hsize
  exact h.excess_lt.trans hsize

/-- A resource with a character of two bytes in the name of a member, which has no colon behind it. -/
def accentText : String := "new recipe(a) \x7b\"\u00e9\" 1\x7d"

def accentKeyword : Token := ⟨.word, ⟨0, 3, ⟨1, 1⟩⟩, "new"⟩

def accentKind : Token := ⟨.word, ⟨4, 10, ⟨1, 5⟩⟩, "recipe"⟩

def accentPath : Token := ⟨.group .round, ⟨10, 13, ⟨1, 11⟩⟩, "(a)"⟩

def accentBody : Token := ⟨.group .curly, ⟨14, 22, ⟨1, 15⟩⟩, "\x7b\"\u00e9\" 1\x7d"⟩

/-- What stands in the text before the number, where the colon is missing. -/
def accentFront : List Char := ['\x7b', '"', '\u00e9', '"', ' ']

/-- What is told of the missing colon. -/
def accentReport : Json.Report := (Json.Mistake.mk .expectedColon 1 7).report

theorem accent_counts_bytes : Json.Holds accentFront '1' 1 7 ∧
    (Compile.newResource accentKeyword [accentKind, accentPath, accentBody]).outcome (Session.new {}) =
      (.error (.fault (.located (.invalidJson "recipe" "a" accentReport.text) ⟨1, 21⟩)), Session.new {}) ∧
    ∃ before after, accentText.toList = before ++ (accentBody.text.toList ++ after) ∧
      (⟨1, 21⟩ : Position) ≠ Position.start.walk (before ++ accentFront) := by
  have hread : tokenize .required Position.start accentText =
      .ok ⟨[⟨[accentKeyword, accentKind, accentPath, accentBody]⟩], []⟩ := by decide +kernel
  have hhead : resourceHead accentKeyword [accentKind, accentPath, accentBody] =
      .ok ⟨"recipe", "a", accentPath, accentBody⟩ := by decide +kernel
  have hparse : Json.parse accentBody.text = .error ⟨.expectedColon, 1, 7⟩ := by
    have hmistake : (Json.parse accentBody.text).map (fun _ => ()) = .error ⟨.expectedColon, 1, 7⟩ := by
      decide +kernel
    rcases hresult : Json.parse accentBody.text with m | v
    · rw [hresult] at hmistake
      rw [Except.error.inj hmistake]
    · rw [hresult] at hmistake
      cases hmistake
  have hdecode : Json.Codec.standard.decode accentBody.text = .error accentReport :=
    Json.Codec.standard_decode_error hparse
  have hholds : Json.Holds accentFront '1' 1 7 := ⟨by decide, .inr (by decide), by decide⟩
  have hfault : (Compile.newResource accentKeyword [accentKind, accentPath, accentBody]).outcome (Session.new {}) =
      (.error (.fault (.located (.invalidJson "recipe" "a" accentReport.text) (jsonPosition accentBody accentReport))),
        Session.new {}) := Compile.newResource_of_report hhead hdecode
  obtain ⟨⟨line, column⟩, hp, before, after, hsource, -, hplace⟩ :=
    json_mistake_counts_bytes (s := Session.new {}) hhead (.outer hread (by decide +kernel)) hdecode
  rw [show jsonPosition accentBody accentReport = ⟨1, 21⟩ by decide] at hfault
  obtain ⟨rfl, rfl⟩ : 1 = line ∧ 21 = column := by
    have hfailures := (Prod.mk.inj (hfault.symm.trans hp)).1
    simpa [Fault.located, Position.location] using hfailures
  refine ⟨hholds, hfault, before, after, hsource, fun heq => ?_⟩
  obtain ⟨-, -, hiff⟩ := hplace accentFront '1' ['\x7d'] (by decide) hholds
  rcases (hiff (by decide +kernel)).mp heq with hzero | ⟨hcolumn, -⟩
  · cases hzero
  · exact absurd hcolumn (by decide)

end Packwright
