import Mathlib
import Packwright.Proofs.Token.Balance

/-!
# Tokens inside groups

The inside of a group is read again from where it begins, and groups in it once more. Spans count from
the start of the inside that was read, while positions are those in the whole source. At every depth
the spans of the groups around a token lead to where it stands in the source.

## Main definitions

- `ReadWithin` — a token that is found in a source inside groups
- `Token.innerOffset`, `Span.shift` — where the inside of a group begins, and spans counted from there

## Main results

- `Token.exists_of_tokenizeInner` — the text and the start of what is read inside a group
- `ReadWithin.stands` — where a token stands in the source
- `nested_positions` — at every depth, text and position are those of the source
-/

namespace Packwright

/-- Where the inside of a group begins, in the text that the group was read from. -/
def Token.innerOffset (t : Token) : Nat := t.span.start + 1

/-- The span of the same text when it is counted from so many bytes earlier. -/
def Span.shift (s : Span) (count : Nat) : Span := ⟨count + s.start, count + s.stop, s.position⟩

/-- The token is found inside the groups, each of which is read from the inside of the one before; the
first one is a token of the source. -/
inductive ReadWithin (start : Position) (source : String) : List Token → Token → Prop
  | outer {terminator : Terminator} {r : Reading} {t : Token}
    (hread : tokenize terminator start source = .ok r) (ht : t ∈ r.tokens) :
    ReadWithin start source [] t
  | inner {groups : List Token} {t u : Token} {terminator : Terminator} {r : Reading}
    (h : ReadWithin start source groups t) (hread : t.tokenizeInner terminator = .ok r)
    (hu : u ∈ r.tokens) : ReadWithin start source (groups ++ [t]) u

theorem Position.right_one (p : Position) (b : Bracket) : p.right 1 = p.walk [b.opening] := by
  cases b <;> rfl

theorem Token.kind_of_tokenizeInner {t : Token} {terminator : Terminator} {r : Reading}
    (h : t.tokenizeInner terminator = .ok r) : ∃ b, t.kind = .group b := by
  unfold Token.tokenizeInner Token.inner? at h
  rcases hkind : t.kind with _ | value | b | _
  case group => exact ⟨b, rfl⟩
  all_goals
    rw [hkind] at h
    cases h

/-- The inside of a group is the text between its brackets, and is read from behind the opening
one. -/
theorem Token.exists_of_tokenizeInner {t : Token} {terminator : Terminator} {r : Reading}
    (hgroup : ∀ b, t.kind = .group b → GroupText b t.text.toList)
    (h : t.tokenizeInner terminator = .ok r) :
    ∃ (b : Bracket) (inner : String),
      t.text.toList = b.opening :: (inner.toList ++ [b.closing]) ∧
      tokenize terminator (t.position.walk [b.opening]) inner = .ok r := by
  obtain ⟨b, hkind⟩ := t.kind_of_tokenizeInner h
  obtain ⟨inner, -, htext⟩ := hgroup b hkind
  refine ⟨b, String.ofList inner, by rw [htext, String.toList_ofList], ?_⟩
  rw [Token.tokenizeInner, Token.inner?_eq hkind htext] at h
  rw [← Position.right_one]
  exact h

namespace ReadWithin

variable {start : Position} {source : String} {groups : List Token} {t : Token}

/-- Groups at every depth are bracket groups. -/
theorem groupText (h : ReadWithin start source groups t) :
    ∀ b, t.kind = .group b → GroupText b t.text.toList := by
  induction h with
  | outer hread ht => exact fun b => tokenize_groupText hread ht
  | inner _ hread hu ih =>
    obtain ⟨b, inner, -, hinner⟩ := Token.exists_of_tokenizeInner ih hread
    exact fun b => tokenize_groupText hinner hu

/-- The spans of the groups around a token and its own lead to where it stands in the source. -/
theorem stands (h : ReadWithin start source groups t) :
    ∃ before after, source.toList = before ++ (t.text.toList ++ after) ∧
      Text.byteLength before = (groups.map Token.innerOffset).sum + t.span.start ∧
      t.span.stop = t.span.start + Text.byteLength t.text.toList ∧
      t.position = start.walk before := by
  induction h with
  | outer hread ht =>
    obtain ⟨before, after, hsource, hstands⟩ := (tokenize_tiles hread).exists_of_mem ht
    obtain ⟨hstart, hstop, -, hposition⟩ := hstands.slice hsource
    refine ⟨before, after, hsource, ?_, ?_, hposition⟩
    · rw [hstart, List.map_nil, List.sum_nil, Nat.zero_add]
    · rw [hstop, hstart]
  | @inner groups t u terminator r h hread hu ih =>
    obtain ⟨before, after, hsource, hlength, -, hposition⟩ := ih
    obtain ⟨b, inner, htext, hinner⟩ := Token.exists_of_tokenizeInner h.groupText hread
    obtain ⟨before', after', hsource', hstands⟩ := (tokenize_tiles hinner).exists_of_mem hu
    obtain ⟨hstart', hstop', -, hposition'⟩ := hstands.slice hsource'
    -- the token stands behind the opening bracket and what is before it in the inside
    refine ⟨before ++ (b.opening :: before'), after' ++ (b.closing :: after), ?_, ?_, ?_, ?_⟩
    · rw [hsource, htext, hsource']
      simp
    · have hopening : b.opening.utf8Size = 1 := by cases b <;> rfl
      simp only [Text.byteLength_append, Text.byteLength_cons, hlength, hopening, hstart',
        List.map_append, List.map_cons, List.map_nil, List.sum_append, List.sum_cons, List.sum_nil,
        Token.innerOffset]
      omega
    · rw [hstop', hstart']
    · rw [hposition', hposition, Position.walk_append, Position.walk_cons]
      rfl

end ReadWithin

/-- At every depth of groups, a token has the text of the source at its span, counted from the start of
the inside it was read from, and it has the position of that text in the source. -/
theorem nested_positions {start : Position} {source : String} {groups : List Token} {t : Token}
    (h : ReadWithin start source groups t) :
    (t.span.shift (groups.map Token.innerOffset).sum).slice source = t.text ∧
      ∃ before after, source.toList = before ++ (t.text.toList ++ after) ∧
        Text.byteLength before = (t.span.shift (groups.map Token.innerOffset).sum).start ∧
        t.position = start.walk before := by
  obtain ⟨before, after, hsource, hlength, hstop, hposition⟩ := h.stands
  refine ⟨?_, before, after, hsource, hlength, hposition⟩
  rw [Span.slice_eq hsource hlength.symm, String.ofList_toList]
  rw [hlength, Span.shift, hstop, Nat.add_assoc]

/-- Three groups inside one another, behind characters of two bytes and a line feed. -/
def depthText : String := "\u00e9 \x7b\n (\u00e9 \x7ba b\x7d) \x7d"

def depthOuter : Token := ⟨.group .curly, ⟨3, 18, ⟨1, 3⟩⟩, "\x7b\n (\u00e9 \x7ba b\x7d) \x7d"⟩

def depthMiddle : Token := ⟨.group .round, ⟨2, 12, ⟨2, 2⟩⟩, "(\u00e9 \x7ba b\x7d)"⟩

def depthInner : Token := ⟨.group .curly, ⟨3, 8, ⟨2, 5⟩⟩, "\x7ba b\x7d"⟩

/-- The last word in the innermost group. -/
def depthWord : Token := ⟨.word, ⟨2, 3, ⟨2, 8⟩⟩, "b"⟩

theorem depth_positions :
    ReadWithin Position.start depthText [depthOuter, depthMiddle, depthInner] depthWord ∧
      (⟨13, 14, ⟨2, 8⟩⟩ : Span).slice depthText = "b" ∧
      ∃ before after, depthText.toList = before ++ ('b' :: after) ∧
        Text.byteLength before = 13 ∧ depthWord.position = Position.start.walk before := by
  have houter : tokenize .optional Position.start depthText =
      .ok ⟨[⟨[⟨.word, ⟨0, 2, ⟨1, 1⟩⟩, "\u00e9"⟩, depthOuter]⟩], []⟩ := by decide +kernel
  have hmiddle : depthOuter.tokenizeInner .optional = .ok ⟨[⟨[depthMiddle]⟩], []⟩ := by
    decide +kernel
  have hinner : depthMiddle.tokenizeInner .optional =
      .ok ⟨[⟨[⟨.word, ⟨0, 2, ⟨2, 3⟩⟩, "\u00e9"⟩, depthInner]⟩], []⟩ := by decide +kernel
  have hword : depthInner.tokenizeInner .optional =
      .ok ⟨[⟨[⟨.word, ⟨0, 1, ⟨2, 6⟩⟩, "a"⟩, depthWord]⟩], []⟩ := by decide +kernel
  have hone : ReadWithin Position.start depthText [] depthOuter :=
    .outer houter (by decide +kernel)
  have htwo : ReadWithin Position.start depthText [depthOuter] depthMiddle :=
    hone.inner hmiddle (by decide +kernel)
  have hthree : ReadWithin Position.start depthText [depthOuter, depthMiddle] depthInner :=
    htwo.inner hinner (by decide +kernel)
  have hread : ReadWithin Position.start depthText [depthOuter, depthMiddle, depthInner] depthWord :=
    hthree.inner hword (by decide +kernel)
  exact ⟨hread, nested_positions hread⟩

end Packwright
