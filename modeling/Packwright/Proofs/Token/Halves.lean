import Packwright.Proofs.Location.Lines
import Packwright.Proofs.Token.Covering
import Packwright.Proofs.Token.Nesting

/-!
# Halves of a word

A word can be cut between any two of its characters, and nowhere else. Both halves are words that stand
next to each other and cover the bytes of their texts. The first half begins where the word does. The
second one is taken to be on the same line, so its position is that of its first character just if there
is no line feed before it in the word; a word holds one where a selector goes over several lines.

## Main definitions

- `Token.Covers` — a token covers the text behind some part of a source

## Main results

- `Token.splitAt?_eq_some_iff` — where a word is cut, and what comes of it
- `Position.walk_eq_right_iff` — which characters lead to the right
- `halves_stand_iff` — where the halves of a word stand in the source
-/

namespace Packwright

/-- Only characters that end no line lead as far to the right as there are characters. -/
theorem Position.walk_eq_right_iff {cs : List Char} (hcount : cs.count '\n' < UInt32.size)
    (p : Position) : p.walk cs = p.right cs.length ↔ '\n' ∉ cs := by
  refine ⟨fun h => ?_, fun h => walk_eq_right h p⟩
  have hline : p.line + (cs.count '\n').toUInt32 = p.line := by
    rw [← Position.line_walk_eq, h, right]
  have hzero : (cs.count '\n').toUInt32 = 0 := by simpa using hline
  have hnat : (cs.count '\n') % UInt32.size = 0 := by
    simpa using congrArg UInt32.toNat hzero
  rw [Nat.mod_eq_of_lt hcount] at hnat
  exact List.count_eq_zero.mp hnat

namespace Token

variable {t first second : Token} {n : Nat}

/-- A word is cut exactly between two of its characters. The halves share the bytes of the word, and the
second one is as far to the right of the first one as that has characters. -/
theorem splitAt?_eq_some_iff (hword : t.kind = .word) :
    t.splitAt? n = some (first, second) ↔
      ∃ head tail, head ≠ [] ∧ tail ≠ [] ∧ t.text.toList = head ++ tail ∧ n = Text.byteLength head ∧
        first = ⟨.word, ⟨t.span.start, t.span.start + n, t.position⟩, String.ofList head⟩ ∧
        second = ⟨.word, ⟨t.span.start + n, t.span.stop, t.position.right head.length⟩,
          String.ofList tail⟩ := by
  constructor
  · intro h
    unfold splitAt? at h
    split at h
    · next hsplit =>
      obtain ⟨rfl, rfl⟩ := Prod.mk.inj (Option.some.inj h)
      obtain ⟨htext, hlength⟩ := Text.append_of_splitBytes hsplit
      exact ⟨_, _, List.cons_ne_nil _ _, List.cons_ne_nil _ _, htext, hlength.symm, rfl, rfl⟩
    · cases h
  · rintro ⟨head, tail, hhead, htail, htext, rfl, rfl, rfl⟩
    obtain ⟨c, head, rfl⟩ := List.exists_cons_of_ne_nil hhead
    obtain ⟨d, tail, rfl⟩ := List.exists_cons_of_ne_nil htail
    have hsplit := Text.splitBytes_append (c :: head) (d :: tail)
    unfold splitAt?
    rw [hword, htext, hsplit]

/-- A word is cut at the bytes between two of its characters, and nowhere else. -/
theorem splitAt?_isSome_iff (hword : t.kind = .word) :
    (t.splitAt? n).isSome = true ↔
      ∃ head tail, head ≠ [] ∧ tail ≠ [] ∧ t.text.toList = head ++ tail ∧ n = Text.byteLength head := by
  rw [Option.isSome_iff_exists]
  constructor
  · rintro ⟨⟨first, second⟩, h⟩
    obtain ⟨head, tail, hhead, htail, htext, hn, -⟩ := (splitAt?_eq_some_iff hword).mp h
    exact ⟨head, tail, hhead, htail, htext, hn⟩
  · rintro ⟨head, tail, hhead, htail, htext, hn⟩
    exact ⟨_, (splitAt?_eq_some_iff hword).mpr ⟨head, tail, hhead, htail, htext, hn, rfl, rfl⟩⟩

/-- Behind a part of a source that was read from a position on, the token has the bytes of its text and
the position of its first character; its bytes are counted from an offset on. -/
def Covers (t : Token) (start : Position) (offset : Nat) (before : List Char) : Prop :=
  t.span.shift offset = ⟨Text.byteLength before,
    Text.byteLength before + Text.byteLength t.text.toList, start.walk before⟩

end Token

/-- A word of a source, at any depth of groups, is cut between any two of its characters, and nowhere
else. Both halves are words, one directly behind the other, and their texts make up the word. The first
half covers its text in the source. The second half covers the bytes of its text, and it has the position
of its first character if and only if the first half is on one line. -/
theorem halves_stand_iff {start : Position} {source : String} {groups : List Token} {t : Token}
    (h : ReadWithin start source groups t) (hword : t.kind = .word) :
    (∀ n, (t.splitAt? n).isSome = true ↔ ∃ head tail, head ≠ [] ∧ tail ≠ [] ∧
      t.text.toList = head ++ tail ∧ n = Text.byteLength head) ∧
    ∀ n first second, t.splitAt? n = some (first, second) →
      first.kind = .word ∧ second.kind = .word ∧ first.adjacent second = true ∧
      first.text ++ second.text = t.text ∧ Text.byteLength first.text.toList = n ∧
      ∃ before after,
        source.toList = before ++ (first.text.toList ++ (second.text.toList ++ after)) ∧
        first.Covers start (groups.map Token.innerOffset).sum before ∧
        second.span.shift (groups.map Token.innerOffset).sum =
          ⟨Text.byteLength (before ++ first.text.toList),
            Text.byteLength (before ++ first.text.toList) + Text.byteLength second.text.toList,
            (start.walk before).right first.text.toList.length⟩ ∧
        (first.text.toList.count '\n' < UInt32.size →
          (second.Covers start (groups.map Token.innerOffset).sum (before ++ first.text.toList) ↔
            '\n' ∉ first.text.toList)) := by
  refine ⟨fun n => Token.splitAt?_isSome_iff hword, fun n first second hsplit => ?_⟩
  obtain ⟨head, tail, -, -, htext, rfl, rfl, rfl⟩ := (Token.splitAt?_eq_some_iff hword).mp hsplit
  obtain ⟨before, after, hsource, hstart, hstop, hposition⟩ := h.stands
  rw [htext] at hsource hstop
  have hsecond : (⟨t.span.start + Text.byteLength head, t.span.stop,
      t.position.right head.length⟩ : Span).shift (groups.map Token.innerOffset).sum =
      ⟨Text.byteLength (before ++ head), Text.byteLength (before ++ head) + Text.byteLength tail,
        (start.walk before).right head.length⟩ := by
    rw [Span.shift, hstop, hposition]
    simp only [Text.byteLength_append, hstart, Nat.add_assoc]
  refine ⟨rfl, rfl, by simp [Token.adjacent, Span.touches], ?_, by simp, before, after, ?_, ?_, ?_, ?_⟩
  · rw [← String.ofList_append, ← htext, String.ofList_toList]
  · simpa using hsource
  · rw [Token.Covers, Span.shift, hstart, hposition, String.toList_ofList, Nat.add_assoc]
  · simpa only [String.toList_ofList] using hsecond
  · simp only [Token.Covers, String.toList_ofList]
    intro hcount
    rw [hsecond, ← Position.walk_eq_right_iff hcount (start.walk before), ← Position.walk_append,
      Span.mk.injEq, and_iff_right rfl, and_iff_right rfl, eq_comm]

/-- A word with a selector that goes over two lines. -/
def selectorText : String := "@a[\n]=5;"

def selectorWord : Token := ⟨.word, ⟨0, 7, ⟨1, 1⟩⟩, "@a[\n]=5"⟩

/-- What is left of the word behind the selector, which is on the second line. -/
def selectorRest : Token := ⟨.word, ⟨5, 7, ⟨1, 6⟩⟩, "=5"⟩

theorem selectorRest_not_covers :
    ReadWithin Position.start selectorText [] selectorWord ∧ selectorWord.kind = .word ∧
      selectorWord.splitAt? 5 = some (⟨.word, ⟨0, 5, ⟨1, 1⟩⟩, "@a[\n]"⟩, selectorRest) ∧
      ¬ selectorRest.Covers Position.start 0 "@a[\n]".toList := by
  have hread : tokenize .required Position.start selectorText = .ok ⟨[⟨[selectorWord]⟩], []⟩ := by
    decide +kernel
  have hword : ReadWithin Position.start selectorText [] selectorWord :=
    .outer hread (by decide +kernel)
  have hsplit : selectorWord.splitAt? 5 =
      some (⟨.word, ⟨0, 5, ⟨1, 1⟩⟩, "@a[\n]"⟩, selectorRest) := by decide +kernel
  obtain ⟨-, -, -, -, -, before, after, -, hfirst, -, hiff⟩ :=
    (halves_stand_iff hword rfl).2 5 _ _ hsplit
  obtain rfl : before = [] := by
    by_contra hbefore
    have hpos := Text.byteLength_pos hbefore
    have hzero : 0 = Text.byteLength before := congrArg Span.start hfirst
    omega
  refine ⟨hword, rfl, hsplit, fun h => ?_⟩
  exact absurd ((hiff (by decide +kernel)).mp h) (by decide +kernel)

end Packwright
