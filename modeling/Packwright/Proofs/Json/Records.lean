import Packwright.Json.Record
import Packwright.Proofs.Json.Printing

/-!
# Records in JSON text

A record is written as an object whose values are strings, numbers and truth values. Its members, in any order,
are given one by one to the fields of their names. Each field must read what the text of its value stands for,
and no name may come twice.

## Main definitions

- `Json.RecordText`, `Json.IsRecord` — the texts of records, with their members in order
- `Json.Reads` — a step reads the texts of a value
- `Json.Fills` — what members make of a record

## Main results

- `Json.reads_readText`, `Json.reads_readBool`, `Json.reads_readWord32` — values of one kind
- `Json.Fills.run_readRecord` — a whole text
- `Json.isRecord_pretty` — an object that is printed
-/

namespace Packwright.Json

variable {ρ α β : Type} {m : Read α} {a : α} {v : Json} {cs lead tail rest : List Char} {c : Char}

/-! ### Texts -/

/-- The text of an object of values that are neither lists nor objects, with its members in the order of the
text. -/
inductive RecordText : List Char → List (String × Json) → Prop
  | empty {gap : List Char} (hgap : Spaces gap) : RecordText ('\x7b' :: (gap ++ ['\x7d'])) []
  | members {cs : List Char} {members : List (String × Json)}
    (h : Listed (MemberText (Spells IntegerText 0)) cs (some members)) :
    RecordText ('\x7b' :: (cs ++ ['\x7d'])) members

/-- The text is that of a record with these members, with blanks around it. -/
def IsRecord (text : String) (members : List (String × Json)) : Prop :=
  ∃ before cs after, text.toList = before ++ (cs ++ after) ∧ Spaces before ∧ Spaces after ∧ RecordText cs members

theorem IsRecord.append {text blanks : String} {members : List (String × Json)} (h : IsRecord text members)
    (hblanks : Spaces blanks.toList) : IsRecord (text ++ blanks) members := by
  obtain ⟨before, cs, after, htext, hbefore, hafter, hcs⟩ := h
  refine ⟨before, cs, after ++ blanks.toList, ?_, hbefore, List.forall_mem_append.mpr ⟨hafter, hblanks⟩, hcs⟩
  rw [String.toList_append, htext]
  simp

theorem exists_of_string {s : String} (h : Spells IntegerText 0 cs (some (.string s))) :
    ∃ ks, cs = '"' :: (ks ++ ['"']) ∧ StringText ks (some s.toList) := by
  generalize hv : some (Json.string s) = v? at h
  cases h with
  | @string ks s? hks =>
    cases s? with
    | none => cases hv
    | some cs =>
      obtain rfl := Json.string.inj (Option.some.inj hv)
      exact ⟨ks, rfl, by rwa [String.toList_ofList]⟩
  | @number _ n? _ => cases n? <;> cases hv
  | null | yes | no => cases hv
  | noItems hsome | array hsome | noMembers hsome | object hsome => cases hsome

theorem eq_of_bool {b : Bool} (h : Spells IntegerText 0 cs (some (.bool b))) :
    cs = if b then ['t', 'r', 'u', 'e'] else ['f', 'a', 'l', 's', 'e'] := by
  generalize hv : some (Json.bool b) = v? at h
  cases h with
  | yes | no =>
    obtain rfl := Json.bool.inj (Option.some.inj hv)
    rfl
  | @number _ n? _ | @string _ n? _ => cases n? <;> cases hv
  | null => cases hv
  | noItems hsome | array hsome | noMembers hsome | object hsome => cases hsome

theorem exists_of_natural {n : Nat} (h : Spells IntegerText 0 cs (some (.number (.natural n)))) :
    ∃ l : Numeral, l.Integral ∧ l.negative = false ∧ l.text = cs ∧ l.natural = n := by
  generalize hv : some (Json.number (.natural n)) = v? at h
  cases h with
  | @number _ n? hnumber =>
    obtain ⟨l, hl, htext, rfl⟩ := hnumber
    have hvalue : Number.natural n = ofInteger l.negative l.natural := Json.number.inj (Option.some.inj hv)
    unfold ofInteger at hvalue
    split at hvalue
    · next hpositive =>
      exact ⟨l, hl, by simpa using hpositive, htext, (Number.natural.inj hvalue).symm⟩
    · split at hvalue
      · cases hvalue
      · split at hvalue <;> cases hvalue
  | @string _ s? _ => cases s? <;> cases hv
  | null | yes | no => cases hv
  | noItems hsome | array hsome | noMembers hsome | object hsome => cases hsome

/-! ### Values of one kind -/

/-- From the texts of the value the step reads this, with blanks in front and what ends a number behind. -/
def Reads (m : Read α) (v : Json) (a : α) : Prop :=
  ∀ gap cs rest, Spaces gap → Spells IntegerText 0 cs (some v) → Ends rest → Takes m (gap ++ cs) rest (some a)

theorem Reads.map (h : Reads m v a) (g : α → β) : Reads (m >>= fun a => pure (g a)) v (g a) :=
  fun gap cs rest hgap hcs hrest => (h gap cs rest hgap hcs hrest).map g

theorem takes_peekValue (hcs : Spaces cs) (hc : isSpace c = false) : Takes peekValue cs (c :: rest) (some c) :=
  (takes_peekPastSpace hcs (stops_cons hc)).last (takes_pure c)

theorem reads_readText (wanted s : String) : Reads (readText wanted) (.string s) s := by
  intro gap cs rest hgap hcs _
  obtain ⟨ks, rfl, hks⟩ := exists_of_string hcs
  refine (takes_peekValue hgap rfl).next ?_
  rw [if_pos rfl]
  refine (takes_next '"').next ?_
  have hread : Takes readString _ rest _ := takes_readString hks
  simpa using hread

theorem reads_readBool (b : Bool) : Reads readBool (.bool b) b := by
  intro gap cs rest hgap hcs _
  obtain rfl := eq_of_bool hcs
  cases b with
  | true =>
    refine (takes_peekValue hgap rfl).next ?_
    exact (takes_readWord (forall_of_all (by decide))).last (takes_pure true)
  | false =>
    refine (takes_peekValue hgap rfl).next ?_
    exact (takes_readWord (forall_of_all (by decide))).last (takes_pure false)

theorem takes_word32 {n : Nat} (h : n < UInt32.size) :
    Takes (word32 (.natural n)) [] rest (some (UInt32.ofNat n)) := by
  simp only [word32, h, if_true]
  exact takes_pure _

theorem reads_readWord32 {n : Nat} (h : n < UInt32.size) :
    Reads readWord32 (.number (.natural n)) (UInt32.ofNat n) := by
  intro gap cs rest hgap hcs hrest
  obtain ⟨l, hl, hpositive, rfl, rfl⟩ := exists_of_natural hcs
  have htext : l.text = l.magnitude := by
    rw [Numeral.text, hpositive]
    rfl
  have hread := takes_readNumber l hrest
  rw [hl.value?_eq, hpositive] at hread
  have hdigit : l.whole.first.isDigit = true := l.whole.isDigit _ List.mem_cons_self
  have hminus : l.whole.first ≠ '-' := by
    intro heq
    rw [heq] at hdigit
    cases hdigit
  have hspace : isSpace l.whole.first = false := not_isSpace_of_isStart (by simp [isStart, hdigit])
  rw [htext]
  refine (takes_peekValue hgap hspace).next ?_
  rw [if_neg hminus, if_pos hdigit]
  exact Takes.last hread (takes_word32 h)

/-! ### Members -/

/-- Members that are given to the fields of their names, no name twice, and what they make of a record. -/
inductive Fills (fields : List (RecordField ρ)) : List String → List (String × Json) → ρ → ρ → Prop
  | nil {seen : List String} {r : ρ} : Fills fields seen [] r r
  | cons {seen : List String} {name : String} {v : Json} {field : RecordField ρ}
    {members : List (String × Json)} {r r' r'' : ρ} (hfield : fields.find? (·.name = name) = some field)
    (hnew : name ∉ seen) (hread : Reads (field.read r) v r')
    (hmore : Fills fields (name :: seen) members r' r'') : Fills fields seen ((name, v) :: members) r r''

variable {fields : List (RecordField ρ)} {seen : List String} {members : List (String × Json)} {r r' : ρ}

theorem takes_readNamed_end (fuel : Nat) (first : Bool) (hcs : Spaces cs) :
    Takes (readNamed fields (fuel + 1) first seen r) (cs ++ ['\x7d']) rest (some r) :=
  (takes_hasNextKey_end first hcs).next ((takes_next '\x7d').last (takes_pure r))

/-- A member is given to the field of its name. -/
theorem takes_readNamed_cons {first : Bool} {name : String} {field : RecordField ρ} {fuel : Nat} {r? : Option ρ}
    (hlead : Lead first lead) (hmember : MemberText (Spells IntegerText 0) cs (some (name, v)))
    (hfield : fields.find? (·.name = name) = some field) (hnew : name ∉ seen) (hread : Reads (field.read r) v r')
    (htail : Takes (readNamed fields fuel false (name :: seen) r') tail rest r?) (hends : Ends (tail ++ rest)) :
    Takes (readNamed fields (fuel + 1) first seen r) (lead ++ (cs ++ tail)) rest r? := by
  generalize hsome : some (name, v) = member? at hmember
  obtain @⟨key, before, after, cs, s?, v?, hkey, hbefore, hafter, hvalue⟩ := hmember
  cases s? with
  | none => cases hsome
  | some s =>
  cases v? with
  | none => cases hsome
  | some v =>
  obtain ⟨rfl, rfl⟩ := Prod.mk.inj (Option.some.inj hsome)
  have htext : lead ++ ('"' :: (key ++ '"' :: (before ++ ':' :: (after ++ cs))) ++ tail) =
      lead ++ ['"'] ++ (key ++ ['"'] ++ (before ++ [':'] ++ (after ++ cs ++ tail))) := by simp
  rw [htext]
  refine (takes_hasNextKey hlead).next ?_
  rw [if_pos rfl]
  refine (takes_readString hkey).next ?_
  simp only [hfield, List.contains_eq_mem, hnew, decide_false, Bool.false_eq_true, if_false]
  refine (takes_readColon hbefore).next ?_
  exact (hread after cs _ hafter hvalue hends).next htail

/-- Members are given to their fields one by one. -/
theorem Fills.takes_readNamed (h : Fills fields seen members r r')
    (hcs : Listed (MemberText (Spells IntegerText 0)) cs (some members)) {fuel : Nat} (hfuel : cs.length < fuel)
    {first : Bool} (hlead : Lead first lead) :
    Takes (readNamed fields fuel first seen r) (lead ++ (cs ++ ['\x7d'])) rest (some r') := by
  generalize hsome : some members = members? at hcs
  have hne : ∀ {cs member?}, MemberText (Spells IntegerText 0) cs member? → 0 < cs.length := by
    rintro _ _ ⟨⟩
    exact Nat.succ_pos _
  induction hcs generalizing fuel first lead members seen r with
  | @last before cs after member? hbefore hmember hafter =>
    have hpos := hne hmember
    obtain ⟨fuel, rfl⟩ : ∃ k, fuel = k + 1 + 1 := ⟨fuel - 2, by simp at hfuel; omega⟩
    cases member? with
    | none => cases hsome
    | some member =>
    obtain rfl := Option.some.inj hsome
    cases h with
    | cons hfield hnew hread hmore =>
      cases hmore
      have hends : Ends ((after ++ ['\x7d']) ++ rest) := by simpa using hafter.ends_append (ends_cons (by simp))
      have hall := takes_readNamed_cons (hlead.append hbefore) hmember hfield hnew hread
        (takes_readNamed_end fuel false hafter) hends
      simpa using hall
  | @more before cs after later member? members? hbefore hmember hafter _ ih =>
    have hpos := hne hmember
    obtain ⟨fuel, rfl⟩ : ∃ k, fuel = k + 1 := ⟨fuel - 1, by omega⟩
    cases member? with
    | none => cases hsome
    | some member =>
    cases members? with
    | none => cases hsome
    | some members =>
    obtain rfl := Option.some.inj hsome
    cases h with
    | cons hfield hnew hread hmore =>
      have hlater := ih hmore (show later.length < fuel by simp at hfuel; omega) (.comma hafter spaces_nil) rfl
      have hall := takes_readNamed_cons (hlead.append hbefore) hmember hfield hnew hread hlater
        (by simpa using hafter.ends_append (ends_cons (by simp)))
      simpa using hall

/-- The text of a record is read as the record that its members make. -/
theorem Fills.takes_readRecord (h : Fills fields [] members r r') (wanted : String) {gap : List Char}
    (hgap : Spaces gap) (hcs : RecordText cs members) :
    Takes (readRecord wanted fields r) (gap ++ cs) rest (some r') := by
  -- the members are bounded by the text behind the brace
  have hbegin : ∀ {text : List Char},
      (∀ fuel, text.length < fuel → Takes (readNamed fields fuel true [] r) text rest (some r')) →
      Takes (readRecord wanted fields r) (gap ++ '\x7b' :: text) rest (some r') := by
    intro text htext
    refine (takes_peekValue hgap rfl).next ((takes_next '\x7b').next ?_)
    refine takes_get_bind fun reader hreader => htext _ ?_ reader hreader
    simp only [hreader, List.length_append]
    omega
  cases hcs with
  | empty hgap =>
    cases h
    refine hbegin fun fuel hfuel => ?_
    obtain ⟨fuel, rfl⟩ := Nat.exists_eq_add_of_lt hfuel
    exact takes_readNamed_end _ true hgap
  | members hmembers =>
    refine hbegin fun fuel hfuel => ?_
    rw [List.length_append] at hfuel
    exact h.takes_readNamed hmembers (by omega) (.first spaces_nil)

/-- The text of a record is read, with blanks around it. -/
theorem Fills.run_readRecord (h : Fills fields [] members r r') (wanted : String) {text : String}
    (htext : IsRecord text members) : run (readRecord wanted fields r) text = .ok r' := by
  obtain ⟨before, cs, after, htext, hbefore, hafter, hcs⟩ := htext
  have hrun := run_of_takes hafter (h.takes_readRecord wanted hbefore hcs)
  rw [List.append_assoc, ← htext, String.ofList_toList] at hrun
  cases hresult : run (readRecord wanted fields r) text with
  | error e => rw [hresult] at hrun; cases hrun
  | ok v => rw [hresult] at hrun; exact congrArg _ (Option.some.inj hrun)

/-! ### Printed records -/

/-- The printed text stands for the value, which is neither a list nor an object. -/
def PrintsFlat (v : Json) : Prop := ∀ level, Spells IntegerText 0 (prettyAt level v).toList (some v)

theorem printsFlat_string (s : String) : PrintsFlat (.string s) := by
  intro level
  have htext : Spells IntegerText 0 _ _ := .string (stringText_escaped s.toList)
  simpa [prettyAt, quote] using htext

theorem printsFlat_bool (b : Bool) : PrintsFlat (.bool b) := by
  intro level
  have htext : (prettyAt level (.bool b)).toList = if b then ['t', 'r', 'u', 'e'] else ['f', 'a', 'l', 's', 'e'] := by
    cases b <;> simp [prettyAt]
  rw [htext]
  cases b with
  | true => exact .yes
  | false => exact .no

theorem printsFlat_natural {n : Nat} (h : n ≤ digitLimit) : PrintsFlat (.number (.natural n)) := by
  intro level
  have htext : IntegerText (prettyAt level (.number (.natural n))).toList (some (.natural n)) := by
    refine ⟨integer false n, integral_integer h, ?_, ?_⟩
    · rw [integer_text]
      exact Nat.toList_repr.symm
    · show some (Number.natural (Nat.ofDigitChars 10 (decimal n).text 0)) = _
      rw [decimal_text, Nat.ofDigitChars_ten_toDigits]
  exact .number htext

/-- An object of such values is printed as a record. -/
theorem isRecord_pretty (h : ∀ member ∈ members, PrintsFlat member.2) :
    IsRecord (pretty (.object members)) members := by
  refine ⟨[], _, [], (List.append_nil _).symm, spaces_nil, spaces_nil, ?_⟩
  cases members with
  | nil =>
    have htext : (pretty (.object [])).toList = '\x7b' :: ([] ++ ['\x7d']) := by simp [pretty, prettyAt]
    rw [htext]
    exact .empty spaces_nil
  | cons member members =>
    have hlisted := listed_printed (spaces_newline 1) (spaces_newline 0)
      (fun other hother => memberText_printMember 1 (h other hother 1))
    have htext := RecordText.members hlisted
    simpa [pretty, prettyAt, prettyMembers_toList, printMember] using htext

end Packwright.Json
