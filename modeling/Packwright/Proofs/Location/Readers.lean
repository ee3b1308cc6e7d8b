import Packwright.Proofs.Condition.Rendering
import Packwright.Proofs.Json.Places
import Packwright.Proofs.Location.Tokens

/-!
# Readers on the lines of a text

The parts of a statement are found among its tokens, so what is wrong with them is reported on lines
of the text. Arguments and bound values keep the place where they were written; a default has the
place of the call.

## Main definitions

- `Argument.LiesIn`, `Arguments.LiesIn`, `Bindings.LiesIn` — arguments and bound values on lines of
  the text
- `Case.LiesIn` — the statements of a case

## Main results

- `Arguments.parse_runs`, `Builtin.bind_reads` — arguments and their binding
- `Condition.parse_runs`, `Condition.parseTokens_runs` — conditions
- `headAndBody_reads`, `functionHead_reads`, `addCaseStatement_reads` — the parts of statements
- `Token.LiesIn.jsonPosition` — mistakes in JSON text
-/

namespace Packwright

variable {α : Type} {text : List Char}

theorem blames_irregular {cause : Cause} (h : cause.isRegular = false) :
    Failure.Blames text (.fault { cause }) :=
  fun hregular => Bool.noConfusion (h.symm.trans hregular)

namespace Noting

theorem runsIn_fail {f : Fault} {P : α → Prop} (h : Failure.Blames text (.fault f)) :
    RunsIn text (fail f : Noting α) P :=
  runsIn_throw h

theorem runsIn_note (warnings : List Warning) : RunsIn text (note warnings) :=
  runsIn_modify _

theorem runsIn_ofExcept {x : Except Fault α} {P : α → Prop} (h : ReadsIn text x P) :
    RunsIn text (ofExcept x) P := by
  cases x with
  | ok a => exact runsIn_pure h
  | error f => exact runsIn_fail h

end Noting

/-! ### Arguments -/

/-- The argument has tokens, and they are on lines of the text. -/
def Argument.LiesIn (text : List Char) (a : Argument) : Prop :=
  a.tokens ≠ [] ∧ ∀ t ∈ a.tokens, t.LiesIn text

theorem Argument.LiesIn.shows {a : Argument} (h : a.LiesIn text) :
    ShowsLine text a.position.line := by
  obtain ⟨hne, hlies⟩ := h
  obtain ⟨t, rest, htokens⟩ := List.exists_cons_of_ne_nil hne
  rw [htokens] at hlies
  have hposition : a.position = t.position := by rw [Argument.position, htokens]
  rw [hposition]
  exact (hlies t List.mem_cons_self).shows

theorem Argument.ofTokens_lies {tokens : List Token} (hne : tokens ≠ [])
    (h : ∀ t ∈ tokens, t.LiesIn text) : (Argument.ofTokens tokens).LiesIn text := by
  unfold Argument.ofTokens
  split
  · next params sign body =>
    split
    · refine ⟨List.cons_ne_nil body [], fun t ht => h t ?_⟩
      rw [List.mem_singleton.mp ht]
      simp
    · exact ⟨hne, h⟩
  · exact ⟨hne, h⟩

/-- All arguments, and the bracket around them, are on lines of the text. -/
structure Arguments.LiesIn (text : List Char) (list : Arguments) : Prop where
  positional : ∀ a ∈ list.positional, a.LiesIn text
  keywords : ∀ k ∈ list.keywords, k.2.LiesIn text
  shows : ShowsLine text list.position.line

namespace Arguments

/-- The tokens of the segment and the comma behind it are on lines of the text. -/
structure Segment.LiesIn (text : List Char) (s : Segment) : Prop where
  tokens : ∀ t ∈ s.tokens, t.LiesIn text
  comma : ∀ p ∈ s.comma, ShowsLine text p.line

theorem segments_lie {tokens current : List Token} (htokens : ∀ t ∈ tokens, t.LiesIn text)
    (hcurrent : ∀ t ∈ current, t.LiesIn text) : ∀ s ∈ segments current tokens, s.LiesIn text := by
  induction tokens generalizing current with
  | nil =>
    intro s hs
    rw [List.mem_singleton.mp hs]
    exact ⟨hcurrent, fun p hp => nomatch hp⟩
  | cons t rest ih =>
    obtain ⟨ht, hrest⟩ := List.forall_mem_cons.mp htokens
    unfold segments
    split
    · refine List.forall_mem_cons.mpr ⟨⟨hcurrent, fun p hp => ?_⟩, ih hrest fun u hu => nomatch hu⟩
      obtain rfl := Option.some.inj hp
      exact ht.shows
    · exact ih hrest (List.forall_mem_append.mpr ⟨hcurrent, List.forall_mem_singleton.mpr ht⟩)

theorem splitKeyword_lies {first : Token} {rest : List Token} (hfirst : first.LiesIn text)
    (hrest : ∀ t ∈ rest, t.LiesIn text) : ∀ t ∈ (splitKeyword first rest).2, t.LiesIn text := by
  have hall : ∀ t ∈ first :: rest, t.LiesIn text := List.forall_mem_cons.mpr ⟨hfirst, hrest⟩
  unfold splitKeyword
  split
  · exact hall
  split
  · split
    · exact hfirst.tailFrom_append _ hrest
    · exact hall
  split
  · exact hall
  · next op rest' =>
    obtain ⟨hop, hrest'⟩ := List.forall_mem_cons.mp hrest
    split
    · split
      · exact hop.tailFrom_append 1 hrest'
      · exact hall
    · exact hall

theorem addSegment_reads {lastComma : Option Position} {list : Arguments} {s : Segment}
    (hcomma : ∀ p ∈ lastComma, ShowsLine text p.line) (hlist : list.LiesIn text)
    (hs : s.LiesIn text) : ReadsIn text (addSegment lastComma list s) (LiesIn text) := by
  unfold addSegment
  split
  · apply blames_located
    unfold emptyAt
    cases hown : s.comma with
    | some p => exact hs.comma p hown
    | none =>
      cases lastComma with
      | some p => exact hcomma p rfl
      | none => exact hlist.shows
  · next first rest htokens =>
    obtain ⟨hfirst, hrest⟩ := List.forall_mem_cons.mp (htokens ▸ hs.tokens)
    have hsplit := splitKeyword_lies hfirst hrest
    split
    · exact hfirst.blames _
    · next name tokens hne hfound =>
      rw [hfound] at hsplit
      split
      · exact hfirst.blames _
      · have hnew := Argument.ofTokens_lies hne hsplit
        exact ⟨hlist.positional, List.forall_mem_append.mpr
          ⟨hlist.keywords, List.forall_mem_singleton.mpr hnew⟩, hlist.shows⟩
    · next tokens hne hfound =>
      rw [hfound] at hsplit
      split
      · have hnew := Argument.ofTokens_lies hne hsplit
        exact ⟨List.forall_mem_append.mpr ⟨hlist.positional, List.forall_mem_singleton.mpr hnew⟩,
          hlist.keywords, hlist.shows⟩
      · exact hfirst.blames _

theorem ofTokens_reads {position : Position} {tokens : List Token}
    (hposition : ShowsLine text position.line) (htokens : ∀ t ∈ tokens, t.LiesIn text) :
    ReadsIn text (ofTokens position tokens) (LiesIn text) := by
  have hsegments : ∀ s ∈ segments [] tokens, s.LiesIn text :=
    segments_lie htokens (List.forall_mem_nil _)
  have hcomma : ∀ p ∈ ((segments [] tokens).filterMap Segment.comma).getLast?,
      ShowsLine text p.line := by
    intro p hp
    obtain ⟨s, hs, hown⟩ := List.mem_filterMap.mp (List.mem_of_getLast? hp)
    exact (hsegments s hs).comma p hown
  refine ReadsIn.foldlM (fun list hlist s hs => addSegment_reads hcomma hlist (hsegments s hs)) ?_
  exact ⟨fun a ha => (nomatch ha), fun k hk => (nomatch hk), hposition⟩

theorem secondStatement_shows {group : Token} {s : Statement} (hgroup : group.LiesIn text)
    (hs : s.LiesIn text) : ShowsLine text (secondStatement group s).line := by
  unfold secondStatement
  cases hhead : s.tokens.head? with
  | none => exact hgroup.shows
  | some t => exact (hs t (List.mem_of_head? hhead)).shows

/-- An argument list is read on lines of the text. -/
theorem parse_runs {group : Token} (hgroup : group.LiesIn text) :
    RunsIn text (parse group) (LiesIn text) := by
  unfold parse
  split
  · refine (Noting.runsIn_ofExcept (hgroup.tokenizeInner .optional)).bind fun reading hreading => ?_
    refine (Noting.runsIn_note _).bind fun _ _ => ?_
    split
    · exact runsIn_pure ⟨fun a ha => (nomatch ha), fun k hk => (nomatch hk), hgroup.shows⟩
    · next s hstatements =>
      rw [hstatements] at hreading
      exact Noting.runsIn_ofExcept (ofTokens_reads hgroup.shows (hreading s List.mem_cons_self))
    · next s _ hstatements =>
      rw [hstatements] at hreading
      have hsecond := secondStatement_shows hgroup (hreading s (by simp))
      exact Noting.runsIn_fail (blames_located hsecond _)
  · exact Noting.runsIn_fail (hgroup.blames _)

end Arguments

/-! ### Bound values -/

/-- The value was written on a line of the text; so was the body of an arrow function. -/
structure Bound.LiesIn (text : List Char) (b : Bound) : Prop where
  shows : ShowsLine text b.position.line
  arrow : ∀ body, b.value = .arrow body → body.LiesIn text

/-- All values were written on lines of the text. -/
def Bindings.LiesIn (text : List Char) (bs : Bindings) : Prop := ∀ b ∈ bs.values, b.LiesIn text

namespace Builtin

theorem checkCount_reads (b : Builtin) {args : Arguments} (hargs : args.LiesIn text) :
    ReadsIn text (b.checkCount args) := by
  unfold checkCount
  split
  · next extra hextra =>
    exact blames_located (hargs.positional extra (List.mem_of_getElem? hextra)).shows _
  · trivial

theorem checkKeyword_reads (b : Builtin) {args : Arguments} (hargs : args.LiesIn text)
    {keyword : String × Argument} (hkeyword : keyword ∈ args.keywords) :
    ReadsIn text (b.checkKeyword args keyword) := by
  obtain ⟨name, value⟩ := keyword
  have hshows : ShowsLine text value.position.line := (hargs.keywords _ hkeyword).shows
  unfold checkKeyword
  dsimp only
  split
  · exact blames_located hshows _
  · split
    · exact blames_located hshows _
    · trivial

/-- Only the body of an arrow function is a token. -/
theorem arrow_of_convert? {scope : Scope} {a : Argument} {kind : ParamKind} {body : Token}
    (h : kind.convert? scope a = some (.arrow body)) : a = .arrow body := by
  cases kind with
  | arrow =>
    obtain ⟨found, hfound, hbody⟩ := Option.map_eq_some_iff.mp h
    obtain rfl := Value.arrow.inj hbody
    cases a with
    | plain tokens => cases hfound
    | arrow body => rw [Option.some.inj hfound]
  | text =>
    cases a with
    | plain tokens => cases h
    | arrow body => cases h
  | scoreOrInteger =>
    rcases Option.or_eq_some_iff.mp h with h | ⟨-, h⟩
    · obtain ⟨n, -, hn⟩ := Option.map_eq_some_iff.mp h
      cases hn
    · obtain ⟨s, -, hs⟩ := Option.map_eq_some_iff.mp h
      cases hs
  | integer | number | score | selector | objective =>
    obtain ⟨v, -, hv⟩ := Option.map_eq_some_iff.mp h
    cases hv

theorem default?_ne_arrow {s : String} {kind : ParamKind} {body : Token} :
    kind.default? s ≠ some (.arrow body) := by
  intro h
  cases kind with
  | integer =>
    rw [ParamKind.default?] at h
    split at h <;> cases h
  | number =>
    obtain ⟨d, -, hd⟩ := Option.map_eq_some_iff.mp h
    cases hd
  | _ => cases h

theorem bindParam_reads (b : Builtin) (scope : Scope) {args : Arguments} (hargs : args.LiesIn text)
    (indexed : Param × Nat) :
    ReadsIn text (b.bindParam scope args indexed) (Bound.LiesIn text) := by
  obtain ⟨p, index⟩ := indexed
  unfold bindParam
  dsimp only
  split
  · next a ha =>
    have hlies : a.LiesIn text := by
      rcases Option.or_eq_some_iff.mp ha with ha | ⟨-, ha⟩
      · exact hargs.positional a (List.mem_of_getElem? ha)
      · obtain ⟨before, behind, heq, -⟩ := List.lookup_eq_some_iff.mp ha
        exact hargs.keywords (p.name, a) (by simp [heq])
    split
    · next v hv =>
      refine ⟨hlies.shows, ?_⟩
      rintro body rfl
      obtain rfl := arrow_of_convert? hv
      exact hlies.2 body (List.mem_singleton_self body)
    · exact blames_located hlies.shows _
  · split
    · exact blames_located hargs.shows _
    · split
      · next v hv =>
        refine ⟨hargs.shows, ?_⟩
        rintro body rfl
        exact absurd hv default?_ne_arrow
      · exact blames_irregular rfl

/-- Arguments are bound on lines of the text. -/
theorem bind_reads (b : Builtin) (scope : Scope) {args : Arguments} (hargs : args.LiesIn text) :
    ReadsIn text (b.bind scope args) (Bindings.LiesIn text) := by
  refine (b.checkCount_reads hargs).bind fun _ _ => ?_
  refine (ReadsIn.forM fun k hk => b.checkKeyword_reads hargs hk).bind fun _ _ => ?_
  exact (ReadsIn.mapM fun p _ => b.bindParam_reads scope hargs p).bind fun values hvalues => hvalues

end Builtin

namespace Bindings

variable {bs : Bindings}

/-- A value that is asked for was written on a line of the text. -/
theorem get_reads (h : bs.LiesIn text) (name : String) :
    ReadsIn text (bs.get name) fun v => ShowsLine text (bs.position name).line ∧
      ∀ body, v = .arrow body → body.LiesIn text := by
  unfold Bindings.get Bindings.position
  split
  · next b hb =>
    rw [hb]
    have hlies := h b (List.mem_of_find?_eq_some hb)
    exact ⟨hlies.shows, hlies.arrow⟩
  · exact blames_irregular rfl

theorem int_reads (h : bs.LiesIn text) (name : String) :
    ReadsIn text (bs.int name) fun _ => ShowsLine text (bs.position name).line := by
  refine (get_reads h name).bind fun v hv => ?_
  split
  · exact hv.1
  · exact blames_irregular rfl

theorem number_reads (h : bs.LiesIn text) (name : String) : ReadsIn text (bs.number name) := by
  refine (get_reads h name).bind fun v hv => ?_
  split
  · trivial
  · exact blames_irregular rfl

theorem text_reads (h : bs.LiesIn text) (name : String) : ReadsIn text (bs.text name) := by
  refine (get_reads h name).bind fun v hv => ?_
  split
  · trivial
  · exact blames_irregular rfl

theorem arrow_reads (h : bs.LiesIn text) (name : String) :
    ReadsIn text (bs.arrow name) (Token.LiesIn text) := by
  refine (get_reads h name).bind fun v hv => ?_
  split
  · exact hv.2 _ rfl
  · exact blames_irregular rfl

end Bindings

/-! ### Conditions -/

namespace Condition

theorem splitFrom_reads {symbol : String} {tokens current : List Token} {last : Option Token}
    (htokens : ∀ t ∈ tokens, t.LiesIn text) (hcurrent : ∀ t ∈ current, t.LiesIn text)
    (hlast : ∀ t ∈ last, t.LiesIn text) :
    ReadsIn text (splitFrom symbol last current tokens) fun parts =>
      ∀ part ∈ parts, ∀ t ∈ part, t.LiesIn text := by
  induction tokens generalizing last current with
  | nil =>
    unfold splitFrom
    split
    · exact (hlast _ rfl).blames _
    · exact fun part hpart => List.mem_singleton.mp hpart ▸ hcurrent
  | cons t rest ih =>
    obtain ⟨ht, hrest⟩ := List.forall_mem_cons.mp htokens
    unfold splitFrom
    split
    · split
      · exact ht.blames _
      · exact ht.blames _
      · refine (ih hrest (List.forall_mem_nil _) fun u hu => ?_).map fun parts hparts =>
          List.forall_mem_cons.mpr ⟨hcurrent, hparts⟩
        rw [← Option.some.inj hu]
        exact ht
    · exact ih hrest (List.forall_mem_append.mpr ⟨hcurrent, List.forall_mem_singleton.mpr ht⟩) hlast

theorem splitAt_reads {symbol : String} {tokens : List Token} (h : ∀ t ∈ tokens, t.LiesIn text) :
    ReadsIn text (splitAt symbol tokens) fun parts => ∀ part ∈ parts, ∀ t ∈ part, t.LiesIn text :=
  splitFrom_reads h (List.forall_mem_nil _) (by simp)

/-- Tokens with ASCII values make an ASCII text of a comparison. -/
theorem joinTokens_ascii {tokens : List Token} (h : ∀ t ∈ tokens, Text.IsAscii t.value.toList) :
    Text.IsAscii (joinTokens tokens).toList := by
  have hescape : Text.IsAscii ['\\', 'n'] := by simp
  have hvalue : ∀ t ∈ tokens, Text.IsAscii (Text.replaceChar '\n' ['\\', 'n'] t.value.toList) := by
    intro t ht c hc
    obtain ⟨d, hd, hmem⟩ := List.mem_flatMap.mp hc
    split at hmem
    · exact hescape c hmem
    · exact List.mem_singleton.mp hmem ▸ h t ht d hd
  rw [joinTokens, String.toList_ofList]
  fun_induction joinBy (fun t => Text.replaceChar '\n' ['\\', 'n'] t.value.toList) tokens with
  | case1 => exact Text.isAscii_nil
  | case2 t => exact hvalue t List.mem_cons_self
  | case3 t next rest ih =>
    refine Text.isAscii_append.mpr ⟨Text.isAscii_append.mpr ⟨hvalue t List.mem_cons_self, ?_⟩, ?_⟩
    · split
      · exact Text.isAscii_nil
      · simp
    · exact ih (fun u hu => h u (List.mem_cons_of_mem t hu))
        fun u hu => hvalue u (List.mem_cons_of_mem t hu)

/-- A comparison that no score can satisfy is reported at its last token. -/
theorem checkLiteral_blames {tokens : List Token} {last : Token}
    (htokens : ∀ t ∈ tokens, t.LiesIn text) (hlast : last.LiesIn text) {failure : Failure}
    (h : checkLiteral tokens last = .error failure) : failure.Blames text := by
  unfold checkLiteral at h
  rcases hfind : Comparison.find (joinTokens tokens).toList with e | found
  · simp only [hfind] at h
    cases h
    cases Comparison.eq_crash_of_find hfind
    intro hascii
    obtain ⟨before, c, after, hjoined, hforeign, -⟩ := Comparison.find_eq_crash_iff.mp hfind
    have hc := joinTokens_ascii (fun t ht => (htokens t ht).ascii hascii) c (hjoined ▸ by simp)
    omega
  · simp only [hfind, bind, Except.bind] at h
    split at h
    · cases h
    · split at h
      · cases h
      · split at h
        · cases h
          exact hlast.blames _
        · cases h
        · split at h
          · cases h
            exact hlast.blames _
          · cases h

theorem parseLeaf_runs {first : Token} {rest : List Token}
    (h : ∀ t ∈ first :: rest, t.LiesIn text) :
    RunsIn text (parseLeaf first rest) fun c => ∀ scope, c.Readable scope := by
  unfold parseLeaf
  refine (Noting.runsIn_ofExcept (ReadsIn.forM fun t ht => ?_)).bind fun _ _ => ?_
  · unfold checkLeafToken
    split
    · exact (h t ht).blames _
    split
    · exact (h t ht).blames _
    · trivial
  · split
    · next hchecked => exact runsIn_pure (readable_of_checkLiteral hchecked)
    · next hfailure =>
      exact runsIn_throw (checkLiteral_blames h (h _ (List.getLast_mem _)) hfailure)

theorem negated?_lies {first : Token} {rest tokens : List Token}
    (h : ∀ t ∈ first :: rest, t.LiesIn text) (hnegated : negated? first rest = some tokens) :
    ∀ t ∈ tokens, t.LiesIn text := by
  obtain ⟨hfirst, hrest⟩ := List.forall_mem_cons.mp h
  unfold negated? at hnegated
  split at hnegated
  · exact Option.some.inj hnegated ▸ hrest
  · split at hnegated
    · cases hnegated
    · exact Option.some.inj hnegated ▸ hfirst.tailFrom_append 1 hrest
  · cases hnegated

/-- A reader of conditions reports on lines of the text what it reads there, and gives conditions
that can be rendered. -/
def ReaderRuns (text : List Char) (read : Position → List Token → Noting Condition) : Prop :=
  ∀ (p : Position) (tokens : List Token), ShowsLine text p.line → (∀ t ∈ tokens, t.LiesIn text) →
    RunsIn text (read p tokens) fun c => ∀ scope, c.Readable scope

theorem parseGroup_runs {read : Position → List Token → Noting Condition}
    (hread : ReaderRuns text read) {group : Token} (hgroup : group.LiesIn text) :
    RunsIn text (parseGroup read group) fun c => ∀ scope, c.Readable scope := by
  unfold parseGroup
  split
  · refine (Noting.runsIn_ofExcept (hgroup.tokenizeInner .optional)).bind fun reading hreading => ?_
    refine (Noting.runsIn_note _).bind fun _ _ => ?_
    split
    · exact Noting.runsIn_fail (hgroup.blames _)
    · next s hstatements =>
      rw [hstatements] at hreading
      exact hread _ _ hgroup.shows (hreading s List.mem_cons_self)
    · next s _ hstatements =>
      rw [hstatements] at hreading
      have hsecond := Arguments.secondStatement_shows hgroup (hreading s (by simp))
      exact Noting.runsIn_fail (blames_located hsecond _)
  · exact Noting.runsIn_fail (hgroup.blames _)

theorem parseWithin_runs (depth : Nat) : ReaderRuns text (parseWithin depth) := by
  induction depth with
  | zero => exact fun _ _ _ _ => runsIn_throw trivial
  | succ depth ih =>
    intro p tokens hp htokens
    cases tokens with
    | nil => exact Noting.runsIn_fail (blames_located hp _)
    | cons first rest =>
      have hfirst := htokens first List.mem_cons_self
      unfold parseWithin
      refine (Noting.runsIn_ofExcept (splitAt_reads htokens)).bind fun ors hors => ?_
      split
      · refine (RunsIn.mapM fun part hpart => ih p part hp (hors part hpart)).bind fun cs hcs => ?_
        exact runsIn_pure fun scope => readableIn_iff.mpr fun c hc => hcs c hc scope
      refine (Noting.runsIn_ofExcept (splitAt_reads htokens)).bind fun ands hands => ?_
      split
      · refine (RunsIn.mapM fun part hpart => ih p part hp (hands part hpart)).bind fun cs hcs => ?_
        exact runsIn_pure fun scope => readableIn_iff.mpr fun c hc => hcs c hc scope
      split
      · exact Noting.runsIn_fail (hfirst.blames _)
      · next operand _ hnegated =>
        exact (ih p operand hp (negated?_lies htokens hnegated)).bind fun _ hc => runsIn_pure hc
      split
      · exact parseGroup_runs ih hfirst
      · exact parseLeaf_runs htokens

theorem parseTokens_runs : ReaderRuns text parseTokens :=
  fun p tokens => parseWithin_runs _ p tokens

/-- A condition is read on lines of the text, and can be rendered. -/
theorem parse_runs {group : Token} (hgroup : group.LiesIn text) :
    RunsIn text (parse group) fun c => ∀ scope, c.Readable scope :=
  parseGroup_runs parseTokens_runs hgroup

end Condition

/-! ### Parts of statements -/

section

variable {keyword : Token} {rest : List Token}

theorem headAndBody_reads (hkeyword : keyword.LiesIn text) (hrest : ∀ t ∈ rest, t.LiesIn text) :
    ReadsIn text (headAndBody keyword rest) fun parts =>
      parts.1.LiesIn text ∧ parts.2.LiesIn text := by
  unfold headAndBody
  split
  · exact hkeyword.blames _
  next head rest =>
  obtain ⟨hhead, hrest⟩ := List.forall_mem_cons.mp hrest
  split
  · exact hhead.blames _
  split
  · exact hhead.blames _
  next body rest =>
  obtain ⟨hbody, hrest⟩ := List.forall_mem_cons.mp hrest
  split
  · exact hbody.blames _
  split
  · exact ⟨hhead, hbody⟩
  · exact (hrest _ List.mem_cons_self).blames _

theorem doWhileHead_reads (hkeyword : keyword.LiesIn text) (hrest : ∀ t ∈ rest, t.LiesIn text) :
    ReadsIn text (Compile.doWhileHead keyword rest) (Token.LiesIn text) := by
  unfold Compile.doWhileHead
  split
  · exact hkeyword.blames _
  next head rest =>
  obtain ⟨hhead, hrest⟩ := List.forall_mem_cons.mp hrest
  split
  · split
    · exact hhead
    · exact (hrest _ List.mem_cons_self).blames _
  · exact hkeyword.blames _

theorem functionHead_reads (level : Except Cause FunctionPath) (hkeyword : keyword.LiesIn text)
    (hrest : ∀ t ∈ rest, t.LiesIn text) :
    ReadsIn text (functionHead level keyword rest) fun head =>
      head.name.LiesIn text ∧ head.body.LiesIn text := by
  unfold functionHead
  split
  · next name params body =>
    have hname := hrest name (by simp)
    have hparams := hrest params (by simp)
    have hbody := hrest body (by simp)
    split
    · exact hkeyword.blames _
    split
    · exact hname.blames _
    split
    · exact hparams.blames _
    split
    · exact hparams.blames _
    split
    · exact hbody.blames _
    · exact ⟨hname, hbody⟩
  · exact hkeyword.blames _

theorem classHead_reads (hkeyword : keyword.LiesIn text) (hrest : ∀ t ∈ rest, t.LiesIn text) :
    ReadsIn text (classHead keyword rest) fun parts => parts.2.LiesIn text := by
  unfold classHead
  split
  · next name body =>
    have hbody := hrest body (by simp)
    split
    · exact (hrest name (by simp)).blames _
    split
    · exact hbody.blames _
    · exact hbody
  · exact hkeyword.blames _

theorem resourceHead_reads (hkeyword : keyword.LiesIn text) (hrest : ∀ t ∈ rest, t.LiesIn text) :
    ReadsIn text (resourceHead keyword rest) fun head =>
      head.pathToken.LiesIn text ∧ head.body.LiesIn text ∧ head.body.isGroup .curly = true := by
  unfold resourceHead
  split
  · next kind path body =>
    have hpath := hrest path (by simp)
    have hbody := hrest body (by simp)
    split
    · exact (hrest kind (by simp)).blames _
    split
    · exact hpath.blames _
    split
    · exact hbody.blames _
    · next hcurly => exact ⟨hpath, hbody, by simpa using hcurly⟩
  · exact hkeyword.blames _

theorem importTarget_reads (hkeyword : keyword.LiesIn text) (hrest : ∀ t ∈ rest, t.LiesIn text) :
    ReadsIn text (importTarget keyword rest) (Token.LiesIn text) := by
  unfold importTarget
  split
  · next target =>
    have htarget := hrest target List.mem_cons_self
    split
    · exact htarget
    · exact htarget.blames _
  · exact hkeyword.blames _

theorem Level.check_reads (level : Level) (kind : StatementKind) (hkeyword : keyword.LiesIn text) :
    ReadsIn text (level.check kind keyword) := by
  unfold Level.check
  split
  · trivial
  · split
    · trivial
    · exact hkeyword.blames _
  · split
    · exact hkeyword.blames _
    · trivial

theorem splitCase_reads (hkeyword : keyword.LiesIn text) (hrest : ∀ t ∈ rest, t.LiesIn text) :
    ReadsIn text (splitCase keyword rest) fun head =>
      head.token.LiesIn text ∧ ∀ t ∈ head.rest, t.LiesIn text := by
  unfold splitCase
  split
  · exact hkeyword.blames _
  next label rest =>
  obtain ⟨hlabel, hrest⟩ := List.forall_mem_cons.mp hrest
  split
  · exact ⟨hlabel, hlabel.tailFrom_append _ hrest⟩
  split
  · exact hlabel.blames _
  next next rest =>
  obtain ⟨hnext, hrest⟩ := List.forall_mem_cons.mp hrest
  split
  · exact ⟨hlabel, hnext.tailFrom_append 1 hrest⟩
  · exact hlabel.blames _

theorem labelValue_reads (cases : List Case) {head : CaseHead} (hhead : head.token.LiesIn text) :
    ReadsIn text (labelValue cases head) := by
  unfold labelValue
  split
  · exact hhead.blames _
  split
  · trivial
  split
  · exact hhead.blames _
  · exact hhead.blames _
  split
  · exact hhead.blames _
  · trivial

end

/-- The statements of the case are on lines of the text. -/
def Case.LiesIn (text : List Char) (c : Case) : Prop := ∀ s ∈ c.statements, s.LiesIn text

theorem addToLast_lies {s : Statement} {cases : List Case} (hs : s.LiesIn text)
    (hcases : ∀ c ∈ cases, c.LiesIn text) : ∀ c ∈ addToLast s cases, c.LiesIn text := by
  unfold addToLast
  split
  · exact fun c hc => nomatch hc
  next last hlast =>
  have hlies := hcases last (List.mem_of_getLast? hlast)
  rw [List.forall_mem_append, List.forall_mem_singleton]
  exact ⟨fun c hc => hcases c (List.mem_of_mem_dropLast hc),
    List.forall_mem_append.mpr ⟨hlies, List.forall_mem_singleton.mpr hs⟩⟩

theorem addCaseStatement_reads {cases : List Case} {s : Statement}
    (hcases : ∀ c ∈ cases, c.LiesIn text) (hs : s.LiesIn text) :
    ReadsIn text (addCaseStatement cases s) fun all => ∀ c ∈ all, c.LiesIn text := by
  unfold addCaseStatement
  split
  · exact hcases
  next first rest htokens =>
  have hall : ∀ t ∈ first :: rest, t.LiesIn text := htokens ▸ hs
  obtain ⟨hfirst, hrest⟩ := List.forall_mem_cons.mp hall
  split
  · refine (splitCase_reads hfirst hrest).bind fun head hhead => ?_
    refine (labelValue_reads cases hhead.1).bind fun label _ => ?_
    refine List.forall_mem_append.mpr ⟨hcases, List.forall_mem_singleton.mpr fun s' hs' => ?_⟩
    dsimp only at hs'
    split at hs'
    · cases hs'
    · rw [List.mem_singleton.mp hs']
      exact hhead.2
  split
  · exact hfirst.blames _
  · exact addToLast_lies hs hcases

/-- A statement split around its operator keeps to its lines. -/
theorem Assignment.ofTokens?_lies {tokens : List Token} {a : Assignment}
    (h : ∀ t ∈ tokens, t.LiesIn text) (ha : Assignment.ofTokens? tokens = some a) :
    a.target.LiesIn text ∧ ∀ t ∈ a.right, t.LiesIn text := by
  unfold Assignment.ofTokens? at ha
  split at ha
  · cases ha
  next first rest =>
  obtain ⟨hfirst, hrest⟩ := List.forall_mem_cons.mp h
  split at ha
  · obtain ⟨⟨target, tail⟩, hsplit, rfl⟩ := Option.map_eq_some_iff.mp ha
    obtain ⟨htarget, htail⟩ := hfirst.splitAt? hsplit
    exact ⟨htarget, htail.tailFrom_append _ hrest⟩
  split at ha
  · cases ha
  next next rest =>
  obtain ⟨hnext, hrest⟩ := List.forall_mem_cons.mp hrest
  obtain ⟨operator, -, rfl⟩ := Option.map_eq_some_iff.mp ha
  exact ⟨hfirst, hnext.tailFrom_append _ hrest⟩

/-- A mistake in the JSON text of a group is reported on a line of the text, which may be empty. -/
theorem Token.LiesIn.jsonPosition {t : Token} (h : t.LiesIn text) (hgroup : t.isGroup .curly = true)
    {r : Json.Report} (hlies : r.LiesIn t.text) : HasLine text (jsonPosition t r).line := by
  obtain ⟨⟨inner, -, htext⟩, hstands⟩ := h.group .curly (of_decide_eq_true hgroup)
  have hline := hlies.line_le
  rw [htext, ← List.cons_append] at hstands hline
  have hcount : max r.line 1 - 1 ≤ (Bracket.curly.opening :: inner).count '\n' := by
    rw [List.count_append, show [Bracket.curly.closing].count '\n' = 0 from rfl] at hline
    omega
  have hhas := hstands.hasLine_of_le hcount
  unfold Packwright.jsonPosition
  dsimp only
  split
  · next hfirst =>
    rw [hfirst] at hhas
    show HasLine text t.position.line
    simpa using hhas
  · exact hhas

end Packwright
