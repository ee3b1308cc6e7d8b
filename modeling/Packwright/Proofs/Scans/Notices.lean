import Packwright.Proofs.Condition.Grammar
import Packwright.Proofs.Scans.Groups

/-!
# What sessions hear of

A session hears of scans if its new warnings about idle semicolons are those that it keeps of the scans,
and its log goes on by those that it does not keep. Steps of a compilation are told by the scans that a
session hears of where they succeed. Readers of conditions and arguments note the warnings of their scans,
which the session does not keep.

## Main definitions

- `Warning.isIdle` — warnings about semicolons that end nothing
- `Scan.kept`, `Scan.passed` — warnings that the session keeps, and those that only go to the log
- `Session.Hears`, `Compile.Hears` — the scans that a session hears of
- `Noting.Notes` — the scans that a reader notes

## Main results

- `Session.Hears.trans`, `Compile.Hears.bind` — one step after another
- `Compile.hears_tokenizeInner`, `Compile.hears_ofNoting` — texts that are read
- `Condition.parse_notes`, `Compile.hears_condition` — conditions
-/

namespace Packwright

/-- A warning about a semicolon that ends nothing. -/
def Warning.isIdle (w : Warning) : Bool := w.notice = .emptyStatement

/-- A text warns of nothing else, and says where. -/
theorem exists_of_warning {terminator : Terminator} {start : Position} {source : String} {r : Reading}
    (h : tokenize terminator start source = .ok r) :
    ∀ w ∈ r.warnings, ∃ p : Position, w = ⟨.emptyStatement, some p.location⟩ := by
  obtain ⟨all, -, hgroup⟩ := exists_of_bind_ok h
  clear h
  generalize ([] : List Token) = current at hgroup
  fun_induction groupLexemes terminator current all generalizing r with
  | case1 | case3 =>
    obtain rfl := Except.ok.inj hgroup
    exact List.forall_mem_nil _
  | case2 => cases hgroup
  | case4 _ _ _ _ ih | case7 _ _ _ _ ih =>
    obtain ⟨later, hlater, rfl⟩ := exists_of_map_ok hgroup
    have hrest := ih hlater
    exact hrest
  | case5 _ _ _ _ ih => exact ih hgroup
  | case6 p _ _ _ ih =>
    obtain ⟨later, hlater, rfl⟩ := exists_of_map_ok hgroup
    exact List.forall_mem_cons.mpr ⟨⟨_, rfl⟩, ih hlater⟩

theorem isIdle_of_warning {terminator : Terminator} {start : Position} {source : String} {r : Reading}
    (h : tokenize terminator start source = .ok r) : ∀ w ∈ r.warnings, w.isIdle = true := by
  intro w hw
  obtain ⟨p, rfl⟩ := exists_of_warning h w hw
  rfl

namespace Scan

/-- The warnings that the session keeps. -/
def kept (scans : List Scan) : List Warning := (scans.filter (·.purpose.isKept)).flatMap located

/-- The warnings that only go to the log. -/
def passed (scans : List Scan) : List Warning := (scans.filter (!·.purpose.isKept)).flatMap noted

variable {scans scans' : List Scan}

@[simp] theorem kept_nil : kept [] = [] := rfl

@[simp] theorem passed_nil : passed [] = [] := rfl

@[simp]
theorem kept_append (xs ys : List Scan) : kept (xs ++ ys) = kept xs ++ kept ys := by
  simp [kept]

@[simp]
theorem passed_append (xs ys : List Scan) : passed (xs ++ ys) = passed xs ++ passed ys := by
  simp [passed]

theorem kept_cons (scan : Scan) (scans : List Scan) :
    kept (scan :: scans) = (if scan.purpose.isKept then scan.located else []) ++ kept scans := by
  cases h : scan.purpose.isKept <;> simp [kept, h]

theorem passed_cons (scan : Scan) (scans : List Scan) :
    passed (scan :: scans) = (if scan.purpose.isKept then [] else scan.noted) ++ passed scans := by
  cases h : scan.purpose.isKept <;> simp [passed, h]

/-- What more is known of the scans shows in the warnings that are kept. -/
theorem kept_map {f : Scan → Scan} {g : Warning → Warning}
    (hpurpose : ∀ scan, (f scan).purpose = scan.purpose)
    (hlocated : ∀ scan, (f scan).located = scan.located.map g) (scans : List Scan) :
    kept (scans.map f) = (kept scans).map g := by
  induction scans with
  | nil => rfl
  | cons scan scans ih =>
    rw [List.map_cons, kept_cons, kept_cons, ih, hpurpose, hlocated, List.map_append]
    cases scan.purpose.isKept <;> rfl

/-- The other warnings are as they were noted. -/
theorem passed_map {f : Scan → Scan} (hpurpose : ∀ scan, (f scan).purpose = scan.purpose)
    (hnoted : ∀ scan, (f scan).noted = scan.noted) (scans : List Scan) :
    passed (scans.map f) = passed scans := by
  induction scans with
  | nil => rfl
  | cons scan scans ih => rw [List.map_cons, passed_cons, passed_cons, ih, hpurpose, hnoted]

/-- In one more group the same is heard. -/
@[simp]
theorem kept_within (group : Token) (scans : List Scan) : kept (scans.map (within group)) = kept scans := by
  rw [kept_map (f := within group) (g := id) (fun _ => rfl) fun scan => (List.map_id scan.located).symm,
    List.map_id]

@[simp]
theorem passed_within (group : Token) (scans : List Scan) :
    passed (scans.map (within group)) = passed scans :=
  passed_map (f := within group) (fun _ => rfl) (fun _ => rfl) scans

/-- As long as no file is named, warnings are as they were noted. -/
theorem located_of_files {scan : Scan} (h : scan.files = []) : scan.located = scan.noted := by
  rw [located, h]
  exact List.map_id' _

end Scan

/-! ### Sessions -/

namespace Session

/-- The warnings in the log. -/
def warned (s : Session) : List String := (s.log.filter (·.level = .warn)).map LogRecord.text

/-- The session hears of scans: it keeps the warnings of some, in their order, and its log goes on by
those of the others. Warnings about other things may come in between. -/
structure Hears (scans : List Scan) (s s' : Session) : Prop where
  warnings : ∃ new, s'.warnings = s.warnings ++ new ∧ new.filter Warning.isIdle = Scan.kept scans
  warned : s'.warned = s.warned ++ (Scan.passed scans).map Warning.render
  logged : s'.logged = s.logged

variable {s s₁ s' : Session} {scans scans' : List Scan}

/-- Warnings that go to the log are warnings there. -/
theorem warned_records (warnings : List Warning) :
    ((warnings.map fun w => (⟨.warn, w.render⟩ : LogRecord)).filter (·.level = .warn)).map LogRecord.text =
      warnings.map Warning.render := by
  rw [List.filter_eq_self.mpr (by simp), List.map_map]
  rfl

/-- Neither warnings nor the warnings in the log have changed. -/
theorem Hears.of_same (hwarnings : s'.warnings = s.warnings) (hwarned : s'.warned = s.warned)
    (hlogged : s'.logged = s.logged) : Hears [] s s' :=
  ⟨⟨[], by simpa using hwarnings, rfl⟩, by simpa using hwarned, hlogged⟩

theorem Hears.refl (s : Session) : Hears [] s s := .of_same rfl rfl rfl

theorem Hears.trans (h : Hears scans s s₁) (h' : Hears scans' s₁ s') : Hears (scans ++ scans') s s' := by
  obtain ⟨⟨new, hnew, hkept⟩, hwarned, hlogged⟩ := h
  obtain ⟨⟨new', hnew', hkept'⟩, hwarned', hlogged'⟩ := h'
  refine ⟨⟨new ++ new', ?_, ?_⟩, ?_, hlogged'.trans hlogged⟩
  · rw [hnew', hnew, List.append_assoc]
  · rw [List.filter_append, hkept, hkept', Scan.kept_append]
  · rw [hwarned', hwarned, List.append_assoc, Scan.passed_append, List.map_append]

/-- Only what is heard matters. -/
theorem Hears.congr (h : Hears scans s s') (hkept : Scan.kept scans' = Scan.kept scans)
    (hpassed : Scan.passed scans' = Scan.passed scans) : Hears scans' s s' :=
  ⟨hkept ▸ h.warnings, hpassed ▸ h.warned, h.logged⟩

/-- A text is read, and its warnings are kept. -/
theorem Hears.noted (scan : Scan) (hkept : scan.purpose.isKept = true) (hfiles : scan.files = [])
    (hidle : ∀ w ∈ scan.noted, w.isIdle = true) (s : Session) :
    Hears [scan] s { s with warnings := s.warnings ++ scan.noted } := by
  refine ⟨⟨scan.noted, rfl, ?_⟩, ?_, rfl⟩
  · rw [List.filter_eq_self.mpr hidle, Scan.kept_cons, if_pos hkept, Scan.located_of_files hfiles]
    exact (List.append_nil _).symm
  · rw [Scan.passed_cons, if_pos hkept]
    exact (List.append_nil _).symm

end Session

/-! ### Steps -/

namespace Compile

variable {α β : Type} {m : Compile α} {scans scans' : List Scan} {P P' : α → Prop} {Q : β → Prop}

-- This is a structure, so that naming a step for which it holds does not run the step.
/-- Where the step succeeds, the session hears of the scans, and the result is as told. -/
structure Hears (m : Compile α) (scans : List Scan) (P : α → Prop := fun _ => True) : Prop where
  meets : ∀ s : Session, m.Meets s (fun a s' => s.Hears scans s' ∧ P a) fun _ => True

theorem Hears.mono (h : m.Hears scans P) (hP : ∀ a, P a → P' a) : m.Hears scans P' :=
  ⟨fun s => (h.meets s).mono (fun _ _ h => ⟨h.1, hP _ h.2⟩) fun _ => id⟩

theorem Hears.congr (h : m.Hears scans P) (hkept : Scan.kept scans' = Scan.kept scans)
    (hpassed : Scan.passed scans' = Scan.passed scans) : m.Hears scans' P :=
  ⟨fun s => (h.meets s).mono (fun _ _ h => ⟨h.1.congr hkept hpassed, h.2⟩) fun _ => id⟩

/-- One step after another. -/
theorem Hears.bind {f : α → Compile β} (h : m.Hears scans P) (hf : ∀ a, P a → (f a).Hears scans' Q) :
    (m >>= f).Hears (scans ++ scans') Q := by
  refine ⟨fun s => (h.meets s).bind (fun _ => id) fun a s₁ h₁ => ?_⟩
  obtain ⟨hhears, hP⟩ := h₁
  exact ((hf a hP).meets s₁).mono (fun b s' h' => ⟨hhears.trans h'.1, h'.2⟩) fun _ => id

/-- A step behind one without scans. -/
theorem Hears.next {f : α → Compile β} (h : m.Hears [] P) (hf : ∀ a, P a → (f a).Hears scans Q) :
    (m >>= f).Hears scans Q :=
  h.bind hf

/-- A step before one without scans. -/
theorem Hears.last {f : α → Compile β} (h : m.Hears scans P) (hf : ∀ a, P a → (f a).Hears [] Q) :
    (m >>= f).Hears scans Q := by
  have hboth := h.bind hf
  rwa [List.append_nil] at hboth

theorem hears_pure {a : α} (h : P a) : (pure a : Compile α).Hears [] P := ⟨fun s => ⟨.refl s, h⟩⟩

theorem hears_throw {e : Failure} : (throw e : Compile α).Hears scans P := ⟨fun _ => trivial⟩

theorem hears_fail {f : Fault} : (fail f : Compile α).Hears scans P := ⟨fun _ => trivial⟩

theorem hears_failAt {t : Token} {cause : Cause} : (failAt t cause : Compile α).Hears scans P :=
  ⟨fun _ => trivial⟩

theorem hears_get {f : Session → Compile β} (hf : ∀ s, (f s).Hears scans Q) :
    (get >>= f).Hears scans Q :=
  ⟨fun s => (hf s).meets s⟩

/-- A step that cannot change the session; what it gives is known of what follows. -/
theorem hears_ofExcept {x : Except Fault α} {f : α → Compile β}
    (hf : ∀ a, x = .ok a → (f a).Hears scans Q) : (ofExcept x >>= f).Hears scans Q := by
  cases x with
  | ok a => exact hf a rfl
  | error fault => exact ⟨fun _ => trivial⟩

theorem hears_modify {f : Session → Session} (hf : ∀ s : Session, s.Hears [] (f s)) :
    (modify f : Compile PUnit).Hears [] :=
  ⟨fun s => ⟨hf s, trivial⟩⟩

/-! ### Small steps -/

theorem hears_debug (text : String) : (debug text).Hears [] :=
  hears_modify fun s => .of_same rfl (by simp [Session.warned]) rfl

/-- A warning about something else. -/
theorem hears_warn {notice : Notice} (h : notice ≠ .emptyStatement) (p : Position) :
    (warn notice p).Hears [] := by
  refine hears_modify fun s => ⟨⟨_, rfl, ?_⟩, by simp [Session.warned], rfl⟩
  simp [Warning.isIdle, h]

theorem hears_modifyPack (f : Pack → Pack) : (modifyPack f).Hears [] :=
  hears_modify fun _ => .of_same rfl rfl rfl

theorem hears_call (path : FunctionPath) : (call path).Hears [] :=
  hears_get fun _ => hears_pure trivial

theorem hears_takeId (f : Feature) : (takeId f).Hears [] :=
  ⟨fun _ => .takeId (fun _ _ => ⟨.of_same rfl rfl rfl, trivial⟩) trivial⟩

theorem hears_register (f : Feature) (name : String) (commands : List Command) :
    (register f name commands).Hears [] := by
  refine ⟨fun s => ?_⟩
  unfold register
  rw [meets_bind, meets_get]
  cases s.pack.generated.insert f.name name commands with
  | error cause => trivial
  | ok found => exact ⟨.of_same rfl rfl rfl, trivial⟩

theorem hears_allocate (f : Feature) (name : String) (commands : List Command) :
    (allocate f name commands).Hears [] :=
  (hears_register f name commands).next fun _ _ => (hears_debug _).next fun _ _ => hears_pure trivial

theorem hears_registerNext (f : Feature) (commands : List Command) :
    (registerNext f commands).Hears [] :=
  (hears_takeId f).next fun _ _ => hears_register f _ commands

theorem hears_allocateNext (f : Feature) (commands : List Command) :
    (allocateNext f commands).Hears [] :=
  (hears_registerNext f commands).next fun _ _ => (hears_debug _).next fun _ _ => hears_pure trivial

theorem hears_render (c : Condition) : (render c).Hears [] :=
  ⟨fun _ => .render (fun _ _ _ _ => ⟨.of_same rfl rfl rfl, trivial⟩) fun _ _ => trivial⟩

theorem hears_inScope (h : m.Hears scans P) : (inScope m).Hears scans P := by
  refine ⟨fun s => meets_inScope.mpr ?_⟩
  refine (h.meets { s with scope := s.scope.push }).mono (fun a s' h' => ?_) fun _ => id
  exact ⟨⟨h'.1.warnings, h'.1.warned, h'.1.logged⟩, h'.2⟩

/-- The inside of a group is read, for a purpose whose warnings are kept. -/
theorem hears_tokenizeInner {o : Opening} (hkept : o.purpose.isKept = true) :
    (tokenizeInner o.purpose.terminator o.group).Hears
      (Census.reading (o.group.tokenizeInner o.purpose.terminator) fun r =>
        [{ purpose := o.purpose, groups := [o.group], noted := r.warnings }])
      fun statements => ∃ r, o.group.tokenizeInner o.purpose.terminator = .ok r ∧
        statements = r.statements := by
  refine ⟨fun s => ?_⟩
  unfold tokenizeInner
  cases hinner : o.group.inner? with
  | none => trivial
  | some inner =>
    have hread : o.group.tokenizeInner o.purpose.terminator =
        Packwright.tokenize o.purpose.terminator o.group.innerStart inner := by
      rw [Token.tokenizeInner, hinner]
    rw [hread]
    show (tokenize o.purpose.terminator o.group.innerStart inner).Meets s _ _
    unfold tokenize
    cases htext : Packwright.tokenize o.purpose.terminator o.group.innerStart inner with
    | error f => trivial
    | ok r =>
      have hnoted := Session.Hears.noted ⟨o.purpose, [o.group], none, [], r.warnings⟩ hkept rfl
        (isIdle_of_warning htext) s
      exact ⟨hnoted, r, rfl, rfl⟩

end Compile

/-! ### Readers -/

namespace Noting

variable {α β : Type} {m : Noting α} {scans scans' : List Scan} {P P' : α → Prop} {Q : β → Prop}

/-- Where the reader succeeds, it notes the warnings of the scans, none of which are kept. -/
structure Notes (m : Noting α) (scans : List Scan) (P : α → Prop := fun _ => True) : Prop where
  notes : ∀ noted a noted', m.run.run noted = (.ok a, noted') →
    noted' = noted ++ Scan.passed scans ∧ Scan.kept scans = [] ∧ P a

/-- Inside a group the same is noted. -/
theorem Notes.within (h : m.Notes scans P) (group : Token) :
    m.Notes (scans.map (Scan.within group)) P :=
  ⟨by simpa using h.notes⟩

/-- One step after another. -/
theorem Notes.bind {f : α → Noting β} (h : m.Notes scans P) (hf : ∀ a, P a → (f a).Notes scans' Q) :
    (m >>= f).Notes (scans ++ scans') Q := by
  refine ⟨fun noted b noted' hrun => ?_⟩
  rw [ExceptT.run_bind, StateT.run_bind] at hrun
  rcases hm : m.run.run noted with ⟨e | a, noted₁⟩
  · rw [hm] at hrun
    cases hrun
  · rw [hm] at hrun
    obtain ⟨rfl, hkept, hP⟩ := h.notes _ _ _ hm
    obtain ⟨rfl, hkept', hQ⟩ := (hf a hP).notes _ _ _ hrun
    exact ⟨by simp, by simp [hkept, hkept'], hQ⟩

/-- A step behind one that notes nothing. -/
theorem Notes.next {f : α → Noting β} (h : m.Notes [] P) (hf : ∀ a, P a → (f a).Notes scans Q) :
    (m >>= f).Notes scans Q :=
  h.bind hf

/-- A step before one that notes nothing. -/
theorem Notes.last {f : α → Noting β} (h : m.Notes scans P) (hf : ∀ a, P a → (f a).Notes [] Q) :
    (m >>= f).Notes scans Q := by
  have hboth := h.bind hf
  rwa [List.append_nil] at hboth

theorem notes_pure {a : α} (h : P a) : (pure a : Noting α).Notes [] P := by
  refine ⟨fun noted b noted' hrun => ?_⟩
  obtain ⟨hb, rfl⟩ := Prod.mk.inj hrun
  obtain rfl := Except.ok.inj hb
  exact ⟨by simp, rfl, h⟩

theorem notes_throw {e : Failure} : (throw e : Noting α).Notes scans P :=
  ⟨fun _ _ _ hrun => nomatch (Prod.mk.inj hrun).1⟩

theorem notes_fail {f : Fault} : (fail f : Noting α).Notes scans P := notes_throw

/-- What a step without notes gives is known of what follows. -/
theorem notes_ofExcept {x : Except Fault α} {f : α → Noting β}
    (hf : ∀ a, x = .ok a → (f a).Notes scans Q) : (ofExcept x >>= f).Notes scans Q := by
  cases x with
  | ok a => exact ⟨(hf a rfl).notes⟩
  | error fault => exact ⟨fun _ _ _ hrun => nomatch (Prod.mk.inj hrun).1⟩

/-- A reader for each of several parts. -/
theorem notes_mapM {f : α → Noting β} {g : α → List Scan} {l : List α}
    (hf : ∀ a ∈ l, (f a).Notes (g a)) : (l.mapM f).Notes (l.flatMap g) := by
  induction l with
  | nil => exact notes_pure trivial
  | cons a l ih =>
    obtain ⟨ha, hl⟩ := List.forall_mem_cons.mp hf
    rw [List.mapM_cons]
    exact ha.bind fun _ _ => (ih hl).last fun _ _ => notes_pure trivial

/-- Warnings that are noted. -/
theorem notes_note (scan : Scan) (hpassed : scan.purpose.isKept = false) :
    (note scan.noted).Notes [scan] := by
  refine ⟨fun noted a noted' hrun => ?_⟩
  obtain ⟨-, rfl⟩ := Prod.mk.inj hrun
  exact ⟨by simp [Scan.passed_cons, hpassed], by simp [Scan.kept_cons, hpassed], trivial⟩

end Noting

/-- What a reader notes goes to the log. -/
theorem Compile.hears_ofNoting {α : Type} {m : Noting α} {scans : List Scan} {P : α → Prop}
    (h : m.Notes scans P) : (ofNoting m).Hears scans fun a => P a ∧ (m.run.run []).1 = .ok a := by
  refine ⟨fun s => ?_⟩
  unfold ofNoting
  rcases hrun : m.run.run [] with ⟨e | a, noted⟩
  · trivial
  · obtain ⟨rfl, hkept, hP⟩ := h.notes _ _ _ hrun
    refine ⟨⟨⟨[], by simp, by simpa using hkept.symm⟩, ?_, rfl⟩, hP, rfl⟩
    simp only [Session.warned, List.nil_append, List.filter_append, List.map_append]
    exact congrArg _ (Session.warned_records _)

/-! ### Conditions -/

namespace Condition

open Opening (ofCondition)

variable {tokens : List Token} {t : Token}

theorem ofCondition_append (xs ys : List Token) :
    ofCondition (xs ++ ys) = ofCondition xs ++ ofCondition ys := by
  simp [ofCondition]

/-- What is no round group is not opened. -/
theorem ofCondition_cons_of_not (h : t.isGroup .round = false) (rest : List Token) :
    ofCondition (t :: rest) = ofCondition rest := by
  simp [ofCondition, h]

theorem ofCondition_cons_of_word (h : t.kind = .word) (rest : List Token) :
    ofCondition (t :: rest) = ofCondition rest :=
  ofCondition_cons_of_not (by simp [Token.isGroup, h]) rest

/-- What is left of a word is no group. -/
theorem ofCondition_tailFrom (t : Token) (k : Nat) : ofCondition (t.tailFrom k) = [] := by
  unfold Token.tailFrom Token.splitAt?
  split
  · next hsplit =>
    split at hsplit
    · obtain ⟨-, rfl⟩ := Prod.mk.inj (Option.some.inj hsplit)
      exact ofCondition_cons_of_word rfl []
    · cases hsplit
  · rfl

/-- Splitting at connectives keeps the groups and their order. -/
theorem ofCondition_splitFrom {symbol : String} {last : Option Token} {current : List Token}
    {parts : List (List Token)} (h : splitFrom symbol last current tokens = .ok parts) :
    parts.flatMap ofCondition = ofCondition (current ++ tokens) := by
  induction tokens generalizing last current parts with
  | nil =>
    unfold splitFrom at h
    split at h
    · cases h
    · obtain rfl := Except.ok.inj h
      simp
  | cons t rest ih =>
    unfold splitFrom at h
    split at h
    · next hword =>
      have hkind : t.kind = .word := decide_eq_true_eq.mp (Bool.and_eq_true_iff.mp hword).1
      split at h
      · cases h
      · cases h
      · obtain ⟨more, hmore, rfl⟩ := exists_of_map_ok h
        rw [List.flatMap_cons, ih hmore, List.nil_append, ofCondition_append,
          ofCondition_cons_of_word hkind]
    · rw [ih h, List.append_assoc, List.singleton_append]

theorem ofCondition_splitAt {symbol : String} {parts : List (List Token)}
    (h : splitAt symbol tokens = .ok parts) : parts.flatMap ofCondition = ofCondition tokens :=
  ofCondition_splitFrom h

/-- A comparison has no groups that are opened. -/
theorem parseLeaf_notes (first : Token) (rest : List Token) :
    (parseLeaf first rest).Notes ((ofCondition (first :: rest)).flatMap Opening.scans) := by
  refine Noting.notes_ofExcept fun _ hcheck => ?_
  have hnone : ofCondition (first :: rest) = [] := by
    rw [ofCondition, List.map_eq_nil_iff, List.filter_eq_nil_iff]
    intro t ht hround
    rw [(checkLeafToken_eq_ok_iff.mp (forM_eq_ok_iff.mp hcheck t ht)).2] at hround
    cases hround
  rw [hnone]
  split
  · exact Noting.notes_pure trivial
  · exact Noting.notes_throw

/-- The condition inside a round group, given how to read its tokens. -/
theorem parseGroup_notes {read : Position → List Token → Noting Condition}
    (hread : ∀ at_ tokens, (read at_ tokens).Notes ((ofCondition tokens).flatMap Opening.scans))
    (group : Token) : (parseGroup read group).Notes (Opening.scans ⟨.condition, group⟩) := by
  unfold parseGroup
  split
  · refine Noting.notes_ofExcept fun r hr => ?_
    have hscans := Opening.scans_eq (o := ⟨.condition, group⟩) hr
    rw [hscans]
    refine (Noting.notes_note { purpose := .condition, groups := [group], noted := r.warnings } rfl).bind
      fun _ _ => ?_
    have hinside : Opening.inside ⟨.condition, group⟩ r =
        r.statements.flatMap fun s => ofCondition s.tokens := rfl
    rw [hinside]
    split
    · exact Noting.notes_fail
    · next s hstatements =>
      rw [hstatements, List.flatMap_singleton]
      exact (hread group.position s.tokens).within group
    · exact Noting.notes_fail
  · exact Noting.notes_fail

theorem negated?_ofCondition {first : Token} {rest operand : List Token}
    (h : negated? first rest = some operand) : ofCondition operand = ofCondition (first :: rest) := by
  unfold negated? at h
  have hword : ∀ cs, first.word?.map String.toList = some cs → first.kind = .word := by
    intro cs hcs
    obtain ⟨w, hw, -⟩ := Option.map_eq_some_iff.mp hcs
    exact (Token.word?_eq_some_iff.mp hw).1
  split at h
  · next hfirst =>
    obtain rfl := Option.some.inj h
    rw [ofCondition_cons_of_word (hword _ hfirst)]
  · next hfirst =>
    split at h
    · cases h
    · obtain rfl := Option.some.inj h
      rw [ofCondition_append, ofCondition_tailFrom, ofCondition_cons_of_word (hword _ hfirst)]
      rfl
  · cases h

theorem parseWithin_notes (depth : Nat) (at_ : Position) (tokens : List Token) :
    (parseWithin depth at_ tokens).Notes ((ofCondition tokens).flatMap Opening.scans) := by
  induction depth generalizing at_ tokens with
  | zero => exact Noting.notes_throw
  | succ depth ih =>
    cases tokens with
    | nil => exact Noting.notes_fail
    | cons first rest =>
      have hparts : ∀ {parts : List (List Token)} {symbol : String},
          splitAt symbol (first :: rest) = .ok parts →
          (parts.mapM (parseWithin depth at_)).Notes
            ((ofCondition (first :: rest)).flatMap Opening.scans) := by
        intro parts symbol hsplit
        rw [← ofCondition_splitAt hsplit, List.flatMap_assoc]
        exact Noting.notes_mapM fun part _ => ih at_ part
      unfold parseWithin
      refine Noting.notes_ofExcept fun parts hor => ?_
      split
      · exact (hparts hor).last fun _ _ => Noting.notes_pure trivial
      · refine Noting.notes_ofExcept fun parts hand => ?_
        split
        · exact (hparts hand).last fun _ _ => Noting.notes_pure trivial
        · split
          · exact Noting.notes_fail
          · next operand _ hnegated =>
            rw [← negated?_ofCondition hnegated]
            exact (ih at_ operand).last fun _ _ => Noting.notes_pure trivial
          · split
            · next hgroup =>
              obtain ⟨hrest, hround⟩ := Bool.and_eq_true_iff.mp hgroup
              obtain rfl := List.isEmpty_iff.mp hrest
              have hone : ofCondition [first] = [⟨.condition, first⟩] := by simp [ofCondition, hround]
              rw [hone, List.flatMap_singleton]
              exact parseGroup_notes ih first
            · exact parseLeaf_notes first rest

theorem parseTokens_notes (at_ : Position) (tokens : List Token) :
    (parseTokens at_ tokens).Notes ((ofCondition tokens).flatMap Opening.scans) :=
  parseWithin_notes _ at_ tokens

theorem parse_notes (group : Token) :
    (parse group).Notes (Opening.scans ⟨.condition, group⟩) :=
  parseGroup_notes parseTokens_notes group

end Condition

/-! ### Argument lists -/

/-- The text of an argument list is read for a call. -/
theorem Arguments.parse_notes (b : Builtin) (group : Token) :
    (Arguments.parse group).Notes
      (Census.reading (group.tokenizeInner .optional) fun r =>
        [{ purpose := .arguments b, groups := [group], noted := r.warnings }])
      fun _ => ∃ r, group.tokenizeInner .optional = .ok r := by
  unfold parse
  split
  · refine Noting.notes_ofExcept fun r hr => ?_
    rw [hr, Census.reading]
    refine Noting.Notes.last
      (Noting.notes_note { purpose := .arguments b, groups := [group], noted := r.warnings } rfl)
      fun _ _ => ?_
    split
    · exact Noting.notes_pure ⟨r, rfl⟩
    · rw [← bind_pure (Noting.ofExcept _)]
      exact Noting.notes_ofExcept fun _ _ => Noting.notes_pure ⟨r, rfl⟩
    · exact Noting.notes_fail
  · exact Noting.notes_fail

/-! ### Groups that are opened -/

namespace Compile

variable {β : Type} {Q : β → Prop} {o : Opening} {behind : List Scan}

theorem hears_condition (group : Token) : (condition group).Hears (Opening.scans ⟨.condition, group⟩) :=
  (hears_ofNoting (Condition.parse_notes group)).last fun c _ => hears_render c

/-- The text of a group is read, then those inside of it, and then what comes behind. -/
theorem hears_opening {α : Type} {m : Compile α} {f : α → Compile β} {P : α → Prop}
    (htext : m.Hears
      (Census.reading (o.group.tokenizeInner o.purpose.terminator) fun r =>
        [{ purpose := o.purpose, groups := [o.group], noted := r.warnings }])
      fun a => (∃ r, o.group.tokenizeInner o.purpose.terminator = .ok r) ∧ P a)
    (hf : ∀ r a, o.group.tokenizeInner o.purpose.terminator = .ok r → P a →
      (f a).Hears ((o.inside r).flatMap Opening.scans ++ behind) Q) :
    (m >>= f).Hears (o.scans ++ behind) Q := by
  cases hread : o.group.tokenizeInner o.purpose.terminator with
  | error fault =>
    rw [Opening.scans_of_error hread]
    rw [hread] at htext
    refine htext.next fun a ha => ?_
    obtain ⟨⟨r, hr⟩, -⟩ := ha
    cases hr
  | ok r =>
    rw [Opening.scans_eq hread]
    rw [hread] at htext
    exact htext.bind fun a ha => ((hf r a hread ha.2).congr (by simp) (by simp))

/-- Statements inside a group whose warnings are kept, and what comes behind. -/
theorem hears_inner_behind (hkept : o.purpose.isKept = true) {f : List Statement → Compile β}
    (hf : ∀ r, o.group.tokenizeInner o.purpose.terminator = .ok r →
      (f r.statements).Hears ((o.inside r).flatMap Opening.scans ++ behind) Q) :
    (tokenizeInner o.purpose.terminator o.group >>= f).Hears (o.scans ++ behind) Q := by
  refine hears_opening (P := fun statements => ∃ r,
    o.group.tokenizeInner o.purpose.terminator = .ok r ∧ statements = r.statements)
    ((hears_tokenizeInner hkept).mono fun a ha => ⟨ha.imp fun _ => And.left, ha⟩) ?_
  rintro r statements hr ⟨r', hr', rfl⟩
  rw [hr] at hr'
  obtain rfl := Except.ok.inj hr'
  exact hf r hr

/-- Statements inside a group whose warnings are kept. -/
theorem hears_inner (hkept : o.purpose.isKept = true) {f : List Statement → Compile β}
    (hf : ∀ r, o.group.tokenizeInner o.purpose.terminator = .ok r →
      (f r.statements).Hears ((o.inside r).flatMap Opening.scans) Q) :
    (tokenizeInner o.purpose.terminator o.group >>= f).Hears o.scans Q := by
  rw [← List.append_nil o.scans]
  exact hears_inner_behind hkept fun r hr => (List.append_nil _).symm ▸ hf r hr

/-- The arguments of a call. -/
theorem hears_arguments {b : Builtin} {group : Token} {f : Arguments → Compile β}
    (hf : ∀ r args, group.tokenizeInner .optional = .ok r →
      ((Arguments.parse group).run.run []).1 = .ok args →
      (f args).Hears ((Opening.ofArguments b group).flatMap Opening.scans) Q) :
    (ofNoting (Arguments.parse group) >>= f).Hears (Opening.scans ⟨.arguments b, group⟩) Q := by
  rw [← List.append_nil (Opening.scans _)]
  exact hears_opening (o := ⟨.arguments b, group⟩) (hears_ofNoting (Arguments.parse_notes b group))
    fun r args hr hargs => (List.append_nil _).symm ▸ hf r args hr hargs

end Compile

end Packwright
