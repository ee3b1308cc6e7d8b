import Packwright.Proofs.Session.Sources

/-!
# The meaning of compiled texts

The load function of a compiled text does what the text means: it ends exactly when the structured
program of the text ends, in a state that differs from the end of that program in flags only.

## Main definitions

- `Pack.table` — the functions of a pack by their locations

## Main results

- `Session.Sound.loweredTable` — the functions of a sound session are lowered
- `load_preserves_meaning` — the load function does what the text means
-/

namespace Packwright

/-- The functions of a pack by their locations; a generated function stands before one of the
user. -/
def Pack.table (p : Pack) : Table := fun target =>
  if target.space = p.space then
    match p.generated.entries.find? (·.2.path = target.path) with
    | some e => some e.2.commands
    | none =>
      if target.path = loadPath then some p.loadCommands
      else (p.function? target.path).map PackFunction.commands
  else none

/-! ### Paths of generated functions -/

theorem Feature.takeWhile_name (f : Feature) (rest : List Char) :
    (f.name.toList ++ '/' :: rest).takeWhile (· ≠ '/') = f.name.toList := by
  have hname : ∀ c ∈ f.name.toList, decide (c ≠ '/') = true := by
    cases f <;> simp [Feature.name]
  rw [List.takeWhile_append_of_pos hname]
  simp

/-- Family and name can be read off the path of a generated function. -/
theorem Feature.path_inj {f f' : Feature} {name name' : String} (h : f.path name = f'.path name') :
    (f.name, name) = (f'.name, name') := by
  have htext : privateSegment ++ "/" ++ f.name ++ "/" ++ name =
      privateSegment ++ "/" ++ f'.name ++ "/" ++ name' := congrArg FunctionPath.text h
  simp only [String.append_assoc, String.append_right_inj] at htext
  have hlist : f.name.toList ++ '/' :: name.toList = f'.name.toList ++ '/' :: name'.toList := by
    have hlist := congrArg String.toList htext
    simpa using hlist
  have hname : f.name.toList = f'.name.toList := by
    rw [← f.takeWhile_name name.toList, hlist, f'.takeWhile_name]
  rw [hname, List.append_cancel_left_eq] at hlist
  rw [String.toList_inj.mp hname, String.toList_inj.mp (List.cons.inj hlist).2]

namespace Session

variable {U : UserCalls} {s : Session}

/-- A path belongs to one generated function. -/
theorem Sound.path_unique (h : s.Sound U) {e e' : Entry} (he : e ∈ s.entries)
    (he' : e' ∈ s.entries) (hpath : e.2.path = e'.2.path) : e = e' := by
  obtain ⟨f, hname, hf⟩ := h.paths e he
  obtain ⟨f', hname', hf'⟩ := h.paths e' he'
  have hkey : e.1 = e'.1 := by
    have hinj := Feature.path_inj (hf.symm.trans (hpath.trans hf'))
    rwa [← hname, ← hname'] at hinj
  exact List.inj_on_of_nodup_map h.keys he he' hkey

theorem plain_setupCommands (p : Pack) : ∀ c ∈ p.setupCommands, c.Plain := by
  intro c hc
  rcases List.mem_append.mp hc with hc | hc
  · obtain ⟨o, -, rfl⟩ := List.mem_map.mp hc
    trivial
  · obtain ⟨n, -, rfl⟩ := List.mem_map.mp hc
    trivial

/-- The functions of a sound session are lowered, and generated ones are found. -/
theorem Sound.loweredTable (h : s.Sound U) : LoweredTable s.Has s.pack.table where
  found := by
    rintro target body ⟨e, he, rfl, rfl⟩
    obtain ⟨e', hfound⟩ : ∃ e', s.entries.find? (·.2.path = e.2.path) = some e' := by
      rw [← Option.isSome_iff_exists, List.find?_isSome]
      exact ⟨e, he, by simp⟩
    have hsame : e' = e :=
      h.path_unique (List.mem_of_find?_eq_some hfound) he (by simpa using List.find?_some hfound)
    subst hsame
    rw [Pack.table, Session.locate, FunctionPath.inSpace, if_pos h.space.symm, hfound]
  lowered := by
    intro target body hbody
    unfold Pack.table at hbody
    split at hbody
    · split at hbody
      · next e hfound =>
        obtain rfl := Option.some.inj hbody
        exact (h.entries e (List.mem_of_find?_eq_some hfound)).lowered
      · have hfunction : ∀ path f, s.pack.function? path = some f →
            ∃ p, Lowered s.Has .own p f.commands :=
          fun path f hf => (h.functions f (List.mem_of_find?_eq_some hf)).lowered
        split at hbody
        · obtain rfl := Option.some.inj hbody
          have huser : ∃ p, Lowered s.Has .own p s.pack.userLoad := by
            unfold Pack.userLoad
            rcases hload : s.pack.function? loadPath with _ | f
            · exact ⟨_, .commands (by simp)⟩
            · exact hfunction _ f hload
          obtain ⟨p, hp⟩ := huser
          exact ⟨_, .seq (.commands (plain_setupCommands s.pack)) hp⟩
        · obtain ⟨f, hf, rfl⟩ := Option.map_eq_some_iff.mp hbody
          exact hfunction _ f hf
    · cases hbody

end Session

/-! ### Load functions -/

theorem anyCalls_includesText (s : Session) (text : String) : anyCalls.IncludesText s text :=
  fun _ _ st _ => anyCalls_includes s st.tokens

/-- A text without imports is compiled to a load function that is lowered from what it means. -/
theorem compileText_reads {settings : Settings} {files : File.Tree} {name text : String}
    {s' : Session}
    (hrun : (Session.compileText files name text).outcome (Session.new settings) = (.ok (), s'))
    {r : Reading} (hread : tokenize .required Position.start text = .ok r)
    (himport : ∀ c ∈ constructs r.statements, c.import? = none) :
    s'.Sound anyCalls ∧ ∃ p, ReadsBlock {} (constructs r.statements) p ∧
      Lowered s'.Has .own p s'.pack.userLoad := by
  have hs := Session.new_sound anyCalls settings
  have hmeets : (Session.compileText files name text).Meets (Session.new settings)
      (fun _ s' => s'.Sound anyCalls ∧ ∃ p, ReadsBlock {} (constructs r.statements) p ∧
        Lowered s'.Has .own p s'.pack.userLoad) (fun _ => True) := by
    have hquiet : ∀ s₁ s₂ : Session, s₁.Quiet s₂ →
        (s₁.Sound anyCalls ∧ ∃ p, ReadsBlock {} (constructs r.statements) p ∧
          Lowered s₁.Has .own p s₁.pack.userLoad) →
        s₂.Sound anyCalls ∧ ∃ p, ReadsBlock {} (constructs r.statements) p ∧
          Lowered s₂.Has .own p s₂.pack.userLoad := by
      rintro s₁ s₂ hq ⟨hsound, p, hp, hlowered⟩
      refine ⟨hsound.quiet hq, p, hp, ?_⟩
      rw [hq.userLoad]
      exact hlowered.mono fun _ _ => hq.grows.has
    refine Compile.meets_step trivial hquiet (fun _ _ _ h => h) ?_
    refine Compile.meets_source hquiet (fun _ _ _ h => h) ?_
    refine (Compile.topLevel_reads text (hs.quiet (Compile.quiet_log _ _))
      (anyCalls_includesText _ text) ?_).mono (fun _ s' h => ?_) fun _ _ => trivial
    · intro r' hr'
      rw [hread] at hr'
      obtain rfl := Except.ok.inj hr'
      exact himport
    · obtain ⟨hsound, r', p, commands, hr', hp, hlowered, hload⟩ := h
      rw [hread] at hr'
      obtain rfl := Except.ok.inj hr'
      refine ⟨hsound, p, hp, ?_⟩
      rw [hload]
      exact hlowered
  exact hmeets.of_ok hrun

/-- The load function of a compiled text does what the text means. The text means a program of
chains and loops around other statements. Where that program negates only what renders to one clause,
the load function ends if and only if the program ends behind the set-up of the pack, and the two
ends agree on everything but flags; this holds for every machine whose commands and tests do not
depend on flags. -/
theorem load_preserves_meaning {settings : Settings} {files : File.Tree} {name text : String}
    {s' : Session}
    (hrun : (Session.compileText files name text).outcome (Session.new settings) = (.ok (), s'))
    {r : Reading} (hread : tokenize .required Position.start text = .ok r)
    (himport : ∀ c ∈ constructs r.statements, c.import? = none) :
    ∃ p, ReadsBlock {} (constructs r.statements) p ∧
      (p.NegatesSingles → ∀ (W : Type) (m : Machine W), m.IgnoresFlags → ∀ s : State W,
        ((∃ u, Runs m s'.pack.table s'.pack.loadCommands s u) ↔
          ∃ v, Program.Ends m s'.pack.table (.seq (.commands s'.pack.setupCommands) p) s v) ∧
        ∀ u v, Runs m s'.pack.table s'.pack.loadCommands s u →
          Program.Ends m s'.pack.table (.seq (.commands s'.pack.setupCommands) p) s v →
          u.AgreeOff isFlag v) := by
  obtain ⟨hsound, p, hp, huser⟩ := compileText_reads hrun hread himport
  refine ⟨p, hp, fun hsingle W m hm s => ?_⟩
  have hload : Lowered s'.Has .own (.seq (.commands s'.pack.setupCommands) p) s'.pack.loadCommands :=
    .seq (.commands (Session.plain_setupCommands s'.pack)) huser
  have hmatches := hload.matches hm hsound.loweredTable ⟨trivial, hsingle⟩ (.refl isFlag s) (by simp)
  refine ⟨⟨?_, ?_⟩, fun u v hu hv => ?_⟩
  · rintro ⟨u, hu⟩
    obtain ⟨v, hv, -⟩ := hmatches.forth u hu
    exact ⟨v, hv⟩
  · rintro ⟨v, hv⟩
    obtain ⟨u, hu, -⟩ := hmatches.back v hv
    exact ⟨u, hu⟩
  · obtain ⟨u', hu', hagree⟩ := hmatches.back v hv
    rwa [hu.unique hu']

/-- A loop that counts to three. -/
def countText : String := "while (!($x == 3)) { $x += 1; }"

def countKeyword : Token := ⟨.word, ⟨0, 5, ⟨1, 1⟩⟩, "while"⟩

def countHead : Token := ⟨.group .round, ⟨6, 18, ⟨1, 7⟩⟩, "(!($x == 3))"⟩

def countBody : Token := ⟨.group .curly, ⟨19, 31, ⟨1, 20⟩⟩, "{ $x += 1; }"⟩

/-- The tokens of the loop. -/
def countStatement : Statement := ⟨[countKeyword, countHead, countBody]⟩

/-- The body of the loop is a variable statement. -/
theorem countBody_negatesSingles {scope : Scope} {p : Program} (h : ReadsBody scope countBody p) :
    p.NegatesSingles := by
  obtain ⟨-, hread, hblock⟩ := h
  have hbody : (countBody.tokenizeInner .required).toOption.map (·.statements.map Statement.kind) =
      some [.variableChange] := by
    decide +kernel
  rw [hread] at hbody
  obtain ⟨st, hstatements, hkind⟩ := List.map_eq_singleton_iff.mp (Option.some.inj hbody)
  rw [hstatements] at hblock
  have hconstructs : constructs [st] = [.single st] := by
    simp [constructs, splitElses, addStatement, hkind]
  rw [hconstructs] at hblock
  obtain ⟨q, hq, rfl⟩ := hblock.exists_of_singleton
  obtain ⟨cs, rfl⟩ := hq.exists_of_variableChange hkind
  exact ⟨trivial, trivial⟩

/-- The loop negates a single comparison. -/
theorem count_negatesSingles {p : Program} (h : ReadsBlock {} [.single countStatement] p) :
    p.NegatesSingles := by
  obtain ⟨q, hq, rfl⟩ := h.exists_of_singleton
  obtain ⟨g, keyword, head, braces, rest, body, htokens, hhead, hcondition, hbody, rfl⟩ :=
    hq.exists_of_while (by decide +kernel)
  obtain ⟨rfl, rfl⟩ := List.cons.inj htokens
  obtain ⟨rfl, hbraces⟩ := List.cons.inj (headAndBody_mem hhead)
  obtain rfl : countBody = braces := (List.cons.inj hbraces).1
  refine ⟨⟨?_, countBody_negatesSingles hbody⟩, trivial⟩
  have hparse : ((Condition.parse countHead).run.run []).1.toOption.map
      (fun c => decide c.NegatesSingles) = some true := by
    decide +kernel
  obtain ⟨warnings, hrun⟩ := hcondition
  rw [hrun] at hparse
  exact of_decide_eq_true (Option.some.inj hparse)

theorem count_preserves_meaning :
    ∃ (s' : Session) (p : Program),
      (Session.compileText {} "main" countText).outcome (Session.new {}) = (.ok (), s') ∧
      tokenize .required Position.start countText = .ok ⟨[countStatement], []⟩ ∧
      ReadsBlock {} [.single countStatement] p ∧ p.NegatesSingles ∧
      ∀ (W : Type) (m : Machine W), m.IgnoresFlags → ∀ s : State W,
        ((∃ u, Runs m s'.pack.table s'.pack.loadCommands s u) ↔
          ∃ v, Program.Ends m s'.pack.table (.seq (.commands s'.pack.setupCommands) p) s v) ∧
        ∀ u v, Runs m s'.pack.table s'.pack.loadCommands s u →
          Program.Ends m s'.pack.table (.seq (.commands s'.pack.setupCommands) p) s v →
          u.AgreeOff isFlag v := by
  have hok : ((Session.compileText {} "main" countText).outcome (Session.new {})).1 = .ok () := by
    decide +kernel
  have hread : tokenize .required Position.start countText = .ok ⟨[countStatement], []⟩ := by
    decide +kernel
  have hconstructs : constructs [countStatement] = [.single countStatement] := by decide +kernel
  have himport : (Construct.single countStatement).import? = none := by decide +kernel
  -- the outcome is named, so that nothing evaluates it again
  generalize hrun : (Session.compileText {} "main" countText).outcome (Session.new {}) = result at hok
  obtain ⟨value, s'⟩ := result
  obtain rfl : value = .ok () := hok
  have hmeaning := load_preserves_meaning hrun hread
  rw [hconstructs, List.forall_mem_singleton] at hmeaning
  obtain ⟨p, hp, hequivalent⟩ := hmeaning himport
  have hsingle := count_negatesSingles hp
  exact ⟨s', p, rfl, hread, hp, hsingle, hequivalent hsingle⟩

end Packwright
