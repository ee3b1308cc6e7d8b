import Packwright.Proofs.Session.Sources
import Packwright.Proofs.Token.Tiling

/-!
# Calls of generated functions

A session takes one task after the other, and what a failing task leaves behind stays. At every time
the generated functions that stored commands call are registered, unless the user wrote their
reserved segment into a command. While all tasks succeed, every generated function is called by
another function.

## Main definitions

- `Task`, `Session.after`, `Session.Succeeds` — the tasks of a session and where they lead
- `Session.Compiles` — the texts that are compiled in tasks
- `Command.CallsAt` — a command calls the function at a location
- `Session.Receives` — the texts of the user that go into a command
- `SpellsPrivate` — a text spells the reserved segment

## Main results

- `Session.next_kept` — what one task keeps
- `Session.after_sound`, `Session.after_called` — what all tasks keep
- `NamesCall.isInfix` — the name of a call that the user wrote stands in the text
- `private_calls_registered` — no call of a generated function is left dangling
-/

namespace Packwright

/-! ### Tasks -/

/-- A task of a session: to compile a text, a file or the entry file, with the files that are there
at that time. -/
inductive Task where
  | text (files : File.Tree) (name source : String)
  | file (files : File.Tree) (path : File.Path)
  | entry (files : File.Tree)

namespace Task

def files : Task → File.Tree
  | .text files _ _ | .file files _ | .entry files => files

/-- The text that is given with the task itself. -/
def given? : Task → Option String
  | .text _ _ source => some source
  | _ => none

/-- The step of the task. -/
def compile : Task → Compile Unit
  | .text files name source => Session.compileText files name source
  | .file files path => Session.compileFile files path
  | .entry files => Session.compileEntry files

/-- The text is compiled in the task between two sessions: it is the given one, or that of a file
which is begun between them. -/
def Compiles (t : Task) (s s' : Session) (text : String) : Prop :=
  t.given? = some text ∨ ∃ (path : File.Path) (place : File.Place),
    t.files.read path = .ok (place, text) ∧ place ∈ s'.imported ∧ place ∉ s.imported

theorem Compiles.grows {t : Task} {base s s' : Session} {text : String}
    (h : t.Compiles base s text) (hg : s.Grows s') : t.Compiles base s' text := by
  rcases h with h | ⟨path, place, hread, hbegun, hnew⟩
  · exact .inl h
  · exact .inr ⟨path, place, hread, hg.imported place hbegun, hnew⟩

end Task

namespace Session

/-- The session behind a task, which may fail. -/
def next (s : Session) (t : Task) : Session := (t.compile.outcome s).2

/-- The session behind tasks, each of which may fail. -/
def after (s : Session) (tasks : List Task) : Session := tasks.foldl next s

/-- All tasks succeed. -/
def Succeeds (s : Session) : List Task → Prop
  | [] => True
  | t :: rest => (t.compile.outcome s).1 = .ok () ∧ (s.next t).Succeeds rest

/-- The text is compiled in one of the tasks. -/
def Compiles (s : Session) : List Task → String → Prop
  | [], _ => False
  | t :: rest, text => t.Compiles s (s.next t) text ∨ (s.next t).Compiles rest text

end Session

/-! ### Calls and texts of the user -/

/-- A call with the name stands somewhere in the text. -/
def NamesCall (text name : String) : Prop :=
  ∃ (r : Reading) (st : Statement) (word group : Token),
    tokenize .required Position.start text = .ok r ∧ st ∈ r.statements ∧
    Inside st.tokens [word, group] ∧ isCallShape [word, group] = true ∧ word.text = name

/-- The text of a range that is taken as the user wrote it. -/
def ScoreRange.writtenTexts : ScoreRange → List String
  | .written text => [text]
  | _ => []

/-- The texts of a test that are taken as the user wrote them. -/
def Test.writtenTexts : Test → List String
  | .inRange _ range => range.writtenTexts
  | .compare _ _ _ => []
  | .written text => [text]

/-- The texts of a command that are taken as the user wrote them. -/
def Command.writtenTexts : Command → List String
  | .written line => [line]
  | .guarded clauses body => clauses.flatMap (·.test.writtenTexts) ++ body.writtenTexts
  | .store _ body | .forPlayers _ body => body.writtenTexts
  | _ => []

/-- The command calls the function at a location: the call is a part of it, or the location stands in
a text that is taken as the user wrote it. -/
def Command.CallsAt (c : Command) (target : ResourceLocation) : Prop :=
  target ∈ c.calls ∨ ∃ text ∈ c.writtenTexts, target.render.toList <:+: text.toList

/-- The text spells the segment that is reserved for generated functions, in any letter case. -/
def SpellsPrivate (text : String) : Prop :=
  privateSegment.toList <:+: Text.lowercase text.toList

/-- The command is stored in a function of the pack. -/
def Pack.Stores (p : Pack) (c : Command) : Prop :=
  c ∈ p.setupCommands ∨ ∃ f ∈ p.allFunctions, c ∈ f.commands

theorem Session.stores_of_entry {s : Session} {e : Entry} {c : Command} (he : e ∈ s.entries)
    (hc : c ∈ e.2.commands) : s.pack.Stores c :=
  .inr ⟨e.2, List.mem_append_right _ (List.mem_map.mpr ⟨e, List.mem_mergeSort.mpr he, rfl⟩), hc⟩

/-- A text of the user goes into the command: it is taken as written, or it names a call of the user
that the command makes. -/
def Session.Receives (s : Session) (texts : String → Prop) (c : Command) (written : String) : Prop :=
  written ∈ c.writtenTexts ∨ ∃ text, texts text ∧ NamesCall text written ∧
    (FunctionPath.ofName written).inSpace s.pack.space ∈ c.calls

/-! ### The reserved segment -/

/-- Lower case keeps a text that has no capital letters, and what is outside of ASCII apart. -/
theorem lowercaseAfter_append {mark : List Char}
    (hmark : ∀ c ∈ mark, c.toNat < 128 ∧ c.toLower = c) (before rest : List Char) :
    ∃ before', Text.lowercaseAfter before (mark ++ rest) =
      mark ++ Text.lowercaseAfter before' rest := by
  induction mark generalizing before with
  | nil => exact ⟨before, rfl⟩
  | cons c mark ih =>
    obtain ⟨⟨hascii, hlower⟩, hrest⟩ := List.forall_mem_cons.mp hmark
    obtain ⟨before', heq⟩ := ih hrest (c :: before)
    refine ⟨before', ?_⟩
    rw [List.cons_append, Text.lowercaseAfter, if_pos hascii, hlower, heq]
    rfl

theorem isInfix_lowercaseAfter {mark : List Char}
    (hmark : ∀ c ∈ mark, c.toNat < 128 ∧ c.toLower = c) (before front rest : List Char) :
    mark <:+: Text.lowercaseAfter before (front ++ (mark ++ rest)) := by
  induction front generalizing before with
  | nil =>
    obtain ⟨before', heq⟩ := lowercaseAfter_append hmark before rest
    rw [List.nil_append, heq]
    exact (List.prefix_append mark _).isInfix
  | cons c front ih =>
    rw [List.cons_append, Text.lowercaseAfter]
    exact (ih (c :: before)).trans (List.suffix_append _ _).isInfix

/-- A text that has the reserved segment in it spells it. -/
theorem spellsPrivate_of_isInfix {text : String} (h : privateSegment.toList <:+: text.toList) :
    SpellsPrivate text := by
  obtain ⟨front, rest, heq⟩ := h
  unfold SpellsPrivate Text.lowercase
  rw [← heq, List.append_assoc]
  exact isInfix_lowercaseAfter (by simp [privateSegment, Char.toLower]) [] front rest

/-- A text that replaced characters begin with stood there before, if it has none of the new ones. -/
theorem prefix_of_replaceChar {old new : Char} {mark rest cs : List Char} (hmark : new ∉ mark)
    (h : Text.replaceChar old [new] cs = mark ++ rest) : mark <+: cs := by
  induction mark generalizing cs with
  | nil => exact List.nil_prefix
  | cons c mark ih =>
    rw [List.mem_cons, not_or] at hmark
    obtain ⟨hne, hrest⟩ := hmark
    cases cs with
    | nil => cases h
    | cons d cs =>
      simp only [Text.replaceChar, List.flatMap_cons] at h
      split at h
      · exact absurd (List.cons.inj h).1 hne
      · obtain ⟨rfl, htail⟩ := List.cons.inj h
        exact List.cons_prefix_cons.mpr ⟨rfl, ih hrest htail⟩

/-- A name that leads to a generated function spells the reserved segment. -/
theorem spellsPrivate_of_ofName {name own : String}
    (h : FunctionPath.ofName name = ⟨privateSegment ++ "/" ++ own⟩) : SpellsPrivate name := by
  have htext := congrArg (String.toList ∘ FunctionPath.text) h
  simp only [Function.comp_apply, FunctionPath.ofName, String.toList_ofList, String.toList_append,
    List.append_assoc] at htext
  exact (prefix_of_replaceChar (by decide) htext).isInfix

theorem privateSegment_isInfix_render (space own : String) :
    privateSegment.toList <:+:
      (ResourceLocation.render ⟨space, ⟨privateSegment ++ "/" ++ own⟩⟩).toList := by
  refine ⟨(space ++ ":").toList, ("/" ++ own).toList, ?_⟩
  simp [ResourceLocation.render]

/-! ### Tasks keep sessions sound -/

/-- The calls that stand in texts; later sessions have more texts. -/
def UserCalls.ofTexts (texts : Session → String → Prop)
    (hmono : ∀ {s s' : Session}, s.Grows s' → ∀ {text : String}, texts s text → texts s' text) :
    UserCalls where
  called s path := ∃ text name, texts s text ∧ NamesCall text name ∧ path = .ofName name
  mono hg _ := fun ⟨text, name, htext, hname⟩ => ⟨text, name, hmono hg htext, hname⟩

/-- The calls that stand in fixed texts. -/
def UserCalls.inTexts (texts : String → Prop) : UserCalls := .ofTexts (fun _ => texts) fun _ _ h => h

/-- The calls that stand in fixed texts, or in those that are compiled in a task. -/
def UserCalls.inTask (texts : String → Prop) (base : Session) (t : Task) : UserCalls :=
  .ofTexts (fun s text => texts text ∨ t.Compiles base s text) fun hg _ => .imp_right (·.grows hg)

section

variable {texts : String → Prop} {s : Session} {t : Task}

theorem includesText_inTask {base : Session} {text : String} (h : t.Compiles base s text) :
    (UserCalls.inTask texts base t).IncludesText s text := by
  intro r hread st hst word group hinside hcall
  exact ⟨text, word.text, .inr h, ⟨r, st, word, group, hread, hst, hinside, hcall, rfl⟩, rfl⟩

/-- A task is compiled with all that it imports. -/
theorem Task.compile_meets (hs : s.Sound (.inTask texts s t)) :
    t.compile.Meets s (fun _ s' => Compiled (.inTask texts s t) s s')
      (Broken (.inTask texts s t) s) := by
  have hfiles : (UserCalls.inTask texts s t).IncludesFiles s t.files :=
    fun s₁ path place text hread hbegun hnew =>
      includesText_inTask (.inr ⟨path, place, hread, hbegun, hnew⟩)
  cases t with
  | text files name source =>
    exact Session.compileText_meets hs hfiles name source (includesText_inTask (.inl rfl))
  | file files path => exact Session.compileFile_meets hs hfiles path
  | entry files => exact Session.compileEntry_meets hs hfiles

namespace Session

/-- What one task keeps. The session grows and is sound, whether or not the task fails; after a
success all that was added is called. -/
theorem next_kept (hs : s.Sound (.inTexts texts)) (t : Task) :
    s.Grows (s.next t) ∧
      (s.next t).Sound (.inTexts fun text => texts text ∨ t.Compiles s (s.next t) text) ∧
      ((t.compile.outcome s).1 = .ok () → s.Covers (s.next t) []) := by
  have hstart : s.Sound (.inTask texts s t) := by
    refine hs.recall fun path hcalled => .inr ?_
    obtain ⟨text, name, htext, hname⟩ := hcalled
    exact ⟨text, name, .inl htext, hname⟩
  obtain ⟨hok, hfailed⟩ := Compile.meets_iff.mp (t.compile_meets hstart)
  unfold next
  -- the calls of the task are those of its texts in the session it leads to
  have hrecall : ∀ s' : Session, s'.Sound (.inTask texts s t) →
      s'.Sound (.inTexts fun text => texts text ∨ t.Compiles s s' text) :=
    fun s' hs' => hs'.recall fun path hcalled => .inr hcalled
  generalize t.compile.outcome s = result at hok hfailed ⊢
  obtain ⟨value, s'⟩ := result
  cases value with
  | ok a =>
    have hcompiled := hok a s' rfl
    exact ⟨hcompiled.grows, hrecall s' hcompiled.sound, fun _ => hcompiled.covered⟩
  | error e =>
    have hbroken := hfailed e s' rfl
    exact ⟨hbroken.grows, hrecall s' hbroken.sound, fun h => by cases h⟩

/-- Sessions stay sound through all tasks. -/
theorem after_sound (hs : s.Sound (.inTexts texts)) (tasks : List Task) :
    (s.after tasks).Sound (.inTexts fun text => texts text ∨ s.Compiles tasks text) := by
  induction tasks generalizing s texts with
  | nil =>
    refine hs.recall fun path hcalled => .inr ?_
    obtain ⟨text, name, htext, hname⟩ := hcalled
    exact ⟨text, name, .inl htext, hname⟩
  | cons t rest ih =>
    obtain ⟨-, hnext, -⟩ := next_kept hs t
    refine (ih hnext).recall fun path hcalled => .inr ?_
    obtain ⟨text, name, htext, hname⟩ := hcalled
    exact ⟨text, name, or_assoc.mp htext, hname⟩

/-- While tasks succeed, generated functions stay called. -/
theorem after_called (hs : s.Sound (.inTexts texts)) (hcalled : ∀ e ∈ s.entries, s.CalledElsewhere e)
    {tasks : List Task} (hok : s.Succeeds tasks) :
    ∀ e ∈ (s.after tasks).entries, (s.after tasks).CalledElsewhere e := by
  induction tasks generalizing s texts with
  | nil => exact hcalled
  | cons t rest ih =>
    obtain ⟨hgrows, hnext, hcovers⟩ := next_kept hs t
    refine ih hnext (fun e he => ?_) hok.2
    rcases hcovers hok.1 e he with hold | htarget | helse
    · exact (hcalled e hold).grows hgrows
    · cases htarget
    · exact helse

end Session

end

/-! ### Stored commands -/

theorem not_calls_of_mem_setupCommands {p : Pack} {c : Command} (h : c ∈ p.setupCommands) :
    c.calls = [] := by
  rcases List.mem_append.mp h with h | h
  · obtain ⟨o, -, rfl⟩ := List.mem_map.mp h
    rfl
  · obtain ⟨n, -, rfl⟩ := List.mem_map.mp h
    rfl

/-- Calls of stored commands resolve. -/
theorem Session.Sound.resolves {U : UserCalls} {s : Session} (h : s.Sound U) {c : Command}
    (hc : s.pack.Stores c) : s.Resolves U c := by
  rcases hc with hsetup | ⟨f, hf, hmem⟩
  · intro target htarget
    rw [not_calls_of_mem_setupCommands hsetup] at htarget
    cases htarget
  · rcases List.mem_append.mp hf with hf | hf
    · exact (h.functions f (List.mem_mergeSort.mp hf)).resolved c hmem
    · obtain ⟨e, he, rfl⟩ := List.mem_map.mp hf
      exact (h.entries e (List.mem_mergeSort.mp he)).resolved c hmem

theorem Registry.contains_of_mem {r : Registry} {e : Entry} (h : e ∈ r.entries) :
    r.contains e.1.1 e.1.2 = true := by
  unfold Registry.contains Registry.get?
  rw [Option.isSome_iff_ne_none]
  intro hnone
  exact absurd (List.lookup_eq_none_iff.mp hnone e h) (by simp)

/-- A registered path under the reserved segment is that of a key. -/
theorem Session.Sound.contains {U : UserCalls} {s : Session} (h : s.Sound U) {own : String}
    (hpath : s.Registered ⟨privateSegment ++ "/" ++ own⟩) :
    ∃ feature name, own = feature ++ "/" ++ name ∧ s.pack.generated.contains feature name = true := by
  obtain ⟨e, he, hown⟩ := hpath
  obtain ⟨f, hfeature, hpath⟩ := h.paths e he
  refine ⟨e.1.1, e.1.2, ?_, Registry.contains_of_mem he⟩
  have htext := congrArg (String.toList ∘ FunctionPath.text) (hown.symm.trans hpath)
  simp only [Function.comp_apply, Feature.path, FunctionPath.generated, String.toList_append,
    List.append_assoc, List.append_cancel_left_eq] at htext
  rw [hfeature]
  apply String.toList_inj.mp
  simpa using htext

theorem Session.after_grows {texts : String → Prop} {s : Session} (hs : s.Sound (.inTexts texts))
    (tasks : List Task) : s.Grows (s.after tasks) := by
  induction tasks generalizing s texts with
  | nil => exact .refl s
  | cons t rest ih =>
    obtain ⟨hgrows, hnext, -⟩ := next_kept hs t
    exact hgrows.trans (ih hnext)

/-! ### Names of calls in a text -/

theorem append_of_splitBytes {n : Nat} {cs front back : List Char}
    (h : Text.splitBytes n cs = some (front, back)) : cs = front ++ back := by
  induction cs generalizing n front back with
  | nil =>
    cases n with
    | zero => cases h; rfl
    | succ n => cases h
  | cons c cs ih =>
    cases n with
    | zero => cases h; rfl
    | succ n =>
      rw [Text.splitBytes] at h
      split at h
      · obtain ⟨⟨front', back'⟩, hsplit, heq⟩ := Option.map_eq_some_iff.mp h
        obtain ⟨rfl, rfl⟩ := Prod.mk.inj heq
        rw [ih hsplit, List.cons_append]
      · cases h

theorem Token.splitAt?_isInfix {t front back : Token} {n : Nat}
    (h : t.splitAt? n = some (front, back)) : back.text.toList <:+: t.text.toList := by
  unfold Token.splitAt? at h
  split at h
  · next hsplit =>
    obtain ⟨-, rfl⟩ := Prod.mk.inj (Option.some.inj h)
    rw [String.toList_ofList, append_of_splitBytes hsplit]
    exact (List.suffix_append ..).isInfix
  · cases h

theorem tokenize_isInfix {terminator : Terminator} {start : Position} {source : String} {r : Reading}
    (h : tokenize terminator start source = .ok r) {st : Statement} (hst : st ∈ r.statements)
    {t : Token} (ht : t ∈ st.tokens) : t.text.toList <:+: source.toList := by
  have hmem : t ∈ r.tokens := List.mem_flatMap.mpr ⟨st, hst, ht⟩
  obtain ⟨before, after, hsource, -⟩ := (tokenize_tiles h).exists_of_mem hmem
  exact ⟨before, after, by rw [hsource, List.append_assoc]⟩

theorem Token.tokenizeInner_isInfix {t u : Token} {terminator : Terminator} {r : Reading}
    (h : t.tokenizeInner terminator = .ok r) {st : Statement} (hst : st ∈ r.statements)
    (hu : u ∈ st.tokens) : u.text.toList <:+: t.text.toList := by
  unfold Token.tokenizeInner at h
  split at h
  · next inner hinner =>
    refine (tokenize_isInfix h hst hu).trans ?_
    unfold Token.inner? at hinner
    split at hinner
    · next opening c rest _ htext =>
      obtain rfl := Option.some.inj hinner
      rw [String.toList_ofList, htext]
      exact (List.dropLast_prefix _).isInfix.trans (List.suffix_cons opening _).isInfix
    · cases hinner
  · cases h

/-- Tokens that are found inside others have parts of their texts. -/
theorem Inside.exists_isInfix {tokens inner : List Token} (h : Inside tokens inner) :
    ∀ u ∈ inner, ∃ t ∈ tokens, u.text.toList <:+: t.text.toList := by
  induction h with
  | here => exact fun u hu => ⟨u, hu, List.infix_refl _⟩
  | behind t _ ih =>
    intro u hu
    obtain ⟨t', ht', hinfix⟩ := ih u hu
    exact ⟨t', List.mem_cons_of_mem _ ht', hinfix⟩
  | @cut t front back n rest inner hcut _ ih =>
    intro u hu
    obtain ⟨t', ht', hinfix⟩ := ih u hu
    rcases List.mem_cons.mp ht' with rfl | ht'
    · exact ⟨t, List.mem_cons_self .., hinfix.trans (Token.splitAt?_isInfix hcut)⟩
    · exact ⟨t', List.mem_cons_of_mem _ ht', hinfix⟩
  | @group t terminator r statement rest inner hread hmem _ ih =>
    intro u hu
    obtain ⟨t', ht', hinfix⟩ := ih u hu
    exact ⟨t, List.mem_cons_self .., hinfix.trans (Token.tokenizeInner_isInfix hread hmem ht')⟩

/-- The name of a call stands in the text. -/
theorem NamesCall.isInfix {text name : String} (h : NamesCall text name) :
    name.toList <:+: text.toList := by
  obtain ⟨r, st, word, group, hread, hst, hinside, -, rfl⟩ := h
  obtain ⟨t, ht, hinfix⟩ := hinside.exists_isInfix word (List.mem_cons_self ..)
  exact hinfix.trans (tokenize_isInfix hread hst ht)

theorem lowercaseAfter_of_ascii {cs : List Char} (h : ∀ c ∈ cs, c.toNat < 128) (before : List Char) :
    Text.lowercaseAfter before cs = cs.map Char.toLower := by
  induction cs generalizing before with
  | nil => rfl
  | cons c cs ih =>
    obtain ⟨hc, hcs⟩ := List.forall_mem_cons.mp h
    rw [Text.lowercaseAfter, if_pos hc, ih hcs]
    rfl

/-- No name in an ASCII text spells the reserved segment if the text does not. -/
theorem NamesCall.not_spellsPrivate {text name : String} (h : NamesCall text name)
    (hascii : ∀ c ∈ text.toList, c.toNat < 128)
    (hclean : ¬privateSegment.toList <:+: text.toList.map Char.toLower) : ¬SpellsPrivate name := by
  intro hspells
  rw [SpellsPrivate, Text.lowercase,
    lowercaseAfter_of_ascii fun c hc => hascii c (h.isInfix.subset hc)] at hspells
  exact hclean (hspells.trans (h.isInfix.map Char.toLower))

/-! ### No call is left dangling -/

/-- No call of a generated function is left dangling. Whatever tasks a session has done, and whether
or not they failed, a stored command that receives no text with the reserved segment calls under that
segment only what is registered. If all tasks succeeded, every generated function is called by a
command of another function. -/
theorem private_calls_registered (settings : Settings) (tasks : List Task) :
    (∀ c : Command, ((Session.new settings).after tasks).pack.Stores c →
      (∀ written, ((Session.new settings).after tasks).Receives
        ((Session.new settings).Compiles tasks) c written → ¬SpellsPrivate written) →
      ∀ own, c.CallsAt ⟨settings.space, ⟨privateSegment ++ "/" ++ own⟩⟩ →
        ∃ feature name, own = feature ++ "/" ++ name ∧
          ((Session.new settings).after tasks).pack.generated.contains feature name = true) ∧
      ((Session.new settings).Succeeds tasks →
        ∀ e ∈ ((Session.new settings).after tasks).entries,
          ((Session.new settings).after tasks).CalledElsewhere e) := by
  have hnew : (Session.new settings).Sound (.inTexts fun _ => False) := Session.new_sound _ settings
  have hsound := Session.after_sound hnew tasks
  have hgrows := Session.after_grows hnew tasks
  refine ⟨fun c hstored hclean own hcalls => ?_,
    fun hok => Session.after_called hnew (fun e he => by cases he) hok⟩
  have hspace : ((Session.new settings).after tasks).settings.space = settings.space := by
    rw [hgrows.settings]
    rfl
  rcases hcalls with hcall | ⟨text, htext, hinfix⟩
  · obtain ⟨path, htarget, hknown⟩ := hsound.resolves hstored _ hcall
    obtain rfl : ⟨privateSegment ++ "/" ++ own⟩ = path := congrArg ResourceLocation.path htarget
    rcases hknown with hregistered | ⟨text, name, htexts, hname, hpath⟩
    · exact hsound.contains hregistered
    · -- a user call leads there, so its name spells the segment
      refine absurd (spellsPrivate_of_ofName hpath.symm) (hclean name (.inr ⟨text, ?_, hname, ?_⟩))
      · exact htexts.resolve_left id
      · rw [← hpath, hsound.space, hspace]
        exact hcall
  · exact absurd (spellsPrivate_of_isInfix ((privateSegment_isInfix_render _ own).trans hinfix))
      (hclean text (.inl htext))

/-- A loop, and behind it a statement that may not stand there. -/
def brokenText : String := "while ($x == 1) \x7b say a; \x7d break;"

/-- A task that fails when its loop is in the pack. -/
def brokenTasks : List Task := [.text {} "main" brokenText]

/-- The loop alone. -/
def loopText : String := "while ($x == 1) \x7b say a; \x7d"

/-- A task that succeeds. -/
def loopTasks : List Task := [.text {} "main" loopText]

/-- The command at the end of the loop. -/
def loopAgain : Command :=
  .guarded [⟨false, .inRange (.ofVariable "$x") (.exactly 1)⟩]
    (.call ⟨"quill", ⟨"__private__/while_loop/0"⟩⟩)

/-- The function of the loop. -/
def loopEntry : Entry :=
  (("while_loop", "0"), ⟨⟨"__private__/while_loop/0"⟩, [.written "say a", loopAgain]⟩)

theorem broken_calls_registered :
    (¬(Session.new {}).Succeeds brokenTasks ∧
      ((Session.new {}).after brokenTasks).pack.Stores loopAgain ∧
      (∀ written, ((Session.new {}).after brokenTasks).Receives
        ((Session.new {}).Compiles brokenTasks) loopAgain written → ¬SpellsPrivate written) ∧
      loopAgain.CallsAt ⟨"quill", ⟨privateSegment ++ "/" ++ "while_loop/0"⟩⟩ ∧
      ∃ feature name, "while_loop/0" = feature ++ "/" ++ name ∧
        ((Session.new {}).after brokenTasks).pack.generated.contains feature name = true) ∧
    (Session.new {}).Succeeds loopTasks ∧
      ((Session.new {}).after loopTasks).entries = [loopEntry] ∧
      ((Session.new {}).after loopTasks).CalledElsewhere loopEntry := by
  have hbroken : ((Session.new {}).after brokenTasks).entries = [loopEntry] ∧
      ((Session.new {}).next (.text {} "main" brokenText)).imported = [] ∧
      ((Task.text {} "main" brokenText).compile.outcome (Session.new {})).1 ≠ .ok () := by
    decide +kernel
  have hwhole : ((Session.new {}).after loopTasks).entries = [loopEntry] ∧
      ((Task.text {} "main" loopText).compile.outcome (Session.new {})).1 = .ok () := by
    decide +kernel
  obtain ⟨hentries, himported, hfails⟩ := hbroken
  obtain ⟨hloop, hok⟩ := hwhole
  have hascii : ∀ c ∈ brokenText.toList, c.toNat < 128 := by
    have hall : brokenText.toList.all (·.toNat < 128) = true := by decide +kernel
    exact fun c hc => of_decide_eq_true (List.all_eq_true.mp hall c hc)
  have hspelled : ¬privateSegment.toList <:+: brokenText.toList.map Char.toLower := by
    decide +kernel
  have hstores : ((Session.new {}).after brokenTasks).pack.Stores loopAgain := by
    have hentry : loopEntry ∈ ((Session.new {}).after brokenTasks).entries := by
      rw [hentries]
      exact List.mem_singleton_self _
    exact Session.stores_of_entry hentry (List.mem_cons_of_mem _ (List.mem_singleton_self _))
  have hclean : ∀ written, ((Session.new {}).after brokenTasks).Receives
      ((Session.new {}).Compiles brokenTasks) loopAgain written → ¬SpellsPrivate written := by
    rintro written (hwritten | ⟨text, htext, hname, -⟩)
    · cases hwritten
    · rcases htext with (hgiven | ⟨path, place, -, hbegun, -⟩) | hnone
      · obtain rfl : brokenText = text := Option.some.inj hgiven
        exact hname.not_spellsPrivate hascii hspelled
      · rw [himported] at hbegun
        cases hbegun
      · cases hnone
  have hcalls : loopAgain.CallsAt ⟨"quill", ⟨privateSegment ++ "/" ++ "while_loop/0"⟩⟩ :=
    .inl (by decide +kernel)
  have hsucceeds : (Session.new {}).Succeeds loopTasks := ⟨hok, trivial⟩
  have hmem : loopEntry ∈ ((Session.new {}).after loopTasks).entries := by
    rw [hloop]
    exact List.mem_singleton_self _
  obtain ⟨hregistered, -⟩ := private_calls_registered {} brokenTasks
  obtain ⟨-, hcalled⟩ := private_calls_registered {} loopTasks
  exact ⟨⟨fun h => hfails h.1, hstores, hclean, hcalls, hregistered loopAgain hstores hclean _ hcalls⟩,
    hsucceeds, hloop, hcalled hsucceeds _ hmem⟩

end Packwright
