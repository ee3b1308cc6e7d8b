import Packwright.Proofs.Project.Writing
import Packwright.Proofs.Termination
import Packwright.Shell.Dialogue

/-!
# Turns of a dialogue

The events of a dialogue fall into turns, one behind the other. A turn is the lines of an input, or lines
that are cut off before their brackets are closed, or the end. Where one turn ends and the next begins
depends on the events only, whatever the inputs come to. Each input that is not blank is evaluated when
its turn comes, by the shell that the turns before have left.

Whatever the shell is asked, it comes to an answer or to a fault, or the program stops; no bound is ever
reached. There is an answer without a text for one request only, that to leave.

## Main definitions

- `Work.Lasts` — a step that reaches no bound
- `Turn`, `Turn.events`, `Turn.IsRead` — a turn, what is read in it, and how it ends
- `turnsFrom`, `turns` — the turns of some events, after which there is no more to read
- `Shell.Takes`, `Shell.Goes` — what becomes of shell and workspace in a turn, and in several
- `Shell.Calm`, `Shell.isCalm` — no evaluation stops the program
- `Dialogue.Closes`, `Dialogue.Covers` — what an event and what some steps do to a dialogue

## Main results

- `Shell.lasts_eval`, `Shell.eval_eq_none_iff` — an answer to any input, and when the user leaves
- `exists_unread`, `isRead_of_mem_turnsFrom`, `exists_last` — the turns of some events
- `Dialogue.evaluate_takes`, `Dialogue.covers_takeAll` — an evaluation, and all turns of a dialogue
- `Dialogue.run_append_ended` — the end of the input may be read again
- `dialogue_loses_nothing` — a whole dialogue
-/

namespace Packwright

section

/-! ### Steps that reach no bound -/

namespace Work

variable {α β : Type} {m : Work α}

-- This is a structure, so that naming a step for which it holds does not run the step.
/-- The step reaches no bound. -/
structure Lasts (m : Work α) : Prop where
  ne_exhausted : ∀ w : Workspace, (m.outcome w).1 ≠ .error .exhausted

/-- One step after another. -/
theorem Lasts.bind {f : α → Work β} (h : m.Lasts) (hf : ∀ a, (f a).Lasts) : (m >>= f).Lasts := by
  refine ⟨fun w => ?_⟩
  have hm := h.ne_exhausted w
  rw [outcome_bind]
  rcases hrun : m.outcome w with ⟨e | a, w₁⟩
  · rw [hrun] at hm
    exact fun he => hm (congrArg Except.error (Except.error.inj he))
  · exact (hf a).ne_exhausted w₁

theorem lasts_pure (a : α) : (pure a : Work α).Lasts := ⟨fun _ h => nomatch h⟩

theorem lasts_fail (f : Fault) : (fail f : Work α).Lasts := ⟨fun _ h => nomatch h⟩

theorem lasts_get {f : Workspace → Work α} (hf : ∀ w, (f w).Lasts) : (get >>= f).Lasts :=
  ⟨fun w => (hf w).ne_exhausted w⟩

theorem lasts_set (w : Workspace) : (set w : Work PUnit).Lasts := ⟨fun _ h => nomatch h⟩

theorem lasts_say (message : Message) : (say message).Lasts := ⟨fun _ h => nomatch h⟩

theorem lasts_ofExcept (x : Except Fault α) : (ofExcept x).Lasts := by
  cases x with
  | ok a => exact lasts_pure a
  | error f => exact lasts_fail f

theorem lasts_forM {f : α → Work Unit} (hf : ∀ a, (f a).Lasts) (l : List α) : (l.forM f).Lasts := by
  induction l with
  | nil => exact lasts_pure ()
  | cons a l ih => exact (hf a).bind fun _ => ih

theorem lasts_changeFiles (path : File.Path)
    (change : File.Tree → Except File.Problem File.Tree) : (changeFiles path change).Lasts := by
  refine lasts_get fun w => ?_
  cases change w.files with
  | ok files => exact lasts_set _
  | error problem => exact lasts_fail _

theorem lasts_makeDirectories (path : File.Path) : (makeDirectories path).Lasts := by
  refine lasts_get fun w => ?_
  rcases w.files.makeDirectories path with ⟨files, problem⟩
  refine (lasts_set _).bind fun _ => ?_
  cases problem with
  | none => exact lasts_pure ()
  | some problem => exact lasts_fail _

/-- A compilation reaches no bound if its steps do not. -/
theorem lasts_compile (settings : Settings) {steps : File.Tree → Compile Unit}
    (hsteps : ∀ files s, ((steps files).outcome s).1 ≠ .error .exhausted) :
    (compile settings steps).Lasts := by
  refine lasts_get fun w => ?_
  have hrun := hsteps w.files (Session.new settings)
  unfold Compile.outcome at hrun
  generalize (steps w.files).run.run (Session.new settings) = r at hrun ⊢
  obtain ⟨result, s⟩ := r
  refine (lasts_set _).bind fun _ => ?_
  cases result with
  | ok _ => exact lasts_pure s
  | error e => exact ⟨fun _ he => hrun (congrArg Except.error (Except.error.inj he))⟩

end Work

open Work

/-! ### Projects -/

theorem Artifact.lasts_write (a : Artifact) : a.write.Lasts := by
  unfold Artifact.write
  have hrest : (changeFiles a.path (·.write a.path a.text) >>= fun _ =>
      log .debug ("wrote " ++ a.path.text)).Lasts :=
    (lasts_changeFiles _ _).bind fun _ => lasts_say _
  cases a.path.parent? with
  | some parent => exact (lasts_makeDirectories parent).bind fun _ => hrest
  | none => exact (lasts_pure ()).bind fun _ => hrest

theorem Pack.lasts_write (p : Pack) (config : Config) : (p.write config).Lasts := by
  unfold Pack.write
  have hrest : (do
      makeDirectories config.outputPath
      (Artifact.description config.outputPath config).write
      (p.artifacts (dataPath config.outputPath)).forM Artifact.write
      log .info (p.summary.render config.outputPath)
      return p.summary : Work Summary).Lasts :=
    (lasts_makeDirectories _).bind fun _ => (Artifact.lasts_write _).bind fun _ =>
      (lasts_forM Artifact.lasts_write _).bind fun _ => (lasts_say _).bind fun _ => lasts_pure _
  refine lasts_get fun w => ?_
  dsimp only
  split
  · exact (lasts_changeFiles _ _).bind fun _ => hrest
  · exact hrest

namespace Config

theorem lasts_build (c : Config) : c.build.Lasts := by
  unfold build
  refine (lasts_ofExcept _).bind fun _ => ?_
  refine (lasts_compile _ fun files s => (Task.entry files).lasts s).bind fun s => ?_
  refine (s.pack.lasts_write c).bind fun summary => ?_
  dsimp only
  split
  · exact (lasts_say _).bind fun _ => lasts_pure summary
  · exact lasts_pure summary

theorem lasts_load (path : File.Path) : (load path).Lasts := by
  refine lasts_get fun w => ?_
  split
  · exact (lasts_say _).bind fun _ => lasts_pure _
  · exact lasts_fail _
  · split
    · exact lasts_pure _
    · exact lasts_fail _

end Config

/-! ### Requests -/

/-- The user leaves with one of two words. -/
theorem Request.parse_eq_leave_iff (input : String) :
    Request.parse input = .leave ↔ Text.trim input = "exit" ∨ Text.trim input = "quit" := by
  unfold Request.parse
  split <;> simp_all

namespace Shell

variable {sh sh₁ : Shell} {w w₁ : Workspace} {input : String} {answer : Option String}

/-- An answer to any input reaches no bound. -/
theorem lasts_eval (sh : Shell) (input : String) : (sh.eval input).Lasts := by
  unfold eval
  cases Request.parse input with
  | leave | help | showConfig => exact lasts_pure _
  | build => exact sh.config.lasts_build.bind fun _ => lasts_pure _
  | reloadConfig =>
    exact (Config.lasts_load _).bind fun _ => (lasts_ofExcept _).bind fun _ => lasts_pure _
  | snippet source =>
    refine (lasts_compile _ fun files s => ?_).bind fun _ => lasts_pure _
    exact (Task.text files snippetName source).lasts s

/-- Only the request to leave is answered without a text. -/
theorem eval_eq_none_iff (h : (sh.eval input).outcome w = (.ok (answer, sh₁), w₁)) :
    answer = none ↔ Request.parse input = .leave := by
  unfold eval at h
  cases hrequest : Request.parse input with
  | leave | help | showConfig =>
    rw [hrequest] at h
    obtain ⟨rfl, -⟩ := Prod.mk.inj (Except.ok.inj (Prod.mk.inj h).1)
    simp
  | build =>
    rw [hrequest] at h
    obtain ⟨summary, w₂, -, hanswer⟩ := outcome_bind_eq_ok.mp h
    obtain ⟨rfl, -⟩ := Prod.mk.inj (Except.ok.inj (Prod.mk.inj hanswer).1)
    simp
  | reloadConfig =>
    rw [hrequest] at h
    obtain ⟨config, w₂, -, hrest⟩ := outcome_bind_eq_ok.mp h
    obtain ⟨_, w₃, -, hanswer⟩ := outcome_bind_eq_ok.mp hrest
    obtain ⟨rfl, -⟩ := Prod.mk.inj (Except.ok.inj (Prod.mk.inj hanswer).1)
    simp
  | snippet source =>
    rw [hrequest] at h
    obtain ⟨s, w₂, -, hanswer⟩ := outcome_bind_eq_ok.mp h
    obtain ⟨rfl, -⟩ := Prod.mk.inj (Except.ok.inj (Prod.mk.inj hanswer).1)
    simp

end Shell

end

/-! ### Turns -/

/-- What comes of asking for an input. -/
inductive Turn where
  /-- The lines of an input. -/
  | input (lines : List String)
  /-- Lines that are no whole input, and the event behind which nothing is added to them. -/
  | cut (lines : List String) (event : LineEvent)
  /-- There is no more to read. -/
  | finished
  deriving DecidableEq, Repr

/-- The text of some lines, with line breaks between them. -/
abbrev lineText (lines : List String) : String := Text.joinWith "\n" lines

/-- The prompts for so many lines of a turn. -/
def promptsFor : Nat → List String
  | 0 => []
  | n + 1 => "quill> " :: List.replicate n "...... "

namespace Turn

/-- The events that are read in a turn. -/
def events : Turn → List LineEvent
  | input lines => lines.map .line
  | cut lines event => lines.map .line ++ [event]
  | finished => [.ended]

/-- Each event is asked for. -/
def prompts (t : Turn) : List String := promptsFor t.events.length

/-- The input that is evaluated, if there is one that is not blank. -/
def text? : Turn → Option String
  | input lines => if Text.allBlank (lineText lines) then none else some (lineText lines)
  | _ => none

/-- What is said when there is nothing to evaluate. -/
def notices : Turn → List Message
  | cut lines .interrupted => if lines = [] then [] else [.shown "\nInput cancelled.\n"]
  | cut _ .ended => [.error (Fault.render { cause := .endInsideInput })]
  | cut _ .failed => [.error (Fault.render { cause := .terminalFailure })]
  | _ => []

/-- Whether nothing is read behind the turn: the user leaves, or there is no more to read when an input
is to begin. -/
def isLast : Turn → Bool
  | input lines => Text.trim (lineText lines) = "exit" || Text.trim (lineText lines) = "quit"
  | cut .. => false
  | finished => true

/-- Behind each of the lines some brackets are open. -/
def Opens (lines : List String) : Prop :=
  ∀ front, front <+: lines → front ≠ [] → 0 < Text.openBrackets (lineText front).toList

/-- The lines of an input leave no bracket open, but the lines before the last one do. Other lines have
brackets open when they are cut off, which no further line does. -/
def IsRead : Turn → Prop
  | input lines => lines ≠ [] ∧ Text.openBrackets (lineText lines).toList ≤ 0 ∧
      ∀ front, front <+: lines → front ≠ [] → front ≠ lines →
        0 < Text.openBrackets (lineText front).toList
  | cut lines event => Opens lines ∧ (∀ text, event ≠ .line text) ∧ (lines = [] → event ≠ .ended)
  | finished => True

end Turn

/-- The turns of some events, behind the lines of an input that has begun; there is no more to read
after them. -/
def turnsFrom (lines : List String) : List LineEvent → List Turn
  | [] => if lines = [] then [.finished] else [.cut lines .ended, .finished]
  | .line text :: rest =>
    let lines := lines ++ [text]
    if Text.isComplete (lineText lines) then
      .input lines :: if (Turn.input lines).isLast then [] else turnsFrom [] rest
    else turnsFrom lines rest
  | .ended :: rest => if lines = [] then [.finished] else .cut lines .ended :: turnsFrom [] rest
  | event :: rest => .cut lines event :: turnsFrom [] rest

/-- The turns of some events, after which there is no more to read. -/
def turns (events : List LineEvent) : List Turn := turnsFrom [] events

section turnsFrom

variable {lines : List String}

theorem Turn.opens_nil : Turn.Opens [] := fun _ hfront hne => absurd (List.prefix_nil.mp hfront) hne

theorem Turn.Opens.concat (h : Turn.Opens lines) {text : String}
    (hopen : Text.isComplete (lineText (lines ++ [text])) = false) : Turn.Opens (lines ++ [text]) := by
  intro front hfront hne
  rcases List.prefix_concat_iff.mp hfront with rfl | hfront
  · simpa [Text.isComplete] using hopen
  · exact h front hfront hne

theorem Turn.Opens.isRead_input (h : Turn.Opens lines) {text : String}
    (hclosed : Text.isComplete (lineText (lines ++ [text]))) :
    (Turn.input (lines ++ [text])).IsRead := by
  refine ⟨by simp, by simpa [Text.isComplete] using hclosed, fun front hfront hne hproper => ?_⟩
  rcases List.prefix_concat_iff.mp hfront with hall | hfront
  · exact absurd hall hproper
  · exact h front hfront hne

/-- Each event belongs to one turn, in their order, up to where reading stops. -/
theorem exists_unread (lines : List String) (events : List LineEvent) :
    ∃ unread, lines.map LineEvent.line ++ (events ++ [LineEvent.ended, LineEvent.ended]) =
      (turnsFrom lines events).flatMap Turn.events ++ unread := by
  induction events generalizing lines with
  | nil =>
    by_cases hlines : lines = []
    · exact ⟨[.ended], by simp [turnsFrom, hlines, Turn.events]⟩
    · exact ⟨[], by simp [turnsFrom, hlines, Turn.events]⟩
  | cons event rest ih =>
    -- the rest is read from the start of an input, or with one line more
    obtain ⟨unread, hunread⟩ := ih []
    have hfresh : rest ++ [LineEvent.ended, LineEvent.ended] =
        (turnsFrom [] rest).flatMap Turn.events ++ unread := hunread
    cases event with
    | line text =>
      unfold turnsFrom
      dsimp only
      split
      · split
        · exact ⟨rest ++ [LineEvent.ended, LineEvent.ended], by simp [Turn.events]⟩
        · exact ⟨unread, by simp [Turn.events, hfresh]⟩
      · obtain ⟨unread, hunread⟩ := ih (lines ++ [text])
        exact ⟨unread, by simpa using hunread⟩
    | ended =>
      unfold turnsFrom
      split
      · next hlines => exact ⟨rest ++ [LineEvent.ended, LineEvent.ended], by simp [Turn.events, hlines]⟩
      · exact ⟨unread, by simp [Turn.events, hfresh]⟩
    | interrupted => exact ⟨unread, by simp [turnsFrom, Turn.events, hfresh]⟩
    | failed => exact ⟨unread, by simp [turnsFrom, Turn.events, hfresh]⟩

/-- Each turn ends where it should. -/
theorem isRead_of_mem_turnsFrom (hlines : Turn.Opens lines) {events : List LineEvent} {t : Turn}
    (ht : t ∈ turnsFrom lines events) : t.IsRead := by
  induction events generalizing lines with
  | nil =>
    unfold turnsFrom at ht
    split at ht
    · obtain rfl := List.mem_singleton.mp ht
      trivial
    · next hne =>
      rcases List.mem_cons.mp ht with rfl | ht
      · exact ⟨hlines, nofun, fun h => absurd h hne⟩
      · obtain rfl := List.mem_singleton.mp ht
        trivial
  | cons event rest ih =>
    have hrest : t ∈ turnsFrom [] rest → t.IsRead := ih Turn.opens_nil
    cases event with
    | line text =>
      unfold turnsFrom at ht
      dsimp only at ht
      split at ht
      · next hclosed =>
        rcases List.mem_cons.mp ht with rfl | ht
        · exact hlines.isRead_input hclosed
        · split at ht
          · cases ht
          · exact hrest ht
      · next hopen => exact ih (hlines.concat (by simpa using hopen)) ht
    | ended =>
      unfold turnsFrom at ht
      split at ht
      · obtain rfl := List.mem_singleton.mp ht
        trivial
      · next hne =>
        rcases List.mem_cons.mp ht with rfl | ht
        · exact ⟨hlines, nofun, fun h => absurd h hne⟩
        · exact hrest ht
    | interrupted | failed =>
      rcases List.mem_cons.mp ht with rfl | ht
      · exact ⟨hlines, nofun, nofun⟩
      · exact hrest ht

/-- Reading stops behind the first turn that is the last one. -/
theorem exists_last (lines : List String) (events : List LineEvent) :
    ∃ (front : List Turn) (last : Turn), turnsFrom lines events = front ++ [last] ∧
      last.isLast = true ∧ ∀ t ∈ front, t.isLast = false := by
  have hcons : ∀ (t : Turn) (ts : List Turn), t.isLast = false →
      (∃ (front : List Turn) (last : Turn), ts = front ++ [last] ∧ last.isLast = true ∧
        ∀ t ∈ front, t.isLast = false) →
      ∃ (front : List Turn) (last : Turn), t :: ts = front ++ [last] ∧ last.isLast = true ∧
        ∀ t ∈ front, t.isLast = false := by
    rintro t ts ht ⟨front, last, rfl, hlast, hfront⟩
    exact ⟨t :: front, last, rfl, hlast, List.forall_mem_cons.mpr ⟨ht, hfront⟩⟩
  have hover : ∃ (front : List Turn) (last : Turn), [Turn.finished] = front ++ [last] ∧
      last.isLast = true ∧ ∀ t ∈ front, t.isLast = false := ⟨[], .finished, rfl, rfl, nofun⟩
  induction events generalizing lines with
  | nil =>
    unfold turnsFrom
    split
    · exact hover
    · exact hcons _ _ rfl hover
  | cons event rest ih =>
    cases event with
    | line text =>
      unfold turnsFrom
      dsimp only
      split
      · split
        · next hlast => exact ⟨[], _, rfl, hlast, nofun⟩
        · next hlast => exact hcons _ _ (by simpa using hlast) (ih [])
      · exact ih _
    | ended =>
      unfold turnsFrom
      split
      · exact hover
      · exact hcons _ _ rfl (ih [])
    | interrupted | failed => exact hcons _ _ rfl (ih [])

end turnsFrom

/-! ### The shell over several turns -/

/-- The workspace when some more was said. -/
def Workspace.saying (w : Workspace) (messages : List Message) : Workspace :=
  { w with messages := w.messages ++ messages }

@[simp]
theorem Workspace.saying_nil (w : Workspace) : w.saying [] = w := by
  simp [saying]

namespace Shell

/-- What becomes of shell and workspace in a turn. A fault is reported and leaves the shell as it is; an
answer is shown. -/
inductive Takes : Shell → Workspace → Turn → Shell → Workspace → Prop
  | passed {sh : Shell} {w : Workspace} {t : Turn} (ht : t.text? = none) :
    Takes sh w t sh (w.saying t.notices)
  | faulty {sh : Shell} {w w₁ : Workspace} {t : Turn} {text : String} {f : Fault}
    (ht : t.text? = some text) (heval : (sh.eval text).outcome w = (.error (.fault f), w₁)) :
    Takes sh w t sh (w₁.saying [.error f.render])
  | answered {sh sh₁ : Shell} {w w₁ : Workspace} {t : Turn} {text : String} {answer : Option String}
    (ht : t.text? = some text) (heval : (sh.eval text).outcome w = (.ok (answer, sh₁), w₁)) :
    Takes sh w t sh₁ (w₁.saying (answer.toList.map fun a => .shown (a ++ "\n")))

/-- What becomes of shell and workspace in several turns. -/
inductive Goes : Shell → Workspace → List Turn → Shell → Workspace → Prop
  | nil (sh : Shell) (w : Workspace) : Goes sh w [] sh w
  | cons {sh sh₁ sh' : Shell} {w w₁ w' : Workspace} {t : Turn} {ts : List Turn}
    (h : Takes sh w t sh₁ w₁) (hs : Goes sh₁ w₁ ts sh' w') : Goes sh w (t :: ts) sh' w'

/-- No evaluation stops the program, in the state that the turns before it lead to. -/
def Calm (sh : Shell) (w : Workspace) (ts : List Turn) : Prop :=
  ∀ (front : List Turn) (t : Turn) (later : List Turn) (text : String) (sh₁ : Shell) (w₁ : Workspace),
    ts = front ++ t :: later → sh.Goes w front sh₁ w₁ → t.text? = some text →
    ((sh₁.eval text).outcome w₁).1 ≠ .error .crash

variable {sh sh₁ : Shell} {w w₁ : Workspace} {t : Turn} {ts : List Turn} {text : String}

theorem Calm.head (h : sh.Calm w (t :: ts)) (ht : t.text? = some text) :
    ((sh.eval text).outcome w).1 ≠ .error .crash :=
  h [] t ts text sh w rfl (.nil sh w) ht

theorem Calm.tail (h : sh.Calm w (t :: ts)) (htakes : sh.Takes w t sh₁ w₁) : sh₁.Calm w₁ ts :=
  fun front u later text _ _ hts hgoes =>
    h (t :: front) u later text _ _ (congrArg (t :: ·) hts) (.cons htakes hgoes)

/-- What a turn leads to, unless its evaluation stops the program. -/
def next? (sh : Shell) (w : Workspace) (t : Turn) : Option (Shell × Workspace) :=
  match t.text? with
  | none => some (sh, w.saying t.notices)
  | some text =>
    match (sh.eval text).outcome w with
    | (.ok (answer, sh₁), w₁) =>
      some (sh₁, w₁.saying (answer.toList.map fun a => .shown (a ++ "\n")))
    | (.error (.fault f), w₁) => some (sh, w₁.saying [.error f.render])
    | (.error _, _) => none

theorem Takes.next? (h : sh.Takes w t sh₁ w₁) : sh.next? w t = some (sh₁, w₁) := by
  cases h with
  | passed ht => simp only [Shell.next?, ht]
  | faulty ht heval | answered ht heval => simp only [Shell.next?, ht, heval]

/-- Whether no evaluation stops the program. -/
def isCalm (sh : Shell) (w : Workspace) : List Turn → Bool
  | [] => true
  | t :: ts =>
    match sh.next? w t with
    | some (sh₁, w₁) => sh₁.isCalm w₁ ts
    | none => false

theorem calm_of_isCalm (h : sh.isCalm w ts = true) : sh.Calm w ts := by
  intro front t later text sh₁ w₁ hts hgoes htext
  induction hgoes generalizing ts with
  | nil sh w =>
    intro hcrash
    subst hts
    rw [List.nil_append, isCalm] at h
    split at h
    · next hnext =>
      simp only [Shell.next?, htext] at hnext
      split at hnext <;> simp_all
    · cases h
  | cons htakes _ ih =>
    subst hts
    rw [List.cons_append, isCalm, htakes.next?] at h
    exact ih h rfl

end Shell

/-! ### Dialogues -/

theorem Text.joinWith_concat (separator : String) {l : List String} (h : l ≠ []) (s : String) :
    Text.joinWith separator (l ++ [s]) = Text.joinWith separator l ++ separator ++ s := by
  induction l with
  | nil => exact absurd rfl h
  | cons x l ih =>
    cases l with
    | nil => simp [joinWith]
    | cons y l =>
      have hrest := ih (List.cons_ne_nil y l)
      simp only [List.cons_append, joinWith] at hrest ⊢
      rw [hrest]
      simp only [String.append_assoc]

theorem Text.trim_of_allBlank {s : String} (h : Text.allBlank s = true) : Text.trim s = "" := by
  have hdrop : s.toList.dropWhile Text.isBlank = [] :=
    List.dropWhile_eq_nil_iff.mpr (List.all_eq_true.mp h)
  rw [Text.trim, Text.trimList, hdrop]
  rfl

theorem promptsFor_succ (n : Nat) :
    promptsFor (n + 1) = promptsFor n ++ [if n = 0 then "quill> " else "...... "] := by
  cases n with
  | zero => rfl
  | succ n => simp [promptsFor, List.replicate_succ']

namespace Dialogue

/-- What a dialogue holds behind some lines of an input. -/
def heldAs (lines : List String) : Option String :=
  if lines = [] then none else some (lineText lines)

variable {d : Dialogue} {w : Workspace} {lines asked : List String}

theorem extend_heldAs (lines : List String) (text : String) :
    extend (heldAs lines) text = lineText (lines ++ [text]) := by
  unfold heldAs extend
  split
  · next h =>
    split at h
    · next hlines => simp [hlines, lineText, Text.joinWith]
    · cases h
  · next held h =>
    split at h
    · cases h
    · next hlines =>
      obtain rfl := Option.some.inj h
      exact (Text.joinWith_concat "\n" hlines text).symm

/-- One more prompt is asked behind the lines. -/
theorem prompts_ask (hheld : d.held = heldAs lines)
    (hprompts : d.prompts = asked ++ promptsFor lines.length) :
    d.ask.prompts = asked ++ promptsFor (lines.length + 1) := by
  rw [promptsFor_succ, ← List.append_assoc, ← hprompts]
  unfold ask prompt
  rw [hheld, heldAs]
  by_cases hlines : lines = [] <;> simp [hlines]

/-- A blank input is passed over. -/
theorem outcome_evaluate_blank {input : String} (h : Text.allBlank input = true) :
    (d.evaluate input).outcome w = (.ok (d, true), w) := by
  unfold evaluate
  rw [if_pos h]
  rfl

/-- A fault of a step that is attempted is a value. -/
theorem outcome_attempt {α : Type} (m : Work α) :
    (attempt m).outcome w =
      match m.outcome w with
      | (.ok a, w₁) => (.ok (.ok a), w₁)
      | (.error (.fault f), w₁) => (.ok (.error f), w₁)
      | (.error e, w₁) => (.error e, w₁) := by
  unfold attempt Work.outcome
  rw [ExceptT.run_mk, StateT.run_bind]
  generalize m.run.run w = r
  obtain ⟨result, w₁⟩ := r
  cases result with
  | ok a => rfl
  | error e => cases e <;> rfl

/-- Any other input is evaluated. -/
theorem outcome_evaluate {input : String} (h : Text.allBlank input = false) :
    (d.evaluate input).outcome w =
      match (d.shell.eval input).outcome w with
      | (.ok (answer, shell), w₁) =>
        (.ok ({ d with shell, history := d.history ++ [input] }, answer.isSome),
          w₁.saying (answer.toList.map fun a => .shown (a ++ "\n")))
      | (.error (.fault f), w₁) =>
        (.ok ({ d with history := d.history ++ [input] }, true), w₁.saying [.error f.render])
      | (.error e, w₁) => (.error e, w₁) := by
  unfold evaluate
  rw [if_neg (by simp [h])]
  dsimp only
  rw [Work.outcome_bind, outcome_attempt]
  generalize (d.shell.eval input).outcome w = r
  obtain ⟨result, w₁⟩ := r
  cases result with
  | ok a =>
    obtain ⟨answer, shell⟩ := a
    cases answer with
    | some answer => rfl
    | none =>
      show (Except.ok _, w₁) = (Except.ok _, w₁.saying [])
      rw [Workspace.saying_nil]
      rfl
  | error e => cases e <;> rfl

/-! ### A turn of a dialogue -/

variable {t : Turn} {ts : List Turn} {event : LineEvent} {text : String}

/-- An input is evaluated as its turn says. -/
theorem evaluate_takes (hcalm : d.shell.Calm w (.input lines :: ts)) :
    ∃ sh w₁, d.shell.Takes w (.input lines) sh w₁ ∧
      (d.evaluate (lineText lines)).outcome w =
        (.ok ({ d with shell := sh, history := d.history ++ (Turn.input lines).text?.toList },
          !(Turn.input lines).isLast), w₁) := by
  by_cases hblank : Text.allBlank (lineText lines) = true
  · have htext : (Turn.input lines).text? = none := if_pos hblank
    have hlast : (Turn.input lines).isLast = false := by
      simp [Turn.isLast, Text.trim_of_allBlank hblank]
    refine ⟨d.shell, w.saying (Turn.input lines).notices, .passed htext, ?_⟩
    rw [outcome_evaluate_blank hblank, htext, hlast]
    simp [Turn.notices]
  · have htext : (Turn.input lines).text? = some (lineText lines) := if_neg hblank
    have hlast : (Turn.input lines).isLast = true ↔ Request.parse (lineText lines) = .leave := by
      rw [Request.parse_eq_leave_iff]
      simp [Turn.isLast]
    have hne := hcalm.head htext
    have hlasts := (d.shell.lasts_eval (lineText lines)).ne_exhausted w
    rw [outcome_evaluate (by simpa using hblank), htext]
    rcases heval : (d.shell.eval (lineText lines)).outcome w with ⟨e | ⟨answer, sh⟩, w₁⟩
    · rw [heval] at hne hlasts
      cases e with
      | crash => exact absurd rfl hne
      | exhausted => exact absurd rfl hlasts
      | fault f =>
        refine ⟨d.shell, _, .faulty htext heval, ?_⟩
        have hstays : (Turn.input lines).isLast = false := by
          rw [Bool.eq_false_iff, ne_eq, hlast]
          intro hleave
          rw [Shell.eval, hleave] at heval
          cases heval
        rw [hstays]
        rfl
    · refine ⟨sh, _, .answered htext heval, ?_⟩
      have hsome : answer.isSome = !(Turn.input lines).isLast := by
        rw [Bool.eq_iff_iff, Option.isSome_iff_ne_none, ne_eq, Shell.eval_eq_none_iff heval, ← hlast]
        simp
      rw [← hsome]
      rfl

/-- A dialogue behind a turn that has led to a shell. -/
def behind (d : Dialogue) (asked : List String) (t : Turn) (sh : Shell) : Dialogue where
  shell := sh
  prompts := asked ++ t.prompts
  history := d.history ++ t.text?.toList

/-- An event is the last one of a turn. -/
def Closes (d : Dialogue) (w : Workspace) (asked : List String) (event : LineEvent) (t : Turn) : Prop :=
  ∃ sh w₁, d.shell.Takes w t sh w₁ ∧
    (d.step event).outcome w = (.ok (d.behind asked t sh, !t.isLast), w₁)

/-- The line that closes the brackets. -/
theorem closes_input (hheld : d.held = heldAs lines)
    (hprompts : d.prompts = asked ++ promptsFor lines.length)
    (hclosed : Text.isComplete (lineText (lines ++ [text])) = true)
    (hcalm : d.shell.Calm w (.input (lines ++ [text]) :: ts)) :
    d.Closes w asked (.line text) (.input (lines ++ [text])) := by
  have hstep : d.step (.line text) =
      ({ d.ask with held := none } : Dialogue).evaluate (lineText (lines ++ [text])) := by
    show (if Text.isComplete (extend d.held text) then
      ({ d.ask with held := none } : Dialogue).evaluate (extend d.held text) else _) = _
    rw [hheld, extend_heldAs, if_pos hclosed]
  have hcount : (Turn.input (lines ++ [text])).prompts = promptsFor (lines.length + 1) := by
    simp [Turn.prompts, Turn.events]
  obtain ⟨sh, w₁, htakes, heval⟩ :=
    evaluate_takes (d := { d.ask with held := none }) hcalm
  refine ⟨sh, w₁, htakes, ?_⟩
  rw [hstep, heval, behind, hcount, ← prompts_ask hheld hprompts]
  rfl

/-- Lines that are cut off. -/
theorem closes_cut (hheld : d.held = heldAs lines)
    (hprompts : d.prompts = asked ++ promptsFor lines.length) (hline : ∀ text, event ≠ .line text)
    (hended : lines = [] → event ≠ .ended) : d.Closes w asked event (.cut lines event) := by
  have hasked := prompts_ask hheld hprompts
  have hcount : (Turn.cut lines event).prompts = promptsFor (lines.length + 1) := by
    simp [Turn.prompts, Turn.events]
  refine ⟨d.shell, w.saying (Turn.cut lines event).notices, .passed rfl, ?_⟩
  rw [behind, hcount, ← hasked]
  have hheld : d.ask.held = heldAs lines := hheld
  have hrest : d.history ++ (Turn.cut lines event).text?.toList = d.history := List.append_nil _
  rw [hrest]
  show (d.ask.take event).outcome w = _
  cases event with
  | line text => exact absurd rfl (hline text)
  | interrupted =>
    unfold take
    rw [hheld]
    by_cases hlines : lines = []
    · rw [heldAs, if_pos hlines]
      simp [Turn.notices, hlines]
      rfl
    · rw [heldAs, if_neg hlines, Turn.notices, if_neg hlines]
      rfl
  | ended =>
    unfold take
    rw [hheld, heldAs, if_neg fun h => hended h rfl]
    rfl
  | failed => rfl

/-- Nothing more when an input is to begin. -/
theorem closes_finished (hheld : d.held = heldAs []) (hprompts : d.prompts = asked ++ promptsFor 0) :
    d.Closes w asked .ended .finished := by
  have hasked : d.ask.prompts = asked ++ Turn.finished.prompts := prompts_ask hheld hprompts
  have hstep : d.step .ended = pure (d.ask, false) := by
    show (if d.held.isNone then pure (d.ask, false) else _) = _
    rw [hheld]
    rfl
  have hbehind : d.ask = d.behind asked .finished d.shell := by
    rw [behind, ← hasked]
    obtain ⟨shell, held, prompts, history⟩ := d
    obtain rfl : held = none := hheld
    simp [ask, Turn.text?]
  refine ⟨d.shell, w.saying [], .passed rfl, ?_⟩
  rw [hstep, Workspace.saying_nil, ← hbehind]
  rfl

/-! ### All turns of a dialogue -/

/-- Takes an event and goes on if there is more. -/
def onward (d : Dialogue) (event : LineEvent) (more : Dialogue → Work Dialogue) : Work Dialogue :=
  d.step event >>= fun p => if p.2 then more p.1 else pure p.1

theorem takeAll_cons (last : Dialogue → Work Dialogue) (event : LineEvent) (rest : List LineEvent) :
    d.takeAll last (event :: rest) = d.onward event (·.takeAll last rest) := rfl

theorem finish_eq : d.finish = d.onward .ended (·.onward .ended pure) := by
  unfold onward
  simp only [ite_self]
  rfl

/-- A step goes through some turns. -/
def Covers (m : Work Dialogue) (d : Dialogue) (w : Workspace) (asked : List String)
    (ts : List Turn) : Prop :=
  ∃ sh w', d.shell.Goes w ts sh w' ∧
    m.outcome w = (.ok { shell := sh
                         prompts := asked ++ ts.flatMap Turn.prompts
                         history := d.history ++ ts.filterMap Turn.text? }, w')

variable {more : Dialogue → Work Dialogue}

theorem Closes.outcome_onward {sh : Shell} {w₁ : Workspace}
    (h : (d.step event).outcome w = (.ok (d.behind asked t sh, !t.isLast), w₁)) :
    (d.onward event more).outcome w =
      if t.isLast then (.ok (d.behind asked t sh), w₁) else (more (d.behind asked t sh)).outcome w₁ := by
  rw [onward, Work.outcome_bind, h]
  cases t.isLast <;> rfl

/-- Nothing is read behind the last turn. -/
theorem Closes.covers_last (h : d.Closes w asked event t) (hlast : t.isLast = true) :
    Covers (d.onward event more) d w asked [t] := by
  obtain ⟨sh, w₁, htakes, hstep⟩ := h
  refine ⟨sh, w₁, .cons htakes (.nil sh w₁), ?_⟩
  rw [Closes.outcome_onward hstep, if_pos hlast]
  cases htext : t.text? <;> simp [behind, htext]

/-- More turns follow behind any other. -/
theorem Closes.covers (h : d.Closes w asked event t) (hlast : t.isLast = false)
    (hmore : ∀ sh w₁, d.shell.Takes w t sh w₁ →
      Covers (more (d.behind asked t sh)) (d.behind asked t sh) w₁ (asked ++ t.prompts) ts) :
    Covers (d.onward event more) d w asked (t :: ts) := by
  obtain ⟨sh, w₁, htakes, hstep⟩ := h
  obtain ⟨sh', w', hgoes, hrun⟩ := hmore sh w₁ htakes
  refine ⟨sh', w', .cons htakes hgoes, ?_⟩
  rw [Closes.outcome_onward hstep, if_neg (by simp [hlast]), hrun]
  cases htext : t.text? <;> simp [behind, htext]

/-- Nothing more is read. -/
theorem covers_finish (hheld : d.held = heldAs lines)
    (hprompts : d.prompts = asked ++ promptsFor lines.length) :
    Covers d.finish d w asked (turnsFrom lines []) := by
  rw [finish_eq]
  unfold turnsFrom
  split
  · next hlines =>
    subst hlines
    exact (closes_finished hheld hprompts).covers_last rfl
  · next hlines =>
    have hcut : d.Closes w asked .ended (.cut lines .ended) :=
      closes_cut hheld hprompts nofun fun h => absurd h hlines
    refine hcut.covers rfl fun sh w₁ _ => ?_
    exact (closes_finished rfl (by simp [behind, promptsFor])).covers_last rfl

/-- One line more of an input that is not whole. -/
theorem outcome_onward_line (hheld : d.held = heldAs lines)
    (hopen : Text.isComplete (lineText (lines ++ [text])) = false) :
    (d.onward (.line text) more).outcome w =
      (more { d.ask with held := heldAs (lines ++ [text]) }).outcome w := by
  have hstep : d.step (.line text) =
      pure ({ d.ask with held := heldAs (lines ++ [text]) }, true) := by
    show (if Text.isComplete (extend d.held text) then _ else
      pure ({ d.ask with held := some (extend d.held text) }, true)) = _
    rw [hheld, extend_heldAs, if_neg (by simp [hopen]), heldAs, if_neg (by simp)]
  rw [onward, hstep]
  rfl

/-- A dialogue goes through the turns of its events. -/
theorem covers_takeAll {events : List LineEvent} (hheld : d.held = heldAs lines)
    (hprompts : d.prompts = asked ++ promptsFor lines.length)
    (hcalm : d.shell.Calm w (turnsFrom lines events)) :
    Covers (d.takeAll finish events) d w asked (turnsFrom lines events) := by
  induction events generalizing d lines asked w with
  | nil => exact covers_finish hheld hprompts
  | cons event rest ih =>
    -- behind each turn but the last the rest is read from the start of an input
    have hfresh : ∀ {t : Turn}, d.Closes w asked event t → t.isLast = false →
        d.shell.Calm w (t :: turnsFrom [] rest) →
        Covers (d.onward event (·.takeAll finish rest)) d w asked (t :: turnsFrom [] rest) := by
      intro t hcloses hlast hcalm
      refine hcloses.covers hlast fun sh w₁ htakes => ?_
      exact ih rfl (by simp [behind, promptsFor]) (hcalm.tail htakes)
    rw [takeAll_cons]
    cases event with
    | line text =>
      unfold turnsFrom at hcalm ⊢
      dsimp only at hcalm ⊢
      split at hcalm
      · next hclosed =>
        rw [if_pos hclosed]
        have hinput := closes_input hheld hprompts hclosed hcalm
        split at hcalm
        · next hlast =>
          rw [if_pos hlast]
          exact hinput.covers_last hlast
        · next hlast =>
          rw [if_neg hlast]
          exact hfresh hinput (by simpa using hlast) hcalm
      · next hopen =>
        rw [if_neg hopen]
        obtain ⟨sh, w', hgoes, hrun⟩ :=
          ih (d := { d.ask with held := heldAs (lines ++ [text]) }) rfl
            (by simpa using prompts_ask hheld hprompts) hcalm
        refine ⟨sh, w', hgoes, ?_⟩
        rw [outcome_onward_line hheld (by simpa using hopen)]
        exact hrun
    | ended =>
      unfold turnsFrom at hcalm ⊢
      split at hcalm
      · next hlines =>
        subst hlines
        exact (closes_finished hheld hprompts).covers_last rfl
      · next hlines =>
        rw [if_neg hlines]
        exact hfresh (closes_cut hheld hprompts nofun fun h => absurd h hlines) rfl hcalm
    | interrupted | failed => exact hfresh (closes_cut hheld hprompts nofun nofun) rfl hcalm

/-! ### The end of the input -/

/-- At the start of an input the end of all input ends the dialogue. -/
theorem step_ended_of_none (h : d.held = none) : d.step .ended = pure (d.ask, false) := by
  show (if d.held.isNone then pure (d.ask, false) else _) = _
  rw [h]
  rfl

/-- An input that is cut off is reported. -/
theorem step_ended_of_some {input : String} (h : d.held = some input) :
    d.step .ended =
      report { cause := .endInsideInput } >>= fun _ => pure ({ d.ask with held := none }, true) := by
  show (if d.held.isNone then pure (d.ask, false) else
    report { cause := .endInsideInput } >>= fun _ => pure ({ d.ask with held := none }, true)) = _
  rw [h]
  rfl

/-- One more reading at the end of the input makes no difference. -/
theorem takeAll_ended (d : Dialogue) : d.takeAll finish [.ended] = d.finish := by
  rw [takeAll_cons, finish_eq]
  unfold onward
  cases hheld : d.held with
  | none =>
    rw [step_ended_of_none hheld]
    rfl
  | some input =>
    rw [step_ended_of_some hheld]
    simp only [bind_assoc, pure_bind]
    -- nothing is held any more, so the next reading is the last one
    have hnext : ({ d.ask with held := none } : Dialogue).step .ended =
        pure (({ d.ask with held := none } : Dialogue).ask, false) := step_ended_of_none rfl
    have hfinish : ({ d.ask with held := none } : Dialogue).finish =
        pure ({ d.ask with held := none } : Dialogue).ask := by
      rw [finish_eq, onward, hnext]
      rfl
    rw [takeAll, hfinish, hnext]
    rfl

theorem takeAll_concat (last : Dialogue → Work Dialogue) (d : Dialogue) (events : List LineEvent)
    (event : LineEvent) :
    d.takeAll last (events ++ [event]) = d.takeAll (·.takeAll last [event]) events := by
  induction events generalizing d with
  | nil => rfl
  | cons first events ih =>
    rw [List.cons_append, takeAll_cons, takeAll_cons]
    simp only [ih]

/-- The input stays at its end however often it is read. -/
theorem run_append_ended (d : Dialogue) (events : List LineEvent) (n : Nat) :
    d.run (events ++ List.replicate n LineEvent.ended) = d.run events := by
  induction n with
  | zero => simp
  | succ n ih =>
    rw [← ih, List.replicate_succ', ← List.append_assoc]
    unfold run runTo
    rw [takeAll_concat]
    simp only [takeAll_ended]

end Dialogue

/-- A dialogue in which no evaluation stops the program comes to its end, whatever its events are, and
says goodbye. It asks for each event that belongs to a turn and for no more, and the inputs that it
evaluates, one by one, are those of the turns and the history. To read on at the end of the input changes
nothing. Each event belongs to one turn, up to where reading stops, and every turn ends where it should.
Reading stops behind the first turn that is the last one. -/
theorem dialogue_loses_nothing (sh : Shell) (events : List LineEvent) (w : Workspace)
    (hcalm : sh.Calm w (turns events)) :
    (∃ sh' w', sh.Goes w (turns events) sh' w' ∧
      (Dialogue.run { shell := sh } events).outcome w =
        (.ok { shell := sh'
               prompts := (turns events).flatMap Turn.prompts
               history := (turns events).filterMap Turn.text? }, w'.saying [Dialogue.farewell])) ∧
    (∀ n, Dialogue.run { shell := sh } (events ++ List.replicate n .ended) =
      Dialogue.run { shell := sh } events) ∧
    (∃ unread, events ++ [.ended, .ended] = (turns events).flatMap Turn.events ++ unread) ∧
    (∀ t ∈ turns events, t.IsRead) ∧
    ∃ front last, turns events = front ++ [last] ∧ last.isLast = true ∧
      ∀ t ∈ front, t.isLast = false := by
  refine ⟨?_, fun n => Dialogue.run_append_ended _ events n, exists_unread [] events,
    fun t ht => isRead_of_mem_turnsFrom Turn.opens_nil ht, exists_last [] events⟩
  have hcovers : Dialogue.Covers (Dialogue.takeAll Dialogue.finish { shell := sh } events)
      { shell := sh } w [] (turnsFrom [] events) := Dialogue.covers_takeAll rfl rfl hcalm
  obtain ⟨sh', w', hgoes, hrun⟩ := hcovers
  refine ⟨sh', w', hgoes, ?_⟩
  unfold Dialogue.run Dialogue.runTo
  rw [Work.outcome_bind, hrun]
  rfl

/-- A dialogue in which inputs are wrong, cut off, blank, or in two lines. -/
def mixedEvents : List LineEvent :=
  [.line "config reload", .line "say (", .interrupted, .line "say (", .failed, .interrupted, .line "  ",
    .line "while ($a) \x7b", .line "say a; \x7d", .line "$", .line " quit ", .line "help"]

/-- A configuration file that is not whole. -/
def cutWorkspace : Workspace where
  files := ⟨[(⟨.working, ["quill.json".toList]⟩, .file (.text "\x7b"))]⟩

theorem mixed_loses_nothing : let sh : Shell := { configPath := ⟨"quill.json"⟩, config := {} }
    sh.Calm cutWorkspace (turns mixedEvents) ∧
      ∃ d w', (Dialogue.run { shell := sh } mixedEvents).outcome cutWorkspace = (.ok d, w') ∧
        d.history = ["config reload", "while ($a) \x7b\nsay a; \x7d", "$", " quit "] := by
  intro sh
  have hcalm : sh.Calm cutWorkspace (turns mixedEvents) := Shell.calm_of_isCalm (by decide +kernel)
  obtain ⟨⟨sh', w', -, hrun⟩, -⟩ := dialogue_loses_nothing sh mixedEvents cutWorkspace hcalm
  have hhistory : (turns mixedEvents).filterMap Turn.text? =
      ["config reload", "while ($a) \x7b\nsay a; \x7d", "$", " quit "] := by
    decide +kernel
  exact ⟨hcalm, _, _, hrun, hhistory⟩

end Packwright
