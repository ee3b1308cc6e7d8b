import Packwright.Proofs.SearchTree
import Packwright.Proofs.Words

/-!
# Switches as search trees

The tests of a switch and the functions of its ranges form a balanced search tree over its labels.
The functions are registered when their names are free, behind those of the cases, each of which
holds the commands of its case.

## Main definitions

- `rangeEntries` — functions of ranges as they are registered
- `Session.Takes` — a session in which the name of a range is not free
- `ReadsLabels` — labels as they are written
- `SwitchStored` — what a switch has registered

## Main results

- `Compile.rangeTests_outcome` — the tests of a tree of ranges, and what they register
- `switch_is_search_tree` — the tree of every switch
-/

namespace Packwright

section

variable {space : String} {id : Nat} {score : Score}

/-! ### What the tests of a switch register -/

/-- The functions of ranges as they are registered. -/
def rangeEntries (space : String) (id : Nat) (score : Score) (nodes : List Dispatch) : List Entry :=
  (nodes.map (Dispatch.toNode space id score)).map (RangeNode.entry id)

theorem rangeEntries_append (nodes later : List Dispatch) :
    rangeEntries space id score (nodes ++ later) =
      rangeEntries space id score nodes ++ rangeEntries space id score later := by
  simp only [rangeEntries, List.map_append]

namespace Session

variable {s : Session}

/-- A function for the range between two bounds is registered already. -/
def Takes (s : Session) (id : Nat) (low high : Int) : Prop :=
  ∃ e ∈ s.entries, e.1 = (Feature.switchCase.name, toString id ++ "/" ++ rangeName low high)

/-- A function for some range of several labels between two bounds is registered already. -/
def TakesWithin (s : Session) (id : Nat) (low high : Int) : Prop :=
  ∃ a b, low ≤ a ∧ a < b ∧ b ≤ high ∧ s.Takes id a b

theorem TakesWithin.mono {low high low' high' : Int} (h : s.TakesWithin id low high)
    (hlow : low' ≤ low) (hhigh : high ≤ high') : s.TakesWithin id low' high' := by
  obtain ⟨a, b, ha, hlt, hb, htakes⟩ := h
  exact ⟨a, b, hlow.trans ha, hlt, hb.trans hhigh, htakes⟩

theorem withEntries_nil (s : Session) : s.withEntries [] = s := by
  rw [withEntries, List.append_nil]

theorem withEntries_append (s : Session) (more later : List Entry) :
    (s.withEntries more).withEntries later = s.withEntries (more ++ later) := by
  show { s with pack := { s.pack with generated := { s.pack.generated with
    entries := (s.entries ++ more) ++ later } } } = s.withEntries (more ++ later)
  rw [List.append_assoc, withEntries]

/-- Functions of other ranges do not take the name of a range. -/
theorem takes_withEntries {nodes : List Dispatch} {low high : Int}
    (h : (s.withEntries (rangeEntries space id score nodes)).Takes id low high)
    (hother : ∀ e ∈ nodes, e.low < e.high ∧ ¬(e.low = low ∧ e.high = high)) : s.Takes id low high := by
  obtain ⟨entry, hentry, hkey⟩ := h
  rcases List.mem_append.mp hentry with hold | hnew
  · exact ⟨entry, hold, hkey⟩
  · obtain ⟨n, hn, rfl⟩ := List.mem_map.mp hnew
    obtain ⟨e, he, rfl⟩ := List.mem_map.mp hn
    obtain ⟨hlt, hne⟩ := hother e he
    have hname : (e.toNode space id score).name id = toString id ++ "/" ++ rangeName low high :=
      congrArg Prod.snd hkey
    rw [boundsName_node hlt] at hname
    exact absurd (rangeName_inj (numbered_inj hname)) hne

end Session

namespace Compile

variable {s : Session}

/-- A function whose name is free is registered, and nothing else changes. -/
theorem register_withEntries (f : Feature) (name : String) (commands : List Command) :
    (register f name commands).Meets s
      (fun _ s' => s' = s.withEntries [((f.name, name), ⟨f.path name, commands⟩)])
      (fun _ => ∃ e ∈ s.entries, e.1 = (f.name, name)) := by
  have hadded : (register f name commands).Meets s
      (fun _ s' => s' = s.withEntries [((f.name, name), ⟨f.path name, commands⟩)])
      (fun _ => True) := by
    unfold register
    simp only [meets_bind, meets_get]
    unfold Registry.insert
    dsimp only
    split
    · trivial
    · rfl
  exact ((register_meets f name commands).and hadded).mono (fun _ _ h => h.2) fun _ h => h.2

/-- The function of a range is registered behind those of the ranges inside it. -/
theorem registerRange_outcome {low high : Int} {left right : Dispatch}
    (hranged : (Dispatch.node low high left right).Ranged)
    (htests : (rangeTests id score (.node low high left right)).Meets s (fun cs s' =>
      cs = [left, right].map (rangeTestIn space id score) ∧
        s' = s.withEntries (rangeEntries space id score (left.nodes ++ right.nodes)))
      (fun _ => s.TakesWithin id low high)) :
    (registerRange id (.node low high left right)
        (rangeTests id score (.node low high left right))).Meets s
      (fun _ s' => s' = s.withEntries
        (rangeEntries space id score (Dispatch.node low high left right).nodes))
      (fun _ => s.TakesWithin id low high) := by
  have hhalves := hranged.halves
  have hlt : low < high := by omega
  have hname : toString id ++ "/" ++ (Dispatch.node low high left right).name =
      toString id ++ "/" ++ rangeName low high := by
    rw [Dispatch.name_eq_rangeName (d := .node low high left right) hlt]
    rfl
  refine htests.bind (fun _ h => h) fun cs s₁ h₁ => ?_
  obtain ⟨rfl, rfl⟩ := h₁
  rw [hname]
  refine (register_withEntries _ _ _).bind (fun _ h => ?_) fun path s₂ h₂ => ?_
  · -- the ranges inside the halves have other bounds
    refine ⟨low, high, le_rfl, hlt, le_rfl, Session.takes_withEntries h fun e he => ?_⟩
    obtain ⟨-, -, -, hleft, hright⟩ := hranged
    rcases List.mem_append.mp he with he | he
    · have hin := hleft.of_mem_nodes he
      omega
    · have hin := hright.of_mem_nodes he
      omega
  · subst h₂
    have hown : ((Dispatch.node low high left right).toNode space id score).name id =
        toString id ++ "/" ++ rangeName low high := boundsName_node hlt
    rw [meets_pure, Session.withEntries_append, Dispatch.nodes,
      rangeEntries_append (left.nodes ++ right.nodes), ← hown]
    rfl

/-- The tests of a range register the functions of the ranges inside, and nothing else changes. They
fail only where the name of such a range is taken. -/
theorem rangeTests_outcome (s : Session) (id : Nat) (score : Score) (d : Dispatch)
    (hranged : d.Ranged) (hspace : s.settings.space = space) :
    (rangeTests id score d).Meets s
        (fun cs s' => cs = d.parts.map (rangeTestIn space id score) ∧
          s' = s.withEntries (rangeEntries space id score d.innerNodes))
        (fun _ => s.TakesWithin id d.low d.high) ∧
      (registerRange id d (rangeTests id score d)).Meets s
        (fun _ s' => s' = s.withEntries (rangeEntries space id score d.nodes))
        (fun _ => s.TakesWithin id d.low d.high) := by
  induction d generalizing s with
  | leaf label =>
    subst hspace
    exact ⟨⟨rfl, s.withEntries_nil.symm⟩, s.withEntries_nil.symm⟩
  | node low high left right ihleft ihright =>
    have hhalves := hranged.halves
    have hleft := hranged.2.2.2.1
    have hright := hranged.2.2.2.2
    have htests : (rangeTests id score (.node low high left right)).Meets s (fun cs s' =>
        cs = [left, right].map (rangeTestIn space id score) ∧
          s' = s.withEntries (rangeEntries space id score (left.nodes ++ right.nodes)))
        (fun _ => s.TakesWithin id low high) := by
      unfold rangeTests rangeTest
      simp only [bind_assoc, pure_bind]
      refine (ihleft s hleft hspace).2.bind (fun _ h => h.mono (by omega) (by omega))
        fun _ s₁ h₁ => ?_
      subst h₁
      rw [meets_bind, meets_call]
      refine (ihright (s.withEntries _) hright hspace).2.bind (fun _ h => ?_) fun _ s₂ h₂ => ?_
      · -- the ranges of the left half lie below those of the right one
        obtain ⟨a, b, ha, hlt, hb, htakes⟩ := h
        refine ⟨a, b, by omega, hlt, by omega, Session.takes_withEntries htakes fun e he => ?_⟩
        have hin := hleft.of_mem_nodes he
        omega
      · subst h₂
        rw [meets_bind, meets_call, meets_pure, Session.withEntries_append]
        subst hspace
        exact ⟨rfl, by rw [rangeEntries_append]⟩
    refine ⟨?_, registerRange_outcome hranged htests⟩
    rw [Dispatch.innerNodes_node]
    exact htests

end Compile

end

/-! ### Labels as they are written -/

/-- The text of the label that a statement of a body begins with, if it does. -/
def Statement.labelText? (st : Statement) : Option String :=
  match st.tokens with
  | [] => none
  | first :: rest =>
    if first.isWord "case" then (splitCase first rest).toOption.map CaseHead.label else none

/-- The labels that texts stand for: an integer for itself, and `_` for the next label, which is the
one behind the label before. -/
inductive ReadsLabels : Int → List String → List Int → Prop
  | nil {next : Int} : ReadsLabels next [] []
  | positional {next : Int} {texts : List String} {labels : List Int}
    (h : ReadsLabels (next + 1) texts labels) : ReadsLabels next ("_" :: texts) (next :: labels)
  | written {next value : Int} {text : String} {texts : List String} {labels : List Int}
    (hvalue : scoreValue text = .ok (some value)) (h : ReadsLabels (value + 1) texts labels) :
    ReadsLabels next (text :: texts) (value :: labels)

/-- The label behind some labels. -/
def labelBehind (next : Int) (labels : List Int) : Int := (labels.getLast?.map (· + 1)).getD next

theorem labelBehind_cons (next label : Int) (labels : List Int) :
    labelBehind next (label :: labels) = labelBehind (label + 1) labels := by
  rw [labelBehind, List.getLast?_cons, labelBehind]
  cases labels.getLast? <;> rfl

theorem ReadsLabels.concat {next value : Int} {texts : List String} {labels : List Int} {text : String}
    (h : ReadsLabels next texts labels)
    (hvalue : text = "_" ∧ value = labelBehind next labels ∨ scoreValue text = .ok (some value)) :
    ReadsLabels next (texts ++ [text]) (labels ++ [value]) := by
  induction h with
  | nil =>
    rcases hvalue with ⟨rfl, rfl⟩ | hvalue
    · exact .positional .nil
    · exact .written hvalue .nil
  | positional h ih =>
    rw [labelBehind_cons] at hvalue
    exact .positional (ih hvalue)
  | written hscore h ih =>
    rw [labelBehind_cons] at hvalue
    exact .written hscore (ih hvalue)

/-- A label is a placeholder with the value that is expected there, or an integer literal. -/
theorem labelValue_eq_ok {cases : List Case} {head : CaseHead} {n : Int}
    (h : labelValue cases head = .ok n) :
    head.label = "_" ∧ n = labelBehind 1 (cases.map Case.label) ∨
      scoreValue head.label = .ok (some n) := by
  have hexpected : ∀ expected, expectedLabel cases = some expected →
      expected = labelBehind 1 (cases.map Case.label) := by
    intro expected h
    unfold expectedLabel at h
    rw [labelBehind, List.getLast?_map]
    split at h
    · next hnone =>
      rw [hnone]
      exact (Option.some.inj h).symm
    · next last hlast =>
      rw [hlast]
      split at h
      · exact (Option.some.inj h).symm
      · cases h
  unfold labelValue at h
  split at h
  · cases h
  · next expected hsome =>
    split at h
    · next hplace => exact .inl ⟨hplace, (Except.ok.inj h).symm.trans (hexpected _ hsome)⟩
    · split at h
      · cases h
      · cases h
      · next value hvalue =>
        split at h
        · cases h
        · exact .inr (Except.ok.inj h ▸ hvalue)

/-- A statement with a label adds it to those of the cases, and no other statement adds one. -/
theorem addCaseStatement_labels {cases cases' : List Case} {st : Statement} {texts : List String}
    (hreads : ReadsLabels 1 texts (cases.map Case.label)) (h : addCaseStatement cases st = .ok cases') :
    ReadsLabels 1 (texts ++ st.labelText?.toList) (cases'.map Case.label) := by
  unfold addCaseStatement at h
  unfold Statement.labelText?
  rcases htokens : st.tokens with _ | ⟨first, rest⟩ <;> rw [htokens] at h
  · obtain rfl := Except.ok.inj h
    simpa using hreads
  · dsimp only at h ⊢
    split at h
    · next hcase =>
      obtain ⟨head, hhead, h⟩ := exists_of_bind_ok h
      obtain ⟨label, hlabel, h⟩ := exists_of_bind_ok h
      obtain rfl := Except.ok.inj h
      rw [if_pos hcase, hhead, List.map_append]
      exact hreads.concat (labelValue_eq_ok hlabel)
    · next hcase =>
      rw [if_neg hcase, Option.toList_none, List.append_nil]
      split at h
      · cases h
      · obtain rfl := Except.ok.inj h
        rwa [labels_addToLast]

/-- The labels of the cases are those that are written in the body. -/
theorem ReadsCases.readsLabels {statements : List Statement} {cases : List Case}
    (h : ReadsCases statements cases) :
    ReadsLabels 1 (statements.filterMap Statement.labelText?) (cases.map Case.label) := by
  obtain ⟨raw, hraw, rfl⟩ := h
  have hfold : ∀ (statements : List Statement) (cases cases' : List Case) (texts : List String),
      ReadsLabels 1 texts (cases.map Case.label) →
      statements.foldlM addCaseStatement cases = .ok cases' →
      ReadsLabels 1 (texts ++ statements.filterMap Statement.labelText?) (cases'.map Case.label) := by
    intro statements
    induction statements with
    | nil =>
      rintro cases _ texts hreads ⟨⟩
      simpa using hreads
    | cons st rest ih =>
      intro cases cases' texts hreads h
      rw [List.foldlM_cons] at h
      obtain ⟨middle, hmiddle, h⟩ := exists_of_bind_ok h
      have hrest := ih middle cases' _ (addCaseStatement_labels hreads hmiddle) h
      rw [List.append_assoc] at hrest
      rw [List.filterMap_cons]
      cases hlabel : st.labelText? <;> simpa [hlabel] using hrest
  have hkept : (raw.map Case.withoutBreaks).map Case.label = raw.map Case.label :=
    List.map_map ..
  rw [hkept]
  simpa using hfold statements [] raw [] .nil hraw

/-! ### Whole switches -/

/-- Each case has a function under its label. It holds just the commands that the statements of the
case become when the cases before it are registered. -/
def CasesStored (block : Compile.Block) (id : Nat) (s s' : Session) (cases : List Case) : Prop :=
  ∀ (front : List Case) (c : Case) (back : List Case), cases = front ++ c :: back →
    ∃ before after body,
    (Compile.registerCases block id front).outcome s = (.ok (), before) ∧
      (block c.statements).outcome before = (.ok body, after) ∧
      s'.pack.generated.get? Feature.switchCase.name (boundsName id c.label c.label) =
        some ⟨Feature.switchCase.path (boundsName id c.label c.label), body⟩

/-- What a switch over some cases with the labels from `low` to `high` has registered under its number:
first the cases, from the session `begun` to the session `filled`, and then the ranges. -/
structure SwitchStored (block : Compile.Block) (s : Session) (statements : List Statement)
    (score : Score) (cases : List Case) (low high : Int) (id : Nat) (begun filled : Session)
    (nodes : List RangeNode) (cs : List Command) (s' : Session) : Prop where
  reads : ReadsCases statements cases
  written : ReadsLabels 1 (statements.filterMap Statement.labelText?) (cases.map Case.label)
  labels : cases.map Case.label = labelsFrom low (high - low + 1).toNat
  bounds : minScore ≤ low ∧ low ≤ high ∧ high ≤ maxScore
  before : s.Quiet begun
  registered : (Compile.registerCases block id cases).outcome begun = (.ok (), filled)
  bodies : CasesStored block id begun s' cases
  dispatched : (Compile.dispatch id score low high).outcome filled = (.ok cs, s')
  functions : s' = filled.withEntries (nodes.map (RangeNode.entry id))
  tree : SearchTree s.settings.space id score low high cs nodes

theorem Session.get?_withEntries {s : Session} {feature name : String} {f : PackFunction}
    (h : s.pack.generated.get? feature name = some f) (more : List Entry) :
    (s.withEntries more).pack.generated.get? feature name = some f := by
  rw [Registry.get?] at h
  show (s.entries ++ more).lookup _ = _
  rw [List.lookup_append, h, Option.some_or]

namespace Compile

variable {s : Session} {id : Nat} {score : Score}

/-- A function that is registered is found under its name. -/
theorem register_found (f : Feature) (name : String) (commands : List Command) :
    (register f name commands).Meets s
      (fun _ s' => s'.pack.generated.get? f.name name = some ⟨f.path name, commands⟩)
      (fun _ => True) := by
  refine (register_meets f name commands).mono (fun path s' h => ?_) fun _ _ => trivial
  have hnone : s.entries.lookup (f.name, name) = none := by
    rw [List.lookup_eq_none_iff]
    exact fun e he => by simpa using (h.2.fresh e he).symm
  rw [Registry.get?]
  show s'.entries.lookup _ = _
  rw [h.2.entries, List.lookup_append, hnone]
  simp

theorem registerCases_cons {block : Block} {c : Case} {rest : List Case} {s' : Session}
    (h : (registerCases block id (c :: rest)).outcome s = (.ok (), s')) :
    ∃ body after stored, (block c.statements).outcome s = (.ok body, after) ∧
      stored.pack.generated.get? Feature.switchCase.name (boundsName id c.label c.label) =
        some ⟨Feature.switchCase.path (boundsName id c.label c.label), body⟩ ∧
      (∀ cases, (registerCases block id (c :: cases)).outcome s =
        (registerCases block id cases).outcome stored) ∧
      (registerCases block id rest).outcome stored = (.ok (), s') := by
  have hcons : ∀ cases, registerCases block id (c :: cases) = (block c.statements >>= fun body =>
      register .switchCase (toString id ++ "/" ++ toString c.label) body >>= fun _ =>
        registerCases block id cases) := fun _ => rfl
  simp only [hcons, outcome_bind] at h ⊢
  rcases hbody : (block c.statements).outcome s with ⟨e | body, after⟩
  · rw [hbody] at h
    cases h
  rw [hbody] at h
  dsimp only at h
  have hfound := register_found (s := after) .switchCase (toString id ++ "/" ++ toString c.label) body
  rcases hregister : (register .switchCase (toString id ++ "/" ++ toString c.label) body).outcome
    after with ⟨e | path, stored⟩
  · rw [hregister] at h
    cases h
  rw [hregister] at h
  refine ⟨body, after, stored, rfl, ?_, fun cases => ?_, h⟩
  · rw [boundsName_label]
    exact hfound.of_ok hregister
  · dsimp only
    rw [hregister]

theorem registerCases_precedes (depth : Nat) (cases : List Case) {s' : Session}
    (h : (registerCases (block depth) id cases).outcome s = (.ok (), s')) :
    s.pack.Precedes s'.pack := by
  have hbuilds := (follows_registerCases (follows_block (le_refl depth)) .none id cases).builds s
  rw [h] at hbuilds
  exact hbuilds.precedes

/-- The cases are registered with just their commands. -/
theorem registerCases_stored (depth : Nat) {cases : List Case} {s' : Session}
    (h : (registerCases (block depth) id cases).outcome s = (.ok (), s')) :
    CasesStored (block depth) id s s' cases := by
  induction cases generalizing s with
  | nil =>
    intro front c back hcases
    simp at hcases
  | cons c rest ih =>
    obtain ⟨body, after, stored, hbody, hfound, hnext, hrest⟩ := registerCases_cons h
    intro front c' back hcases
    cases front with
    | nil =>
      obtain ⟨rfl, rfl⟩ := List.cons.inj hcases
      exact ⟨s, after, body, rfl, hbody,
        (registerCases_precedes depth rest hrest).generated _ _ _ hfound⟩
    | cons first front =>
      obtain ⟨rfl, hrestcases⟩ := List.cons.inj hcases
      obtain ⟨before, after', body', hfront, hstored⟩ := ih hrest front c' back hrestcases
      exact ⟨before, after', body', (hnext front).trans hfront, hstored⟩

/-- The tests over some labels and what they register. They fail only where the name of a range is
taken. -/
theorem dispatch_outcome (s : Session) (id : Nat) (score : Score) {low high : Int} (hle : low ≤ high) :
    (dispatch id score low high).Meets s (fun cs s' => ∃ nodes,
        s' = s.withEntries (nodes.map (RangeNode.entry id)) ∧
          SearchTree s.settings.space id score low high cs nodes)
      (fun _ => s.TakesWithin id low high) := by
  have hcount : 0 < (high - low + 1).toNat := by omega
  obtain ⟨hlow, hhigh, hranged, -⟩ := dispatchTree_ranged low hcount
  have htests := (rangeTests_outcome s id score _ hranged rfl).1
  refine htests.mono (fun cs s' h => ?_) fun _ h => h.mono hlow.ge (by omega)
  obtain ⟨rfl, rfl⟩ := h
  exact ⟨_, rfl, dispatchTree_searchTree s.settings.space id score hle⟩

/-- Cases with consecutive labels are registered, and then the tests over all of their labels. -/
theorem cases_dispatched (depth : Nat) {before : Session} (hbefore : s.Quiet before)
    {statements : List Statement} {cases : List Case} (hreads : ReadsCases statements cases)
    (hconsecutive : Consecutive cases) {first last : Case} (hfirst : cases.head? = some first)
    (hlast : cases.getLast? = some last) :
    (registerCases (block depth) id cases >>= fun _ =>
        dispatch id score first.label last.label).Meets before
      (fun cs s' => ∃ filled nodes, SwitchStored (block depth) s statements score cases first.label
        last.label id before filled nodes cs s')
      (fun _ => True) := by
  rw [meets_iff]
  refine ⟨fun cs s' hrun => ?_, fun _ _ _ => trivial⟩
  rw [outcome_bind] at hrun
  have hbuilds := (follows_registerCases (follows_block (le_refl depth)) .none id cases).builds before
  rcases hregistered : (registerCases (block depth) id cases).outcome before with ⟨e | ⟨⟩, filled⟩
  · rw [hregistered] at hrun
    cases hrun
  rw [hregistered] at hrun hbuilds
  obtain ⟨hlabels, hcount⟩ := hconsecutive.labels hfirst hlast
  have hsome : 0 < cases.length := List.length_pos_of_mem (List.mem_of_mem_head? hfirst)
  have hle : first.label ≤ last.label := by omega
  have hin := fun c hc => inScoreRange_iff.mp (hreads.inRange c hc)
  obtain ⟨nodes, hfunctions, htree⟩ := (dispatch_outcome _ id _ hle).of_ok hrun
  rw [hbuilds.settings, hbefore.settings] at htree
  refine ⟨filled, nodes, {
    reads := hreads
    written := hreads.readsLabels
    labels := by rw [hlabels, hcount]
    bounds := ⟨(hin first (List.mem_of_mem_head? hfirst)).1, hle,
      (hin last (List.mem_of_getLast? hlast)).2⟩
    before := hbefore
    registered := hregistered
    bodies := fun front c back h => ?_
    dispatched := hrun
    functions := hfunctions
    tree := htree }⟩
  obtain ⟨before', after, body, hfront, hbody, hfound⟩ :=
    registerCases_stored depth hregistered front c back h
  exact ⟨before', after, body, hfront, hbody, hfunctions ▸ Session.get?_withEntries hfound _⟩

-- reading a score computes on characters, which unification must not look into
attribute [local irreducible] switchScore

/-- What a switch has registered when it succeeds. -/
theorem switch_stored (depth : Nat) (keyword : Token) (rest : List Token) :
    (switch (block depth) keyword rest).Meets s
      (fun cs s' => ∃ head braces r score cases low high begun filled nodes, rest = [head, braces] ∧
        Score.parseIn? s.scope (Text.trim (head.inner?.getD "")) = some score ∧
        braces.tokenizeInner .required = .ok r ∧
        SwitchStored (block depth) s r.statements score cases low high
          (s.pack.generated.peekId Feature.switchCase.name) begun filled nodes cs s')
      (fun _ => True) := by
  unfold switch
  split
  · next head braces =>
    split
    · trivial
    split
    · trivial
    refine (switchScore_meets head).bind (fun _ _ => trivial) fun score s₀ h₀ => ?_
    obtain ⟨rfl, hscore⟩ := h₀
    refine ((tokenizeInner_meets _ braces).and (tokenizeInner_pack _ braces)).bind
      (fun _ _ => trivial) fun statements s₁ h₁ => ?_
    obtain ⟨⟨hq₁, r, hread, rfl⟩, hpack₁⟩ := h₁
    refine (collectCases_meets fun st _ => anyCalls_includes s₁ st.tokens).bind
      (fun _ _ => trivial) fun cases s₂ h₂ => ?_
    obtain ⟨hq₂, hpack₂, hreads, hconsecutive, -⟩ := h₂
    split
    · next first last hfirst hlast =>
      refine (takeId_meets _).bind (fun _ _ => trivial) fun id s₃ h₃ => ?_
      obtain ⟨hq₃, rfl⟩ := h₃
      rw [hpack₂, hpack₁]
      refine (debug_meets (E := fun _ => True) _).bind (fun _ _ => trivial) fun _ s₄ hq₄ => ?_
      have hbefore : s.Quiet s₄ := ((hq₁.trans hq₂).trans hq₃).trans hq₄
      refine (cases_dispatched depth hbefore hreads hconsecutive hfirst hlast).mono
        (fun cs s' h => ?_) fun _ h => h
      obtain ⟨filled, nodes, hstored⟩ := h
      exact ⟨head, braces, r, score, cases, first.label, last.label, s₄, filled, nodes, rfl, hscore,
        hread, hstored⟩
    · trivial
  · trivial

end Compile

/-- The tree of every switch. The labels of a switch that compiles are consecutive scores, those
written as `_` included, and the function of each label holds just the commands of its case. Its
tests, and whatever tests are made for a range of labels under a number whose names are free, form a
balanced search tree over the labels together with the functions that are registered. -/
theorem switch_is_search_tree :
    (∀ depth s keyword rest cs s',
      (Compile.switch (Compile.block depth) keyword rest).outcome s = (.ok cs, s') →
      ∃ head braces r score cases low high begun filled nodes, rest = [head, braces] ∧
        Score.parseIn? s.scope (Text.trim (head.inner?.getD "")) = some score ∧
        braces.tokenizeInner .required = .ok r ∧
        SwitchStored (Compile.block depth) s r.statements score cases low high
          (s.pack.generated.peekId Feature.switchCase.name) begun filled nodes cs s') ∧
    ∀ (s : Session) (id : Nat) (score : Score) (low high : Int), low ≤ high →
      ¬s.TakesWithin id low high → ∃ tests nodes,
        (Compile.dispatch id score low high).outcome s =
          (.ok tests, s.withEntries (nodes.map (RangeNode.entry id))) ∧
        SearchTree s.settings.space id score low high tests nodes := by
  constructor
  · intro depth s keyword rest cs s' hrun
    exact (Compile.switch_stored depth keyword rest).of_ok hrun
  · intro s id score low high hle hfree
    have hmeets := Compile.dispatch_outcome s id score hle
    rcases hrun : (Compile.dispatch id score low high).outcome s with ⟨e | tests, s'⟩
    · exact absurd ((Compile.meets_iff.mp hmeets).2 e s' hrun) hfree
    · obtain ⟨nodes, rfl, htree⟩ := hmeets.of_ok hrun
      exact ⟨tests, nodes, rfl, htree⟩

/-- The body of a switch with labels on both sides of zero. -/
def crossingBody : Token :=
  ⟨.group .curly, ⟨12, 57, ⟨1, 13⟩⟩, "{ case -1: say a; case _: say b; case 1: say c; }"⟩

theorem crossing_labels {r : Reading} {cases : List Case}
    (hread : crossingBody.tokenizeInner .required = .ok r) (hcases : ReadsCases r.statements cases) :
    cases.map Case.label = [-1, 0, 1] := by
  obtain ⟨raw, hraw, rfl⟩ := hcases
  have hlabels : ((crossingBody.tokenizeInner .required).bind fun r =>
      (r.statements.foldlM addCaseStatement []).map (·.map Case.label)) = .ok [-1, 0, 1] := by
    decide +kernel
  rw [hread] at hlabels
  change (r.statements.foldlM addCaseStatement []).map (·.map Case.label) = .ok [-1, 0, 1] at hlabels
  rw [hraw] at hlabels
  rw [List.map_map]
  exact Except.ok.inj hlabels

/-- A switch over the labels from -1 to 1, and tests for those from -3 to 2. -/
theorem crossing_is_search_tree :
    (∃ cs s' statements score cases begun filled nodes,
      (Compile.switch (Compile.block 9) movingKeyword [movingHead, crossingBody]).outcome
        (Session.new {}) = (.ok cs, s') ∧
      SwitchStored (Compile.block 9) (Session.new {}) statements score cases (-1) 1 0 begun filled
        nodes cs s') ∧
    ¬(Session.new {}).TakesWithin 7 (-3) 2 ∧
    ∃ tests nodes, (Compile.dispatch 7 (.ofVariable "$x") (-3) 2).outcome (Session.new {}) =
        (.ok tests, (Session.new {}).withEntries (nodes.map (RangeNode.entry 7))) ∧
      SearchTree "quill" 7 (.ofVariable "$x") (-3) 2 tests nodes := by
  obtain ⟨hswitch, hdispatch⟩ := switch_is_search_tree
  have hfree : ¬(Session.new {}).TakesWithin 7 (-3) 2 := by
    rintro ⟨a, b, -, -, -, e, he, -⟩
    cases he
  refine ⟨?_, hfree, hdispatch (Session.new {}) 7 (.ofVariable "$x") (-3) 2 (by decide) hfree⟩
  have hok : ((Compile.switch (Compile.block 9) movingKeyword [movingHead, crossingBody]).outcome
      (Session.new {})).1.isOk = true := by
    decide +kernel
  rcases hrun : (Compile.switch (Compile.block 9) movingKeyword [movingHead, crossingBody]).outcome
    (Session.new {}) with ⟨e | cs, s'⟩
  · rw [hrun] at hok
    cases hok
  obtain ⟨head, braces, r, score, cases, low, high, begun, filled, nodes, htokens, -, hread, hstored⟩ :=
    hswitch 9 _ _ _ _ _ hrun
  obtain ⟨rfl, hbraces⟩ := List.cons.inj htokens
  obtain rfl : crossingBody = braces := (List.cons.inj hbraces).1
  have hlabels := hstored.labels
  rw [crossing_labels hread hstored.reads] at hlabels
  obtain ⟨rfl, rfl⟩ : low = -1 ∧ high = 1 := by
    have hlength := congrArg List.length hlabels
    have hhead := congrArg List.head? hlabels
    rw [labelsFrom, List.length_map, List.length_range] at hlength
    rw [← hlength] at hhead
    have hlow : -1 = low := by simpa [labelsFrom, List.range_succ_eq_map] using hhead
    simp only [List.length_cons, List.length_nil] at hlength
    omega
  exact ⟨cs, s', _, score, cases, begun, filled, nodes, rfl, hstored⟩

end Packwright
