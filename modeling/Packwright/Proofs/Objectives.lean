import Packwright.Proofs.Session.Mirrors

/-!
# Objectives of a session

Four things ask for an objective: the pack itself, the first constant, a call that adds an objective
and a handler of an event. For each name the first request counts. A call that adds an objective
which is there already leads to a warning; the others do not say that they came too late. So in a
session without warnings every objective that was added is created as it was asked for, and one that
an event or a constant needs is so if no request before it was for other criteria.

## Main definitions

- `Pack.Creates` — the load function creates an objective with some criteria, and with no others

## Main results

- `find?_declareAll` — the first request for a name counts
- `AddsFresh.mem_declareAll` — what is new when it is added is there in the end
- `objectives_of_session` — which objectives the load function creates
-/

namespace Packwright

/-! ### Requests -/

/-- For each name the first request counts. -/
theorem find?_declareAll (known os : List Objective) (name : String) :
    (declareAll known os).find? (·.name = name) = (known ++ os).find? (·.name = name) := by
  induction os generalizing known with
  | nil => rw [declareAll_nil, List.append_nil]
  | cons o os ih =>
    rw [declareAll_cons, ih]
    unfold declareOne
    split
    · next hknown =>
      -- a request for a known name is never found first
      rw [List.find?_append, List.find?_append, List.find?_cons]
      by_cases hname : o.name = name
      · obtain ⟨o', ho', hsame⟩ := List.any_eq_true.mp hknown
        have hfound : (known.find? (·.name = name)).isSome = true := by
          rw [List.find?_isSome]
          exact ⟨o', ho', decide_eq_true ((of_decide_eq_true hsame).trans hname)⟩
        obtain ⟨first, hfirst⟩ := Option.isSome_iff_exists.mp hfound
        rw [hfirst]
        rfl
      · rw [decide_eq_false hname]
    · rw [List.append_assoc]
      rfl

/-- A request is the first one that counts if those before it for the same name are equal to it. -/
theorem find?_request {known rest : List Objective} {name criteria : String}
    (h : ∀ o ∈ known, o.name = name → o.criteria = criteria) :
    (known ++ ⟨name, criteria⟩ :: rest).find? (·.name = name) = some ⟨name, criteria⟩ := by
  rw [List.find?_append]
  cases hfound : known.find? (·.name = name) with
  | none => simp
  | some o =>
    have hname : o.name = name := by simpa using List.find?_some hfound
    have hcriteria := h o (List.mem_of_find?_eq_some hfound) hname
    subst hname hcriteria
    rfl

/-- Where no name occurs twice, what is found by its name is what is there. -/
theorem find?_eq_some_of_nodup {known : List Objective} (h : (known.map Objective.name).Nodup)
    (name criteria : String) :
    known.find? (·.name = name) = some ⟨name, criteria⟩ ↔ ⟨name, criteria⟩ ∈ known := by
  refine ⟨List.mem_of_find?_eq_some, fun hmem => ?_⟩
  obtain ⟨before, rest, rfl⟩ := List.append_of_mem hmem
  refine find?_request fun o ho hname => ?_
  have hsame := List.inj_on_of_nodup_map h (List.mem_append_left _ ho) hmem hname
  exact congrArg Objective.criteria hsame

theorem nodup_declareAll {known : List Objective} (os : List Objective)
    (h : (known.map Objective.name).Nodup) :
    ((declareAll known os).map Objective.name).Nodup := by
  induction os generalizing known with
  | nil => exact h
  | cons o os ih =>
    refine ih ?_
    unfold declareOne
    split
    · exact h
    · next hnew =>
      rw [List.map_append, List.map_singleton, List.nodup_append]
      refine ⟨h, List.nodup_singleton _, fun name hname name' hname' hsame => hnew ?_⟩
      obtain ⟨o', ho', rfl⟩ := List.mem_map.mp hname
      rw [List.mem_singleton.mp hname'] at hsame
      exact List.any_eq_true.mpr ⟨o', ho', decide_eq_true hsame⟩

theorem subset_declareAll (known os : List Objective) : known ⊆ declareAll known os := by
  induction os generalizing known with
  | nil => exact List.Subset.refl _
  | cons o os ih =>
    refine List.Subset.trans ?_ (ih _)
    unfold declareOne
    split
    · exact List.Subset.refl _
    · exact List.subset_append_left ..

/-- Whatever is requested, there is an objective of its name afterwards. -/
theorem mem_name_declareOne (known : List Objective) (o : Objective) :
    o.name ∈ (declareOne known o).map Objective.name := by
  unfold declareOne
  split
  · next hknown =>
    obtain ⟨o', ho', hname⟩ := List.any_eq_true.mp hknown
    exact List.mem_map.mpr ⟨o', ho', of_decide_eq_true hname⟩
  · simp

/-- What is new when it is added is there in the end. -/
theorem AddsFresh.mem_declareAll {known : List Objective} {events : List Event}
    (h : AddsFresh known events) {name criteria : String} (hadded : .added name criteria ∈ events) :
    ⟨name, criteria⟩ ∈ declareAll known (requests events) := by
  obtain ⟨before, after, rfl⟩ := List.append_of_mem hadded
  have hfresh := h before name criteria after rfl
  rw [requests, List.filterMap_append, declareAll_append]
  refine subset_declareAll (declareOne _ ⟨name, criteria⟩) (requests after) ?_
  have hnew : ¬(declareAll known (requests before)).any (·.name = name) := by
    rw [List.any_eq_true]
    rintro ⟨o, ho, hname⟩
    exact hfresh o ho (of_decide_eq_true hname)
  rw [declareOne, if_neg hnew]
  exact List.mem_append_right _ (List.mem_singleton_self _)

namespace Pack

/-- The load function creates the objective with the given criteria, and never with others. -/
def Creates (p : Pack) (name criteria : String) : Prop :=
  .declare name criteria ∈ p.setupCommands ∧
    ∀ other, .declare name other ∈ p.setupCommands → other = criteria

theorem mem_setupCommands_declare (p : Pack) (name criteria : String) :
    Command.declare name criteria ∈ p.setupCommands ↔ ⟨name, criteria⟩ ∈ p.objectives := by
  unfold setupCommands
  rw [List.mem_append, List.mem_map, List.mem_map]
  constructor
  · rintro (⟨o, ho, hsame⟩ | ⟨n, -, hsame⟩)
    · obtain ⟨rfl, rfl⟩ := Command.declare.inj hsame
      exact ho
    · cases hsame
  · exact fun ho => .inl ⟨_, ho, rfl⟩

/-- While no name is declared twice, an objective is created as it was declared. -/
theorem creates_iff {p : Pack} (h : (p.objectives.map Objective.name).Nodup) (name criteria : String) :
    p.Creates name criteria ↔ ⟨name, criteria⟩ ∈ p.objectives := by
  unfold Creates
  simp only [mem_setupCommands_declare]
  refine ⟨And.left, fun ho => ⟨ho, fun other hother => ?_⟩⟩
  have hsame := List.inj_on_of_nodup_map h ho hother rfl
  exact (Objective.mk.inj hsame).2.symm

end Pack

/-! ### Sessions -/

/-- The first objective of every pack is that of variables. -/
def variableRequest : Objective := ⟨variableObjective, "dummy"⟩

/-- In any session, be it one in which tasks failed, the first request for each objective decides on
what the load function creates; the pack asks first, for the objective of variables. While there are
no warnings, every objective that was added is created as it was asked for, and so is one that an
event or a constant needs, unless another request for it came before with other criteria. The objective
of constants was asked for once there is a constant. -/
theorem objectives_of_session (settings : Settings) (tasks : List Task) :
    let s := (Session.new settings).after tasks
    let events := (Session.new settings).trace tasks
    (∀ name criteria, s.pack.Creates name criteria ↔
      (variableRequest :: requests events).find? (·.name = name) = some ⟨name, criteria⟩) ∧
    s.pack.Creates variableObjective "dummy" ∧
    (s.warnings = [] → ∀ name criteria, .added name criteria ∈ events →
      s.pack.Creates name criteria) ∧
    (∀ before name criteria after, events = before ++ .awaited name criteria :: after →
      (∀ o ∈ variableRequest :: requests before, o.name = name → o.criteria = criteria) →
      s.pack.Creates name criteria) ∧
    (.constants ∈ events ↔ s.pack.constants ≠ []) ∧
    ∀ before after, events = before ++ .constants :: after →
      (∀ o ∈ requests before, o.name = constantObjective → o.criteria = "dummy") →
      s.pack.Creates constantObjective "dummy" := by
  intro s events
  have haccounts := Session.trace_accounts (s := .new settings) rfl tasks
  have hstart : (Session.new settings).pack.objectives = [variableRequest] := rfl
  have hobjectives : s.pack.objectives = declareAll [variableRequest] (requests events) :=
    hstart ▸ haccounts.objectives
  have hnodup : (s.pack.objectives.map Objective.name).Nodup :=
    hobjectives ▸ nodup_declareAll _ (List.nodup_singleton _)
  have hcreates : ∀ name criteria, s.pack.Creates name criteria ↔
      (variableRequest :: requests events).find? (·.name = name) = some ⟨name, criteria⟩ := by
    intro name criteria
    rw [Pack.creates_iff hnodup, ← find?_eq_some_of_nodup hnodup, hobjectives, find?_declareAll]
    rfl
  -- a request in the record is one behind that of the pack, and the others before it are known
  have hfirst : ∀ before name criteria after (e : Event), events = before ++ e :: after →
      e.objective? = some ⟨name, criteria⟩ →
      (∀ o ∈ variableRequest :: requests before, o.name = name → o.criteria = criteria) →
      s.pack.Creates name criteria := by
    intro before name criteria after e heq he hknown
    have hrequests : variableRequest :: requests events =
        (variableRequest :: requests before) ++ ⟨name, criteria⟩ :: requests after := by
      rw [heq, requests, List.filterMap_append, List.filterMap_cons_some he]
      rfl
    rw [hcreates, hrequests]
    exact find?_request hknown
  have hvariables : constantObjective ≠ variableObjective := by decide
  refine ⟨hcreates, (hcreates _ _).mpr ?_, fun hwarnings name criteria hadded => ?_, ?_, ?_, ?_⟩
  · exact List.find?_cons_of_pos (decide_eq_true rfl)
  · rw [Pack.creates_iff hnodup, hobjectives]
    have hfresh := haccounts.fresh hwarnings
    rw [hstart] at hfresh
    exact hfresh.mem_declareAll hadded
  · exact fun before name criteria after heq => hfirst before name criteria after _ heq rfl
  · exact haccounts.first.trans ⟨And.right, fun h => ⟨rfl, h⟩⟩
  · intro before after heq hknown
    refine hfirst before _ _ after _ heq rfl fun o ho hname => ?_
    rcases List.mem_cons.mp ho with rfl | ho
    · exact absurd hname hvariables.symm
    · exact hknown o ho hname

/-- A text that needs one objective for two events, with other criteria for the second one. It also adds
an objective and has a constant. -/
def eventsText : String :=
  "Player.onEvent(jumps, () => \x7b say a; \x7d); " ++
    "Player.onEvent(jumps, () => \x7b say b; \x7d, criteria=\"deathCount\"); " ++
    "Scoreboard.add(kills, \"playerKillCount\"); $a *= 5;"

/-- What `eventsText` asks for. -/
def eventsRecord : List Event :=
  [.awaited "jumps" "dummy", .awaited "jumps" "deathCount", .added "kills" "playerKillCount",
    .constants]

/-- The criteria for the second event are lost without a warning. -/
theorem objectives_of_eventsText :
    let s := (Session.new {}).after [.text {} "main" eventsText]
    (s.warnings = [] ∧ (Session.new {}).trace [.text {} "main" eventsText] = eventsRecord) ∧
      s.pack.Creates "kills" "playerKillCount" ∧ s.pack.Creates constantObjective "dummy" ∧
      s.pack.Creates "jumps" "dummy" ∧ ¬s.pack.Creates "jumps" "deathCount" := by
  have hrun : ((Session.new {}).after [.text {} "main" eventsText]).warnings = [] ∧
      (Session.new {}).trace [.text {} "main" eventsText] = eventsRecord := by decide +kernel
  obtain ⟨hcreates, -, hadded, hawaited, -, hconstant⟩ :=
    objectives_of_session {} [.text {} "main" eventsText]
  refine ⟨hrun, ?_⟩
  rw [hrun.2] at hcreates hadded hawaited hconstant
  refine ⟨hadded hrun.1 _ _ (by decide), ?_, ?_, ?_⟩
  · exact hconstant (eventsRecord.take 3) [] rfl (by decide)
  · exact hawaited [] _ _ _ rfl (by decide)
  · rw [hcreates]
    decide

end Packwright
