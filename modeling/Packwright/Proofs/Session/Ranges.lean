import Packwright.Proofs.Dispatch
import Packwright.Proofs.Session.Numbering

/-!
# Names of cases and ranges

A switch registers its cases and the ranges of its labels under one number. Labels may be negative,
so a name such as `-5--3` has a minus of its own beside those of its bounds; the bounds can be read
back from it all the same. So no two cases or ranges of a switch have one name.

## Main definitions

- `rangeName` — the name of a range from its bounds
- `caseNames`, `rangeNames` — the names of cases, and of all ranges between two bounds

## Main results

- `rangeName_inj`, `rangeName_ne_label` — different ranges and labels have different names
- `Compile.registerCases_keeps`, `Compile.rangeTests_keeps` — what a switch registers is new
- `Compile.steady_switch` — a switch fails only regularly
-/

namespace Packwright

/-! ### Bounds in names -/

/-- The name of the range between two bounds. -/
def rangeName (low high : Int) : String := toString low ++ "-" ++ toString high

/-- The first of two texts without a minus behind its first character can be read back. -/
theorem append_minus_inj {a b x y : List Char} (ha : a ≠ [] ∧ '-' ∉ a.tail)
    (hb : b ≠ [] ∧ '-' ∉ b.tail) (h : a ++ '-' :: x = b ++ '-' :: y) : a = b ∧ x = y := by
  obtain ⟨c, a, rfl⟩ := List.exists_cons_of_ne_nil ha.1
  obtain ⟨d, b, rfl⟩ := List.exists_cons_of_ne_nil hb.1
  obtain ⟨rfl, htail⟩ := List.cons.inj h
  obtain ⟨rfl, rfl⟩ := append_separator_inj ha.2 hb.2 htail
  exact ⟨rfl, rfl⟩

/-- The bounds of a range can be read back from its name. -/
theorem rangeName_inj {low high low' high' : Int} (h : rangeName low high = rangeName low' high') :
    low = low' ∧ high = high' := by
  have hlist := congrArg String.toList h
  simp only [rangeName, String.toList_append, List.append_assoc] at hlist
  obtain ⟨hlow, hhigh⟩ := append_minus_inj (toString_int_tail low) (toString_int_tail low') hlist
  exact ⟨Int.repr_inj.mp (String.toList_inj.mp hlow), Int.repr_inj.mp (String.toList_inj.mp hhigh)⟩

theorem Dispatch.name_eq_rangeName {d : Dispatch} (h : d.low < d.high) :
    d.name = rangeName d.low d.high := by
  rw [Dispatch.name, if_neg (by omega), rangeName]

theorem rangeName_ne_label {low high : Int} (h : low < high) (label : Int) :
    rangeName low high ≠ toString label := by
  let d : Dispatch := .node low high (.leaf low) (.leaf high)
  have hproper : d.low < d.high := h
  have hname := d.name_ne_label hproper label
  rwa [d.name_eq_rangeName hproper] at hname

theorem numbered_inj {id : Nat} {a b : String}
    (h : toString id ++ "/" ++ a = toString id ++ "/" ++ b) : a = b := by
  rwa [String.append_right_inj] at h

/-- The names of the cases with some labels. -/
def caseNames (id : Nat) (labels : List Int) : Set String :=
  {name | ∃ label ∈ labels, name = toString id ++ "/" ++ toString label}

/-- The names of all ranges of more than one label between two bounds. -/
def rangeNames (id : Nat) (low high : Int) : Set String :=
  {name | ∃ a b, low ≤ a ∧ a < b ∧ b ≤ high ∧ name = toString id ++ "/" ++ rangeName a b}

theorem mem_rangeNames_iff {id : Nat} {low high a b : Int} (h : a < b) :
    toString id ++ "/" ++ rangeName a b ∈ rangeNames id low high ↔ low ≤ a ∧ b ≤ high := by
  constructor
  · rintro ⟨a', b', hlow, -, hhigh, hname⟩
    obtain ⟨rfl, rfl⟩ := rangeName_inj (numbered_inj hname)
    exact ⟨hlow, hhigh⟩
  · rintro ⟨hlow, hhigh⟩
    exact ⟨a, b, hlow, h, hhigh, rfl⟩

theorem disjoint_rangeNames {id : Nat} {low mid high : Int} :
    Disjoint (rangeNames id low mid) (rangeNames id (mid + 1) high) := by
  rw [Set.disjoint_left]
  rintro name ⟨a, b, hlow, hlt, hmid, rfl⟩ hname
  have := (mem_rangeNames_iff hlt).mp hname
  omega

theorem disjoint_caseNames {id : Nat} {labels : List Int} {low high : Int} :
    Disjoint (caseNames id labels) (rangeNames id low high) := by
  rw [Set.disjoint_left]
  rintro name ⟨label, -, rfl⟩ ⟨a, b, -, hlt, -, hname⟩
  exact rangeName_ne_label hlt label (numbered_inj hname).symm

theorem rangeNames_subset (id : Nat) {low high low' high' : Int} (hlow : low' ≤ low)
    (hhigh : high ≤ high') : rangeNames id low high ⊆ rangeNames id low' high' := by
  rintro name ⟨a, b, ha, hlt, hb, rfl⟩
  exact ⟨a, b, hlow.trans ha, hlt, hb.trans hhigh, rfl⟩

theorem Consecutive.nodup {cases : List Case} (h : Consecutive cases) :
    (cases.map Case.label).Nodup := by
  obtain ⟨low, hlow⟩ := h
  rw [hlow, labelsFrom]
  exact List.nodup_range.map fun i j hij => by omega

namespace Compile

variable {block : Block} {base s : Session} {id : Nat} {names : Set String}

theorem switchCase_numbers (id : Nat) (name : String) :
    Feature.switchCase.Numbers (toString id ++ "/" ++ name) id :=
  .inr ⟨name, rfl⟩

/-! ### The functions of a switch -/

/-- The cases of a switch are registered under its number, each by its label. -/
theorem registerCases_keeps (hblock : SteadyBlock block) (cases : List Case)
    (hs : base.Leads s) (hc : base.Counted) (hfrom : base.supply .switchCase ≤ id)
    (hr : s.Reserves .switchCase id names) (hdistinct : (cases.map Case.label).Nodup)
    (hnew : Disjoint names (caseNames id (cases.map Case.label))) :
    (registerCases block id cases).Keeps base s fun _ s' =>
      s'.Reserves .switchCase id (names ∪ caseNames id (cases.map Case.label)) := by
  induction cases generalizing s names with
  | nil => exact keeps_pure hs (hr.mono Set.subset_union_left)
  | cons c rest ih =>
    rw [List.map_cons] at hdistinct hnew ⊢
    obtain ⟨hlabel, hrest⟩ := List.nodup_cons.mp hdistinct
    have hown : toString id ++ "/" ++ toString c.label ∉ names := fun hmem =>
      Set.disjoint_left.mp hnew hmem ⟨c.label, List.mem_cons_self .., rfl⟩
    have hlater : Disjoint (insert (toString id ++ "/" ++ toString c.label) names)
        (caseNames id (rest.map Case.label)) := by
      rw [Set.disjoint_left]
      rintro name (rfl | hname) ⟨label, hmem, heq⟩
      · exact hlabel (Int.repr_inj.mp (numbered_inj heq) ▸ hmem)
      · exact Set.disjoint_left.mp hnew hname ⟨label, List.mem_cons_of_mem _ hmem, heq⟩
    unfold registerCases
    refine (hblock c.statements).bind_reserving hs hc hr fun commands s₁ hs₁ hr₁ _ => ?_
    refine (register_keeps hs₁ hfrom hr₁ (switchCase_numbers id _) hown commands).bind
      fun _ s₂ hs₂ hr₂ => ?_
    refine (ih hs₂ hr₂ hrest hlater).mono fun _ s' _ h => h.mono ?_
    rintro name ((rfl | hname) | ⟨label, hmem, rfl⟩)
    · exact .inr ⟨c.label, List.mem_cons_self .., rfl⟩
    · exact .inl hname
    · exact .inr ⟨label, List.mem_cons_of_mem _ hmem, rfl⟩

theorem steady_rangeTest (id : Nat) (score : Score) (d : Dispatch) :
    (rangeTest id score d).Steady :=
  (steady_call _).bind fun _ _ => steady_pure trivial

/-- The ranges inside a range are registered under the number of the switch, and the range itself
behind them, each by its bounds. -/
theorem rangeTests_keeps (score : Score) (d : Dispatch) (hranged : d.Ranged) (hs : base.Leads s)
    (hc : base.Counted) (hfrom : base.supply .switchCase ≤ id)
    (hr : s.Reserves .switchCase id names) (hnew : Disjoint names (rangeNames id d.low d.high)) :
    ((rangeTests id score d).Keeps base s fun _ s' => s'.Reserves .switchCase id
      (names ∪ rangeNames id d.low d.high \ {toString id ++ "/" ++ rangeName d.low d.high})) ∧
    (registerRange id d (rangeTests id score d)).Keeps base s fun _ s' =>
      s'.Reserves .switchCase id (names ∪ rangeNames id d.low d.high) := by
  induction d generalizing s names with
  | leaf label =>
    constructor
    · refine (steady_rangeTest id score _).bind_reserving hs hc hr fun _ s₁ hs₁ hr₁ _ => ?_
      exact keeps_pure hs₁ (hr₁.mono Set.subset_union_left)
    · exact keeps_pure hs (hr.mono Set.subset_union_left)
  | node low high left right ihleft ihright =>
    obtain ⟨hlow, hmid, hhigh, hleft, hright⟩ := hranged
    have hleast := hleft.low_le_high
    have hgreatest := hright.low_le_high
    have hlt : low < high := by omega
    have hname : (Dispatch.node low high left right).name = rangeName low high :=
      Dispatch.name_eq_rangeName hlt
    have hsubleft := rangeNames_subset id hlow.ge (show left.high ≤ high by omega)
    have hsubright := rangeNames_subset id (show low ≤ right.low by omega) hhigh.le
    have hnewright : Disjoint (names ∪ rangeNames id left.low left.high)
        (rangeNames id right.low right.high) := by
      rw [Set.disjoint_union_left, hmid]
      exact ⟨hnew.mono_right (hmid ▸ hsubright), disjoint_rangeNames⟩
    have htests : (rangeTests id score (.node low high left right)).Keeps base s fun _ s' =>
        s'.Reserves .switchCase id
          (names ∪ rangeNames id low high \ {toString id ++ "/" ++ rangeName low high}) := by
      unfold rangeTests
      refine (ihleft hleft hs hr (hnew.mono_right hsubleft)).2.bind fun _ s₁ hs₁ hr₁ => ?_
      refine (steady_rangeTest _ _ _).bind_reserving hs₁ hc hr₁ fun _ s₂ hs₂ hr₂ _ => ?_
      refine (ihright hright hs₂ hr₂ hnewright).2.bind fun _ s₃ hs₃ hr₃ => ?_
      refine (steady_rangeTest _ _ _).bind_reserving hs₃ hc hr₃ fun _ s₄ hs₄ hr₄ _ => ?_
      -- neither half covers the whole range, so its name is still free
      refine keeps_pure hs₄ (hr₄.mono ?_)
      rintro name ((hname | hname) | hname)
      · exact .inl hname
      · refine .inr ⟨hsubleft hname, ?_⟩
        rintro rfl
        have := (mem_rangeNames_iff hlt).mp hname
        omega
      · refine .inr ⟨hsubright hname, ?_⟩
        rintro rfl
        have := (mem_rangeNames_iff hlt).mp hname
        omega
    have hown : toString id ++ "/" ++ rangeName low high ∈ rangeNames id low high :=
      (mem_rangeNames_iff hlt).mpr ⟨le_rfl, le_rfl⟩
    refine ⟨htests, htests.bind fun tests s₁ hs₁ hr₁ => ?_⟩
    rw [hname]
    refine (register_keeps hs₁ hfrom hr₁ (switchCase_numbers id _) ?_ tests).bind
      fun _ s₂ hs₂ hr₂ => ?_
    · rintro (hname | ⟨-, hname⟩)
      · exact Set.disjoint_left.mp hnew hname hown
      · exact hname rfl
    · refine keeps_pure hs₂ (hr₂.mono ?_)
      rintro name (rfl | hname | hname)
      · exact .inr hown
      · exact .inl hname
      · exact .inr hname.1

/-! ### Whole switches -/

theorem steady_dropBreaks (c : Case) : (dropBreaks c).Steady :=
  (steady_forM (fun _ => steady_warn _ _) _).bind fun _ _ => steady_pure trivial

theorem steady_collectCases (statements : List Statement) :
    (collectCases statements).Steady Consecutive := by
  have hsteady : (collectCases statements).Steady :=
    (steady_ofExcept (endsRegularly_foldlM addCaseStatement_regular statements [])).bind
      fun cases _ => steady_mapM steady_dropBreaks cases
  refine (hsteady.and_meets fun s => ?_).mono fun _ h => h.2
  exact (collectCases_meets fun st _ => anyCalls_includes s st.tokens).mono
    (fun _ _ h => h.2.2.2.1) fun _ _ => trivial

-- reading a score computes on characters, which unification must not look into
attribute [local irreducible] score? switchScore

theorem steady_switchScore (head : Token) : (switchScore head).Steady := by
  unfold switchScore
  refine .bind (steady_score? _) fun score _ => ?_
  split
  · exact steady_pure trivial
  · exact steady_failAt head rfl

/-- A switch fails only regularly: what it registers is new. -/
theorem steady_switch (hblock : SteadyBlock block) (keyword : Token)
    (rest : List Token) : (switch block keyword rest).Steady := by
  unfold switch
  split
  · next head braces =>
    split
    · exact steady_failAt head rfl
    split
    · exact steady_failAt braces rfl
    refine (steady_switchScore head).bind fun score _ => ?_
    refine (steady_tokenizeInner _ braces).bind fun statements _ => ?_
    refine (steady_collectCases statements).bind fun cases hcases => ?_
    split
    · next first last hfirst hlast =>
      intro s hs
      refine (takeId_keeps (by decide) (.refl s) hs).bind fun id s₁ hs₁ h₁ => ?_
      obtain ⟨hid, hr₁⟩ := h₁
      refine (steady_debug _).bind_reserving hs₁ hs hr₁ fun _ s₂ hs₂ hr₂ _ => ?_
      refine (registerCases_keeps hblock cases hs₂ hs hid.le hr₂ hcases.nodup
        (Set.empty_disjoint _)).bind fun _ s₃ hs₃ hr₃ => ?_
      obtain ⟨hranged, -⟩ := hcases.tree hfirst hlast
      rw [Set.empty_union] at hr₃
      exact (rangeTests_keeps score _ hranged hs₃ hs hid.le hr₃ disjoint_caseNames).1.mono
        fun _ _ _ _ => trivial
    · exact steady_failAt keyword rfl
  · exact steady_failAt keyword rfl

end Compile

end Packwright
