import Mathlib.Data.Nat.Log
import Packwright.Proofs.Census

/-!
# Search trees over labels

The tests for some labels and the functions of the ranges among them form a search tree. Each range is
tested once, by the tests of the smallest range around it, and from the root one chain of tests leads
to each label. The tree is balanced, so its longest chain is the logarithm of the number of labels.

## Main definitions

- `RangeNode` — a range that has a function of its own
- `TestChain` — tests of which each calls the function that the next one stands in
- `Splits` — ranges that split a range
- `SearchTree` — tests at a root and functions of ranges that are a balanced search tree

## Main results

- `testChain_iff` — the chains of tests to a case
- `Dispatch.dispatchTree_height` — the tree is balanced
- `dispatchTree_searchTree` — the tests of the tree over some labels are a search tree
-/

namespace Packwright

/-! ### Ranges and their functions -/

/-- A range of several labels that has a function of its own, with the tests in it. -/
structure RangeNode where
  low : Int
  high : Int
  tests : List Command

/-- The name of the function for the labels between two bounds: that of a case when they are equal. -/
def boundsName (id : Nat) (low high : Int) : String :=
  toString id ++ "/" ++ if low = high then toString low else rangeName low high

/-- The location of the function for the labels between two bounds. -/
def boundsTarget (space : String) (id : Nat) (low high : Int) : ResourceLocation :=
  (Feature.switchCase.path (boundsName id low high)).inSpace space

/-- The test that calls the function for the labels between two bounds. -/
def boundsTest (space : String) (id : Nat) (score : Score) (bounds : Int × Int) : Command :=
  rangeTestOf score bounds.1 bounds.2 (boundsTarget space id bounds.1 bounds.2)

namespace RangeNode

/-- The name of the function. -/
def name (id : Nat) (n : RangeNode) : String := boundsName id n.low n.high

/-- The registered function. -/
def entry (id : Nat) (n : RangeNode) : Entry :=
  ((Feature.switchCase.name, n.name id), ⟨Feature.switchCase.path (n.name id), n.tests⟩)

end RangeNode

/-- The session with more generated functions. -/
def Session.withEntries (s : Session) (more : List Entry) : Session :=
  { s with pack := { s.pack with generated := { s.pack.generated with entries := s.entries ++ more } } }

/-- The ranges follow one another in that none overlaps another one, and they cover the labels from
`low` to `high` and no others. -/
structure Splits (low high : Int) (ranges : List (Int × Int)) : Prop where
  disjoint : ranges.Pairwise fun b c => ∀ v, ¬((b.1 ≤ v ∧ v ≤ b.2) ∧ c.1 ≤ v ∧ v ≤ c.2)
  covers : ∀ v, (∃ b ∈ ranges, b.1 ≤ v ∧ v ≤ b.2) ↔ low ≤ v ∧ v ≤ high

/-- Tests from a list on, each of which calls the function that the next one stands in; the last one
calls the function at `leaf`. -/
inductive TestChain (stored : ResourceLocation → List Command → Prop) (leaf : ResourceLocation) :
    List Command → List Command → Prop
  | last {tests : List Command} {clauses : List Clause} (h : .guarded clauses (.call leaf) ∈ tests) :
    TestChain stored leaf tests [.guarded clauses (.call leaf)]
  | next {tests inner chain : List Command} {clauses : List Clause} {target : ResourceLocation}
    (h : .guarded clauses (.call target) ∈ tests) (hstored : stored target inner)
    (hrest : TestChain stored leaf inner chain) :
    TestChain stored leaf tests (.guarded clauses (.call target) :: chain)

/-- The functions of ranges by their locations. -/
def RangesHave (space : String) (id : Nat) (nodes : List RangeNode) (target : ResourceLocation)
    (tests : List Command) : Prop :=
  ∃ n ∈ nodes, target = boundsTarget space id n.low n.high ∧ tests = n.tests

/-- The command goes on to what it guards. -/
def Command.Passes {W : Type} (m : Machine W) (s : State W) : Command → Prop
  | .guarded clauses _ => clauses.all (·.holds m s) = true
  | _ => True

/-- How many tests lead to the last case that is reached, for so many cases. -/
def longestChain (count : Nat) : Nat := if count = 1 then 1 else Nat.clog 2 count

/-- The tests at the root and the functions of ranges are a balanced search tree over the labels from
`low` to `high`. -/
structure SearchTree (space : String) (id : Nat) (score : Score) (low high : Int)
    (tests : List Command) (nodes : List RangeNode) : Prop where
  /-- At the root and in every function the tested ranges split the whole range, and each one of
  several labels has a function. -/
  splits : ∀ n ∈ ⟨low, high, tests⟩ :: nodes, ∃ ranges,
    n.tests = ranges.map (boundsTest space id score) ∧ Splits n.low n.high ranges ∧
      ∀ b ∈ ranges, b.1 = b.2 ∨ ∃ m ∈ nodes, (m.low, m.high) = b
  /-- One chain of tests leads to each label. -/
  reached : ∀ label, low ≤ label → label ≤ high → ∃! chain,
    TestChain (RangesHave space id nodes) (caseTarget space id label) tests chain
  /-- All tests of a chain are passed exactly when the score has the label at its end, which is one of
  the tree. -/
  selects : ∀ label chain,
    TestChain (RangesHave space id nodes) (caseTarget space id label) tests chain →
      (low ≤ label ∧ label ≤ high) ∧ ∀ (W : Type) (m : Machine W) (t : State W) (v : Int),
        t.scores score = some v → ((∀ test ∈ chain, test.Passes m t) ↔ v = label)
  /-- No two ranges or labels have one name. -/
  distinct : (nodes.map (RangeNode.name id) ++
    (labelsFrom low (high - low + 1).toNat).map fun label => boundsName id label label).Nodup
  /-- All ranges of several labels but the whole one have functions. -/
  count : nodes.length = (high - low + 1).toNat - 2
  /-- The longest chain is the logarithm of the number of labels. -/
  longest : (∀ label chain,
      TestChain (RangesHave space id nodes) (caseTarget space id label) tests chain →
        chain.length ≤ longestChain (high - low + 1).toNat) ∧
    ∃ label chain, TestChain (RangesHave space id nodes) (caseTarget space id label) tests chain ∧
      chain.length = longestChain (high - low + 1).toNat

/-! ### Ranges inside a range -/

namespace Dispatch

/-- The range as a function. -/
def toNode (space : String) (id : Nat) (score : Score) (d : Dispatch) : RangeNode :=
  ⟨d.low, d.high, d.parts.map (rangeTestIn space id score)⟩

/-- The ranges from this one down to a label. -/
def path (label : Int) : Dispatch → List Dispatch
  | .leaf own => [.leaf own]
  | .node low high left right =>
    .node low high left right :: if label ≤ left.high then left.path label else right.path label

/-- How many ranges lie above the last label that is reached. -/
def height : Dispatch → Nat
  | .leaf _ => 0
  | .node _ _ left right => max left.height right.height + 1

/-- The ranges with functions below a range. -/
abbrev innerNodes (d : Dispatch) : List Dispatch := d.parts.flatMap nodes

theorem innerNodes_node (low high : Int) (left right : Dispatch) :
    (Dispatch.node low high left right).innerNodes = left.nodes ++ right.nodes := by
  simp [innerNodes, parts]

theorem innerNodes_sublist_nodes (d : Dispatch) : d.innerNodes.Sublist d.nodes := by
  cases d with
  | leaf label => exact .refl _
  | node low high left right =>
    rw [innerNodes_node, nodes]
    exact List.sublist_append_left _ _

/-- The ranges inside a range fit, have several labels, and lie between its bounds. -/
theorem Ranged.of_mem_nodes {d e : Dispatch} (h : d.Ranged) (he : e ∈ d.nodes) :
    e.Ranged ∧ d.low ≤ e.low ∧ e.low < e.high ∧ e.high ≤ d.high := by
  induction d with
  | leaf label => cases he
  | node low high left right ihleft ihright =>
    have hwhole := h
    obtain ⟨hlow, hfit, hhigh, hleft, hright⟩ := h
    have hl := hleft.low_le_high
    have hr := hright.low_le_high
    rw [nodes, List.mem_append, List.mem_append, List.mem_singleton] at he
    rcases he with (he | he) | rfl
    · obtain ⟨hranged, hin⟩ := ihleft hleft he
      refine ⟨hranged, ?_⟩
      show low ≤ _ ∧ _ ∧ _ ≤ high
      omega
    · obtain ⟨hranged, hin⟩ := ihright hright he
      refine ⟨hranged, ?_⟩
      show low ≤ _ ∧ _ ∧ _ ≤ high
      omega
    · refine ⟨hwhole, ?_⟩
      show low ≤ low ∧ low < high ∧ high ≤ high
      omega

/-- The two halves of a range. -/
theorem Ranged.halves {low high : Int} {left right : Dispatch}
    (h : (Dispatch.node low high left right).Ranged) :
    left.low = low ∧ left.low ≤ left.high ∧ right.low = left.high + 1 ∧ right.low ≤ right.high ∧
      right.high = high :=
  ⟨h.1, h.2.2.2.1.low_le_high, h.2.1, h.2.2.2.2.low_le_high, h.2.2.1⟩

/-- A part of a range is a label, or a range inside it. -/
theorem mem_nodes_of_mem_parts {d e part : Dispatch} (he : e ∈ d.nodes) (hpart : part ∈ e.parts) :
    part.low = part.high ∨ part ∈ d.nodes := by
  induction d with
  | leaf label => cases he
  | node low high left right ihleft ihright =>
    have hself : ∀ d : Dispatch, d.low = d.high ∨ d ∈ d.nodes := fun d => by
      cases d with
      | leaf label => exact .inl rfl
      | node low high left right => exact .inr (by simp [nodes])
    rw [nodes, List.mem_append, List.mem_append, List.mem_singleton] at he ⊢
    rcases he with (he | he) | rfl
    · exact (ihleft he).imp_right fun h => .inl (.inl h)
    · exact (ihright he).imp_right fun h => .inl (.inr h)
    · rw [parts, List.mem_pair] at hpart
      rcases hpart with rfl | rfl
      · exact (hself part).imp_right fun h => .inl (.inl h)
      · exact (hself part).imp_right fun h => .inl (.inr h)

theorem Ranged.of_mem_parts {d part : Dispatch} (h : d.Ranged) (hpart : part ∈ d.parts) :
    part.Ranged := by
  cases d with
  | leaf label =>
    obtain rfl := List.mem_singleton.mp hpart
    exact h
  | node low high left right =>
    obtain ⟨-, -, -, hleft, hright⟩ := h
    rcases List.mem_pair.mp hpart with rfl | rfl
    · exact hleft
    · exact hright

theorem mem_nodes_of_mem_parts_self {d part : Dispatch} (hpart : part ∈ d.parts) :
    part.low = part.high ∨ part ∈ d.innerNodes := by
  cases part with
  | leaf label => exact .inl rfl
  | node low high left right => exact .inr (List.mem_flatMap.mpr ⟨_, hpart, by simp [nodes]⟩)

/-- The ranges inside a range have different bounds. -/
theorem Ranged.nodup_bounds {d : Dispatch} (h : d.Ranged) :
    (d.nodes.map fun e => (e.low, e.high)).Nodup := by
  induction d with
  | leaf label => exact List.nodup_nil
  | node low high left right ihleft ihright =>
    have hhalves := h.halves
    obtain ⟨-, -, -, hleft, hright⟩ := h
    rw [nodes, List.map_append, List.map_append, List.nodup_append', List.nodup_append']
    refine ⟨⟨ihleft hleft, ihright hright, ?_⟩, List.nodup_singleton _, ?_⟩
    · intro b hb hb'
      obtain ⟨e, he, rfl⟩ := List.mem_map.mp hb
      obtain ⟨e', he', heq⟩ := List.mem_map.mp hb'
      obtain ⟨hlow, hhigh⟩ := Prod.mk.inj heq
      have hin := hleft.of_mem_nodes he
      have hin' := hright.of_mem_nodes he'
      omega
    · intro b hb hb'
      obtain rfl : b = (low, high) := List.mem_singleton.mp hb'
      rw [← List.map_append] at hb
      obtain ⟨e, he, heq⟩ := List.mem_map.mp hb
      obtain ⟨hlow, hhigh⟩ := Prod.mk.inj heq
      rcases List.mem_append.mp he with he | he
      · have hin := hleft.of_mem_nodes he
        omega
      · have hin := hright.of_mem_nodes he
        omega

/-- The parts of a range split it. -/
theorem Ranged.splits {d : Dispatch} (h : d.Ranged) :
    Splits d.low d.high (d.parts.map fun part => (part.low, part.high)) := by
  cases d with
  | leaf label => exact ⟨List.pairwise_singleton _ _, fun v => by simp [parts]⟩
  | node low high left right =>
    have hhalves := h.halves
    refine ⟨List.pairwise_pair.mpr fun v => ?_, fun v => ?_⟩
    · dsimp only
      omega
    · simp only [parts, List.map_cons, List.map_nil, List.mem_pair, exists_eq_or_imp,
        exists_eq_left]
      show _ ↔ low ≤ v ∧ v ≤ high
      omega

/-! ### The height of a balanced tree -/

/-- The tree over some labels is balanced. -/
theorem dispatchWithin_height (depth : Nat) (low : Int) (count : Nat) (hdepth : count ≤ depth) :
    (dispatchWithin depth low count).height = Nat.clog 2 count := by
  induction depth generalizing low count with
  | zero =>
    obtain rfl : count = 0 := by omega
    rfl
  | succ depth ih =>
    unfold dispatchWithin
    split
    · next hsmall => exact (Nat.clog_of_right_le_one hsmall 2).symm
    · next hlarge =>
      -- the greater half is the second one
      have hhalf : (count + 2 - 1) / 2 = count - count / 2 := by omega
      have hmono : Nat.clog 2 (count / 2) ≤ Nat.clog 2 (count - count / 2) :=
        Nat.clog_mono_right 2 (by omega)
      rw [height, ih low (count / 2) (by omega), ih _ (count - count / 2) (by omega),
        Nat.clog_of_two_le (n := count) (by omega) (by omega), hhalf, max_eq_right hmono]

/-- A part of a balanced tree is reached by at most so many tests, and one part by just as many. -/
theorem dispatchTree_height (low : Int) {count : Nat} (hcount : 0 < count) :
    (∀ part ∈ (dispatchTree low count).parts, part.height + 1 ≤ longestChain count) ∧
      ∃ part ∈ (dispatchTree low count).parts, part.height + 1 = longestChain count := by
  have hheight := dispatchWithin_height count low count le_rfl
  rw [← dispatchTree] at hheight
  have hlabels := congrArg List.length (dispatchTree_ranged low hcount).2.2.2
  rw [labelsFrom, List.length_map, List.length_range] at hlabels
  unfold longestChain
  cases htree : dispatchTree low count with
  | leaf label =>
    rw [htree] at hlabels
    obtain rfl : 1 = count := hlabels
    simp [parts, height]
  | node low' high' left right =>
    rw [htree] at hheight hlabels
    have hleft := left.length_nodes
    have hright := right.length_nodes
    rw [labels, List.length_append] at hlabels
    rw [if_neg (by omega), ← hheight]
    simp only [parts, List.mem_pair, forall_eq_or_imp, forall_eq, exists_eq_or_imp, exists_eq_left,
      height]
    omega

/-- The ranges down to a label are at most as many as the tree is high, and some are as many. -/
theorem length_path_le (d : Dispatch) (label : Int) : (d.path label).length ≤ d.height + 1 := by
  induction d with
  | leaf own => exact le_rfl
  | node low high left right ihleft ihright =>
    rw [path, List.length_cons, height]
    split <;> omega

theorem Ranged.exists_path {d : Dispatch} (h : d.Ranged) :
    ∃ label ∈ d.labels, (d.path label).length = d.height + 1 := by
  induction d with
  | leaf own => exact ⟨own, by simp [labels], rfl⟩
  | node low high left right ihleft ihright =>
    have hhalves := h.halves
    obtain ⟨-, -, -, hleft, hright⟩ := h
    obtain ⟨l, hl, hlong⟩ := ihleft hleft
    obtain ⟨r, hr, hrong⟩ := ihright hright
    simp only [labels, List.mem_append, path, List.length_cons, height]
    rcases le_total right.height left.height with hle | hle
    · have hin := hleft.mem_labels.mp hl
      exact ⟨l, .inl hl, by rw [if_pos hin.2]; omega⟩
    · have hin := hright.mem_labels.mp hr
      exact ⟨r, .inr hr, by rw [if_neg (by omega)]; omega⟩

/-- A value lies in all ranges down to a label exactly if it is this label. -/
theorem Ranged.in_path_iff {d : Dispatch} (h : d.Ranged) {label : Int} (hlabel : label ∈ d.labels)
    (v : Int) : (∀ e ∈ d.path label, e.low ≤ v ∧ v ≤ e.high) ↔ v = label := by
  induction d with
  | leaf own =>
    obtain rfl : label = own := List.mem_singleton.mp hlabel
    simp only [path, List.mem_singleton, forall_eq, low, high]
    omega
  | node low high left right ihleft ihright =>
    have hhalves := h.halves
    have hin := h.mem_labels.mp hlabel
    obtain ⟨-, -, -, hleft, hright⟩ := h
    rw [path, List.forall_mem_cons]
    split
    · next hle =>
      rw [ihleft hleft (hleft.mem_labels.mpr ⟨hhalves.1 ▸ hin.1, hle⟩)]
      refine and_iff_right_of_imp ?_
      rintro rfl
      exact hin
    · next hgreater =>
      rw [ihright hright (hright.mem_labels.mpr ⟨by omega, hhalves.2.2.2.2 ▸ hin.2⟩)]
      refine and_iff_right_of_imp ?_
      rintro rfl
      exact hin

end Dispatch

/-! ### Chains of tests -/

section

variable {stored : ResourceLocation → List Command → Prop} {leaf target : ResourceLocation}
  {tests chain : List Command} {space : String} {id : Nat} {score : Score} {label : Int}

/-- A chain begins with one of the tests. -/
theorem testChain_iff_exists :
    TestChain stored leaf tests chain ↔ ∃ test ∈ tests, TestChain stored leaf [test] chain := by
  constructor
  · intro h
    cases h with
    | last h => exact ⟨_, h, .last (List.mem_singleton_self _)⟩
    | next h hstored hrest => exact ⟨_, h, .next (List.mem_singleton_self _) hstored hrest⟩
  · rintro ⟨test, htest, h⟩
    cases h with
    | last h => exact .last (List.mem_singleton.mp h ▸ htest)
    | next h hstored hrest => exact .next (List.mem_singleton.mp h ▸ htest) hstored hrest

theorem testChain_pair_iff {first second : Command} :
    TestChain stored leaf [first, second] chain ↔
      TestChain stored leaf [first] chain ∨ TestChain stored leaf [second] chain := by
  rw [testChain_iff_exists]
  simp only [List.mem_pair, exists_eq_or_imp, exists_eq_left]

/-- A chain from a single test ends there, or goes on in the function that it calls. -/
theorem testChain_test_iff {low high : Int} :
    TestChain stored leaf [rangeTestOf score low high target] chain ↔
      target = leaf ∧ chain = [rangeTestOf score low high target] ∨
      ∃ inner rest, stored target inner ∧ TestChain stored leaf inner rest ∧
        chain = rangeTestOf score low high target :: rest := by
  constructor
  · intro h
    cases h with
    | last h =>
      obtain ⟨rfl, htarget⟩ := Command.guarded.inj (List.mem_singleton.mp h)
      obtain rfl := Command.call.inj htarget
      exact .inl ⟨rfl, rfl⟩
    | next h hstored hrest =>
      obtain ⟨rfl, htarget⟩ := Command.guarded.inj (List.mem_singleton.mp h)
      obtain rfl := Command.call.inj htarget
      exact .inr ⟨_, _, hstored, hrest, rfl⟩
  · rintro (⟨rfl, rfl⟩ | ⟨inner, rest, hstored, hrest, rfl⟩)
    · exact .last (List.mem_singleton_self _)
    · exact .next (List.mem_singleton_self _) hstored hrest

theorem caseTarget_inj {own : Int} (h : caseTarget space id own = caseTarget space id label) :
    own = label := by
  have hpath : Compile.rangePath id (.leaf own) = Compile.rangePath id (.leaf label) :=
    congrArg ResourceLocation.path h
  rw [rangePath_leaf, rangePath_leaf] at hpath
  have htext := congrArg FunctionPath.text hpath
  simp only [Feature.path, FunctionPath.generated, String.append_right_inj] at htext
  exact Int.repr_inj.mp htext

/-- The chains of tests from the test of a range to a case: there is one if the case is in the range,
and its tests are those of the ranges down to the case. -/
theorem testChain_iff {d : Dispatch} (h : d.Ranged)
    (hnodes : ∀ e ∈ d.nodes, ∀ inner, stored (rangeTarget space id e) inner ↔
      inner = e.parts.map (rangeTestIn space id score))
    (hcases : ∀ own inner, ¬stored (caseTarget space id own) inner) :
    TestChain stored (caseTarget space id label) [rangeTestIn space id score d] chain ↔
      label ∈ d.labels ∧ chain = (d.path label).map (rangeTestIn space id score) := by
  induction d generalizing chain with
  | leaf own =>
    rw [show rangeTestIn space id score (.leaf own) =
      rangeTestOf score own own (caseTarget space id own) from rfl, testChain_test_iff]
    simp only [hcases, false_and, exists_false, or_false]
    constructor
    · rintro ⟨htarget, rfl⟩
      obtain rfl := caseTarget_inj htarget
      exact ⟨List.mem_singleton_self _, rfl⟩
    · rintro ⟨hlabel, rfl⟩
      obtain rfl : label = own := List.mem_singleton.mp hlabel
      exact ⟨rfl, rfl⟩
  | node low high left right ihleft ihright =>
    have hhalves := h.halves
    obtain ⟨-, -, -, hleft, hright⟩ := h
    rw [Dispatch.nodes, List.forall_mem_append, List.forall_mem_append,
      List.forall_mem_singleton] at hnodes
    obtain ⟨⟨hnodesleft, hnodesright⟩, hself⟩ := hnodes
    -- the test calls no case, so the chain goes on with the test of one of the halves
    have hproper : rangeTarget space id (.node low high left right) ≠ caseTarget space id label :=
      rangeTarget_ne_leaf (d := .node low high left right) (show low < high by omega) label
    rw [show rangeTestIn space id score (.node low high left right) =
      rangeTestOf score low high (rangeTarget space id (.node low high left right)) from rfl,
      testChain_test_iff]
    simp only [hproper, false_and, false_or, hself, exists_and_left, exists_eq_left]
    simp only [Dispatch.parts, List.map_cons, List.map_nil, testChain_pair_iff,
      ihleft hleft hnodesleft, ihright hright hnodesright, Dispatch.labels, List.mem_append,
      Dispatch.path]
    have hnotboth : label ∈ left.labels → ¬label ∈ right.labels := by
      rw [hleft.mem_labels, hright.mem_labels]
      omega
    constructor
    · rintro ⟨rest, ⟨hlabel, rfl⟩ | ⟨hlabel, rfl⟩, rfl⟩
      · rw [if_pos (hleft.mem_labels.mp hlabel).2]
        exact ⟨.inl hlabel, rfl⟩
      · have hin := hright.mem_labels.mp hlabel
        rw [if_neg (by omega)]
        exact ⟨.inr hlabel, rfl⟩
    · rintro ⟨hlabel | hlabel, rfl⟩
      · rw [if_pos (hleft.mem_labels.mp hlabel).2]
        exact ⟨_, .inl ⟨hlabel, rfl⟩, rfl⟩
      · have hin := hright.mem_labels.mp hlabel
        rw [if_neg (by omega)]
        exact ⟨_, .inr ⟨hlabel, rfl⟩, rfl⟩

end

/-! ### The tree over some labels -/

section

variable {space : String} {id : Nat} {score : Score}

theorem boundsName_node {n : RangeNode} (h : n.low < n.high) :
    n.name id = toString id ++ "/" ++ rangeName n.low n.high := by
  rw [RangeNode.name, boundsName, if_neg (by omega)]

theorem boundsName_label (label : Int) :
    boundsName id label label = toString id ++ "/" ++ toString label := by
  rw [boundsName, if_pos rfl]

/-- The bounds of a function can be read back from its location. -/
theorem boundsTarget_inj {low high low' high' : Int} (h : low < high) (h' : low' < high')
    (heq : boundsTarget space id low high = boundsTarget space id low' high') :
    low = low' ∧ high = high' := by
  have htext := congrArg (fun l => l.path.text) heq
  simp only [boundsTarget, FunctionPath.inSpace, Feature.path, FunctionPath.generated,
    String.append_right_inj] at htext
  rw [boundsName, boundsName, if_neg (by omega), if_neg (by omega)] at htext
  exact rangeName_inj (numbered_inj htext)

namespace Dispatch

variable {d : Dispatch}

theorem mem_innerNodes (h : d.Ranged) {e : Dispatch} (he : e ∈ d.innerNodes) :
    e.Ranged ∧ e.low < e.high := by
  have hin := h.of_mem_nodes (d.innerNodes_sublist_nodes.subset he)
  exact ⟨hin.1, hin.2.2.1⟩

/-- The functions of ranges are found by their locations, and none at that of a case. -/
theorem Ranged.rangesHave (h : d.Ranged) (space : String) (id : Nat) (score : Score) :
    (∀ e ∈ d.innerNodes, ∀ inner,
      RangesHave space id (d.innerNodes.map (toNode space id score)) (rangeTarget space id e) inner ↔
        inner = e.parts.map (rangeTestIn space id score)) ∧
    ∀ own inner,
      ¬RangesHave space id (d.innerNodes.map (toNode space id score)) (caseTarget space id own)
        inner := by
  have hbounds := h.nodup_bounds.sublist (d.innerNodes_sublist_nodes.map _)
  constructor
  · intro e he inner
    constructor
    · rintro ⟨n, hn, htarget, rfl⟩
      obtain ⟨e', he', rfl⟩ := List.mem_map.mp hn
      obtain ⟨hlow, hhigh⟩ := boundsTarget_inj (mem_innerNodes h he).2 (mem_innerNodes h he').2 htarget
      obtain rfl := List.inj_on_of_nodup_map hbounds he he' (Prod.ext hlow hhigh)
      rfl
    · rintro rfl
      exact ⟨_, List.mem_map_of_mem he, rfl, rfl⟩
  · rintro own inner ⟨n, hn, htarget, -⟩
    obtain ⟨e, he, rfl⟩ := List.mem_map.mp hn
    exact rangeTarget_ne_leaf (mem_innerNodes h he).2 own htarget.symm

/-- The chains from the root to a case go through the part of the tree that has its label. -/
theorem Ranged.testChain_root (h : d.Ranged) (space : String) (id : Nat) (score : Score) (label : Int)
    (chain : List Command) :
    TestChain (RangesHave space id (d.innerNodes.map (toNode space id score)))
        (caseTarget space id label) (d.parts.map (rangeTestIn space id score)) chain ↔
      ∃ part ∈ d.parts, label ∈ part.labels ∧
        chain = (part.path label).map (rangeTestIn space id score) := by
  obtain ⟨hnodes, hcases⟩ := h.rangesHave space id score
  rw [testChain_iff_exists]
  simp only [List.mem_map, exists_exists_and_eq_and]
  refine exists_congr fun part => and_congr_right fun hpart => ?_
  refine Packwright.testChain_iff (h.of_mem_parts hpart) (fun e he => hnodes e ?_) hcases
  exact List.mem_flatMap.mpr ⟨part, hpart, he⟩

theorem Ranged.mem_labels_parts (h : d.Ranged) {label : Int} :
    label ∈ d.labels ↔ ∃ part ∈ d.parts, label ∈ part.labels := by
  cases d with
  | leaf own => simp [parts]
  | node low high left right => simp [parts, labels]

/-- A label is in one part only. -/
theorem Ranged.part_unique (h : d.Ranged) {label : Int} {part other : Dispatch}
    (hpart : part ∈ d.parts) (hother : other ∈ d.parts) (hlabel : label ∈ part.labels)
    (hlabel' : label ∈ other.labels) : part = other := by
  cases d with
  | leaf own => rw [List.mem_singleton.mp hpart, List.mem_singleton.mp hother]
  | node low high left right =>
    have hhalves := h.halves
    rw [(h.of_mem_parts hpart).mem_labels] at hlabel
    rw [(h.of_mem_parts hother).mem_labels] at hlabel'
    rcases List.mem_pair.mp hpart with rfl | rfl <;> rcases List.mem_pair.mp hother with rfl | rfl
    · rfl
    · omega
    · omega
    · rfl

/-- The function of a range splits it. -/
theorem Ranged.splits_toNode (h : d.Ranged) {nodes : List Dispatch}
    (hparts : ∀ part ∈ d.parts, part.low = part.high ∨ part ∈ nodes) :
    ∃ ranges, (d.toNode space id score).tests = ranges.map (boundsTest space id score) ∧
      Splits d.low d.high ranges ∧
      ∀ b ∈ ranges, b.1 = b.2 ∨ ∃ m ∈ nodes.map (toNode space id score), (m.low, m.high) = b := by
  refine ⟨d.parts.map fun part => (part.low, part.high), ?_, h.splits, ?_⟩
  · rw [List.map_map]
    rfl
  · refine List.forall_mem_map.mpr fun part hpart => (hparts part hpart).imp_right fun hnode => ?_
    exact ⟨_, List.mem_map_of_mem hnode, rfl⟩

/-- The names of ranges and of labels differ. -/
theorem Ranged.distinct (h : d.Ranged) (labels : List Int) (hlabels : labels.Nodup) :
    ((d.innerNodes.map (toNode space id score)).map (RangeNode.name id) ++
      labels.map fun label => boundsName id label label).Nodup := by
  have hbounds := h.nodup_bounds.sublist (d.innerNodes_sublist_nodes.map _)
  rw [List.map_map, List.nodup_append']
  refine ⟨?_, hlabels.map fun label label' heq => ?_, ?_⟩
  · refine List.Nodup.map_on (fun e he e' he' heq => ?_) (List.Nodup.of_map _ hbounds)
    have hname : rangeName e.low e.high = rangeName e'.low e'.high := by
      have hlt := (mem_innerNodes h he).2
      have hlt' := (mem_innerNodes h he').2
      simp only [Function.comp_apply] at heq
      rw [boundsName_node hlt, boundsName_node hlt'] at heq
      exact numbered_inj heq
    obtain ⟨hlow, hhigh⟩ := rangeName_inj hname
    exact List.inj_on_of_nodup_map hbounds he he' (Prod.ext hlow hhigh)
  · simp only [boundsName_label] at heq
    exact Int.repr_inj.mp (numbered_inj heq)
  · intro name hname hname'
    obtain ⟨e, he, rfl⟩ := List.mem_map.mp hname
    obtain ⟨label, -, heq⟩ := List.mem_map.mp hname'
    have hlt := (mem_innerNodes h he).2
    simp only [Function.comp_apply, boundsName_label] at heq
    rw [boundsName_node hlt] at heq
    exact rangeName_ne_label hlt label (numbered_inj heq).symm

end Dispatch

theorem nodup_labelsFrom (low : Int) (count : Nat) : (labelsFrom low count).Nodup :=
  List.nodup_range.map fun i j hij => by omega

theorem passes_rangeTest_iff {W : Type} (m : Machine W) {t : State W} {v : Int}
    (hv : t.scores score = some v) (d : Dispatch) :
    (rangeTestIn space id score d).Passes m t ↔ d.low ≤ v ∧ v ≤ d.high := by
  show _ = true ↔ _
  rw [rangeTest_holds]
  constructor
  · rintro ⟨w, hw, hin⟩
    obtain rfl := Option.some.inj (hv.symm.trans hw)
    exact hin
  · exact fun hin => ⟨v, hv, hin⟩

/-- The tests of the tree over some labels are a balanced search tree. -/
theorem dispatchTree_searchTree (space : String) (id : Nat) (score : Score) {low high : Int}
    (hle : low ≤ high) :
    SearchTree space id score low high
      ((dispatchTree low (high - low + 1).toNat).parts.map (rangeTestIn space id score))
      ((dispatchTree low (high - low + 1).toNat).innerNodes.map
        (Dispatch.toNode space id score)) := by
  have hcount : 0 < (high - low + 1).toNat := by omega
  obtain ⟨hlow, hhigh, hranged, hlabels⟩ := dispatchTree_ranged low hcount
  obtain ⟨hshort, hlong⟩ := Dispatch.dispatchTree_height low hcount
  generalize dispatchTree low (high - low + 1).toNat = d at *
  obtain rfl : d.high = high := by omega
  subst hlow
  have hchain := hranged.testChain_root space id score
  refine {
    splits n hn := ?_
    reached label hlow hhigh := ?_
    selects label chain h := ?_
    distinct := hranged.distinct _ (nodup_labelsFrom _ _)
    count := ?_
    longest := ⟨fun label chain h => ?_, ?_⟩ }
  · rcases List.mem_cons.mp hn with rfl | hn
    · exact hranged.splits_toNode fun part => Dispatch.mem_nodes_of_mem_parts_self
    · obtain ⟨e, he, rfl⟩ := List.mem_map.mp hn
      refine (Dispatch.mem_innerNodes hranged he).1.splits_toNode fun part hpart => ?_
      obtain ⟨p, hp, he⟩ := List.mem_flatMap.mp he
      exact (Dispatch.mem_nodes_of_mem_parts he hpart).imp_right fun h =>
        List.mem_flatMap.mpr ⟨p, hp, h⟩
  · obtain ⟨part, hpart, hlabel⟩ :=
      hranged.mem_labels_parts.mp (hranged.mem_labels.mpr ⟨hlow, hhigh⟩)
    refine ⟨_, (hchain label _).mpr ⟨part, hpart, hlabel, rfl⟩, fun other h => ?_⟩
    obtain ⟨part', hpart', hlabel', rfl⟩ := (hchain label other).mp h
    rw [hranged.part_unique hpart hpart' hlabel hlabel']
  · obtain ⟨part, hpart, hlabel, rfl⟩ := (hchain label chain).mp h
    refine ⟨hranged.mem_labels.mp (hranged.mem_labels_parts.mpr ⟨part, hpart, hlabel⟩), ?_⟩
    intro W m t v hv
    rw [← (hranged.of_mem_parts hpart).in_path_iff hlabel v, List.forall_mem_map]
    exact forall₂_congr fun e _ => passes_rangeTest_iff m hv e
  · rw [List.length_map, Dispatch.length_nodes_parts, hlabels, labelsFrom, List.length_map,
      List.length_range]
  · obtain ⟨part, hpart, -, rfl⟩ := (hchain label chain).mp h
    rw [List.length_map]
    exact (part.length_path_le label).trans (hshort part hpart)
  · obtain ⟨part, hpart, heq⟩ := hlong
    obtain ⟨label, hlabel, hlength⟩ := (hranged.of_mem_parts hpart).exists_path
    refine ⟨label, _, (hchain label _).mpr ⟨part, hpart, hlabel, rfl⟩, ?_⟩
    rw [List.length_map, hlength, heq]

end

end Packwright
