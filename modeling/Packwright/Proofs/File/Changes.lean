import Mathlib.Data.List.Induction
import Packwright.Proofs.File.Places

/-!
# What changes of a tree do to files

A change of a tree is told by what it does to the file at each place. To write a file is to change
the file at one place, to make directories changes none, and to remove a directory takes away those
inside.

A tree as an operating system has it is rooted: everything lies in a directory. There a path without
steps up leads to whatever is at its place.

## Main definitions

- `Tree.file?` — the file at a place
- `Tree.Rooted` — everything lies in a directory

## Main results

- `Tree.file?_of_write`, `Tree.file?_makeDirectories`, `Tree.file?_of_removeDirectory`
- `Tree.Rooted.contains_of_within` — what lies inside a directory shows that the directory is there
-/

namespace Packwright.File

/-- What is kept of a list is found in it as before. -/
theorem lookup_filter_key {α β : Type} [BEq α] [LawfulBEq α] (keep : α → Bool) (l : List (α × β))
    (a : α) : (l.filter fun e => keep e.1).lookup a = if keep a then l.lookup a else none := by
  induction l with
  | nil => simp
  | cons e l ih =>
    obtain ⟨b, value⟩ := e
    by_cases hab : a = b
    · subst hab
      by_cases hkeep : keep a = true
      · simp [hkeep]
      · rw [List.filter_cons_of_neg (by simpa using hkeep), ih]
        simp [hkeep]
    · have hskip : ∀ rest : List (α × β), ((b, value) :: rest).lookup a = rest.lookup a := by
        intro rest
        rw [List.lookup_cons, beq_false_of_ne hab]
      by_cases hkeep : keep b = true
      · rw [List.filter_cons_of_pos (by simpa using hkeep), hskip, hskip, ih]
      · rw [List.filter_cons_of_neg (by simpa using hkeep), hskip, ih]

namespace Tree

variable {t t' : Tree} {path : Path} {p q : Place}

/-- The content of the file at a place. -/
def file? (t : Tree) (p : Place) : Option Content :=
  match t.node? p with
  | some (.file content) => some content
  | _ => none

theorem file?_congr (h : t'.node? p = t.node? p) : t'.file? p = t.file? p := by
  rw [file?, file?, h]

theorem names_ne_nil_of_not_isDirectory (h : t.isDirectory p = false) : p.names ≠ [] := by
  intro hnames
  simp [isDirectory, node?, hnames] at h

theorem names_ne_nil_of_node?_eq_none (h : t.node? p = none) : p.names ≠ [] :=
  names_ne_nil_of_not_isDirectory (t := t) (by simp [isDirectory, h])

/-- A node that is put somewhere is there, and everything else is as before. -/
theorem node?_put (hp : p.names ≠ []) (n : Node) (q : Place) :
    (t.put p n).node? q = if q = p then some n else t.node? q := by
  by_cases hq : q.names = []
  · have hne : q ≠ p := fun h => hp (h ▸ hq)
    simp [node?, hq, hne]
  · have hfilter : (t.nodes.filter (·.1 ≠ p)).lookup q =
        if q = p then none else t.nodes.lookup q := by
      rw [lookup_filter_key (fun a => decide (a ≠ p))]
      by_cases hqp : q = p <;> simp [hqp]
    simp only [node?, put, hq, if_false, List.lookup_append, hfilter]
    by_cases hqp : q = p
    · simp [hqp]
    · have hbeq : (q == p) = false := beq_false_of_ne hqp
      simp [hqp, List.lookup_cons, hbeq]

theorem write_eq_ok_iff_newPlace {s : String} : t.write path s = .ok t' ↔
    ∃ p, t.newPlace path = .ok p ∧ t.isDirectory p = false ∧ path.text.toList.getLast? ≠ some '/' ∧
      p.hasLongName = false ∧ t.put p (.file (.text s)) = t' := by
  unfold write
  simp [bind_eq_ok_iff, guard_eq_ok_iff, pure, Except.pure, and_assoc]

theorem write_eq_ok {s : String} (h : t.write path s = .ok t') :
    t.isDirectory (.ofPath path) = false ∧ t' = t.put (.ofPath path) (.file (.text s)) := by
  obtain ⟨p, hplace, hfree, -, -, rfl⟩ := write_eq_ok_iff_newPlace.mp h
  obtain rfl := place_of_newPlace hplace
  exact ⟨hfree, rfl⟩

theorem checkLimits_of_write {s : String} (h : t.write path s = .ok t') : path.checkLimits = .ok () := by
  obtain ⟨p, hplace, -⟩ := write_eq_ok_iff_newPlace.mp h
  exact checkLimits_of_newPlace hplace

/-- To write a file changes the file at its place alone. -/
theorem file?_of_write {s : String} (h : t.write path s = .ok t') (q : Place) :
    t'.file? q = if q = .ofPath path then some (.text s) else t.file? q := by
  obtain ⟨hfree, rfl⟩ := write_eq_ok h
  have hnode := node?_put (t := t) (names_ne_nil_of_not_isDirectory hfree) (.file (.text s)) q
  by_cases hq : q = .ofPath path
  · rw [if_pos hq] at hnode ⊢
    rw [file?, hnode]
  · rw [if_neg hq] at hnode ⊢
    exact file?_congr hnode

/-- To make a directory changes no file. -/
theorem file?_of_makeDirectory (h : t.makeDirectory path = .ok t') (q : Place) :
    t'.file? q = t.file? q := by
  unfold makeDirectory at h
  by_cases hempty : path.text = ""
  · simp only [hempty, if_true] at h
    cases h
  · simp only [hempty, if_false, bind, Except.bind] at h
    cases hplace : t.newPlace path with
    | error problem =>
      rw [hplace] at h
      cases h
    | ok p =>
      simp only [hplace] at h
      split at h
      · cases h
      · split at h
        · cases h
        · next hfree =>
          have hnone : t.node? p = none := by simpa using hfree
          rw [← Except.ok.inj h]
          have hnode := node?_put (t := t) (names_ne_nil_of_node?_eq_none hnone) .directory q
          by_cases hq : q = p
          · rw [if_pos hq] at hnode
            rw [file?, hnode, file?, hq, hnone]
          · rw [if_neg hq] at hnode
            exact file?_congr hnode

theorem file?_ensureDirectory (t : Tree) (path : Path) (q : Place) :
    (t.ensureDirectory path).1.file? q = t.file? q := by
  unfold ensureDirectory
  cases hmake : t.makeDirectory path with
  | ok t' => exact file?_of_makeDirectory hmake q
  | error problem => rfl

theorem file?_makeDirectoriesWithin (depth : Nat) (t : Tree) (path : Path) (q : Place) :
    (makeDirectoriesWithin depth t path).1.file? q = t.file? q := by
  induction depth generalizing t path with
  | zero =>
    have hensure := file?_ensureDirectory t path q
    unfold makeDirectoriesWithin
    split
    · rfl
    · split
      · next heq =>
        rw [heq] at hensure
        exact hensure
      · exact hensure
  | succ depth ih =>
    have hensure := file?_ensureDirectory t path q
    unfold makeDirectoriesWithin
    split
    · rfl
    · split
      · next t₁ heq =>
        rw [heq] at hensure
        cases path.parent? with
        | none => exact hensure
        | some parent =>
          -- the directories above come first, then this one is tried again
          have hparent := ih t₁ parent
          simp only
          split
          · next t₂ hmade =>
            rw [hmade] at hparent
            rw [file?_ensureDirectory, hparent, hensure]
          · rw [hparent, hensure]
      · exact hensure

/-- To make directories changes no file, whether or not it succeeds. -/
theorem file?_makeDirectories (t : Tree) (path : Path) (q : Place) :
    (t.makeDirectories path).1.file? q = t.file? q :=
  file?_makeDirectoriesWithin _ t path q

/-- To remove a directory takes away the files inside it alone. -/
theorem file?_of_removeDirectory (h : t.removeDirectory path = .ok t') (q : Place) :
    t'.file? q = if (Place.ofPath path).within q then none else t.file? q := by
  unfold removeDirectory at h
  cases hfind : t.find path with
  | error problem =>
    rw [hfind] at h
    cases h
  | ok p =>
    simp only [hfind, bind, Except.bind] at h
    obtain rfl := place_of_find hfind
    split at h
    · cases h
    · rw [← Except.ok.inj h]
      unfold file? node?
      by_cases hq : q.names = []
      · simp [hq]
      · simp only [hq, if_false]
        rw [lookup_filter_key (fun a => !(Place.ofPath path).within a)]
        cases (Place.ofPath path).within q <;> rfl

/-! ### Rooted trees -/

/-- Everything lies in a directory, and no name is too long. -/
structure Rooted (t : Tree) : Prop where
  parent : ∀ p n, t.node? p = some n → p.names ≠ [] → t.isDirectory p.parent = true
  short : ∀ p n, t.node? p = some n → ∀ name ∈ p.names, isLongName name = false

/-- Everything above something is a directory. -/
theorem Rooted.isDirectory_above (h : t.Rooted) {anchor : Anchor} {names : List (List Char)}
    (more : List (List Char)) (hmore : more ≠ []) {n : Node}
    (hn : t.node? ⟨anchor, names ++ more⟩ = some n) : t.isDirectory ⟨anchor, names⟩ = true := by
  induction more using List.reverseRecOn generalizing n with
  | nil => exact absurd rfl hmore
  | append_singleton more last ih =>
    have hparent := h.parent _ n hn (by simp)
    have hplace : Place.parent ⟨anchor, names ++ (more ++ [last])⟩ = ⟨anchor, names ++ more⟩ := by
      rw [Place.parent, if_neg (by simp)]
      simp [← List.append_assoc]
    rw [hplace] at hparent
    cases more with
    | nil => simpa using hparent
    | cons m more => exact ih (by simp) (of_decide_eq_true hparent)

theorem Rooted.isDirectory_of_within (h : t.Rooted) (hwithin : p.within q = true)
    (hq : t.isDirectory q = true) : t.isDirectory p = true := by
  obtain ⟨hanchor, more, hmore⟩ := Place.within_iff.mp hwithin
  obtain ⟨anchor, names⟩ := q
  obtain rfl : p.anchor = anchor := hanchor
  obtain rfl : p.names ++ more = names := hmore
  by_cases hnil : more = []
  · simpa [hnil] using hq
  · exact h.isDirectory_above more hnil (of_decide_eq_true hq)

theorem isLongName_of_isSilent {part : List Char} (h : isSilent part = true) :
    isLongName part = false := by
  simp only [isSilent, Bool.or_eq_true, decide_eq_true_eq] at h
  rcases h with rfl | rfl <;> decide

theorem Rooted.isLongName_of_enter (h : t.Rooted) {part : List Char} (hup : part ≠ ['.', '.'])
    {n : Node} (hn : t.node? (p.enter part) = some n) : isLongName part = false := by
  by_cases hsilent : isSilent part = true
  · exact isLongName_of_isSilent hsilent
  · rw [Place.enter_of_isName ⟨by simpa using hsilent, hup⟩] at hn
    exact h.short _ n hn part (by simp)

theorem follow_concat (t : Tree) (p : Place) (parts : List (List Char)) (part : List Char)
    (hparts : t.follow p parts = .ok q) (hq : t.isDirectory q = true)
    (hlong : isLongName part = false) (hthere : (t.node? (q.enter part)).isSome = true) :
    t.follow p (parts ++ [part]) = .ok (q.enter part) := by
  induction parts generalizing p with
  | nil =>
    obtain rfl := Except.ok.inj hparts
    exact follow_cons_eq_ok.mpr ⟨hq, hlong, hthere, rfl⟩
  | cons first parts ih =>
    obtain ⟨hp, hshort, hsome, hmore⟩ := follow_cons_eq_ok.mp hparts
    exact follow_cons_eq_ok.mpr ⟨hp, hshort, hsome, ih _ hmore⟩

/-- Parts without a step up are followed to a directory that is there. -/
theorem Rooted.follow_eq_ok (h : t.Rooted) {parts : List (List Char)} (hup : ['.', '.'] ∉ parts)
    (hend : t.isDirectory (parts.foldl Place.enter p) = true) :
    t.follow p parts = .ok (parts.foldl Place.enter p) := by
  induction parts generalizing p with
  | nil => rfl
  | cons part parts ih =>
    obtain ⟨hpart, hparts⟩ := not_or.mp (mt List.mem_cons.mpr hup)
    -- both the place and the one after it are above the end
    have hp := h.isDirectory_of_within (Place.within_foldl_enter hup p) hend
    have hnext := h.isDirectory_of_within (Place.within_foldl_enter hparts (p.enter part)) hend
    have hnode : t.node? (p.enter part) = some .directory := of_decide_eq_true hnext
    exact follow_cons_eq_ok.mpr ⟨hp, h.isLongName_of_enter (Ne.symm hpart) hnode, by simp [hnode], ih hparts hend⟩

/-- Something inside a directory shows that the directory is there: a path to it without a step up
leads to it. -/
theorem Rooted.contains_of_within (h : t.Rooted) {root : Path} {name : String}
    (hup : ['.', '.'] ∉ splitSlashes root.text.toList) (hslash : '/' ∉ name.toList)
    (hname : Place.IsName name.toList) (hlimit : Path.checkLimits (root.joinText name) = .ok ())
    {n : Node} (hwithin : (Place.ofPath (root.joinText name)).within p = true)
    (hn : t.node? p = some n) :
    t.contains (root.joinText name) = true := by
  have hrelative : (⟨name⟩ : Path).isAbsolute = false := by
    simp only [Path.isAbsolute, decide_eq_false_iff_not]
    exact fun hhead => hslash (List.mem_of_head? hhead)
  obtain ⟨front, hparts, horigin, hsub, hfront⟩ := Place.exists_splitSlashes_join root hrelative
  rw [splitSlashes_of_not_mem hslash] at hparts
  have hplace := Place.ofPath_joinText_name root hslash hname
  obtain ⟨hanchor, more, hmore⟩ := Place.within_iff.mp hwithin
  rw [hplace] at hanchor hmore
  obtain ⟨anchor, names⟩ := p
  obtain rfl : (Place.ofPath root).anchor = anchor := hanchor
  obtain rfl : (Place.ofPath root).names ++ [name.toList] ++ more = names := hmore
  -- the root of the path is a directory, and there is something of the name in it
  have hroot : t.isDirectory (Place.ofPath root) = true := by
    rw [List.append_assoc] at hn
    exact h.isDirectory_above _ (by simp) hn
  have hthere : ∃ m, t.node? ((Place.ofPath root).enter name.toList) = some m := by
    rw [Place.enter_of_isName hname]
    by_cases hnil : more = []
    · exact ⟨n, by simpa [hnil] using hn⟩
    · exact ⟨.directory, of_decide_eq_true (h.isDirectory_above more hnil hn)⟩
  obtain ⟨m, hm⟩ := hthere
  have hfollow : t.follow (.origin root) front = .ok (Place.ofPath root) := by
    rw [Place.ofPath, ← hfront] at hroot ⊢
    exact h.follow_eq_ok (fun hmem => hup (hsub hmem)) hroot
  have htext : (root.joinText name).text ≠ "" := by
    intro hempty
    rw [show (root.join ⟨name⟩).text = "" from hempty] at hparts
    have hone : name.toList = [] := by
      have := congrArg List.getLast? hparts
      simpa [splitSlashes] using this.symm
    rw [hone] at hname
    exact absurd hname.1 (by decide)
  unfold contains find
  rw [hlimit]
  simp only [htext, if_false, bind, Except.bind]
  rw [Path.joinText, hparts, horigin, follow_concat t _ front _ hfollow hroot
    (h.isLongName_of_enter hname.2 hm) (by simp [hm])]

end Tree

end Packwright.File
