import Mathlib.Data.List.DropRight
import Mathlib.Logic.Unique
import Packwright.Proofs.File.Changes
import Packwright.Proofs.File.Places

/-!
# Written files are read again

A path that ends in a name has a parent, which leads to the place above that of the path: whatever stands in
front of the name is kept, save for parts at its end that say nothing.

A file can be written at a path that leads to a directory up to its last part, if this part is a name
and no directory has it. The text does not matter, and nothing on the way is changed; so the path leads to
the file afterwards.

## Main definitions

- `Tree.Receives` — a path at which a file can be written, by its parts
- `Tree.Writable` — a text can be written at a path

## Main results

- `foldl_enter_splitSlashes_joinSlashes` — parts that are joined lead where they led before
- `Path.exists_parent` — the path of the directory above a name
- `Tree.write_eq_ok_iff` — where a file can be written, and what comes of it
- `Tree.Writable.exists_write` — any other text can be written there too
- `Tree.Writable.exists_parent` — the directory that the file lies in
- `Tree.read_of_write` — what is written is read again
-/

namespace Packwright.File

section

/-! ### Paths of the directories above -/

variable {parts before : List (List Char)} {part name : List Char} {p : Path}

/-- Parts that are joined are found again, unless there are none. -/
theorem splitSlashes_joinSlashes (hne : parts ≠ []) (h : ∀ part ∈ parts, '/' ∉ part) :
    splitSlashes (joinSlashes parts) = parts := by
  induction parts with
  | nil => exact absurd rfl hne
  | cons part parts ih =>
    obtain ⟨hpart, hparts⟩ := List.forall_mem_cons.mp h
    cases parts with
    | nil => exact splitSlashes_of_not_mem hpart
    | cons next parts =>
      rw [joinSlashes, splitSlashes_append, splitSlashes_of_not_mem hpart, ih (by simp) hparts]
      · rfl
      · simp

theorem foldl_enter_splitSlashes_joinSlashes (h : ∀ part ∈ parts, '/' ∉ part) (q : Place) :
    (splitSlashes (joinSlashes parts)).foldl Place.enter q = parts.foldl Place.enter q := by
  by_cases hne : parts = []
  · rw [hne]
    exact q.enter_nil
  · rw [splitSlashes_joinSlashes hne h]

theorem trimParts_eq_rdropWhile (parts : List (List Char)) : trimParts parts = parts.rdropWhile isSilent := rfl

theorem trimParts_concat (h : isSilent part = false) : trimParts (before ++ [part]) = before ++ [part] :=
  List.rdropWhile_concat_neg isSilent before part (by simp [h])

/-- Parts at the end that say nothing lead nowhere. -/
theorem foldl_enter_trimParts (parts : List (List Char)) (q : Place) :
    (trimParts parts).foldl Place.enter q = parts.foldl Place.enter q := by
  induction parts using List.reverseRecOn with
  | nil => rfl
  | append_singleton parts part ih =>
    by_cases hsilent : isSilent part = true
    · rw [trimParts_eq_rdropWhile, List.rdropWhile_concat_pos _ _ _ hsilent, ← trimParts_eq_rdropWhile, ih,
        List.foldl_append, List.foldl_cons, List.foldl_nil, Place.enter_of_isSilent hsilent]
    · rw [trimParts_concat (by simpa using hsilent)]

theorem mem_of_mem_trimParts (h : part ∈ trimParts parts) : part ∈ parts :=
  (List.rdropWhile_prefix isSilent parts).subset h

theorem mem_head?_of_mem_trimParts (h : part ∈ (trimParts parts).head?) : part ∈ parts.head? := by
  obtain ⟨more, hparts⟩ := List.rdropWhile_prefix isSilent parts
  rw [← hparts, List.head?_append, Option.mem_def]
  rw [trimParts_eq_rdropWhile, Option.mem_def] at h
  rw [h]
  rfl

/-- The first part of a text that does not begin with a slash is not empty. -/
theorem head?_splitSlashes_ne_nil {cs : List Char} (hne : cs ≠ []) (hhead : cs.head? ≠ some '/') :
    ∀ part ∈ (splitSlashes cs).head?, part ≠ [] := by
  obtain ⟨c, rest, rfl⟩ := List.exists_cons_of_ne_nil hne
  obtain ⟨first, parts, hparts⟩ := List.exists_cons_of_ne_nil (splitSlashes_ne_nil rest)
  have hc : c ≠ '/' := fun hc => hhead (congrArg some hc)
  simp [splitSlashes, hc, hparts]

namespace Path

/-- A path is cut behind a slash or a dot at its start, which says nothing more than where it starts. -/
theorem cut_cases (p : Path) :
    (∃ rest, p.text.toList = '/' :: rest ∧ p.cut = (['/'], splitSlashes rest)) ∨
      p.text.toList = ['.'] ∨
      (∃ rest, p.text.toList = '.' :: '/' :: rest ∧ p.cut = (['.'], [] :: splitSlashes rest)) ∨
      p.text.toList.head? ≠ some '/' ∧ p.cut = ([], splitSlashes p.text.toList) := by
  unfold cut
  split
  · next rest heq => exact .inl ⟨rest, heq, rfl⟩
  · next heq => exact .inr (.inl heq)
  · next rest heq => exact .inr (.inr (.inl ⟨rest, heq, rfl⟩))
  · next hslash _ _ =>
    refine .inr (.inr (.inr ⟨fun hhead => ?_, rfl⟩))
    obtain ⟨rest, heq⟩ := List.head?_eq_some_iff.mp hhead
    exact hslash rest heq

/-- The parent of a path whose parts end in a name. -/
theorem parent?_of_cut {lead : List Char} (hcut : p.cut = (lead, before ++ [name]))
    (hname : isSilent name = false) : p.parent? = some (ofCut lead (trimParts before)) := by
  unfold parent?
  rw [hcut]
  simp only [trimParts_concat hname]
  split
  · next heq => exact absurd heq (by simp)
  · rw [List.dropLast_concat]

/-! ### Paths that are put together -/

theorem ofPath_ofCut_root (h : ∀ part ∈ parts, '/' ∉ part) :
    Place.ofPath (ofCut ['/'] parts) = parts.foldl Place.enter ⟨.root, []⟩ := by
  rw [← foldl_enter_splitSlashes_joinSlashes h]
  simp [Place.ofPath, ofCut, splitSlashes, Place.origin, isAbsolute, Place.enter_nil]

theorem ofPath_ofCut_here (h : ∀ part ∈ parts, '/' ∉ part) (hhead : ∀ part ∈ parts.head?, part = []) :
    Place.ofPath (ofCut ['.'] parts) = parts.foldl Place.enter {} := by
  have hdot : Place.enter {} ['.'] = {} := Place.enter_of_isSilent rfl {}
  rcases parts with _ | ⟨part, parts⟩
  · rfl
  obtain rfl := hhead part rfl
  obtain ⟨-, hparts⟩ := List.forall_mem_cons.mp h
  rw [List.foldl_cons, Place.enter_nil, ← foldl_enter_splitSlashes_joinSlashes hparts]
  rcases parts with _ | ⟨next, parts⟩
  · rfl
  · simp [Place.ofPath, ofCut, joinSlashes, splitSlashes, Place.origin, isAbsolute, hdot]

theorem ofPath_ofCut_nil (h : ∀ part ∈ parts, '/' ∉ part) (hhead : ∀ part ∈ parts.head?, part ≠ []) :
    Place.ofPath (ofCut [] parts) = parts.foldl Place.enter {} := by
  rw [← foldl_enter_splitSlashes_joinSlashes h]
  have hrelative : (joinSlashes parts).head? ≠ some '/' := by
    rcases parts with _ | ⟨_ | ⟨c, part⟩, parts⟩
    · simp [joinSlashes]
    · exact absurd rfl (hhead [] rfl)
    · have hc : c ≠ '/' := fun hc => h _ List.mem_cons_self (hc ▸ List.mem_cons_self)
      cases parts <;> simpa [joinSlashes] using hc
  simp [Place.ofPath, ofCut, Place.origin, isAbsolute, hrelative]

theorem exists_cons_of_splitSlashes {rest : List Char} (heq : part :: splitSlashes rest = before ++ [name]) :
    ∃ more, before = part :: more ∧ splitSlashes rest = more ++ [name] := by
  cases before with
  | nil => exact absurd (List.cons.inj heq).2 (splitSlashes_ne_nil rest)
  | cons first more =>
    obtain ⟨rfl, hmore⟩ := List.cons.inj heq
    exact ⟨more, rfl, hmore⟩

/-- The path of the directory above a name. -/
theorem exists_parent (hparts : splitSlashes p.text.toList = before ++ [name]) (hname : Place.IsName name) :
    ∃ parent, p.parent? = some parent ∧ Place.ofPath parent = before.foldl Place.enter (.origin p) := by
  have hslash : ∀ part ∈ before, '/' ∉ part := by
    intro part hpart hmem
    have hthere : part ∈ splitSlashes p.text.toList := hparts ▸ List.mem_append_left _ hpart
    exact (mem_of_mem_splitSlashes hthere hmem).2 rfl
  obtain ⟨rest, htext, hcut⟩ | htext | ⟨rest, htext, hcut⟩ | ⟨hrelative, hcut⟩ := p.cut_cases
  · rw [htext, splitSlashes, if_pos rfl] at hparts
    obtain ⟨more, rfl, hrest⟩ := exists_cons_of_splitSlashes hparts
    obtain ⟨-, hmore⟩ := List.forall_mem_cons.mp hslash
    rw [hrest] at hcut
    refine ⟨_, parent?_of_cut hcut hname.1, ?_⟩
    rw [ofPath_ofCut_root fun part hpart => hmore part (mem_of_mem_trimParts hpart), foldl_enter_trimParts,
      List.foldl_cons, Place.enter_nil]
    simp [Place.origin, isAbsolute, htext]
  · rw [htext] at hparts
    obtain rfl : name = ['.'] := by
      have hlast := congrArg List.getLast? hparts
      simpa [splitSlashes, eq_comm] using hlast
    exact absurd hname.1 (by decide)
  · have hdot : splitSlashes p.text.toList = ['.'] :: splitSlashes rest := by
      rw [htext]
      rfl
    rw [hdot] at hparts
    obtain ⟨more, rfl, hrest⟩ := exists_cons_of_splitSlashes hparts
    obtain ⟨-, hmore⟩ := List.forall_mem_cons.mp hslash
    rw [hrest] at hcut
    have hslash' : ∀ part ∈ [] :: more, '/' ∉ part := List.forall_mem_cons.mpr ⟨List.not_mem_nil, hmore⟩
    refine ⟨_, @parent?_of_cut ([] :: more) name p _ hcut hname.1, ?_⟩
    rw [ofPath_ofCut_here (fun part hpart => hslash' part (mem_of_mem_trimParts hpart))
      fun part hpart => (Option.some.inj (mem_head?_of_mem_trimParts hpart)).symm, foldl_enter_trimParts,
      List.foldl_cons, List.foldl_cons, Place.enter_nil, Place.enter_of_isSilent rfl]
    simp [Place.origin, isAbsolute, htext]
  · have hne : p.text.toList ≠ [] := by
      intro hempty
      rw [hempty] at hparts
      obtain rfl : name = [] := by
        have hlast := congrArg List.getLast? hparts
        simpa [splitSlashes, eq_comm] using hlast
      exact absurd hname.1 (by decide)
    have hfirst : ∀ part ∈ before.head?, part ≠ [] := by
      intro part hpart
      refine head?_splitSlashes_ne_nil hne hrelative part ?_
      rw [hparts, List.head?_append, Option.mem_def.mp hpart]
      rfl
    rw [hparts] at hcut
    refine ⟨_, parent?_of_cut hcut hname.1, ?_⟩
    rw [ofPath_ofCut_nil (fun part hpart => hslash part (mem_of_mem_trimParts hpart))
      fun part hpart => hfirst part (mem_head?_of_mem_trimParts hpart), foldl_enter_trimParts]
    simp [Place.origin, isAbsolute, hrelative]

end Path

end

/-- The last part of a text is only empty if the text is, or ends in a slash. -/
theorem exists_splitSlashes_concat {cs : List Char} (hne : cs ≠ []) (hlast : cs.getLast? ≠ some '/') :
    ∃ before part, splitSlashes cs = before ++ [part] ∧ part ≠ [] := by
  obtain ⟨front, c, rfl⟩ := (List.eq_nil_or_concat cs).resolve_left hne
  have hc : '/' ∉ [c] := by
    rintro hmem
    obtain rfl := List.mem_singleton.mp hmem
    exact hlast (by simp)
  obtain ⟨before, last, -, hparts⟩ := exists_splitSlashes_append front hc
  exact ⟨before, last ++ [c], by simpa using hparts, by simp⟩

namespace Tree

variable {t t' : Tree} {path : Path} {p q r : Place} {before parts : List (List Char)} {part name : List Char}

/-! ### The way to a place -/

/-- Everything above a place is a directory. -/
def Above (t : Tree) (p : Place) : Prop :=
  ∀ names, names <+: p.names → names ≠ p.names → t.isDirectory ⟨p.anchor, names⟩ = true

theorem above_of_names_eq_nil (h : p.names = []) : t.Above p := by
  intro names hfront hne
  rw [h] at hfront hne
  exact absurd (List.prefix_nil.mp hfront) hne

theorem Above.isDirectory_parent (h : t.Above p) : t.isDirectory p.parent = true := by
  unfold Place.parent
  split
  · rfl
  · next hnames =>
    refine h _ (List.dropLast_prefix _) fun heq => ?_
    have hlength := congrArg List.length heq
    rw [List.length_dropLast] at hlength
    have hpos := List.length_pos_iff.mpr hnames
    omega

theorem Above.parent (h : t.Above p) : t.Above p.parent := by
  unfold Place.parent
  split
  · exact above_of_names_eq_nil rfl
  · refine fun names hfront hne => h names (hfront.trans (List.dropLast_prefix _)) ?_
    rintro rfl
    exact hne (hfront.eq_of_length_le (by simp))

theorem Above.enter (h : t.Above p) (hp : t.isDirectory p = true) (part : List Char) :
    t.Above (p.enter part) := by
  unfold Place.enter
  split
  · exact h
  split
  · exact h.parent
  · intro names hfront hne
    have habove := (List.prefix_concat_iff.mp hfront).resolve_left hne
    by_cases hnames : names = p.names
    · rw [hnames]
      exact hp
    · exact h names habove hnames

/-- What is followed stays below directories. -/
theorem Above.follow (h : t.Above p) (hfollow : t.follow p parts = .ok q) : t.Above q := by
  induction parts generalizing p with
  | nil => exact Except.ok.inj hfollow ▸ h
  | cons part parts ih =>
    obtain ⟨hp, -, -, hmore⟩ := follow_cons_eq_ok.mp hfollow
    exact ih (h.enter hp part) hmore

/-! ### Where files can be written -/

/-- A file can be written at a path with these parts: it leads to a directory up to the last one, and this is
a name that no directory has. -/
structure Receives (t : Tree) (path : Path) (before : List (List Char)) (name : List Char) (p : Place) :
    Prop where
  limit : path.checkLimits = .ok ()
  parts : splitSlashes path.text.toList = before ++ [name]
  follow : t.follow (.origin path) before = .ok p
  directory : t.isDirectory p = true
  isName : Place.IsName name
  short : isLongName name = false
  free : t.isDirectory (p.enter name) = false

/-- A text can be written at a path. -/
def Writable (t : Tree) (path : Path) : Prop := ∃ s t', t.write path s = .ok t'

theorem Receives.ne_nil (h : t.Receives path before name p) : name ≠ [] := by
  rintro rfl
  exact absurd h.isName.1 (by decide)

theorem lastPart_concat (hpart : part ≠ []) : lastPart (before ++ [part]) = some (before, part) := by
  have hkeep : (part :: before.reverse).dropWhile (· = []) = part :: before.reverse :=
    List.dropWhile_cons_of_neg (by simpa using hpart)
  simp [lastPart, hkeep]

theorem newPlace_eq_ok_iff (hparts : splitSlashes path.text.toList = before ++ [part]) (hpart : part ≠ []) :
    t.newPlace path = .ok q ↔ path.checkLimits = .ok () ∧
      ∃ p, t.follow (.origin path) before = .ok p ∧ t.isDirectory p = true ∧ p.enter part = q := by
  unfold newPlace
  rw [hparts, lastPart_concat hpart]
  simp [bind_eq_ok_iff, guard_eq_ok_iff, pure, Except.pure, Unique.exists_iff]

theorem hasLongName_enter (h : Place.IsName name) (p : Place) :
    (p.enter name).hasLongName = isLongName name := by
  rw [Place.enter_of_isName h]
  simp [Place.hasLongName]

/-- Where a file can be written, and what comes of it. -/
theorem write_eq_ok_iff {s : String} : t.write path s = .ok t' ↔
    ∃ before name p, t.Receives path before name p ∧ t.put (p.enter name) (.file (.text s)) = t' := by
  rw [write_eq_ok_iff_newPlace]
  constructor
  · rintro ⟨q, hplace, hfree, hslash, hlong, rfl⟩
    have hne : path.text.toList ≠ [] := by
      intro hempty
      have hplace' := hplace
      unfold newPlace at hplace'
      rw [checkLimits_of_newPlace hplace, hempty] at hplace'
      simp [splitSlashes, lastPart, Path.isAbsolute, hempty, bind, Except.bind] at hplace'
    obtain ⟨before, name, hparts, hname⟩ := exists_splitSlashes_concat hne hslash
    obtain ⟨hlimit, p, hfollow, hp, rfl⟩ := (newPlace_eq_ok_iff hparts hname).mp hplace
    have hisName : Place.IsName name := by
      refine ⟨?_, fun hup => ?_⟩
      · by_contra hsilent
        rw [Place.enter_of_isSilent (by simpa using hsilent), hp] at hfree
        cases hfree
      · -- the directory above is there as well
        have habove : t.Above p := Above.follow (above_of_names_eq_nil rfl) hfollow
        have henter : p.enter name = p.parent := by
          rw [hup]
          rfl
        rw [henter, habove.isDirectory_parent] at hfree
        cases hfree
    rw [hasLongName_enter hisName] at hlong
    exact ⟨before, name, p, ⟨hlimit, hparts, hfollow, hp, hisName, hlong, hfree⟩, rfl⟩
  · rintro ⟨before, name, p, h, rfl⟩
    have hname := h.ne_nil
    refine ⟨p.enter name, (newPlace_eq_ok_iff h.parts hname).mpr ⟨h.limit, p, h.follow, h.directory, rfl⟩,
      h.free, fun hslash => ?_, (hasLongName_enter h.isName p).trans h.short, rfl⟩
    obtain ⟨front, hfront⟩ := List.getLast?_eq_some_iff.mp hslash
    have hlast := congrArg List.getLast? h.parts
    rw [hfront, splitSlashes_append] at hlast
    simp [splitSlashes, hname.symm] at hlast

/-- Any other text can be written there too. -/
theorem Writable.exists_write (h : t.Writable path) (s : String) : ∃ t', t.write path s = .ok t' := by
  obtain ⟨s', t', hwrite⟩ := h
  obtain ⟨before, name, p, hreceives, -⟩ := write_eq_ok_iff.mp hwrite
  exact ⟨_, write_eq_ok_iff.mpr ⟨before, name, p, hreceives, rfl⟩⟩

/-- The parent of the path leads to the directory that the file lies in. -/
theorem Writable.exists_parent (h : t.Writable path) : ∃ parent, path.parent? = some parent ∧
    Place.ofPath parent = (Place.ofPath path).parent ∧ t.isDirectory (.ofPath parent) = true := by
  obtain ⟨s, t', hwrite⟩ := h
  obtain ⟨before, name, p, hreceives, -⟩ := write_eq_ok_iff.mp hwrite
  obtain ⟨parent, hparent, hplace⟩ := Path.exists_parent hreceives.parts hreceives.isName
  obtain rfl := place_of_follow hreceives.follow
  refine ⟨parent, hparent, ?_, hplace ▸ hreceives.directory⟩
  have hpath : Place.ofPath path = (before.foldl Place.enter (.origin path)).enter name := by
    rw [Place.ofPath, hreceives.parts, List.foldl_append]
    rfl
  rw [hplace, hpath, Place.enter_of_isName hreceives.isName]
  simp [Place.parent]

/-! ### What is read -/

theorem isDirectory_put (hr : t.isDirectory r = false) (n : Node) (h : t.isDirectory q = true) :
    (t.put r n).isDirectory q = true := by
  have hne : q ≠ r := by
    rintro rfl
    rw [h] at hr
    cases hr
  rwa [isDirectory, node?_put (names_ne_nil_of_not_isDirectory hr), if_neg hne]

/-- What is put where there is no directory is on no way to anything else. -/
theorem follow_put (hr : t.isDirectory r = false) (n : Node) (h : t.follow p parts = .ok q) :
    (t.put r n).follow p parts = .ok q := by
  induction parts generalizing p with
  | nil => exact h
  | cons part parts ih =>
    obtain ⟨hp, hshort, hthere, hmore⟩ := follow_cons_eq_ok.mp h
    refine follow_cons_eq_ok.mpr ⟨isDirectory_put hr n hp, hshort, ?_, ih hmore⟩
    rw [node?_put (names_ne_nil_of_not_isDirectory hr)]
    split
    · rfl
    · exact hthere

theorem Receives.text_ne_empty (h : t.Receives path before name p) : path.text ≠ "" := by
  intro hempty
  have hlast := congrArg List.getLast? h.parts
  rw [hempty] at hlast
  simp [splitSlashes, h.ne_nil.symm] at hlast

/-- The path leads to what is put there. -/
theorem Receives.find_put (h : t.Receives path before name p) (n : Node) :
    (t.put (p.enter name) n).find path = .ok (p.enter name) := by
  have hthere : ((t.put (p.enter name) n).node? (p.enter name)).isSome = true := by
    rw [node?_put (names_ne_nil_of_not_isDirectory h.free), if_pos rfl]
    rfl
  have hfollow := follow_concat _ _ before name (follow_put h.free n h.follow)
    (isDirectory_put h.free n h.directory) h.short hthere
  unfold find
  rw [h.limit, h.parts]
  simpa [h.text_ne_empty, bind, Except.bind, pure, Except.pure] using hfollow

/-- What is written at a path is read there again. -/
theorem read_of_write {s : String} (h : t.write path s = .ok t') :
    t'.read path = .ok (.ofPath path, s) := by
  obtain ⟨before, name, p, hreceives, rfl⟩ := write_eq_ok_iff.mp h
  have hnode := node?_put (t := t) (names_ne_nil_of_not_isDirectory hreceives.free) (.file (.text s))
    (p.enter name)
  rw [if_pos rfl] at hnode
  have hfind := hreceives.find_put (.file (.text s))
  rw [← place_of_find hfind, read, hfind]
  simp only [bind, Except.bind, hnode]
  rfl

end Tree

end Packwright.File
