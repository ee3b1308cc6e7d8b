import Mathlib.Data.List.TakeWhile
import Packwright.File.Tree

/-!
# Places of paths

The parts of a path lead to one place, whether or not there is anything. A path behind another one
leads on from the place of that one, unless it starts at the root. Nothing but a step up leaves a
directory. Operations that find something at a path, or make something there, do so at its place.

## Main results

- `splitSlashes_append`, `exists_splitSlashes_append` — the parts of longer texts
- `Place.exists_splitSlashes_join`, `Place.ofPath_join` — a path behind another one
- `Place.within_foldl_enter` — parts without a step up stay inside
- `Tree.place_of_find`, `Tree.place_of_newPlace` — where operations work
-/

namespace Packwright.File

/-! ### Steps that may fail -/

section

variable {ε α β : Type} {b : β}

theorem bind_eq_ok_iff {x : Except ε α} {f : α → Except ε β} :
    (x >>= f) = .ok b ↔ ∃ a, x = .ok a ∧ f a = .ok b := by
  cases x with
  | error e => simp [bind, Except.bind]
  | ok a => simp [bind, Except.bind]

/-- What comes behind a guard is only done if it lets through. -/
theorem guard_eq_ok_iff {c : Prop} [Decidable c] {e : ε} {f : α → Except ε β} {x : Except ε β} :
    (if c then throw e >>= f else x) = .ok b ↔ ¬c ∧ x = .ok b := by
  by_cases hc : c
  · simp [hc, throw, throwThe, MonadExceptOf.throw, bind, Except.bind]
  · simp [hc]

end

/-! ### Parts of a text -/

theorem splitSlashes_ne_nil (cs : List Char) : splitSlashes cs ≠ [] := by
  cases cs with
  | nil => simp [splitSlashes]
  | cons c rest =>
    unfold splitSlashes
    split
    · simp
    · split <;> simp

/-- A slash divides the parts. -/
theorem splitSlashes_append (xs ys : List Char) :
    splitSlashes (xs ++ '/' :: ys) = splitSlashes xs ++ splitSlashes ys := by
  induction xs with
  | nil => simp [splitSlashes]
  | cons c xs ih =>
    by_cases hc : c = '/'
    · simp [splitSlashes, hc, ih]
    · obtain ⟨part, parts, hparts⟩ := List.exists_cons_of_ne_nil (splitSlashes_ne_nil xs)
      simp [splitSlashes, hc, ih, hparts]

theorem splitSlashes_of_not_mem {cs : List Char} (h : '/' ∉ cs) : splitSlashes cs = [cs] := by
  induction cs with
  | nil => rfl
  | cons c cs ih =>
    obtain ⟨hc, hcs⟩ := not_or.mp (mt List.mem_cons.mpr h)
    simp [splitSlashes, Ne.symm hc, ih hcs]

/-- What has no slash belongs to the last part. -/
theorem exists_splitSlashes_append (xs : List Char) {ys : List Char} (h : '/' ∉ ys) :
    ∃ parts last, splitSlashes xs = parts ++ [last] ∧
      splitSlashes (xs ++ ys) = parts ++ [last ++ ys] := by
  induction xs with
  | nil => exact ⟨[], [], rfl, splitSlashes_of_not_mem h⟩
  | cons c xs ih =>
    obtain ⟨parts, last, hxs, hall⟩ := ih
    by_cases hc : c = '/'
    · exact ⟨[] :: parts, last, by simp [splitSlashes, hc, hxs], by simp [splitSlashes, hc, hall]⟩
    · cases parts with
      | nil =>
        exact ⟨[], c :: last, by simp [splitSlashes, hc, hxs], by simp [splitSlashes, hc, hall]⟩
      | cons part parts =>
        exact ⟨(c :: part) :: parts, last, by simp [splitSlashes, hc, hxs],
          by simp [splitSlashes, hc, hall]⟩

/-- Parts joined with slashes are the text that they come from. -/
theorem joinSlashes_splitSlashes (cs : List Char) : joinSlashes (splitSlashes cs) = cs := by
  induction cs with
  | nil => rfl
  | cons c cs ih =>
    obtain ⟨part, parts, hparts⟩ := List.exists_cons_of_ne_nil (splitSlashes_ne_nil cs)
    rw [hparts] at ih
    by_cases hc : c = '/'
    · simp [splitSlashes, hc, hparts, joinSlashes, ih]
    · cases parts with
      | nil => simpa [splitSlashes, hc, hparts, joinSlashes] using ih
      | cons next parts => simpa [splitSlashes, hc, hparts, joinSlashes] using ih

theorem splitSlashes_inj {cs ds : List Char} (h : splitSlashes cs = splitSlashes ds) : cs = ds := by
  rw [← joinSlashes_splitSlashes cs, h, joinSlashes_splitSlashes]

/-- The characters of a part are those of the text, slashes apart. -/
theorem mem_of_mem_splitSlashes {cs part : List Char} {c : Char} (hpart : part ∈ splitSlashes cs)
    (hc : c ∈ part) : c ∈ cs ∧ c ≠ '/' := by
  induction cs generalizing part with
  | nil =>
    rw [List.mem_singleton.mp hpart] at hc
    cases hc
  | cons d cs ih =>
    by_cases hd : d = '/'
    · simp only [splitSlashes, hd, if_true, List.mem_cons] at hpart
      rcases hpart with rfl | hpart
      · cases hc
      · exact (ih hpart hc).imp_left (List.mem_cons_of_mem d)
    · obtain ⟨first, parts, hparts⟩ := List.exists_cons_of_ne_nil (splitSlashes_ne_nil cs)
      simp only [splitSlashes, hd, if_false, hparts, List.mem_cons] at hpart
      rw [hparts] at ih
      rcases hpart with rfl | hpart
      · rcases List.mem_cons.mp hc with rfl | hc
        · exact ⟨List.mem_cons_self, hd⟩
        · exact (ih List.mem_cons_self hc).imp_left (List.mem_cons_of_mem d)
      · exact (ih (List.mem_cons_of_mem _ hpart) hc).imp_left (List.mem_cons_of_mem d)

/-! ### Limits of paths -/

theorem Path.checkLimits_eq_ok {p : Path} : p.checkLimits = .ok () ↔
    (∀ c ∈ p.text.toList, c.toNat ≠ 0) ∧ Text.byteLength p.text.toList ≤ 4095 := by
  unfold Path.checkLimits
  split
  · next hzero =>
    obtain ⟨c, hc, hnull⟩ := List.any_eq_true.mp hzero
    simp only [reduceCtorEq, false_iff, not_and]
    exact fun hall => absurd (of_decide_eq_true hnull) (hall c hc)
  · next hzero =>
    have hall : ∀ c ∈ p.text.toList, c.toNat ≠ 0 :=
      fun c hc hnull => hzero (List.any_eq_true.mpr ⟨c, hc, decide_eq_true hnull⟩)
    rw [and_iff_right hall]
    split
    · next hlong => simpa using hlong
    · next hlong => simpa using hlong

theorem byteLength_le_append (xs ys : List Char) :
    Text.byteLength xs ≤ Text.byteLength (xs ++ ys) := by
  induction xs with
  | nil => exact Nat.zero_le _
  | cons c xs ih => exact Nat.add_le_add_left ih c.utf8Size

/-- A path that leads on from another one is no shorter. -/
theorem Path.checkLimits_of_joinText {p : Path} {s : String} (hs : s.toList.head? ≠ some '/')
    (h : Path.checkLimits (p.joinText s) = .ok ()) : p.checkLimits = .ok () := by
  have hprefix : p.text.toList <+: (p.joinText s).text.toList := by
    have hrelative : (⟨s⟩ : Path).isAbsolute = false := by simpa [isAbsolute] using hs
    unfold joinText join
    rw [hrelative, Bool.false_or]
    split
    · next hempty => simp [of_decide_eq_true hempty]
    · split <;> simp [String.append_assoc]
  obtain ⟨rest, hrest⟩ := hprefix
  rw [checkLimits_eq_ok, ← hrest] at h
  rw [checkLimits_eq_ok]
  exact ⟨fun c hc => h.1 c (List.mem_append_left _ hc), (byteLength_le_append _ _).trans h.2⟩

/-! ### Places -/

namespace Place

/-- A name is none of the parts that say nothing, and no step up. -/
def IsName (part : List Char) : Prop := isSilent part = false ∧ part ≠ ['.', '.']

theorem enter_of_isSilent {part : List Char} (h : isSilent part = true) (p : Place) :
    p.enter part = p :=
  if_pos h

theorem enter_nil (p : Place) : p.enter [] = p := enter_of_isSilent rfl p

theorem enter_of_isName {part : List Char} (h : IsName part) (p : Place) :
    p.enter part = ⟨p.anchor, p.names ++ [part]⟩ := by
  rw [enter, if_neg (by simp [h.1]), if_neg h.2]

theorem foldl_enter_names {parts : List (List Char)} (h : ∀ part ∈ parts, IsName part) (p : Place) :
    parts.foldl enter p = ⟨p.anchor, p.names ++ parts⟩ := by
  induction parts generalizing p with
  | nil => simp
  | cons part parts ih =>
    obtain ⟨hpart, hparts⟩ := List.forall_mem_cons.mp h
    rw [List.foldl_cons, enter_of_isName hpart, ih hparts]
    simp

/-- Parts that say nothing change nothing. -/
theorem foldl_enter_filter (parts : List (List Char)) (p : Place) :
    parts.foldl enter p = (parts.filter (!isSilent ·)).foldl enter p := by
  induction parts generalizing p with
  | nil => rfl
  | cons part parts ih =>
    by_cases hpart : isSilent part = true
    · rw [List.foldl_cons, enter_of_isSilent hpart, List.filter_cons_of_neg (by simp [hpart]), ih]
    · rw [List.foldl_cons, List.filter_cons_of_pos (by simpa using hpart), List.foldl_cons, ih]

/-- A path behind another one starts where that one starts, and has its own parts at the end. -/
theorem exists_splitSlashes_join (p : Path) {q : Path} (hq : q.isAbsolute = false) :
    ∃ front, splitSlashes (p.join q).text.toList = front ++ splitSlashes q.text.toList ∧
      origin (p.join q) = origin p ∧ front ⊆ splitSlashes p.text.toList ∧
      ∀ start, front.foldl enter start = (splitSlashes p.text.toList).foldl enter start := by
  have horigin : ∀ text : String, p.text.toList <+: text.toList → p.text ≠ "" →
      origin ⟨text⟩ = origin p := by
    intro text hprefix hne
    have hhead : text.toList.head? = p.text.toList.head? := by
      obtain ⟨rest, hrest⟩ := hprefix
      obtain ⟨c, cs, hcs⟩ := List.exists_cons_of_ne_nil
        (fun h => hne (String.toList_inj.mp (h.trans rfl)) : p.text.toList ≠ [])
      rw [← hrest, hcs]
      rfl
    simp [origin, Path.isAbsolute, hhead]
  unfold Path.join
  by_cases hempty : p.text = ""
  · refine ⟨[], by simp [hempty], ?_, List.nil_subset _, fun start => ?_⟩
    · simp only [hempty, decide_true, Bool.or_true, if_true, origin, hq]
      simp [Path.isAbsolute, hempty]
    · simp [hempty, splitSlashes, enter_nil]
  · simp only [hq, hempty, decide_false, Bool.or_self, Bool.false_eq_true, if_false]
    by_cases hlast : p.text.toList.getLast? = some '/'
    · -- the slash at the end leaves an empty part behind it
      rw [if_pos hlast]
      obtain ⟨front, hfront⟩ := List.getLast?_eq_some_iff.mp hlast
      have hp : splitSlashes p.text.toList = splitSlashes front ++ [[]] := by
        rw [hfront, splitSlashes_append]
        rfl
      refine ⟨splitSlashes front, ?_, horigin _ (by simp) hempty, ?_, fun start => ?_⟩
      · rw [String.toList_append, hfront, List.append_assoc, List.singleton_append,
          splitSlashes_append]
      · rw [hp]
        exact List.subset_append_left ..
      · rw [hp, List.foldl_append, List.foldl_cons, List.foldl_nil, enter_nil]
    · rw [if_neg hlast]
      refine ⟨splitSlashes p.text.toList, ?_, ?_, List.Subset.refl _, fun _ => rfl⟩
      · have hwhole : (p.text ++ "/" ++ q.text).toList = p.text.toList ++ '/' :: q.text.toList := by
          simp
        rw [hwhole, splitSlashes_append]
      · exact horigin _ (by simp [String.append_assoc]) hempty

/-- The place of a path behind another one. -/
theorem ofPath_join (p q : Path) : ofPath (p.join q) =
    if q.isAbsolute then ofPath q else (splitSlashes q.text.toList).foldl enter (ofPath p) := by
  by_cases hq : q.isAbsolute = true
  · rw [if_pos hq, Path.join, if_pos (by simp [hq])]
  · rw [if_neg hq]
    obtain ⟨front, hparts, horigin, -, hfront⟩ :=
      exists_splitSlashes_join p (Bool.eq_false_iff.mpr hq)
    rw [ofPath, hparts, horigin, List.foldl_append, hfront, ofPath]

/-- The place of a text behind a path. -/
theorem ofPath_joinText (p : Path) (s : String) : ofPath (p.joinText s) =
    if s.toList.head? = some '/' then ofPath ⟨s⟩
    else (splitSlashes s.toList).foldl enter (ofPath p) := by
  rw [Path.joinText, ofPath_join]
  simp [Path.isAbsolute]

/-- The place of a single name behind a path. -/
theorem ofPath_joinText_name (p : Path) {s : String} (hslash : '/' ∉ s.toList)
    (hname : IsName s.toList) :
    ofPath (p.joinText s) = ⟨(ofPath p).anchor, (ofPath p).names ++ [s.toList]⟩ := by
  have hhead : s.toList.head? ≠ some '/' := fun h => hslash (List.mem_of_head? h)
  rw [ofPath_joinText, if_neg hhead, splitSlashes_of_not_mem hslash, List.foldl_cons, List.foldl_nil,
    enter_of_isName hname]

/-! ### Inside of places -/

theorem within_iff {outer p : Place} :
    outer.within p = true ↔ outer.anchor = p.anchor ∧ outer.names <+: p.names := by
  simp [within]

theorem within_refl (p : Place) : p.within p = true := within_iff.mpr ⟨rfl, List.prefix_refl _⟩

theorem within_trans {p q r : Place} (h : p.within q = true) (h' : q.within r = true) :
    p.within r = true := by
  rw [within_iff] at h h' ⊢
  exact ⟨h.1.trans h'.1, h.2.trans h'.2⟩

theorem within_append (p : Place) (names : List (List Char)) :
    p.within ⟨p.anchor, p.names ++ names⟩ = true :=
  within_iff.mpr ⟨rfl, List.prefix_append ..⟩

/-- Parts without a step up stay inside. -/
theorem within_foldl_enter {parts : List (List Char)} (h : ['.', '.'] ∉ parts) (p : Place) :
    p.within (parts.foldl enter p) = true := by
  induction parts generalizing p with
  | nil => exact within_refl p
  | cons part parts ih =>
    obtain ⟨hpart, hparts⟩ := not_or.mp (mt List.mem_cons.mpr h)
    refine within_trans ?_ (ih hparts (p.enter part))
    by_cases hsilent : isSilent part = true
    · rw [enter_of_isSilent hsilent]
      exact within_refl p
    · rw [enter_of_isName ⟨by simpa using hsilent, Ne.symm hpart⟩]
      exact p.within_append _

end Place

/-! ### Where operations work -/

namespace Tree

variable {t : Tree} {path : Path} {p q : Place}

/-- A part that is followed leads from a directory to something that is there. -/
theorem follow_cons_eq_ok {part : List Char} {parts : List (List Char)} :
    t.follow p (part :: parts) = .ok q ↔ t.isDirectory p = true ∧ isLongName part = false ∧
      (t.node? (p.enter part)).isSome = true ∧ t.follow (p.enter part) parts = .ok q := by
  rw [follow, isDirectory]
  rcases t.node? p with _ | content | _
  · simp
  · simp
  · by_cases hlong : isLongName part = true
    · simp [hlong]
    · by_cases hthere : (t.node? (p.enter part)).isSome = true
      · simp [hlong, hthere]
      · simp [hlong, hthere]

theorem place_of_follow {parts : List (List Char)} (h : t.follow p parts = .ok q) :
    q = parts.foldl Place.enter p := by
  induction parts generalizing p with
  | nil => exact (Except.ok.inj h).symm
  | cons part parts ih => exact ih (follow_cons_eq_ok.mp h).2.2.2

/-- What is found at a path is at its place. -/
theorem place_of_find (h : t.find path = .ok p) : p = Place.ofPath path := by
  unfold find at h
  cases hlimit : path.checkLimits with
  | error problem =>
    rw [hlimit] at h
    cases h
  | ok _ =>
    rw [hlimit] at h
    by_cases hempty : path.text = ""
    · simp [hempty, bind, Except.bind] at h
    · simp only [hempty, if_false] at h
      exact place_of_follow h

theorem checkLimits_of_newPlace (h : t.newPlace path = .ok p) : path.checkLimits = .ok () := by
  unfold newPlace at h
  cases hlimit : path.checkLimits with
  | error problem =>
    rw [hlimit] at h
    cases h
  | ok _ => rfl

/-- Empty parts at the end of a path lead nowhere. -/
theorem foldl_enter_trim (parts : List (List Char)) (p : Place) :
    ((parts.reverse.dropWhile (· = [])).reverse).foldl Place.enter p =
      parts.foldl Place.enter p := by
  have hsplit : (parts.reverse.dropWhile (· = [])).reverse ++
      (parts.reverse.takeWhile (· = [])).reverse = parts := by
    rw [← List.reverse_append, List.takeWhile_append_dropWhile, List.reverse_reverse]
  have hsilent : ∀ p : Place,
      ((parts.reverse.takeWhile (· = [])).reverse).foldl Place.enter p = p := by
    intro p
    rw [Place.foldl_enter_filter, List.filter_eq_nil_iff.mpr, List.foldl_nil]
    intro part hpart
    have hempty := List.mem_takeWhile_imp (List.mem_reverse.mp hpart)
    simp [of_decide_eq_true hempty, isSilent]
  rw [← hsilent (List.foldl ..), ← List.foldl_append, hsplit]

theorem foldl_enter_of_lastPart_none {parts : List (List Char)} (h : lastPart parts = none)
    (p : Place) : parts.foldl Place.enter p = p := by
  have hnil : (parts.reverse.dropWhile (· = [])).reverse = [] := by simpa [lastPart] using h
  rw [← foldl_enter_trim, hnil, List.foldl_nil]

theorem foldl_enter_of_lastPart {parts before : List (List Char)} {part : List Char}
    (h : lastPart parts = some (before, part)) (p : Place) :
    parts.foldl Place.enter p = (before.foldl Place.enter p).enter part := by
  unfold lastPart at h
  obtain ⟨last, hlast, heq⟩ := Option.map_eq_some_iff.mp h
  obtain ⟨front, hfront⟩ := List.getLast?_eq_some_iff.mp hlast
  rw [hfront, List.dropLast_concat] at heq
  cases heq
  rw [← foldl_enter_trim, hfront, List.foldl_append]
  rfl

/-- What is new at a path is made at its place. -/
theorem place_of_newPlace (h : t.newPlace path = .ok p) : p = Place.ofPath path := by
  have hlimit := checkLimits_of_newPlace h
  unfold newPlace at h
  rw [hlimit] at h
  cases hlast : lastPart (splitSlashes path.text.toList) with
  | none =>
    rw [hlast] at h
    rw [Place.ofPath, foldl_enter_of_lastPart_none hlast]
    by_cases habsolute : path.isAbsolute = true
    · simp only [habsolute, if_true] at h
      rw [← Except.ok.inj h]
      simp [Place.origin, habsolute]
    · simp only [habsolute, Bool.false_eq_true, if_false] at h
      cases h
  | some found =>
    obtain ⟨before, part⟩ := found
    rw [hlast] at h
    rw [Place.ofPath, foldl_enter_of_lastPart hlast]
    cases hfollow : t.follow (.origin path) before with
    | error problem =>
      simp only [hfollow] at h
      cases h
    | ok parent =>
      simp only [hfollow, bind, Except.bind] at h
      rw [← place_of_follow hfollow]
      split at h
      · cases h
      · exact (Except.ok.inj h).symm

end Tree

end Packwright.File
