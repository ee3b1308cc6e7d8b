import Packwright.Session.Source

/-!
# Statements of a file and its imports

A file and all that it imports make one sequence of statements: the first import of a file is
replaced by the statements of that file, and all later ones are left out. Each statement keeps the
place of the file that it is from.

## Main definitions

- `Statement.Imports` — the file that an import statement leads to
- `Inlines` — the sequence of statements that stands for a file
- `contribution` — the statements of a sequence that are from one file
- `EachOnce` — each file that is begun has its statements in a sequence once

## Main results

- `Inlines.unique` — there is at most one such sequence
- `Inlines.contribution_of_begun`, `Inlines.contribution_of_not_begun` — the statements of a file
  that is begun on the way, and of one that is not
- `Inlines.eachOnce` — the sequence that stands for a file has the statements of each file once
-/

namespace Packwright

/-- A file in a tree has the text at its place. -/
theorem File.Tree.node?_of_read {files : File.Tree} {path : File.Path} {place : File.Place}
    {text : String} (h : files.read path = .ok (place, text)) :
    files.node? place = some (.file (.text text)) := by
  unfold File.Tree.read at h
  cases hfind : files.find path with
  | error problem =>
    rw [hfind] at h
    cases h
  | ok found =>
    rw [hfind] at h
    simp only [bind, Except.bind] at h
    split at h
    · next hnode =>
      obtain ⟨rfl, rfl⟩ := Prod.mk.inj (Except.ok.inj h)
      exact hnode
    all_goals cases h

/-- The statement is an import, and its path leads to a file with a text. -/
def Statement.Imports (files : File.Tree) (settings : Settings) (st : Statement)
    (place : File.Place) (text : String) : Prop :=
  st.kind = .importFile ∧ ∃ keyword tokens target, st = ⟨keyword :: tokens⟩ ∧
    importTarget keyword tokens = .ok target ∧
    files.read (settings.importPath target.value) = .ok (place, text)

theorem Statement.Imports.unique {files : File.Tree} {settings : Settings} {st : Statement}
    {place place' : File.Place} {text text' : String} (h : st.Imports files settings place text)
    (h' : st.Imports files settings place' text') : place = place' ∧ text = text' := by
  obtain ⟨-, keyword, tokens, target, rfl, htarget, hread⟩ := h
  obtain ⟨-, _, _, _, ⟨⟩, htarget', hread'⟩ := h'
  rw [htarget] at htarget'
  obtain rfl := Except.ok.inj htarget'
  rw [hread] at hread'
  exact Prod.mk.inj (Except.ok.inj hread')

/-- The statements of the file at `here`, with those of the files they import in place of the
imports. The files that were begun before are in `begun`, and those begun at the end in `begun'`. -/
inductive Inlines (files : File.Tree) (settings : Settings) : File.Place → List File.Place →
    List Statement → List (File.Place × Statement) → List File.Place → Prop
  | nil {here : File.Place} {begun : List File.Place} :
    Inlines files settings here begun [] [] begun
  /-- Any statement but an import stays. -/
  | keep {here : File.Place} {begun begun' : List File.Place} {st : Statement}
    {rest : List Statement} {flat : List (File.Place × Statement)} (hkind : st.kind ≠ .importFile)
    (hrest : Inlines files settings here begun rest flat begun') :
    Inlines files settings here begun (st :: rest) ((here, st) :: flat) begun'
  /-- The import of a file that was begun is deleted. -/
  | skip {here place : File.Place} {begun begun' : List File.Place} {st : Statement} {text : String}
    {rest : List Statement} {flat : List (File.Place × Statement)}
    (himport : st.Imports files settings place text) (hbegun : place ∈ begun)
    (hrest : Inlines files settings here begun rest flat begun') :
    Inlines files settings here begun (st :: rest) flat begun'
  /-- The first import of a file is replaced by the statements of that file. -/
  | splice {here place : File.Place} {begun begun₁ begun' : List File.Place} {st : Statement}
    {text : String} {r : Reading} {rest : List Statement}
    {inner flat : List (File.Place × Statement)} (himport : st.Imports files settings place text)
    (hnew : place ∉ begun) (hread : tokenize .required Position.start text = .ok r)
    (hfile : Inlines files settings place (begun ++ [place]) r.statements inner begun₁)
    (hrest : Inlines files settings here begun₁ rest flat begun') :
    Inlines files settings here begun (st :: rest) (inner ++ flat) begun'

/-- The statements of a sequence that are from one file. -/
def contribution (flat : List (File.Place × Statement)) (place : File.Place) : List Statement :=
  (flat.filter (·.1 = place)).map Prod.snd

/-- The files are begun once each. Each of them gives its statements once, imports apart, and no
other file gives any. -/
structure EachOnce (files : File.Tree) (begun : List File.Place)
    (flat : List (File.Place × Statement)) : Prop where
  nodup : begun.Nodup
  gives : ∀ place ∈ begun, ∃ text r, files.node? place = some (.file (.text text)) ∧
    tokenize .required Position.start text = .ok r ∧
    contribution flat place = r.statements.filter (·.kind ≠ .importFile)
  others : ∀ place, place ∉ begun → contribution flat place = []

theorem contribution_append (flat flat' : List (File.Place × Statement)) (place : File.Place) :
    contribution (flat ++ flat') place = contribution flat place ++ contribution flat' place := by
  simp [contribution]

theorem contribution_cons_self (place : File.Place) (st : Statement)
    (flat : List (File.Place × Statement)) :
    contribution ((place, st) :: flat) place = st :: contribution flat place := by
  simp [contribution]

theorem contribution_cons_of_ne {here place : File.Place} (h : here ≠ place) (st : Statement)
    (flat : List (File.Place × Statement)) :
    contribution ((here, st) :: flat) place = contribution flat place := by
  simp [contribution, h]

namespace Inlines

variable {files : File.Tree} {settings : Settings} {here place : File.Place}
  {begun begun' : List File.Place} {statements : List Statement}
  {flat : List (File.Place × Statement)}

/-- Statements without an import among them stay as they are. -/
theorem keep_append {kept : List Statement} (hkept : ∀ st ∈ kept, st.kind ≠ .importFile)
    (h : Inlines files settings here begun statements flat begun') :
    Inlines files settings here begun (kept ++ statements) (kept.map (here, ·) ++ flat) begun' := by
  induction kept with
  | nil => exact h
  | cons st rest ih =>
    obtain ⟨hst, hrest⟩ := List.forall_mem_cons.mp hkept
    exact .keep hst (ih hrest)

/-- There is at most one sequence that stands for a file. -/
theorem unique (h : Inlines files settings here begun statements flat begun')
    {flat₂ : List (File.Place × Statement)} {begun₂ : List File.Place}
    (h₂ : Inlines files settings here begun statements flat₂ begun₂) :
    flat₂ = flat ∧ begun₂ = begun' := by
  -- what becomes of a statement depends only on it and on the files that were begun
  induction h generalizing flat₂ begun₂ with
  | nil =>
    cases h₂
    exact ⟨rfl, rfl⟩
  | keep hkind hrest ih =>
    cases h₂ with
    | keep _ hrest₂ =>
      obtain ⟨rfl, rfl⟩ := ih hrest₂
      exact ⟨rfl, rfl⟩
    | skip himport₂ => exact absurd himport₂.1 hkind
    | splice himport₂ => exact absurd himport₂.1 hkind
  | skip himport hbegun hrest ih =>
    cases h₂ with
    | keep hkind₂ => exact absurd himport.1 hkind₂
    | skip _ _ hrest₂ => exact ih hrest₂
    | splice himport₂ hnew₂ =>
      obtain ⟨rfl, -⟩ := himport.unique himport₂
      exact absurd hbegun hnew₂
  | splice himport hnew hread hfile hrest ihfile ihrest =>
    cases h₂ with
    | keep hkind₂ => exact absurd himport.1 hkind₂
    | skip himport₂ hbegun₂ =>
      obtain ⟨rfl, -⟩ := himport.unique himport₂
      exact absurd hbegun₂ hnew
    | splice himport₂ _ hread₂ hfile₂ hrest₂ =>
      obtain ⟨rfl, rfl⟩ := himport.unique himport₂
      rw [hread] at hread₂
      obtain rfl := Except.ok.inj hread₂
      obtain ⟨rfl, rfl⟩ := ihfile hfile₂
      obtain ⟨rfl, rfl⟩ := ihrest hrest₂
      exact ⟨rfl, rfl⟩

/-- Files that were begun stay so. -/
theorem begun_subset (h : Inlines files settings here begun statements flat begun') :
    begun ⊆ begun' := by
  induction h with
  | nil => exact List.Subset.refl _
  | keep _ _ ih | skip _ _ _ ih => exact ih
  | splice _ _ _ _ _ ihfile ihrest =>
    exact List.Subset.trans (List.subset_append_left ..) (List.Subset.trans ihfile ihrest)

/-- No file is begun twice. -/
theorem nodup (h : Inlines files settings here begun statements flat begun')
    (hbegun : begun.Nodup) : begun'.Nodup := by
  induction h with
  | nil => exact hbegun
  | keep _ _ ih => exact ih hbegun
  | skip _ _ _ ih => exact ih hbegun
  | splice _ hnew _ _ _ ihfile ihrest =>
    refine ihrest (ihfile (List.nodup_append.mpr ⟨hbegun, by simp, ?_⟩))
    rintro a ha b hb rfl
    exact hnew (List.mem_singleton.mp hb ▸ ha)

/-- A file that is not begun gives no statements. -/
theorem contribution_of_not_begun (h : Inlines files settings here begun statements flat begun')
    (hhere : here ∈ begun) (hplace : place ∉ begun') : contribution flat place = [] := by
  induction h with
  | nil => rfl
  | keep hkind hrest ih =>
    have hne : _ ≠ place := fun heq => hplace (heq ▸ hrest.begun_subset hhere)
    rw [contribution_cons_of_ne hne]
    exact ih hhere hplace
  | skip _ _ _ ih => exact ih hhere hplace
  | splice himport hnew hread hfile hrest ihfile ihrest =>
    rw [contribution_append, ihfile (by simp) fun hin => hplace (hrest.begun_subset hin),
      ihrest (hfile.begun_subset (List.mem_append_left _ hhere)) hplace]
    rfl

/-- A file that was begun before gives no more statements, but for the one that is being read: it
gives its own. -/
theorem contribution_of_begun_before
    (h : Inlines files settings here begun statements flat begun') (hhere : here ∈ begun)
    (hplace : place ∈ begun) :
    contribution flat place =
      if place = here then statements.filter (·.kind ≠ .importFile) else [] := by
  induction h with
  | nil => simp [contribution]
  | @keep here _ _ st rest flat hkind hrest ih =>
    by_cases heq : place = here
    · subst heq
      rw [contribution_cons_self, ih hhere hplace, if_pos rfl, if_pos rfl,
        List.filter_cons_of_pos (by simpa using hkind)]
    · rw [contribution_cons_of_ne (Ne.symm heq), ih hhere hplace, if_neg heq, if_neg heq]
  | skip himport _ _ ih =>
    rw [ih hhere hplace, List.filter_cons_of_neg (by simpa using himport.1)]
  | @splice here other _ _ _ _ _ _ _ _ _ himport hnew hread hfile hrest ihfile ihrest =>
    -- the file was begun before, so it is neither the new one nor begun inside of it
    have hother : place ≠ other := fun heq => hnew (heq ▸ hplace)
    rw [contribution_append, ihfile (by simp) (List.mem_append_left _ hplace), if_neg hother,
      ihrest (hfile.begun_subset (List.mem_append_left _ hhere))
        (hfile.begun_subset (List.mem_append_left _ hplace)),
      List.filter_cons_of_neg (by simpa using himport.1)]
    rfl

/-- A file that is begun on the way gives its statements once, imports apart. -/
theorem contribution_of_begun (h : Inlines files settings here begun statements flat begun')
    (hhere : here ∈ begun) (hplace : place ∈ begun') (hnot : place ∉ begun) :
    ∃ text r, files.node? place = some (.file (.text text)) ∧
      tokenize .required Position.start text = .ok r ∧
      contribution flat place = r.statements.filter (·.kind ≠ .importFile) := by
  induction h with
  | nil => exact absurd hplace hnot
  | @keep here _ _ st rest flat hkind hrest ih =>
    obtain ⟨text, r, hnode, hread, hgives⟩ := ih hhere hplace hnot
    have hne : here ≠ place := fun heq => hnot (heq ▸ hhere)
    exact ⟨text, r, hnode, hread, by rw [contribution_cons_of_ne hne, hgives]⟩
  | skip _ _ _ ih => exact ih hhere hplace hnot
  | @splice here other begun begun₁ _ _ text r _ _ _ himport hnew hread hfile hrest ihfile ihrest =>
    have hhere₁ : here ∈ begun₁ := hfile.begun_subset (List.mem_append_left _ hhere)
    have hne : place ≠ here := fun heq => hnot (heq ▸ hhere)
    rw [contribution_append]
    by_cases hother : place = other
    · -- the file whose import is replaced
      subst hother
      obtain ⟨-, _, _, _, -, -, hfound⟩ := himport
      refine ⟨text, r, File.Tree.node?_of_read hfound, hread, ?_⟩
      rw [hfile.contribution_of_begun_before (by simp) (by simp), if_pos rfl,
        hrest.contribution_of_begun_before hhere₁ (hfile.begun_subset (by simp)), if_neg hne,
        List.append_nil]
    · by_cases hinner : place ∈ begun₁
      · -- a file that is begun inside of it
        obtain ⟨text', r', hnode, hread', hgives⟩ :=
          ihfile (by simp) hinner (by simp [hnot, hother])
        refine ⟨text', r', hnode, hread', ?_⟩
        rw [hgives, hrest.contribution_of_begun_before hhere₁ hinner, if_neg hne, List.append_nil]
      · -- a file that is begun behind it
        obtain ⟨text', r', hnode, hread', hgives⟩ := ihrest hhere₁ hplace hinner
        refine ⟨text', r', hnode, hread', ?_⟩
        rw [hfile.contribution_of_not_begun (by simp) hinner, hgives, List.nil_append]

/-- In the sequence that stands for a file, each file has its statements once. -/
theorem eachOnce {text : String} {r : Reading}
    (hnode : files.node? place = some (.file (.text text)))
    (hread : tokenize .required Position.start text = .ok r)
    (h : Inlines files settings place [place] r.statements flat begun') :
    EachOnce files begun' flat := by
  refine ⟨h.nodup (by simp), fun other hother => ?_,
    fun other hother => h.contribution_of_not_begun (List.mem_singleton_self place) hother⟩
  by_cases hsame : other = place
  · subst hsame
    refine ⟨text, r, hnode, hread, ?_⟩
    rw [h.contribution_of_begun_before (List.mem_singleton_self _) (List.mem_singleton_self _),
      if_pos rfl]
  · exact h.contribution_of_begun (List.mem_singleton_self place) hother (by simpa using hsame)

end Inlines

end Packwright
