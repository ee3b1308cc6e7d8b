import Packwright.Project.Config
import Packwright.Proofs.File.Rereading
import Packwright.Proofs.Json.Records
import Packwright.Proofs.Project.Writing

/-!
# Configurations are read as they were saved

What is saved of a configuration is a JSON object with all fields of the file, and an object is read into the
defaults field by field. So wherever a file can be written, a configuration that is saved there is loaded again
with whatever texts it holds. Only the directory that its paths are relative to is not in the file: it is that
of the file.

## Main definitions

- `Config.assign` — a configuration with a field of the file
- `Config.Codec.Lawful` — what is relied on of what writes and reads configurations

## Main results

- `Config.Codec.Lawful.decode_encode` — the text of a configuration
- `Config.Codec.lawful_standard` — the codec of the program
- `Config.ofPath_rootOf` — the directory that the file lies in
- `configurations_read_back` — a configuration that is saved and loaded
-/

namespace Packwright

open File (Place)

namespace Config

variable {path : File.Path} {w : Workspace}

/-- The configuration with a field of the file, if there is such a field and the value is of its kind. -/
def assign (c : Config) : String × Json → Option Config
  | ("namespace", .string s) => some { c with space := s }
  | ("description", .string s) => some { c with description := s }
  | ("pack_format", .number (.natural n)) =>
    if n < UInt32.size then some { c with packFormat := UInt32.ofNat n } else none
  | ("target", .string s) => some { c with target := ⟨s⟩ }
  | ("output", .string s) => some { c with output := ⟨s⟩ }
  | ("verbose", .bool b) => some { c with verbose := b }
  | _ => none

/-- What is relied on where a configuration is written and read again. -/
structure Codec.Lawful (codec : Codec) : Prop where
  /-- A configuration is written as an object of its fields in their order. -/
  encode_isRecord : ∀ c : Config, Json.IsRecord (codec.encode c) c.members
  /-- An object in which every member is a field with a value of its kind, and none comes twice, is read as the
  defaults with these fields. -/
  decode_of_isRecord : ∀ {text : String} {members : List (String × Json)} {c : Config},
    Json.IsRecord text members → (members.map Prod.fst).Nodup → members.foldlM assign {} = some c →
    codec.decode text = .ok c

/-! ### Fields -/

/-- The fields of a configuration make it out of any other one in its directory. -/
theorem foldlM_assign_members (c d : Config) : c.members.foldlM assign d = some { c with root := d.root } := by
  have hformat : c.packFormat.toNat < UInt32.size := c.packFormat.toNat_lt
  simp [members, assign, hformat]

/-- What is read of a configuration that was written is the configuration, but for the directory. -/
theorem Codec.Lawful.decode_encode {codec : Codec} (h : codec.Lawful) (c : Config) {blanks : String}
    (hblanks : Json.Spaces blanks.toList) :
    codec.decode (codec.encode c ++ blanks) = .ok { c with root := ⟨"."⟩ } :=
  h.decode_of_isRecord ((h.encode_isRecord c).append hblanks) (by simp [members]) (foldlM_assign_members c {})

/-- A field that can be set is read by the field of its name. -/
theorem exists_field_of_assign {c d : Config} {member : String × Json} (h : c.assign member = some d) :
    ∃ field, fields.find? (·.name = member.1) = some field ∧ Json.Reads (field.read c) member.2 d := by
  unfold assign at h
  split at h
  · obtain rfl := Option.some.inj h
    exact ⟨_, rfl, (Json.reads_readText _ _).map _⟩
  · obtain rfl := Option.some.inj h
    exact ⟨_, rfl, (Json.reads_readText _ _).map _⟩
  · split at h
    · next hfits =>
      obtain rfl := Option.some.inj h
      exact ⟨_, rfl, (Json.reads_readWord32 hfits).map _⟩
    · cases h
  · obtain rfl := Option.some.inj h
    exact ⟨_, rfl, (Json.reads_readText _ _).map _⟩
  · obtain rfl := Option.some.inj h
    exact ⟨_, rfl, (Json.reads_readText _ _).map _⟩
  · obtain rfl := Option.some.inj h
    exact ⟨_, rfl, (Json.reads_readBool _).map _⟩
  · cases h

/-- Members that can be set one by one fill the fields of their names. -/
theorem fills_of_foldlM {members : List (String × Json)} {seen : List String} {c d : Config}
    (h : members.foldlM assign c = some d) (hnodup : (members.map Prod.fst).Nodup)
    (hseen : ∀ member ∈ members, member.1 ∉ seen) : Json.Fills fields seen members c d := by
  induction members generalizing seen c with
  | nil =>
    obtain rfl := Option.some.inj h
    exact .nil
  | cons member members ih =>
    obtain ⟨name, v⟩ := member
    obtain ⟨next, hnext, hmore⟩ := Option.bind_eq_some_iff.mp h
    obtain ⟨field, hfield, hread⟩ := exists_field_of_assign hnext
    obtain ⟨hnew, hnodup⟩ := List.nodup_cons.mp hnodup
    obtain ⟨hname, hseen⟩ := List.forall_mem_cons.mp hseen
    have hnames : ∀ other ∈ members, other.1 ∉ name :: seen := by
      intro other hother hmem
      rcases List.mem_cons.mp hmem with rfl | hold
      · exact hnew (List.mem_map.mpr ⟨other, hother, rfl⟩)
      · exact hseen other hother hold
    exact .cons hfield hname hread (ih hmore hnodup hnames)

/-- The codec of the program. -/
theorem Codec.lawful_standard : Codec.standard.Lawful where
  encode_isRecord c := by
    refine Json.isRecord_pretty ?_
    have hformat : c.packFormat.toNat ≤ Json.digitLimit :=
      Nat.le_of_lt (Nat.lt_of_lt_of_le c.packFormat.toNat_lt (by decide))
    simp [members, Json.printsFlat_string, Json.printsFlat_bool, Json.printsFlat_natural hformat]
  decode_of_isRecord {text members c} htext hnodup hfields := by
    have hread := (fills_of_foldlM hfields hnodup fun _ _ => List.not_mem_nil).run_readRecord "struct PackConfig" htext
    show (parse text).mapError Json.Mistake.report = _
    rw [parse, hread]
    rfl

/-! ### Files of configurations -/

/-- The directory of a configuration is the parent of the path, or a dot where that says nothing. -/
theorem rootOf_cases (path : File.Path) :
    path.parent? = some (rootOf path) ∧ (rootOf path).text ≠ "" ∨
      (∀ parent ∈ path.parent?, parent.text = "") ∧ rootOf path = ⟨"."⟩ := by
  unfold rootOf
  cases path.parent? with
  | none => exact .inr ⟨nofun, rfl⟩
  | some parent =>
    by_cases hempty : parent.text = ""
    · exact .inr ⟨fun _ h => Option.some.inj h ▸ hempty, if_pos hempty⟩
    · simp only [if_neg hempty]
      exact .inl ⟨True.intro, hempty⟩

/-- It is the directory that the file lies in. -/
theorem ofPath_rootOf {t : File.Tree} (h : t.Writable path) :
    Place.ofPath (rootOf path) = (Place.ofPath path).parent := by
  obtain ⟨parent, hparent, hplace, -⟩ := h.exists_parent
  rw [← hplace, rootOf, hparent]
  by_cases hempty : parent = ⟨""⟩
  · rw [hempty]
    rfl
  · have htext : parent.text ≠ "" := fun htext => hempty (congrArg File.Path.mk htext)
    simp only [if_neg htext]

theorem outcome_load {codec : Codec} {c : Config} {p : Place} {text : String}
    (hread : w.files.read path = .ok (p, text)) (hdecode : codec.decode text = .ok c) :
    (load path codec).outcome w = (.ok { c with root := rootOf path }, w) := by
  rw [load, Work.outcome_get_bind, hread]
  simp only [hdecode]
  rfl

end Config

/-- Wherever a file can be written, a configuration is saved, and what is saved is loaded again: all of its
fields are the same, save that the directory is the one that the file lies in. -/
theorem configurations_read_back {codec : Config.Codec} (hcodec : codec.Lawful) (c : Config) {path : File.Path}
    {w : Workspace} (hwritable : w.files.Writable path) :
    ∃ w' root, (c.save path codec).outcome w = (.ok (), w') ∧
      (Config.load path codec).outcome w' = (.ok { c with root }, w') ∧
      (path.parent? = some root ∧ root.text ≠ "" ∨
        (∀ parent ∈ path.parent?, parent.text = "") ∧ root = ⟨"."⟩) ∧
      Place.ofPath root = (Place.ofPath path).parent := by
  obtain ⟨files, hwrite⟩ := hwritable.exists_write (codec.encode c ++ "\n")
  have hsave : (c.save path codec).outcome w = (.ok (), { w with files }) :=
    Work.outcome_changeFiles_eq_ok.mpr ⟨files, hwrite, rfl⟩
  have hload := Config.outcome_load (w := { w with files }) (File.Tree.read_of_write hwrite)
    (hcodec.decode_encode c (List.forall_mem_singleton.mpr rfl))
  exact ⟨_, _, hsave, hload, Config.rootOf_cases path, Config.ofPath_rootOf hwritable⟩

/-- A configuration with quotes, a control character and characters outside of the basic plane. -/
def trickyConfig : Config where
  space := "a\"b\\c"
  description := "\x01 \n é 𝄞 /"
  packFormat := 4294967295
  target := ⟨"ä/main \t.quill"⟩
  output := ⟨""⟩
  verbose := true

/-- A workspace with nothing but a directory. -/
def appWorkspace : Workspace where
  files := { nodes := [(⟨.working, ["app".toList]⟩, .directory)] }

theorem trickyConfig_read_back : Config.Codec.standard.Lawful ∧ appWorkspace.files.Writable ⟨"./app//quill.json"⟩ ∧
    ∃ w', (trickyConfig.save ⟨"./app//quill.json"⟩).outcome appWorkspace = (.ok (), w') ∧
      (Config.load ⟨"./app//quill.json"⟩).outcome w' = (.ok { trickyConfig with root := ⟨"./app"⟩ }, w') := by
  have hwritable : appWorkspace.files.Writable ⟨"./app//quill.json"⟩ := ⟨"", _, rfl⟩
  have hparent : File.Path.parent? ⟨"./app//quill.json"⟩ = some ⟨"./app"⟩ := rfl
  have hcodec := Config.Codec.lawful_standard
  refine ⟨hcodec, hwritable, ?_⟩
  obtain ⟨w', root, hsave, hload, hroot, -⟩ := configurations_read_back hcodec trickyConfig hwritable
  obtain ⟨hroot, -⟩ | ⟨hnone, -⟩ := hroot
  · obtain rfl := Option.some.inj (hparent.symm.trans hroot)
    exact ⟨w', hsave, hload⟩
  · exact absurd (hnone _ hparent) (by decide)

end Packwright
