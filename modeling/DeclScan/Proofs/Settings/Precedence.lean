import DeclScan.Json.Writer
import DeclScan.Proofs.Settings.Failures

/-!
# DeclScan.Proofs.Settings.Precedence

Which source the value of a setting comes from. What is given directly counts most, then the
environment, then the file of the project or the one named in its place, and last the file of the
user.

* `Settings.Libraries.sourceField?`: the value of a field, told from the sources one by one.
* `Settings.layers_precedence`: in the sections that are checked, each field has the value of the
  highest source that has it.
-/

namespace DeclScan
namespace Settings
namespace Libraries

variable {κ ν : Type} [DecidableEq κ] (lib : Libraries κ ν) (disk : Disk) (sources : Sources ν)

/-- The value of a field in the first of some files that has it. -/
def fileField? (files : List String) (sectionKey fieldKey : Key κ) : Option ν :=
  files.findSome? fun path =>
    (lib.fileSections? disk path).bind fun sections => lib.field? sections sectionKey fieldKey

/-- The value of a field in the highest source that has it. -/
def sourceField? (sectionKey fieldKey : Key κ) : Option ν :=
  (lib.field? (.ofTexts sources.overrides) sectionKey fieldKey).or
    ((lib.environmentField? sources.environment sectionKey fieldKey).or
      ((lib.fileField? disk (projectFiles disk sources) sectionKey fieldKey).or
        (lib.fileField? disk (userFiles disk sources) sectionKey fieldKey)))

/-- All files can be read, and they and what is given directly are sections of fields. -/
structure AreSections : Prop where
  readable : lib.firstUnreadable? disk (filesRead disk sources) = none
  named : ¬LacksNamedFile disk sources
  files : ∀ path ∈ filesRead disk sources, ∀ sections,
    lib.fileSections? disk path = some sections → lib.IsFlat sections
  overrides : lib.IsFlat (.ofTexts sources.overrides)

variable {lib disk sources}

theorem AreSections.isFlat (h : lib.AreSections disk sources) :
    ∀ layer ∈ lib.sourceLayers disk sources, lib.IsFlat layer := by
  intro layer hlayer
  rw [sourceLayers, List.mem_append, List.mem_filterMap, List.mem_pair] at hlayer
  rcases hlayer with ⟨path, hpath, hsections⟩ | rfl | rfl
  · exact h.files path hpath layer hsections
  · exact Values.isFlat_ofEnvironment _
  · exact h.overrides

theorem findSome?_filterMap (files : List String) (sectionKey fieldKey : Key κ) :
    (files.filterMap (lib.fileSections? disk)).findSome?
        (fun sections => lib.field? sections sectionKey fieldKey) =
      lib.fileField? disk files sectionKey fieldKey := by
  induction files with
  | nil => rfl
  | cons path files ih =>
    rw [fileField?, List.findSome?_cons, ← fileField?]
    cases hfile : lib.fileSections? disk path with
    | none => rw [List.filterMap_cons_none hfile, ih, Option.bind_none]
    | some sections =>
      rw [List.filterMap_cons_some hfile, List.findSome?_cons, ih, Option.bind_some]

theorem reverse_filesRead (disk : Disk) (sources : Sources ν) :
    (filesRead disk sources).reverse = projectFiles disk sources ++ userFiles disk sources := by
  have hreverse (files : List String) (h : files.length ≤ 1) : files.reverse = files := by
    match files with
    | [] | [_] => rfl
    | _ :: _ :: _ => simp at h
  rw [filesRead, List.reverse_append, hreverse, hreverse]
  · exact (List.length_filter_le _ _).trans (by simp)
  · exact (List.length_filter_le _ _).trans (by cases projectFile? disk sources <;> simp)

theorem findSome?_sourceLayers (sectionKey fieldKey : Key κ) :
    (lib.sourceLayers disk sources).reverse.findSome?
        (fun layer => lib.field? layer sectionKey fieldKey) =
      lib.sourceField? disk sources sectionKey fieldKey := by
  rw [sourceLayers, List.reverse_append, ← List.filterMap_reverse, reverse_filesRead,
    List.filterMap_append]
  simp only [List.findSome?_append, findSome?_filterMap, List.reverse_cons, List.reverse_nil,
    List.nil_append, List.singleton_append, List.findSome?_cons, List.findSome?_nil,
    Values.field?_ofEnvironment]
  rw [sourceField?]
  cases lib.field? (.ofTexts sources.overrides) sectionKey fieldKey with
  | some v => rfl
  | none => cases lib.environmentField? sources.environment sectionKey fieldKey <;> rfl

theorem AreSections.exists_layers (h : lib.AreSections disk sources) :
    ∃ l, lib.layers disk sources = .ok l ∧ ∀ sectionKey fieldKey,
      lib.field? l.sections sectionKey fieldKey =
        lib.sourceField? disk sources sectionKey fieldKey := by
  obtain ⟨sections, hstack, -, hfield⟩ := Values.exists_stack lib.two_le_calls h.isFlat
  obtain ⟨path, e, log, hpath, -⟩ | ⟨-, ⟨hlacks, -⟩ | ⟨-, hstacks⟩⟩ := lib.layers_cases disk sources
  · rw [h.readable] at hpath
    cases hpath
  · exact absurd hlacks h.named
  · cases hanswer : lib.layers disk sources with
    | error failure =>
      rw [hanswer] at hstacks
      exact absurd (hstacks.2.symm.trans hstack) nofun
    | ok l =>
      rw [hanswer, Stacks, hstack, Option.some.injEq] at hstacks
      refine ⟨l, rfl, fun sectionKey fieldKey => ?_⟩
      rw [← hstacks, hfield, findSome?_sourceLayers]

end Libraries

namespace Stacked

/-- A user and a project that both have a file of settings. -/
def store : FileStore Nat :=
  let bytes (s : String) : StoredFile Nat := ⟨s.toList.map fun c => c.toNat.toUInt8, 0⟩
  (FileStore.empty.write "home/.dauns/config.json"
    (bytes "\x7b\"scan\": \x7b\"max_workers\": 2, \"executor\": \"thread\"\x7d\x7d")).write
      "p/.dauns/config.yaml" (bytes "scan:\n  max_workers: 3\n  max_file_size_kb: 4\n")

def disk : Disk := .ofStore store

def sources : Sources YamlNode where
  project := "p"
  explicitFile := none
  userFile := userFileIn "home"
  environment :=
    [("HOME", "home"), ("DAUNS_Scan_Max_Workers", "5"), ("DAUNS_SCAN_SKIP_DIRS", "a, ,b")]
  overrides := [("scan", .mapping [(.text "max_file_size_kb", .scalar (.int 6))])]

/-- Whether a value is a mapping without mappings in it. -/
def isSection (v : YamlNode) : Bool :=
  match v.mapping? with
  | some fields => fields.members.all fun entry => entry.2.mapping?.isNone
  | none => false

theorem isFlat_of_all_isSection {sections : Mapping String YamlNode}
    (h : (sections.members.all fun entry => isSection entry.2) = true) :
    Values.standard.IsFlat sections := by
  have hsection (key : Key String) (v : YamlNode) (hv : sections.get? key = some v) :
      ∃ fields, v.mapping? = some fields ∧ ∀ entry ∈ fields.members, entry.2.mapping? = none := by
    have hv : isSection v = true :=
      Table.of_get?_eq_some (p := fun v => isSection v = true) (List.all_eq_true.1 h) hv
    rw [isSection] at hv
    split at hv
    · rename_i fields hfields
      exact ⟨fields, hfields, by simpa using hv⟩
    · cases hv
  refine ⟨fun key v hv => ?_, fun key fieldKey w hw => ?_⟩
  · obtain ⟨fields, hfields, -⟩ := hsection key v hv
    exact Values.isMapping_iff.2 ⟨fields, hfields⟩
  · rw [Values.field?, Option.bind_eq_some_iff] at hw
    obtain ⟨fields, hfields, hw⟩ := hw
    obtain ⟨v, hv, hfields⟩ := Option.bind_eq_some_iff.1 hfields
    obtain ⟨fields', hfields', hleaves⟩ := hsection key v hv
    obtain rfl : fields' = fields := Option.some.inj (hfields'.symm.trans hfields)
    exact Values.not_isMapping_iff.2
      (Table.of_get?_eq_some (p := fun w => YamlNode.mapping? w = none) hleaves hw)

theorem areSections : Libraries.standard.AreSections disk sources where
  readable := by decide +kernel
  named := by
    have hproject : ∀ path ∈ projectFile? disk sources, disk.isFile path = true := by
      decide +kernel
    rintro ⟨path, hpath, hfile⟩
    simp [hproject path hpath] at hfile
  files := by
    have hfiles : ∀ path ∈ filesRead disk sources,
        ((Libraries.standard.fileSections? disk path).all fun sections =>
          sections.members.all fun entry => isSection entry.2) = true := by
      decide +kernel
    intro path hpath sections hsections
    have hfile := hfiles path hpath
    rw [hsections] at hfile
    exact isFlat_of_all_isSection hfile
  overrides := isFlat_of_all_isSection (by decide +kernel)

theorem areApart : AreApart sources.environment := by
  unfold AreApart SameButForCase
  decide +kernel

/-- An executor, about which nothing else is said. -/
def base : Mapping String YamlNode :=
  .ofTexts [("scan", .mapping [(.text "executor", .scalar .null)])]

theorem isFlat_base : Libraries.standard.IsFlat base := isFlat_of_all_isSection (by decide +kernel)

end Stacked

end Settings
end DeclScan
