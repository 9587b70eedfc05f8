import DeclScan.Settings.Load
import DeclScan.Settings.Standard
import DeclScan.Proofs.Settings.Environment

/-!
# DeclScan.Proofs.Settings.Failures

How loading settings fails, whatever the libraries do. What is wrong with files and values is a fault
of the configuration, which is told to the user. Three things are not: a JSON text that nests too deep
for its reader, layers that nest too deep for merging, and a section under a key that is no text. The
first counts at the first file that cannot be read, the others only when all files are read.

* `Settings.Libraries.fileSections?`: the sections of a file, told from its text.
* `Settings.Libraries.layers_cases`: what reading the files comes to.
* `Settings.Libraries.documented_iff`: when loading ends with settings or a fault of the configuration.
-/

namespace DeclScan
namespace Settings

/-- Loading gives settings, or it fails with a fault of the configuration. -/
def IsDocumented {α : Type} (answer : Except LoadError α) : Prop :=
  ∀ e, answer = .error e → ∃ fault, e = .configuration fault

instance {α : Type} (answer : Except LoadError α) : Decidable (IsDocumented answer) :=
  match answer with
  | .ok _ => isTrue fun _ h => nomatch h
  | .error (.configuration fault) => isTrue fun _ h => ⟨fault, by cases h; rfl⟩
  | .error (.tooDeepToRead _) | .error .tooDeepToMerge | .error .sectionKey =>
    isFalse fun h => by simpa using h _ rfl

section Files

variable {ν : Type} (disk : Disk) (sources : Sources ν)

/-- The file of the user, if it is there. -/
def userFiles : List String := [Path.normalize sources.userFile].filter disk.isFile

/-- The file of the project, or the one named in its place, if it is there. -/
def projectFiles : List String := (projectFile? disk sources).toList.filter disk.isFile

/-- The files that loading reads, in this order. -/
def filesRead : List String := userFiles disk sources ++ projectFiles disk sources

/-- A file is named in place of the project's, and it is not there. -/
def LacksNamedFile : Prop := ∃ path, projectFile? disk sources = some path ∧ disk.isFile path = false

end Files

namespace Libraries

variable {κ ν : Type} (lib : Libraries κ ν) (disk : Disk)

/-- What the reader for a file makes of a text. -/
def value? (path : String) (text : List Char) : Option ν :=
  if isYaml path then (lib.readYaml text).toOption else (lib.readJson text).toOption

/-- The sections that a value is: nothing is no sections. -/
def sections? (value : ν) : Option (Mapping κ ν) :=
  if lib.isNothing value then some .empty else lib.mapping? value

/-- The sections of a file: its text can be read, and is nothing or a mapping. -/
def fileSections? (path : String) : Option (Mapping κ ν) :=
  ((disk.readText (Path.normalize path)).toOption.bind (lib.value? (Path.normalize path))).bind
    lib.sections?

/-- A file in JSON that nests too deep for the reader. -/
def NestsTooDeep (path : String) : Prop :=
  isYaml (Path.normalize path) = false ∧ ∃ text message,
    disk.readText (Path.normalize path) = .ok text ∧ lib.readJson text = .error (.tooDeep message)

/-- A file with a section under a key that is no text. -/
def HasOtherKey (path : String) : Prop :=
  ∃ sections k, lib.fileSections? disk path = some sections ∧ .other k ∈ sections.keys

/-- The file where reading stops. -/
def firstUnreadable? (files : List String) : Option String :=
  files.find? fun path => (lib.fileSections? disk path).isNone

/-! ## One file -/

section OneFile

variable {lib disk} {path : String} {text : List Char}

theorem sectionsOf_of_sections? {value : ν} {sections : Mapping κ ν}
    (h : lib.sections? value = some sections) (path : String) :
    lib.sectionsOf path value = .ok sections := by
  rw [sections?] at h
  rw [sectionsOf]
  split at h
  · rename_i hnothing
    rw [if_pos hnothing, Option.some.inj h]
  · rename_i hnothing
    rw [if_neg hnothing, h]

theorem sectionsOf_of_sections?_eq_none {value : ν} (h : lib.sections? value = none) (path : String) :
    lib.sectionsOf path value = .error (.configuration (.notSections path)) := by
  rw [sections?] at h
  rw [sectionsOf]
  split at h
  · cases h
  · rename_i hnothing
    rw [if_neg hnothing, h]

theorem readSections_of_value? {value : ν} (h : lib.value? path text = some value) :
    lib.readSections path text = lib.sectionsOf path value := by
  rw [value?] at h
  rw [readSections]
  split at h
  · rename_i hyaml
    rw [if_pos hyaml]
    cases hparse : lib.readYaml text with
    | error cause => rw [hparse] at h; cases h
    | ok value' => rw [hparse] at h; cases h; rfl
  · rename_i hyaml
    rw [if_neg hyaml]
    cases hparse : lib.readJson text with
    | error failure => rw [hparse] at h; cases h
    | ok value' => rw [hparse] at h; cases h; rfl

theorem readSections_of_value?_eq_none (h : lib.value? path text = none) :
    ∃ e, lib.readSections path text = .error e ∧
      ((∃ fault, e = .configuration fault) ↔
        ¬(isYaml path = false ∧ ∃ message, lib.readJson text = .error (.tooDeep message))) := by
  rw [value?] at h
  simp only [readSections]
  cases hyaml : isYaml path with
  | true =>
    rw [if_pos hyaml] at h
    rw [if_pos rfl]
    cases hparse : lib.readYaml text with
    | error cause => exact ⟨_, rfl, by simp⟩
    | ok value => rw [hparse] at h; cases h
  | false =>
    rw [if_neg (by simp [hyaml])] at h
    rw [if_neg Bool.false_ne_true]
    cases hparse : lib.readJson text with
    | error failure =>
      cases failure with
      | refused cause => exact ⟨_, rfl, by simp⟩
      | tooDeep message => exact ⟨_, rfl, by simp⟩
    | ok value => rw [hparse] at h; cases h

theorem readSource_of_text (lib : Libraries κ ν) (h : disk.readText (Path.normalize path) = .ok text) :
    lib.readSource disk path = lib.readSections (Path.normalize path) text ∧
      lib.fileSections? disk path = (lib.value? (Path.normalize path) text).bind lib.sections? := by
  constructor
  · simp only [readSource, h]
  · rw [fileSections?, h, Except.toOption, Option.bind_some]

theorem readSource_of_fileSections? {sections : Mapping κ ν}
    (h : lib.fileSections? disk path = some sections) : lib.readSource disk path = .ok sections := by
  cases hread : disk.readText (Path.normalize path) with
  | error cause =>
    rw [fileSections?, hread] at h
    cases h
  | ok text =>
    obtain ⟨hsource, hfile⟩ := readSource_of_text lib hread
    obtain ⟨value, hvalue, hsections⟩ := Option.bind_eq_some_iff.1 (hfile.symm.trans h)
    rw [hsource, readSections_of_value? hvalue, sectionsOf_of_sections? hsections]

theorem readSource_of_fileSections?_eq_none (h : lib.fileSections? disk path = none) :
    ∃ e, lib.readSource disk path = .error e ∧
      ((∃ fault, e = .configuration fault) ↔ ¬lib.NestsTooDeep disk path) := by
  cases hread : disk.readText (Path.normalize path) with
  | error cause =>
    refine ⟨.configuration (.unreadable (Path.normalize path) cause), ?_, ?_⟩
    · simp only [readSource, hread]
    · simp [NestsTooDeep, hread]
  | ok text =>
    obtain ⟨hsource, hfile⟩ := readSource_of_text lib hread
    have hdeep : lib.NestsTooDeep disk path ↔ isYaml (Path.normalize path) = false ∧
        ∃ message, lib.readJson text = .error (.tooDeep message) := by
      simp [NestsTooDeep, hread]
    rw [hsource, hdeep]
    cases hvalue : lib.value? (Path.normalize path) text with
    | none => exact readSections_of_value?_eq_none hvalue
    | some value =>
      rw [hfile, hvalue, Option.bind_some] at h
      refine ⟨_, (readSections_of_value? hvalue).trans (sectionsOf_of_sections?_eq_none h _), ?_⟩
      rw [value?] at hvalue
      suffices hread : isYaml (Path.normalize path) = false →
          ∀ message, lib.readJson text ≠ .error (.tooDeep message) by
        simpa using hread
      intro hyaml message hparse
      rw [if_neg (by simp [hyaml]), hparse] at hvalue
      cases hvalue

theorem firstUnreadable?_append (files more : List String) :
    lib.firstUnreadable? disk (files ++ more) =
      (lib.firstUnreadable? disk files).or (lib.firstUnreadable? disk more) :=
  List.find?_append

theorem firstUnreadable?_singleton (path : String) :
    lib.firstUnreadable? disk [path] =
      if (lib.fileSections? disk path).isNone then some path else none := by
  rw [firstUnreadable?, List.find?_cons]
  cases (lib.fileSections? disk path).isNone <;> rfl

theorem documented_checkLayers_iff {l : Layers κ ν} :
    IsDocumented (lib.checkLayers l) ↔ ¬∃ k, .other k ∈ l.sections.keys := by
  rw [← Mapping.texts?_eq_none_iff, checkLayers]
  cases l.sections.texts? with
  | none => simp [IsDocumented]
  | some sections => cases hcheck : lib.check sections <;> simp [IsDocumented, hcheck]

end OneFile

/-! ## Layers -/

variable [DecidableEq κ]

/-- The layers of all sources, the lowest first. -/
def sourceLayers (sources : Sources ν) : List (Mapping κ ν) :=
  (filesRead disk sources).filterMap (lib.fileSections? disk) ++
    [lib.ofEnvironment sources.environment, .ofTexts sources.overrides]

section Stacks

variable {lib} {layers : List (Mapping κ ν)} {l : Layers κ ν}

/-- What is put together is a stack of layers; it fails if they nest too deep, and only then. -/
def Stacks (lib : Libraries κ ν) (layers : List (Mapping κ ν)) : Layering κ ν → Prop
  | .ok l => lib.stack lib.calls layers = some l.sections
  | .error (e, _) => e = .tooDeepToMerge ∧ lib.stack lib.calls layers = none

theorem stacks_add (h : lib.stack lib.calls layers = some l.sections) (source : String)
    (sections : Mapping κ ν) (log : List LogRecord) :
    lib.Stacks (layers ++ [sections]) (lib.add l source sections log) := by
  have hstack := Values.stack_append_singleton lib.toValues lib.calls layers sections
  rw [h, Option.bind_some] at hstack
  rw [add]
  cases hmerge : lib.merge lib.calls l.sections sections with
  | some merged => exact hstack.trans hmerge
  | none => exact ⟨rfl, hstack.trans hmerge⟩

theorem stacks_addIfAny (h : lib.stack lib.calls layers = some l.sections) (source : String)
    (sections : Mapping κ ν) (log : List LogRecord) :
    lib.Stacks (layers ++ [sections]) (lib.addIfAny l source sections log) := by
  rw [addIfAny]
  split
  · rename_i hempty
    have hmembers : sections.members = [] := List.isEmpty_iff.1 hempty
    obtain ⟨calls, hcalls⟩ := Nat.exists_eq_add_of_le lib.two_le_calls
    rw [Stacks, Values.stack_append_singleton, h, Option.bind_some, hcalls, Nat.add_comm,
      Values.merge, hmembers]
    rfl
  · exact stacks_add h source sections log

theorem Stacks.bind {answer : Layering κ ν} (h : lib.Stacks layers answer)
    {more : List (Mapping κ ν)} {f : Layers κ ν → Layering κ ν}
    (hf : ∀ l : Layers κ ν, lib.stack lib.calls layers = some l.sections →
      lib.Stacks (layers ++ more) (f l)) : lib.Stacks (layers ++ more) (answer.bind f) := by
  match answer with
  | .ok l => exact hf l h
  | .error (e, log) =>
    refine ⟨h.1, ?_⟩
    rw [Values.stack, List.foldlM_append, ← Values.stack, h.2]
    rfl

end Stacks

/-! ## All files -/

section AllFiles

variable {lib disk} {sources : Sources ν} {files : List String} {path : String}

/-- Reading ends with the failure of the first file that cannot be read. -/
def StopsIn (lib : Libraries κ ν) (disk : Disk) (files : List String) (answer : Layering κ ν) : Prop :=
  ∃ path e log, lib.firstUnreadable? disk files = some path ∧ lib.readSource disk path = .error e ∧
    answer = .error (e, log)

theorem addFile_cases (disk : Disk) {l : Layers κ ν} {layers : List (Mapping κ ν)}
    (h : lib.stack lib.calls layers = some l.sections) (path : String) (log : List LogRecord) :
    lib.StopsIn disk [path] (lib.addFile disk l path log) ∨
      ∃ sections, lib.fileSections? disk path = some sections ∧
        lib.Stacks (layers ++ [sections]) (lib.addFile disk l path log) := by
  cases hsections : lib.fileSections? disk path with
  | none =>
    obtain ⟨e, hread, -⟩ := readSource_of_fileSections?_eq_none hsections
    refine .inl ⟨path, e, l.log, ?_, hread, by rw [addFile, hread]⟩
    rw [firstUnreadable?_singleton, hsections]
    rfl
  | some sections =>
    rw [addFile, readSource_of_fileSections? hsections]
    exact .inr ⟨sections, rfl, stacks_add h path sections log⟩

variable (lib disk sources)

theorem userLayer_cases :
    lib.StopsIn disk (userFiles disk sources) (lib.userLayer disk sources) ∨
      lib.firstUnreadable? disk (userFiles disk sources) = none ∧
      ∃ l, lib.userLayer disk sources = .ok l ∧
        lib.stack lib.calls ((userFiles disk sources).filterMap (lib.fileSections? disk)) =
          some l.sections := by
  cases hfile : disk.isFile (Path.normalize sources.userFile) with
  | false =>
    rw [userFiles, List.filter_cons_of_neg (by simp [hfile])]
    exact .inr ⟨rfl, ⟨.empty, [], []⟩, by simp [userLayer, hfile], rfl⟩
  | true =>
    rw [userFiles, List.filter_cons_of_pos hfile, List.filter_nil, userLayer]
    simp only [hfile, if_true]
    have hempty : lib.stack lib.calls [] = some (Layers.mk .empty [] [] : Layers κ ν).sections := rfl
    obtain hstops | ⟨sections, hsections, hstacks⟩ :=
      addFile_cases disk hempty (Path.normalize sources.userFile) []
    · exact .inl hstops
    · refine .inr ⟨by rw [firstUnreadable?_singleton, hsections]; rfl, ?_⟩
      rw [List.filterMap_cons_some hsections, List.filterMap_nil]
      obtain ⟨merged, hmerged⟩ :=
        (Values.isFlat_empty lib.toValues).exists_merge sections lib.two_le_calls
      have hstack : lib.stack lib.calls [sections] = some merged := by
        rw [Values.stack, List.foldlM_cons, Option.bind_eq_bind, hmerged]
        rfl
      rw [List.nil_append] at hstacks
      cases hanswer : lib.addFile disk ⟨.empty, [], []⟩ (Path.normalize sources.userFile) [] with
      | ok l =>
        rw [hanswer] at hstacks
        exact ⟨l, rfl, hstacks⟩
      | error answer =>
        rw [hanswer, Stacks, hstack] at hstacks
        cases hstacks.2

variable {lib disk}

/-- The file of the project comes to one of three things: it cannot be read, it is named and not
there, or its layer is added. -/
theorem addProjectLayer_cases (disk : Disk) (sources : Sources ν) {l : Layers κ ν}
    {layers : List (Mapping κ ν)} (h : lib.stack lib.calls layers = some l.sections) :
    lib.StopsIn disk (projectFiles disk sources) (lib.addProjectLayer disk sources l) ∨
    lib.firstUnreadable? disk (projectFiles disk sources) = none ∧
      (LacksNamedFile disk sources ∧
        (∃ fault log, lib.addProjectLayer disk sources l = .error (.configuration fault, log)) ∨
      ¬LacksNamedFile disk sources ∧
        lib.Stacks (layers ++ (projectFiles disk sources).filterMap (lib.fileSections? disk))
          (lib.addProjectLayer disk sources l)) := by
  cases hproject : projectFile? disk sources with
  | none =>
    have hlacks : ¬LacksNamedFile disk sources := by simp [LacksNamedFile, hproject]
    refine .inr ⟨by simp [projectFiles, hproject, firstUnreadable?], .inr ⟨hlacks, ?_⟩⟩
    simpa [projectFiles, hproject, addProjectLayer, Stacks] using h
  | some path =>
    rw [projectFiles, hproject, Option.toList_some]
    cases hfile : disk.isFile path with
    | false =>
      rw [List.filter_cons_of_neg (by simp [hfile]), List.filter_nil]
      exact .inr ⟨rfl, .inl ⟨⟨path, hproject, hfile⟩, .missing path, l.log,
        by simp [addProjectLayer, hproject, hfile]⟩⟩
    | true =>
      have hlacks : ¬LacksNamedFile disk sources := by simp [LacksNamedFile, hproject, hfile]
      have hadd : lib.addProjectLayer disk sources l =
          lib.addFile disk l path [.debug .root s!"Loaded project config from {path}"] := by
        simp only [addProjectLayer, hproject, hfile, if_true]
      rw [List.filter_cons_of_pos hfile, List.filter_nil, hadd]
      obtain hstops | ⟨sections, hsections, hstacks⟩ := addFile_cases disk h path
        [.debug .root s!"Loaded project config from {path}"]
      · exact .inl hstops
      · refine .inr ⟨by rw [firstUnreadable?_singleton, hsections]; rfl, .inr ⟨hlacks, ?_⟩⟩
        rwa [List.filterMap_cons_some hsections, List.filterMap_nil]

/-- Reading all layers: a file cannot be read, a file is named and not there, or all are put over each
other as far as they can. -/
theorem layers_cases (lib : Libraries κ ν) (disk : Disk) (sources : Sources ν) :
    lib.StopsIn disk (filesRead disk sources) (lib.layers disk sources) ∨
    lib.firstUnreadable? disk (filesRead disk sources) = none ∧
      (LacksNamedFile disk sources ∧
        (∃ fault log, lib.layers disk sources = .error (.configuration fault, log)) ∨
      ¬LacksNamedFile disk sources ∧
        lib.Stacks (lib.sourceLayers disk sources) (lib.layers disk sources)) := by
  rw [layers, filesRead, firstUnreadable?_append]
  obtain ⟨path, e, log, hpath, hread, huser⟩ | ⟨hreadable, l, huser, hstack⟩ :=
    userLayer_cases lib disk sources
  · refine .inl ⟨path, e, log, ?_, hread, by rw [huser]; rfl⟩
    rw [firstUnreadable?_append, hpath, Option.some_or]
  rw [huser, hreadable, Option.none_or]
  obtain ⟨path, e, log, hpath, hread, hproject⟩ |
      ⟨hreadable', ⟨hlacks, fault, log, hproject⟩ | ⟨hlacks, hstacks⟩⟩ :=
    addProjectLayer_cases disk sources hstack
  · refine .inl ⟨path, e, log, ?_, hread, by rw [Except.bind, hproject]; rfl⟩
    rw [firstUnreadable?_append, hreadable, Option.none_or, hpath]
  · exact .inr ⟨hreadable', .inl ⟨hlacks, fault, log, by rw [Except.bind, hproject]; rfl⟩⟩
  · refine .inr ⟨hreadable', .inr ⟨hlacks, ?_⟩⟩
    rw [sourceLayers, filesRead, List.filterMap_append, ← List.singleton_append,
      ← List.append_assoc]
    refine (hstacks.bind fun l hl => ?_).bind fun l hl => ?_
    · exact stacks_addIfAny hl _ _ _
    · exact stacks_addIfAny hl _ _ _

theorem get?_ofEnvironment_other (environment : List (String × String)) (k : κ) :
    (lib.ofEnvironment environment).get? (.other k) = none := by
  induction environment using List.reverseRecOn with
  | nil => rfl
  | append_singleton environment entry ih =>
    rw [Values.ofEnvironment_append_singleton]
    split
    · exact (Mapping.get?_put_of_ne (by simp) _ _).trans ih
    · exact ih

variable {sources}

theorem exists_other_iff {sections : Mapping κ ν}
    (h : lib.stack lib.calls (lib.sourceLayers disk sources) = some sections) :
    (∃ k, .other k ∈ sections.keys) ↔ ∃ path ∈ filesRead disk sources, lib.HasOtherKey disk path := by
  simp only [Values.mem_keys_of_stack h, sourceLayers, List.mem_append, List.mem_filterMap,
    List.mem_pair, HasOtherKey]
  constructor
  · rintro ⟨k, layer, ⟨path, hpath, hlayer⟩ | rfl | rfl, hk⟩
    · exact ⟨path, hpath, layer, k, hlayer, hk⟩
    · rw [Mapping.mem_keys_iff, get?_ofEnvironment_other] at hk
      cases hk
    · rw [Mapping.mem_keys_iff, Mapping.get?_ofTexts_other] at hk
      cases hk
  · rintro ⟨path, hpath, layer, k, hlayer, hk⟩
    exact ⟨k, layer, .inl ⟨path, hpath, hlayer⟩, hk⟩

end AllFiles

end Libraries

/-- Loading ends with settings or with a fault of the configuration, unless the first file that cannot
be read is JSON and nests too deep, or all are read and the layers of all sources nest too deep for
merging or a file has a section under a key that is no text. -/
theorem documented_iff {κ ν : Type} [DecidableEq κ] (lib : Libraries κ ν) (disk : Disk)
    (sources : Sources ν) :
    IsDocumented (lib.load disk sources).1 ↔
      match lib.firstUnreadable? disk (filesRead disk sources) with
      | some path => ¬lib.NestsTooDeep disk path
      | none => LacksNamedFile disk sources ∨
          ¬lib.IsTooDeep lib.calls (lib.sourceLayers disk sources) ∧
            ∀ path ∈ filesRead disk sources, ¬lib.HasOtherKey disk path := by
  rw [Libraries.load]
  obtain ⟨path, e, log, hpath, hread, hlayers⟩ |
      ⟨hreadable, ⟨hlacks, fault, log, hlayers⟩ | ⟨hlacks, hstacks⟩⟩ := lib.layers_cases disk sources
  · have hnone : lib.fileSections? disk path = none :=
      Option.isNone_iff_eq_none.1
        (List.find?_some (p := fun path => (lib.fileSections? disk path).isNone) hpath)
    obtain ⟨e', hread', hfault⟩ := Libraries.readSource_of_fileSections?_eq_none hnone
    obtain rfl : e' = e := by
      rw [hread'] at hread
      exact Except.error.inj hread
    rw [hlayers, hpath]
    simpa [IsDocumented] using hfault
  · rw [hlayers, hreadable]
    simp [IsDocumented, hlacks]
  · rw [hreadable, ← Values.stack_eq_none_iff]
    cases hanswer : lib.layers disk sources with
    | error failure =>
      obtain ⟨e, log⟩ := failure
      rw [hanswer] at hstacks
      obtain ⟨rfl, hnone⟩ := hstacks
      simp [IsDocumented, hlacks, hnone]
    | ok l =>
      rw [hanswer, Libraries.Stacks] at hstacks
      have hdocumented : IsDocumented (lib.checkLayers l) ↔
          ∀ path ∈ filesRead disk sources, ¬lib.HasOtherKey disk path := by
        rw [Libraries.documented_checkLayers_iff, Libraries.exists_other_iff hstacks]
        simp
      simp [hlacks, hstacks, hdocumented]

/-! ## Files that get through -/

namespace Escaping

/-- A project whose settings file has the number one for the key of a section. -/
def numbered : FileStore Nat :=
  FileStore.empty.write "p/.dauns/config.yaml" ⟨"1: x\n".toList.map fun c => c.toNat.toUInt8, 0⟩

/-- A project whose settings file opens one array more than the reader follows. -/
def nested : FileStore Nat :=
  FileStore.empty.write "p/.dauns/config.json"
    ⟨(List.replicate (Json.maxDepth + 1) '[').map fun c => c.toNat.toUInt8, 0⟩

def sources : Sources YamlNode := ⟨"p", none, userFileIn "home", [], []⟩

/-- Neither is told to the user as a fault of the configuration. -/
theorem undocumented :
    ¬IsDocumented (Libraries.standard.load (.ofStore numbered) sources).1 ∧
      ¬IsDocumented (Libraries.standard.load (.ofStore nested) sources).1 :=
  ⟨by decide +kernel, by decide +kernel⟩

end Escaping

end Settings
end DeclScan
