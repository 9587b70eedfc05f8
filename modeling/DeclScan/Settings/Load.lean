import DeclScan.FileStore
import DeclScan.Log
import DeclScan.Settings.Layer

/-!
# DeclScan.Settings.Load

Loading settings from their layers. From the lowest: the standard values, the file of the user, the
file of the project or one that is named, the environment, and what is given directly.

* `Settings.Libraries.readSource`: the sections of a file, in JSON or, by its extension, in YAML.
* `Settings.Libraries.load`: all layers, checked.
-/

namespace DeclScan

/-- What is wrong with a configuration. -/
inductive ConfigurationFault where
  | missing (path : String)
  | unreadable (path cause : String)
  | notSections (path : String)
  | invalid (e : ValidationError) (sources : List String)
  deriving Repr, DecidableEq

/-- Why settings cannot be loaded: the configuration is wrong; or, which is not told to the user as
such, a file nests too deep to be read, layers nest too deep to be merged, or a section stands under
a key that is no text. -/
inductive LoadError where
  | configuration (fault : ConfigurationFault)
  | tooDeepToRead (message : String)
  | tooDeepToMerge
  | sectionKey
  deriving Repr, DecidableEq

def ConfigurationFault.message : ConfigurationFault → String
  | .missing path => s!"Configuration file not found: {path}"
  | .unreadable _ cause => s!"Failed to read configuration: {cause}"
  | .notSections _ => "Configuration must be a mapping of sections"
  | .invalid e _ => s!"Invalid configuration: {e.text}"

def ConfigurationFault.sources : ConfigurationFault → List String
  | .missing path | .unreadable path _ | .notSections path => [path]
  | .invalid _ sources => sources

namespace Settings

/-! ## Files -/

/-- What is seen of files: which are there, and their texts, or why these cannot be read. -/
structure Disk where
  isFile : String → Bool
  readText : String → Except String (List Char)

/-- The texts of stored files. -/
def Disk.ofStore {τ : Type} (store : FileStore τ) : Disk where
  isFile := store.isFile
  readText path :=
    match store.readBytes path with
    | .error e => .error e.message
    | .ok bytes =>
      match Utf8.decode bytes with
      | .error e => .error e.message
      | .ok text => .ok (Utf8.normalizeNewlines text)

def isYaml (path : String) : Bool := [".yaml", ".yml"].contains (Path.lower (Path.suffix path))

/-- The directory that holds the settings files of a project or a user. -/
def settingsDirectory : String := ".dauns"

/-- The names that the file of a project may have, the preferred one first. -/
def projectFileNames : List String := ["config.json", "config.yaml", "config.yml"]

/-- The settings file in the home directory of a user; an empty one is the root of all files. -/
def userFileIn (home : String) : String :=
  let home := if home = "" then "/" else home
  Path.normalize (Path.join (Path.join home settingsDirectory) "config.json")

/-- Where to look for settings, and what is given beside files. -/
structure Sources (ν : Type) where
  /-- The directory of the project; empty for the working directory. -/
  project : String
  /-- A file to read in place of the project's. -/
  explicitFile : Option String
  /-- The file of the user. -/
  userFile : String
  environment : List (String × String)
  overrides : List (String × ν)

/-- The settings file of the project, if there is one, or the one named in its place. -/
def projectFile? {ν : Type} (disk : Disk) (sources : Sources ν) : Option String :=
  match sources.explicitFile with
  | some path => some (Path.normalize path)
  | none =>
    let directory := Path.join sources.project settingsDirectory
    (projectFileNames.map fun name => Path.normalize (Path.join directory name)).find? disk.isFile

/-- Layers put over each other. -/
structure Layers (κ ν : Type) where
  sections : Mapping κ ν
  sources : List String
  log : List LogRecord

/-- What layers come to, or why they cannot be put over each other, with the log so far. -/
abbrev Layering (κ ν : Type) := Except (LoadError × List LogRecord) (Layers κ ν)

namespace Libraries

variable {κ ν : Type} [DecidableEq κ] (lib : Libraries κ ν)

/-- The sections of a file with a value; nothing at all is no sections. -/
def sectionsOf (path : String) (value : ν) : Except LoadError (Mapping κ ν) :=
  if lib.isNothing value then .ok .empty
  else
    match lib.mapping? value with
    | some sections => .ok sections
    | none => .error (.configuration (.notSections path))

def readSections (path : String) (text : List Char) : Except LoadError (Mapping κ ν) :=
  if isYaml path then
    match lib.readYaml text with
    | .ok value => lib.sectionsOf path value
    | .error cause => .error (.configuration (.unreadable path cause))
  else
    match lib.readJson text with
    | .ok value => lib.sectionsOf path value
    | .error (.refused cause) => .error (.configuration (.unreadable path cause))
    | .error (.tooDeep message) => .error (.tooDeepToRead message)

def readSource (disk : Disk) (path : String) : Except LoadError (Mapping κ ν) :=
  let path := Path.normalize path
  match disk.readText path with
  | .error cause => .error (.configuration (.unreadable path cause))
  | .ok text => lib.readSections path text

/-! ## Layers -/

/-- Puts sections over the layers so far. -/
def add (l : Layers κ ν) (source : String) (sections : Mapping κ ν) (log : List LogRecord) :
    Layering κ ν :=
  match lib.merge lib.calls l.sections sections with
  | some merged => .ok ⟨merged, l.sources ++ [source], l.log ++ log⟩
  | none => .error (.tooDeepToMerge, l.log)

def addIfAny (l : Layers κ ν) (source : String) (sections : Mapping κ ν) (log : List LogRecord) :
    Layering κ ν :=
  if sections.isEmpty then .ok l else lib.add l source sections log

def addFile (disk : Disk) (l : Layers κ ν) (path : String) (log : List LogRecord) :
    Layering κ ν :=
  match lib.readSource disk path with
  | .ok sections => lib.add l path sections log
  | .error e => .error (e, l.log)

def userLayer (disk : Disk) (sources : Sources ν) : Layering κ ν :=
  let path := Path.normalize sources.userFile
  if disk.isFile path then lib.addFile disk ⟨.empty, [], []⟩ path []
  else .ok ⟨.empty, [], []⟩

/-- Adds the layer of the project's file, if it is there; a file that is named has to be. -/
def addProjectLayer (disk : Disk) (sources : Sources ν) (l : Layers κ ν) : Layering κ ν :=
  match projectFile? disk sources with
  | none => .ok l
  | some path =>
    if disk.isFile path then
      lib.addFile disk l path [.debug .root s!"Loaded project config from {path}"]
    else .error (.configuration (.missing path), l.log)

def addEnvironment (sources : Sources ν) (l : Layers κ ν) : Layering κ ν :=
  let environment : Mapping κ ν := lib.ofEnvironment sources.environment
  lib.addIfAny l "environment" environment
    [.debug .root s!"Applied {environment.members.length} environment config sections"]

def addOverrides (sources : Sources ν) (l : Layers κ ν) : Layering κ ν :=
  lib.addIfAny l "overrides" (.ofTexts sources.overrides) []

def layers (disk : Disk) (sources : Sources ν) : Layering κ ν :=
  (((lib.userLayer disk sources).bind (lib.addProjectLayer disk sources)).bind
    (lib.addEnvironment sources)).bind (lib.addOverrides sources)

def checkLayers (l : Layers κ ν) : Except LoadError Settings :=
  match l.sections.texts? with
  | none => .error .sectionKey
  | some sections =>
    match lib.check sections with
    | .ok settings => .ok settings
    | .error e => .error (.configuration (.invalid e l.sources))

def load (disk : Disk) (sources : Sources ν) : Except LoadError Settings × List LogRecord :=
  match lib.layers disk sources with
  | .error (e, log) => (.error e, log)
  | .ok l => (lib.checkLayers l, l.log)

end Libraries
end Settings
end DeclScan
