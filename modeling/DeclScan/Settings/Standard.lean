import DeclScan.Json.Reader
import DeclScan.Settings.Check
import DeclScan.Settings.Libraries
import DeclScan.YamlText.Reader

/-!
# DeclScan.Settings.Standard

The libraries that the program is put together with: values are nodes of documents, read as far as
settings are written in them, and checked section by section.
-/

namespace DeclScan
namespace Settings

def Values.standard : Values String YamlNode where
  mapping? := YamlNode.mapping?
  ofMapping := YamlNode.ofMapping
  isNothing := YamlNode.isNull
  ofText s := .scalar (.str s)
  ofTexts items := .sequence (items.map fun s => .scalar (.str s))
  mapping?_ofMapping m := congrArg some (Mapping.ofPairs_members m)
  mapping?_ofText _ := rfl
  mapping?_ofTexts _ := rfl

namespace Libraries

def readJsonText (text : List Char) : Except JsonFailure YamlNode :=
  match Json.read text with
  | .ok document => .ok (.ofJson document)
  | .error (.tooDeep c) => .error (.tooDeep (Json.ReadError.message (.tooDeep c)))
  | .error e => .error (.refused e.message)

def readYamlText (text : List Char) : Except String YamlNode :=
  match YamlText.read text with
  | some node => .ok node
  | none => .error "YAML"

def checkSections (sections : Table YamlNode) : Except ValidationError Settings :=
  match Settings.check (sections.map fun (name, node) => (name, node.toJson)) with
  | .ok settings => .ok settings
  | .error faults => .error ⟨String.intercalate "; " (faults.map SettingFault.text), faults⟩

def standard : Libraries String YamlNode where
  toValues := Values.standard
  readJson := readJsonText
  readYaml := readYamlText
  check := checkSections
  calls := 1000
  two_le_calls := by decide

end Libraries
end Settings
end DeclScan
