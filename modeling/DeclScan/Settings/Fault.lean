import DeclScan.Json.Value

/-!
# DeclScan.Settings.Fault

What can be wrong with the value of a setting. A fault knows where it is, and has a code and a
wording.
-/

namespace DeclScan

/-- A step on the way to a value: the name of a section or field, or an index in a list. -/
inductive SettingStep where
  | name (s : String)
  | index (n : Nat)
  deriving Repr, DecidableEq

/-- What is wrong with a value, and the way to it. -/
structure SettingFault where
  location : List SettingStep
  code : String
  message : String
  deriving Repr, DecidableEq

def SettingFault.within (step : SettingStep) (f : SettingFault) : SettingFault :=
  { f with location := step :: f.location }

def SettingStep.text : SettingStep → String
  | .name s => s
  | .index n => toString n

def SettingStep.toJson : SettingStep → Json
  | .name s => .str s
  | .index n => .int n

def SettingFault.text (f : SettingFault) : String :=
  String.intercalate "." (f.location.map SettingStep.text) ++ ": " ++ f.message

/-- A fault as JSON: its place, its code and its wording. -/
def SettingFault.toJson (f : SettingFault) : Json :=
  .arr [.arr (f.location.map SettingStep.toJson), .str f.code, .str f.message]

/-- Settings that are refused: in words, and fault by fault. -/
structure ValidationError where
  text : String
  faults : List SettingFault
  deriving Repr, DecidableEq

end DeclScan
