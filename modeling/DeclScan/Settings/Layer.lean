import DeclScan.Path
import DeclScan.Settings.Libraries

/-!
# DeclScan.Settings.Layer

Settings come in layers: sections of fields, a later layer over an earlier one.

* `Settings.Values.merge`: one layer over another.
* `Settings.Values.ofEnvironment`: the layer that the environment gives.
-/

namespace DeclScan
namespace Settings

/-! ## Layers -/

namespace Values

variable {κ ν : Type} [DecidableEq κ] (vals : Values κ ν)

/-- What comes of a value that is put over another, or over none. Two mappings are merged; otherwise
the upper value counts. -/
def valueOver (merge : Mapping κ ν → Mapping κ ν → Option (Mapping κ ν)) (lower : Option ν) (upper : ν) :
    Option ν :=
  match lower.bind vals.mapping?, vals.mapping? upper with
  | some base, some upper => (merge base upper).map vals.ofMapping
  | _, _ => some upper

/-- Puts a member among others. A key that they have keeps its place. -/
def putOver (merge : Mapping κ ν → Mapping κ ν → Option (Mapping κ ν)) (merged : Mapping κ ν)
    (entry : Key κ × ν) : Option (Mapping κ ν) :=
  (vals.valueOver merge (merged.get? entry.1) entry.2).map (merged.put entry.1)

/-- Puts the members of a mapping over those of another one, and so on for mappings within both. This
takes a call for each mapping within another, and fails if there are not so many. -/
def merge : Nat → Mapping κ ν → Mapping κ ν → Option (Mapping κ ν)
  | 0, _, _ => none
  | calls + 1, base, upper => upper.members.foldlM (vals.putOver (merge calls)) base

end Values

/-! ## The environment -/

/-- How the names of settings begin in the environment. -/
def environmentMark : String := "DAUNS_"

def listFields : List (String × String) := [("scan", "skip_dirs"), ("scan", "file_extensions")]

/-- The section and the field that a name in the environment stands for. -/
def environmentName? (name : String) : Option (String × String) :=
  match Text.dropLiteral environmentMark.toList name.toList with
  | none => none
  | some rest =>
    let rest := Text.lower rest
    let sectionName := String.ofList (rest.takeWhile (· ≠ '_'))
    let fieldName := String.ofList ((rest.dropWhile (· ≠ '_')).drop 1)
    if sectionNames.contains sectionName && fieldName ≠ "" then some (sectionName, fieldName)
    else none

/-- The name of a field of a section in the environment. -/
def environmentNameOf (sectionName fieldName : String) : String :=
  environmentMark ++ String.ofList (Text.capitals s!"{sectionName}_{fieldName}".toList)

def environmentNames : List String :=
  sectionNames.flatMap fun sectionName =>
    match Settings.standard.toJson.member? sectionName with
    | some (.obj fields) => fields.map fun (fieldName, _) => environmentNameOf sectionName fieldName
    | _ => []

/-- The items between the commas of a text, without blanks around them and without empty ones. -/
def commaItems (s : String) : List String :=
  ((Text.splitOn ',' s.toList).map fun item => String.ofList (Text.trim item)).filter (· ≠ "")

namespace Values

variable {κ ν : Type} [DecidableEq κ] (vals : Values κ ν)

def environmentValue (name : String × String) (text : String) : ν :=
  if listFields.contains name then vals.ofTexts (commaItems text) else vals.ofText text

def setField (sections : Mapping κ ν) (name : String × String) (value : ν) : Mapping κ ν :=
  let fields := ((sections.get? (.text name.1)).bind vals.mapping?).getD .empty
  sections.put (.text name.1) (vals.ofMapping (fields.put (.text name.2) value))

def ofEnvironment (environment : List (String × String)) : Mapping κ ν :=
  environment.foldl
    (fun sections (name, text) =>
      match environmentName? name with
      | some found => vals.setField sections found (vals.environmentValue found text)
      | none => sections)
    .empty

end Values
end Settings
end DeclScan
