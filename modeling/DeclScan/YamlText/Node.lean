import DeclScan.Json.Value
import DeclScan.Number.Decimal
import DeclScan.Settings.Mapping

/-!
# DeclScan.YamlText.Node

YAML documents, and JSON documents among them. The keys of a mapping are scalars of any kind, told
apart by their spelling. As JSON such a document has texts for keys.
-/

namespace DeclScan

/-- A node of a YAML document. -/
inductive YamlNode where
  | scalar (value : Json)
  | sequence (items : List YamlNode)
  | mapping (members : List (Settings.Key String × YamlNode))
  deriving Inhabited

namespace YamlNode

def keyOf : Json → Settings.Key String
  | .str s => .text s
  | .null => .other "null"
  | .bool b => .other (if b then "true" else "false")
  | .int n => .other (toString n)
  | .float x => .other (floatText x)
  | .arr _ | .obj _ => .other ""

def keyText : Settings.Key String → String
  | .text s | .other s => s

def ofMembers (members : List (Json × YamlNode)) : YamlNode :=
  .mapping (members.map fun (key, value) => (keyOf key, value))

mutual

/-- A document as JSON. Of members with the same text for a key the last counts. -/
def toJson : YamlNode → Json
  | .scalar value => value
  | .sequence items => .arr (itemsJson items)
  | .mapping members => .obj (Table.ofPairs (membersJson members))

def itemsJson : List YamlNode → List Json
  | [] => []
  | item :: items => item.toJson :: itemsJson items

def membersJson : List (Settings.Key String × YamlNode) → List (String × Json)
  | [] => []
  | (key, value) :: members => (keyText key, value.toJson) :: membersJson members

end

mutual

def ofJson : Json → YamlNode
  | .arr items => .sequence (ofItems items)
  | .obj members => .mapping (ofObject members)
  | value => .scalar value

def ofItems : List Json → List YamlNode
  | [] => []
  | item :: items => ofJson item :: ofItems items

def ofObject : List (String × Json) → List (Settings.Key String × YamlNode)
  | [] => []
  | (key, value) :: members => (.text key, ofJson value) :: ofObject members

end

/-- The members of a mapping; of those with the same key the last counts. -/
def mapping? : YamlNode → Option (Settings.Mapping String YamlNode)
  | .mapping members => some (.ofPairs members)
  | _ => none

def ofMapping (m : Settings.Mapping String YamlNode) : YamlNode := .mapping m.members

def isNull : YamlNode → Bool
  | .scalar .null => true
  | _ => false

end YamlNode
end DeclScan
