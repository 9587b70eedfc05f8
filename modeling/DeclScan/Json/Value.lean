import DeclScan.Table

/-!
# DeclScan.Json.Value

JSON documents. Whole numbers and doubles are told apart, as their texts are, and an object keeps
its members in the order in which their keys first appeared.
-/

namespace DeclScan

/-- A JSON document. -/
inductive Json where
  | null
  | bool (b : Bool)
  | int (i : Int)
  | float (x : Float)
  | str (s : String)
  | arr (items : List Json)
  | obj (members : List (String × Json))
  deriving Inhabited

namespace Json

def member? (key : String) : Json → Option Json
  | .obj members => Table.get? key members
  | _ => none

def kind : Json → String
  | .null => "null"
  | .bool _ => "boolean"
  | .int _ => "number"
  | .float _ => "number"
  | .str _ => "string"
  | .arr _ => "array"
  | .obj _ => "object"

end Json
end DeclScan
