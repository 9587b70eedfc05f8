import DeclScan.Json.Value
import DeclScan.Number.Decimal
import DeclScan.Text.Quoted

/-!
# DeclScan.Json.Display

Values as people are shown them in messages. A text stands as it is; within lists and mappings texts
are in quotes.
-/

namespace DeclScan
namespace Json

mutual

def displayQuoted : Json → String
  | .null => "None"
  | .bool b => if b then "True" else "False"
  | .int n => toString n
  | .float x => floatText x
  | .str s => Text.quoted s
  | .arr items => "[" ++ String.intercalate ", " (displayItems items) ++ "]"
  | .obj members => "\x7b" ++ String.intercalate ", " (displayMembers members) ++ "\x7d"

def displayItems : List Json → List String
  | [] => []
  | item :: items => displayQuoted item :: displayItems items

def displayMembers : List (String × Json) → List String
  | [] => []
  | (key, value) :: members => (Text.quoted key ++ ": " ++ displayQuoted value) :: displayMembers members

end

def display : Json → String
  | .str s => s
  | value => displayQuoted value

end Json
end DeclScan
