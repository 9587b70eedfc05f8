import DeclScan.Json.Comments
import DeclScan.Json.Reader
import DeclScan.Json.Writer
import DeclScan.Variable

/-!
# DeclScan.Language.JsonDocument

Keys of JSON documents. Every key at every depth is a property, an element of an array has its
index for a key. A key comes before the keys of its value, and its scope is the path to it.

`walk?` keeps the containers that it is within on a stack, each with the entries that are still to
come, so that the depth of a document does not matter.
-/

namespace DeclScan
namespace JsonDocument

/-- The elements of an array with their indices as keys. -/
def indexed : Nat → List Json → List (String × Json)
  | _, [] => []
  | n, item :: items => (toString n, item) :: indexed (n + 1) items

/-- The keys of a value with what they hold; a scalar has none. -/
def entries : Json → List (String × Json)
  | .obj members => members
  | .arr items => indexed 0 items
  | _ => []

def isContainer : Json → Bool
  | .obj _ => true
  | .arr _ => true
  | _ => false

/-- The path to what a key holds, in a container with a path. -/
def below (path key : String) : String := if path = "" then key else path ++ "." ++ key

/-- The text of a value: a string stands for itself, all else for its JSON text. -/
def valueText : Json → String
  | .str s => s
  | j => j.compact

/-- The variable for a key in a container with a path. -/
def property (filePath path key : String) (value : Json) : Variable :=
  { name := key
    type := value.kind
    declaredAs := "property"
    line := 0
    character := 0
    filePath := filePath
    scope := if path = "" then "root" else path
    value := some (valueText value)
    references := [] }

/-- A container that a walk is within: its path, and the entries that are still to come. -/
structure Level where
  path : String
  left : List (String × Json)

/-- Goes into a value, if it is a container. -/
def enter (path : String) (value : Json) (levels : List Level) : List Level :=
  if isContainer value then ⟨path, entries value⟩ :: levels else levels

/-- Lists what is left of the levels, the innermost first, in a number of turns. A turn lists the
next entry of the innermost level and goes into its value, or leaves the level at its end. There is
no answer if the turns do not suffice. -/
def walk? (filePath : String) : Nat → List Level → Option (List Variable)
  | _, [] => some []
  | 0, _ :: _ => none
  | n + 1, ⟨_, []⟩ :: outer => walk? filePath n outer
  | n + 1, ⟨path, (key, value) :: left⟩ :: outer =>
    (walk? filePath n (enter (below path key) value (⟨path, left⟩ :: outer))).map
      (property filePath path key value :: ·)

mutual

/-- The turns from the one behind the listing of a value to the one that leaves it. -/
def turns : Json → Nat
  | .obj members => memberTurns members + 1
  | .arr items => itemTurns items + 1
  | _ => 0

def memberTurns : List (String × Json) → Nat
  | [] => 0
  | (_, value) :: members => 1 + turns value + memberTurns members

def itemTurns : List Json → Nat
  | [] => 0
  | item :: items => 1 + turns item + itemTurns items

end

/-- The keys of a document. A scalar is left in one turn, as a container without entries is. -/
def ofDocument (filePath : String) (document : Json) : List Variable :=
  (walk? filePath (turns document + 1) [⟨"", entries document⟩]).getD []

/-- The variables of a text; with `comments`, its comments are removed first. -/
def extract? (comments : Bool) (content : List Char) (filePath : String) :
    Except Json.ReadError (List Variable) :=
  match Json.read (if comments then Json.stripComments content else content) with
  | .error e => .error e
  | .ok document => .ok (ofDocument filePath document)

end JsonDocument
end DeclScan
