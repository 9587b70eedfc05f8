import DeclScan.Json.Value
import DeclScan.Variable

/-!
# DeclScan.Record

Variables and imports as JSON records, for output and for hand-over between workers.

* `Variable.toJson`, `Variable.ofJson`: a variable as a record, and read from one. Reading a record
  back gives the variable it was written from.
* `Variable.plainRecord`: a record with all fields of a variable and no others, whatever they hold.
-/

namespace DeclScan

/-- Why a record is not a variable: it is no record at all, a field is missing, or a reference does
not have exactly the fields of one. -/
inductive RecordError where
  | notARecord
  | missingField (name : String)
  | malformed
  deriving Repr, DecidableEq

def pickFields (record : Json) : List String → Except RecordError (List (String × Json))
  | [] => .ok []
  | name :: names =>
    match record.member? name with
    | none => .error (.missingField name)
    | some value => (pickFields record names).map fun fields => (name, value) :: fields

def Json.ofText? : Option String → Json
  | none => .null
  | some s => .str s

namespace Reference

def toJson (r : Reference) : Json :=
  .obj [("line", .int r.line), ("character", .int r.character), ("context", .str r.context)]

def fieldNames : List String := ["line", "character", "context"]

/-- A record with the fields of a reference, if it has these and no others. -/
def plainRecord : Json → Except RecordError Json
  | .obj members =>
    if members.length = fieldNames.length then
      match pickFields (.obj members) fieldNames with
      | .ok fields => .ok (.obj fields)
      | .error _ => .error .malformed
    else .error .malformed
  | _ => .error .malformed

/-- Reads a reference; it has three fields and no others. -/
def ofJson : Json → Except RecordError Reference
  | .obj members =>
    match Table.get? "line" members, Table.get? "character" members, Table.get? "context" members with
    | some (.int line), some (.int character), some (.str context) =>
      if members.length = 3 then .ok ⟨line, character, context⟩ else .error .malformed
    | _, _, _ => .error .malformed
  | _ => .error .malformed

end Reference

namespace Variable

def toJson (v : Variable) : Json :=
  .obj [("name", .str v.name), ("type", .str v.type), ("declaration_type", .str v.declaredAs),
    ("line", .int v.line), ("character", .int v.character), ("file_path", .str v.filePath),
    ("scope", .str v.scope), ("value", Json.ofText? v.value),
    ("references", .arr (v.references.map Reference.toJson))]

def textField (record : Json) (name : String) : Except RecordError String :=
  match record.member? name with
  | none => .error (.missingField name)
  | some (.str s) => .ok s
  | some _ => .error .malformed

def numberField (record : Json) (name : String) : Except RecordError Int :=
  match record.member? name with
  | none => .error (.missingField name)
  | some (.int i) => .ok i
  | some _ => .error .malformed

/-- The items in the references of a record, which may come without; anything empty will do. -/
def referenceItems (record : Json) : Except RecordError (List Json) :=
  match record.member? "references" with
  | none | some (.str "") | some (.obj []) => .ok []
  | some (.arr items) => .ok items
  | some _ => .error .malformed

def referencesField (record : Json) : Except RecordError (List Reference) :=
  (referenceItems record).bind fun items => items.mapM Reference.ofJson

/-- The names of the fields that every record of a variable has. -/
def fieldNames : List String :=
  ["name", "type", "declaration_type", "line", "character", "file_path", "scope"]

/-- A record with the fields of a variable in their order, and whatever they hold. The value and the
references may be left out. -/
def plainRecord (record : Json) : Except RecordError Json :=
  match record with
  | .obj members => do
    let items ← referenceItems record
    let references ← items.mapM Reference.plainRecord
    let fields ← pickFields record fieldNames
    return .obj (fields ++
      [("value", (Table.get? "value" members).getD .null), ("references", .arr references)])
  | _ => .error .notARecord

/-- Reads a variable. The value and the references may be left out. -/
def ofJson (record : Json) : Except RecordError Variable := do
  let references ← referencesField record
  let name ← textField record "name"
  let type ← textField record "type"
  let declaredAs ← textField record "declaration_type"
  let line ← numberField record "line"
  let character ← numberField record "character"
  let filePath ← textField record "file_path"
  let scope ← textField record "scope"
  let value ← match record.member? "value" with
    | none | some .null => .ok none
    | some (.str s) => .ok (some s)
    | some _ => .error .malformed
  return { name, type, declaredAs, line, character, filePath, scope, value, references }

end Variable

namespace Import

def toJson (i : Import) : Json :=
  .obj [("name", .str i.name), ("path", .str i.path), ("line", .int i.line),
    ("character", .int i.character), ("type", .str i.kind.label)]

end Import
end DeclScan
