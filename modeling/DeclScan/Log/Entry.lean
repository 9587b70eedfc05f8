import DeclScan.Json.Writer
import DeclScan.Log
import DeclScan.Log.Template

/-!
# DeclScan.Log.Entry

Log records as JSON objects.

* `LogEntry`: the members of such an object; `LogEntry.ofRecord` is the one of a record.
* `LogCall.entry`: the one for what a program hands over to be logged.
-/

namespace DeclScan

/-- The place in a program that a record was written at. -/
structure LogOrigin where
  module : Json
  function : Json
  line : Json

/-- A record as a JSON object: what is always there, the extras that are known, and the error that
it was written for. -/
structure LogEntry where
  level : Json
  logger : Json
  origin : Option LogOrigin
  message : String
  extras : List (String × Json)
  failure : Option String

namespace LogEntry

/-- The extras that a structured record may have, in order. -/
def extraFields : List String := ["duration_ms", "operation", "file_path", "variable_count"]

def failureText (kind text : String) : String := if text = "" then kind else s!"{kind}: {text}"

def originMembers : Option LogOrigin → List (String × Json)
  | none => []
  | some o => [("module", o.module), ("function", o.function), ("line", o.line)]

def members (e : LogEntry) : List (String × Json) :=
  [("level", e.level), ("logger", e.logger)] ++ originMembers e.origin ++
    [("message", .str e.message)] ++
    (extraFields.filterMap fun field =>
      (Table.get? field e.extras).map fun value => (field, value)) ++
    (e.failure.map fun text => ("exception", Json.str text)).toList

def ofRecord (r : LogRecord) : LogEntry :=
  ⟨.str r.level.name, .str r.channel.name, none, r.message, r.extras, r.failure⟩

/-- A record in a log file of JSON objects, with the time at which it was written. -/
def fileLine (time : String) (e : LogEntry) : String :=
  (Json.obj (("timestamp", .str time) :: e.members)).spaced

end LogEntry

/-! ## What is handed over -/

/-- What a program hands over to be logged: the channel, a level by its rank, the place in the
program, a template with values for it, extras and the text of an error. -/
structure LogCall where
  logger : Json
  level : Json
  path : Json
  line : Json
  function : Json
  template : Json
  values : List Json
  extras : Table Json
  failure : Option String

namespace LogCall

def namedLevels : List (String × Int) :=
  [("NOTSET", 0), ("DEBUG", 10), ("INFO", 20), ("WARNING", 30), ("ERROR", 40), ("CRITICAL", 50),
    ("WARN", 30), ("FATAL", 50)]

def rankOf? (level : Json) : Option Int :=
  match level with
  | .float x =>
    match Conversion.wholePart level with
    | .ok n => if Binary64.ofInt n == x then some n else none
    | .error _ => none
  | _ => Conversion.integer? level

/-- What is shown for a level: the name for a rank, and the rank for a name. Lists and mappings are
no levels. -/
def levelLabel (level : Json) : Except TemplateFault Json :=
  let named : Option Json :=
    match level with
    | .str name => (namedLevels.lookup name).map .int
    | _ =>
      (rankOf? level).bind fun rank =>
        (namedLevels.find? fun (_, r) => r = rank).map fun (name, _) => .str name
  match level with
  | .arr _ | .obj _ => .error (.wrongValue .wrongKind)
  | _ => .ok (named.getD (.str ("Level " ++ level.display)))

/-- The module that a file is: its name without the extension. -/
def moduleOf : Json → String
  | .str path =>
    let name := (path.toList.reverse.takeWhile (· ≠ '/')).reverse
    let stem := (name.reverse.dropWhile (· ≠ '.')).drop 1
    if stem.all (· = '.') then String.ofList name else String.ofList stem.reverse
  | _ => "Unknown module"

def isPresent : Json → Bool
  | .null => false
  | .bool b => b
  | .int n => n ≠ 0
  | .float x => x != 0
  | .str s => s ≠ ""
  | .arr items => !items.isEmpty
  | .obj members => !members.isEmpty

/-- The values for the template. Extras may have a single value in their place. -/
def supply? (c : LogCall) : Option LogTemplate.Supply :=
  match Table.get? "args" c.extras with
  | some value => if isPresent value then some (.ofValue value) else none
  | none => if c.values.isEmpty then none else some (.ofValues c.values)

/-- The message; without values it is the template itself. -/
def message (c : LogCall) (template : Json) : Except TemplateFault String :=
  match c.supply? with
  | none => .ok template.display
  | some supply => LogTemplate.fill template.display supply

/-- The text of the error. Extras may take it away, but have none themselves. -/
def failureText (c : LogCall) : Except TemplateFault (Option String) :=
  match Table.get? "exc_info" c.extras with
  | none => .ok c.failure
  | some value => if isPresent value then .error (.wrongValue .wrongKind) else .ok none

/-- The entry for a call. Extras with the name of a standard attribute take its place. -/
def entry (c : LogCall) : Except TemplateFault LogEntry := do
  let shown (name : String) (value : Json) : Json := (Table.get? name c.extras).getD value
  let level ← levelLabel c.level
  let message ← c.message (shown "msg" c.template)
  let failure ← c.failureText
  return {
    level := shown "levelname" level
    logger := shown "name" c.logger
    origin := some {
      module := shown "module" (.str (moduleOf c.path))
      function := shown "funcName" c.function
      line := shown "lineno" c.line }
    message := message
    extras := c.extras
    failure := failure }

end LogCall
end DeclScan
