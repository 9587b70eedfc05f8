import DeclScan.Console.Output
import DeclScan.Record
import DeclScan.Scan.Scanner
import DeclScan.Usage

/-!
# DeclScan.Console.Listing

Results of commands, as lines for people and as JSON for other programs.
-/

namespace DeclScan

/-! ## Columns -/

def alignRight (width : Nat) (s : String) : String :=
  String.ofList (List.replicate (width - s.length) ' ') ++ s

def alignLeft (width : Nat) (s : String) : String :=
  s ++ String.ofList (List.replicate (width - s.length) ' ')

/-- The widths of the columns with places, forms of declarations, forms of imports and extensions. -/
def placeWidth : Nat := 8
def declaredAsWidth : Nat := 22
def importKindWidth : Nat := 8
def extensionWidth : Nat := 8

namespace OutputStyle

def plainLines (o : OutputStyle) (lines : List String) : List Written :=
  lines.flatMap fun line => o.plain line false

/-! ## Variables -/

def variableLine (v : Variable) : String :=
  let place := alignRight placeWidth s!"{v.line}:{v.character}"
  s!"  {place}  {alignLeft declaredAsWidth v.declaredAs} {v.name}: {v.type}  [{v.scope}]"

def variableListing (o : OutputStyle) (path : String) (vars : List Variable) : List Written :=
  o.plain (o.colorize s!"{path} ({vars.length} variables)" "bold") false ++
    o.plainLines (vars.map variableLine)

def variablesJson (vars : List Variable) : Json := .arr (vars.map Variable.toJson)

/-- The result of a request for the variables of a file. -/
def variablesOutput (o : OutputStyle) (asJson : Bool) (path : String) (vars : List Variable) :
    List Written :=
  if asJson then o.json (variablesJson vars) else o.variableListing path vars

/-! ## Scans -/

def resultsJson (results : ScanResults) : Json :=
  .obj (results.map fun (path, vars) => (path, variablesJson vars))

def scanJson (results : ScanResults) (report : Option Monitor.Report) : Json :=
  match report with
  | none => resultsJson results
  | some report => .obj [("results", resultsJson results), ("report", report.toJson)]

def sortByKey {α : Type} (entries : Table α) : Table α :=
  entries.mergeSort fun a b => !(b.1 < a.1)

def percentText (x : Float) : String := fixedText 2 (x * 100) ++ "%"

def operationLine (name : String) (stats : Monitor.OperationStats) : String :=
  s!"  {name}: {stats.count} calls, avg={fixedText 2 stats.averageDuration}ms"

def reportListing (o : OutputStyle) (report : Monitor.Report) : List Written :=
  o.header "Performance Report" ++
    o.plainLines (
      [s!"Average scan time: {fixedText 2 report.averageScanTime}ms",
        s!"Cache efficiency:  {fixedText 2 report.cacheEfficiency}",
        s!"Error rate:        {percentText report.errorRate}"] ++
      ((sortByKey report.operations).map fun (name, stats) => operationLine name stats) ++
      ["Recommendations:"] ++ report.recommendations.map fun advice => s!"  - {advice}")

/-- The results of a scan that took no time worth telling. -/
def scanListing (o : OutputStyle) (results : ScanResults) (report : Option Monitor.Report) :
    List Written :=
  let total := (results.flatMap Prod.snd).length
  ((sortByKey results).flatMap fun (path, vars) => o.variableListing path vars) ++
    o.summary results.length results.length 0 (some 0) ++
    o.info s!"{total} variables found" ++
    (report.map o.reportListing).getD []

def scanOutput (o : OutputStyle) (asJson : Bool) (results : ScanResults)
    (report : Option Monitor.Report) : List Written :=
  if asJson then o.json (scanJson results report) else o.scanListing results report

/-! ## Other requests -/

def importLine (i : Import) : String :=
  s!"  {i.line}:{i.character}  {alignLeft importKindWidth i.kind.label} {i.name} <- {i.path}"

def importsOutput (o : OutputStyle) (asJson : Bool) (imports : List Import) : List Written :=
  if asJson then o.json (.arr (imports.map Import.toJson))
  else
    (if imports.isEmpty then o.info "No imports found" else []) ++
      o.plainLines (imports.map importLine)

/-- The result of a request for the references to a name. -/
def referencesOutput (o : OutputStyle) (name : String) (references : List Reference) :
    List Written :=
  o.info s!"{references.length} references to {name}" ++
    o.plainLines (references.map fun r => s!"  {r.line}:{r.character}  {r.context}")

def unusedOutput (o : OutputStyle) (unused : List Usage.Unused) : List Written :=
  if unused.isEmpty then o.success "No unused variables found" false
  else
    o.warning s!"{unused.length} unused variables" true ++
      o.plainLines (unused.map fun u => variableLine u.declaration)

def hotspotsOutput (o : OutputStyle) (threshold : Int) (vars : List Variable) :
    List Written :=
  o.info s!"{vars.length} variables with at least {threshold} references" ++
    o.plainLines (vars.map fun v => s!"  {v.name}  ({v.filePath}:{v.line})")

def extensionsOutput (o : OutputStyle) (registry : Registry) : List Written :=
  (sortByKey registry.table).flatMap fun (extension, e) =>
    o.plain s!"{alignLeft extensionWidth extension} {e.language}" true

end OutputStyle
end DeclScan
