import DeclScan.Console.Output
import DeclScan.Json.Display
import DeclScan.Scan.Scanner
import DeclScan.Settings.Load

/-!
# DeclScan.Console.Failure

Failures of commands as users are told about them: what went wrong, what to do about it, and the
exit code of the program.
-/

namespace DeclScan

/-- The kinds of failures. -/
inductive FailureCategory where
  | configuration
  | fileSystem
  | validation
  | scanning
  | runtime
  deriving Repr, DecidableEq

namespace FailureCategory

def name : FailureCategory → String
  | .configuration => "configuration"
  | .fileSystem => "file_system"
  | .validation => "validation"
  | .scanning => "scanning"
  | .runtime => "runtime"

def unknownText (name : String) : String := s!"{Text.quoted name} is not a valid ErrorCategory"

def ofName (s : String) : Except String FailureCategory :=
  match [configuration, fileSystem, validation, scanning, runtime].find? fun c => c.name = s with
  | some c => .ok c
  | none => .error (unknownText s)

theorem ofName_name (c : FailureCategory) : ofName c.name = .ok c := by cases c <;> rfl

end FailureCategory

/-- A failure of a command. -/
structure CommandFailure where
  category : FailureCategory
  message : String
  suggestion : Option String
  details : Option (List (String × Json))
  exitCode : Int

namespace CommandFailure

/-- The details that tell one thing, if there is something to tell. -/
def detail? (name : String) (value : Option String) : Option (List (String × Json)) :=
  match value with
  | none | some "" => none
  | some s => some [(name, .str s)]

def pathNotFound (path : String) : CommandFailure :=
  { category := .fileSystem
    message := s!"Path not found: {path}"
    suggestion := some "Verify the path exists and you have read permissions"
    details := some [("path", .str path)]
    exitCode := 1 }

/-- The texts in increasing order, with commas between them. -/
def sortedText (items : List String) : String :=
  String.intercalate ", " (FileStore.sortNames items)

def unsupportedFile (path : String) (supported : List String) : CommandFailure :=
  { category := .validation
    message := s!"Unsupported file type: {path}"
    suggestion := some "Run 'dauns extensions' to list supported file types"
    details := if supported.isEmpty then none else some [("supported", .str (sortedText supported))]
    exitCode := 2 }

/-- The suggestion for configurations when nothing else is said. -/
def configurationSuggestion : String := "Check your configuration file syntax and field values"

def configuration (message : String) (source suggestion : Option String) : CommandFailure :=
  { category := .configuration
    message := message
    suggestion :=
      match suggestion with
      | none | some "" => some configurationSuggestion
      | some s => some s
    details := detail? "config_file" source
    exitCode := 1 }

def scanFailed (message : String) (path : Option String) : CommandFailure :=
  { category := .scanning
    message := message
    suggestion := some "Check the file is readable text in a supported format"
    details := detail? "file" path
    exitCode := 1 }

def ofConfigurationFault (fault : ConfigurationFault) : CommandFailure :=
  configuration fault.message (some (String.intercalate ", " fault.sources)) none

def ofRefusal (path : String) (r : ScanRefusal) : CommandFailure :=
  scanFailed s!"Failed to scan {path}: {r.reason}" (some path)

/-- What other programs are told about a failure beside its message. -/
def members (f : CommandFailure) : List (String × Json) :=
  [("category", .str f.category.name),
    ("suggestion", Json.ofText? f.suggestion),
    ("details", (f.details.map Json.obj).getD .null),
    ("exit_code", .int f.exitCode)]

/-! ## Wording -/

def sequence (color : Bool) (n : Nat) : String := if color then controlSequence n else ""

@[simp] theorem sequence_false (n : Nat) : sequence false n = "" := rfl

def headLine (color : Bool) (message : String) : String :=
  s!"{sequence color 91}Error:{sequence color 0} {message}"

def detailLines (color : Bool) (details : List (String × Json)) : List String :=
  details.map fun (key, value) =>
    s!"{sequence color 2}  {key}: {value.display}{sequence color 0}"

def suggestionLines (color : Bool) (suggestion : Option String) : List String :=
  match suggestion with
  | none | some "" => []
  | some s => [s!"{sequence color 96}Suggestion:{sequence color 0} {s}"]

def text (f : CommandFailure) (color : Bool) : String :=
  String.intercalate "\n"
    (headLine color f.message :: suggestionLines color f.suggestion ++
      detailLines color (f.details.getD []))

/-- What verbose output adds to a failure: where it comes from. -/
def traceText (cause : String) : String := s!"\n\nTraceback:\n{cause}"

end CommandFailure

/-- Anything that ends a command: a failure that users are told about in detail, or any other error,
of which there is only a text. -/
inductive CommandError where
  | failure (f : CommandFailure)
  | other (text : String)

namespace CommandError

def plainText : CommandError → String
  | .failure f => f.text false
  | .other text => text

def text (color verbose : Bool) (e : CommandError) : String :=
  let told := match e with
    | .failure f => f.text color
    | .other text => CommandFailure.headLine color text
  if verbose then told ++ CommandFailure.traceText e.plainText else told

def exitCode : CommandError → Int
  | .failure f => f.exitCode
  | .other _ => 1

end CommandError
end DeclScan
