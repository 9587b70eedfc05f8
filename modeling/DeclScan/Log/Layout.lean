import DeclScan.Log.Entry
import DeclScan.Text.Basic
import DeclScan.Text.CaseMap

/-!
# DeclScan.Log.Layout

Where log records go and how they look there. The console shows records from some level on; a log
file has all of them, as text or as a JSON object a line.

* `LogSetup`: what is asked for; `LogSetup.consoleRank` is what it comes to.
* `LogFormat.line`: a line of a log file.
-/

namespace DeclScan

/-- The forms of a log file. -/
inductive LogFormat where
  | text
  | json
  deriving Repr, DecidableEq

def LogFormat.ofName (s : String) : LogFormat := if s = "json" then .json else .text

/-- How much is logged to the console, and the log file if there is one. -/
structure LogSetup where
  level : String
  quiet : Bool
  verbose : Bool
  file : Option String
  format : LogFormat
  deriving Repr, DecidableEq

/-- Why a setup is refused. -/
inductive LogSetupError where
  | unknownLevel
  deriving Repr, DecidableEq

def LogSetupError.message : LogSetupError → String
  | .unknownLevel => "Unable to configure handler 'console'"

namespace LogSetup

def standardLevel : String := "INFO"

/-- Names of levels beside the usual ones, with their ranks. -/
def otherLevels : List (String × Nat) := [("NOTSET", 0), ("WARN", 30), ("FATAL", 50)]

def rankOfName? (name : String) : Option Nat :=
  (LogLevel.ofName? name).map LogLevel.rank <|> otherLevels.lookup name

/-- The level that is asked for: a quiet console shows errors only, a verbose one everything. -/
def effectiveLevel (s : LogSetup) : String :=
  if s.quiet then "ERROR"
  else if s.verbose then "DEBUG"
  else String.ofList (Text.capitals s.level.toList)

/-- The rank from which on records are shown on the console. -/
def consoleRank (s : LogSetup) : Except LogSetupError Nat :=
  match rankOfName? s.effectiveLevel with
  | some rank => .ok rank
  | none => .error .unknownLevel

end LogSetup

namespace LogRecord

def consoleLine (r : LogRecord) : String := s!"{r.level.name} | {r.message}"

def shown (rank : Nat) (records : List LogRecord) : List LogRecord :=
  records.filter fun r => rank ≤ r.level.rank

theorem shown_append (rank : Nat) (records more : List LogRecord) :
    shown rank (records ++ more) = shown rank records ++ shown rank more :=
  List.filter_append records more

theorem mem_shown {rank : Nat} {r : LogRecord} {records : List LogRecord} :
    r ∈ shown rank records ↔ r ∈ records ∧ rank ≤ r.level.rank := by
  simp [shown]

def levelWidth : Nat := 8

def paddedLevel (r : LogRecord) : String :=
  r.level.name ++ String.ofList (List.replicate (levelWidth - r.level.name.length) ' ')

/-- A record in a log file, with the time at which it was written. -/
def fileLine (time : String) (r : LogRecord) : String :=
  s!"{time} | {r.paddedLevel} | {r.channel.name} - {r.message}"

/-- The lines of a log file with some records. A message may have several. -/
def fileLines (time : String) (records : List LogRecord) : List String :=
  let text := String.join (records.map fun r => r.fileLine time ++ "\n")
  (Text.lines text.toList).map String.ofList

end LogRecord

def LogFormat.line (format : LogFormat) (time : String) (r : LogRecord) : String :=
  match format with
  | .text => r.fileLine time
  | .json => (LogEntry.ofRecord r).fileLine time

end DeclScan
