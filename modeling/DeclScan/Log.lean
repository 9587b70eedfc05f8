import DeclScan.Json.Value
import DeclScan.Text.Quoted

/-!
# DeclScan.Log

Log records. Every part of the scanner writes to a channel of its own below the root channel; what
a record may carry beside its text (`extras`) is written by structured logs only.
-/

namespace DeclScan

/-- The level of a log record. -/
inductive LogLevel where
  | debug
  | info
  | warning
  | error
  | critical
  deriving Repr, DecidableEq, Inhabited

namespace LogLevel

def name : LogLevel → String
  | .debug => "DEBUG"
  | .info => "INFO"
  | .warning => "WARNING"
  | .error => "ERROR"
  | .critical => "CRITICAL"

def rank : LogLevel → Nat
  | .debug => 10
  | .info => 20
  | .warning => 30
  | .error => 40
  | .critical => 50

def ofName? (s : String) : Option LogLevel :=
  [debug, info, warning, error, critical].find? fun l => l.name = s

/-- The level that a word asks for; two levels have a second word. -/
def ofWord? (s : String) : Option LogLevel :=
  [("debug", debug), ("info", info), ("warning", warning), ("warn", warning), ("error", error),
    ("critical", critical), ("fatal", critical)].lookup s

theorem ofName?_name (l : LogLevel) : ofName? l.name = some l := by cases l <;> rfl

end LogLevel

/-- The part of the scanner that a record comes from. -/
inductive LogChannel where
  | root
  | parser
  | cache
  | scanner
  | watcher
  | performance
  | memory
  deriving Repr, DecidableEq, Inhabited

namespace LogChannel

def category : LogChannel → String
  | .root => ""
  | .parser => "parser"
  | .cache => "cache"
  | .scanner => "scanner"
  | .watcher => "watcher"
  | .performance => "performance"
  | .memory => "memory"

def rootName : String := "dauns"

def name : LogChannel → String
  | .root => rootName
  | c => rootName ++ "." ++ c.category

def ofCategory? (s : String) : Option LogChannel :=
  [parser, cache, scanner, watcher, performance, memory].find? fun c => c.category = s

/-- The channel of a category, or the root channel if none is named. A name that is not a category is
refused. -/
def ofName : Option String → Except String LogChannel
  | none => .ok root
  | some name =>
    match ofCategory? name with
    | some channel => .ok channel
    | none => .error name

def unknownText (name : String) : String := s!"{Text.quoted name} is not a valid LogCategory"

end LogChannel

/-- A log record. `failure` is the text of the error that a record was written for. -/
structure LogRecord where
  level : LogLevel
  channel : LogChannel
  message : String
  extras : List (String × Json)
  failure : Option String

namespace LogRecord

def text (level : LogLevel) (channel : LogChannel) (message : String) : LogRecord :=
  ⟨level, channel, message, [], none⟩

def debug (channel : LogChannel) (message : String) : LogRecord := text .debug channel message
def info (channel : LogChannel) (message : String) : LogRecord := text .info channel message
def warning (channel : LogChannel) (message : String) : LogRecord := text .warning channel message
def error (channel : LogChannel) (message : String) : LogRecord := text .error channel message

end LogRecord
end DeclScan
