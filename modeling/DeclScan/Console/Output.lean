import DeclScan.Json.Writer

/-!
# DeclScan.Console.Output

What the command line writes. A line goes to one of two streams; quiet output drops lines that are
not forced, and without colour every line is free of control sequences, whoever put them in.

* `OutputStyle.line`: one line, perhaps after a symbol.
* `useColor`: whether to use colour.
-/

namespace DeclScan

/-- The streams of a console. -/
inductive OutputStream where
  | out
  | err
  deriving Repr, DecidableEq

/-- A text that was written to a stream. -/
structure Written where
  stream : OutputStream
  text : String
  deriving Repr, DecidableEq

def Written.textOf (stream : OutputStream) (written : List Written) : String :=
  String.join ((written.filter fun w => w.stream = stream).map Written.text)

/-! ## Control sequences -/

def escapeChar : Char := '\x1b'

def controlSequence (n : Nat) : String := String.ofList [escapeChar] ++ s!"[{n}m"

def colorCodes : List (String × Nat) :=
  [("green", 92), ("red", 91), ("yellow", 93), ("blue", 94), ("bold", 1), ("dim", 2), ("reset", 0)]

/-- The control sequence of a colour; one that is not known has none. -/
def colorSequence (color : String) : String := ((colorCodes.lookup color).map controlSequence).getD ""

/-- What takes control sequences out of texts. A text without an escape character has none. -/
structure ControlFilter where
  strip : String → String
  strip_of_not_mem (s : String) : escapeChar ∉ s.toList → strip s = s

/-- Whether to use colour: as asked for, or else by two variables of the environment, whatever their
values, or else if the stream is a terminal. -/
def useColor (asked : Option Bool) (environment : List String) (isTerminal : Bool) : Bool :=
  match asked with
  | some answer => answer
  | none =>
    if environment.contains "NO_COLOR" then false
    else if environment.contains "FORCE_COLOR" then true
    else isTerminal

/-! ## Lines -/

/-- How output is written. -/
structure OutputStyle where
  color : Bool
  quiet : Bool
  verbose : Bool
  filter : ControlFilter

/-- The symbols in front of messages. -/
inductive OutputSymbol where
  | success
  | error
  | warning
  | info
  deriving Repr, DecidableEq

namespace OutputSymbol

def color : OutputSymbol → String
  | .success => "green"
  | .error => "red"
  | .warning => "yellow"
  | .info => "blue"

def sign : OutputSymbol → String
  | .success => "✓"
  | .error => "✗"
  | .warning => "⚠"
  | .info => "ℹ"

def plain : OutputSymbol → String
  | .success => "[OK]"
  | .error => "[FAIL]"
  | .warning => "[WARN]"
  | .info => "[INFO]"

/-- The symbol with a name; everything unknown is information. -/
def ofName (s : String) : OutputSymbol :=
  ((["success", "error", "warning", "info"].zip [success, error, warning, info]).lookup s).getD info

end OutputSymbol

namespace OutputStyle

def colorize (o : OutputStyle) (text color : String) : String :=
  if o.color then colorSequence color ++ text ++ colorSequence "reset" else text

def symbol (o : OutputStyle) (s : OutputSymbol) : String :=
  if o.color then o.colorize s.sign s.color else s.plain

def render (o : OutputStyle) (text : String) : String :=
  (if o.color then text else o.filter.strip text) ++ "\n"

/-- Writes a line, unless output is quiet and the line is not forced. -/
def line (o : OutputStyle) (symbol : Option OutputSymbol) (force : Bool) (message : String) :
    List Written :=
  if o.quiet && !force then []
  else
    let text := match symbol with
      | none => message
      | some s => s!"{o.symbol s} {message}"
    [⟨.out, o.render text⟩]

def success (o : OutputStyle) (message : String) (force : Bool) : List Written :=
  o.line (some .success) force message

def warning (o : OutputStyle) (message : String) (force : Bool) : List Written :=
  o.line (some .warning) force message

def info (o : OutputStyle) (message : String) : List Written := o.line (some .info) false message

def plain (o : OutputStyle) (message : String) (force : Bool) : List Written :=
  o.line none force message

/-- Errors go to a stream of their own, even if output is quiet. -/
def error (o : OutputStyle) (message : String) : List Written :=
  [⟨.err, o.render s!"{o.symbol .error} {message}"⟩]

def debug (o : OutputStyle) (message : String) : List Written :=
  if o.verbose then o.plain ("DEBUG: " ++ o.colorize message "dim") false else []

def header (o : OutputStyle) (title : String) : List Written :=
  o.plain (o.colorize title "bold") false ++
    o.plain (String.ofList (List.replicate title.length '=')) false

/-- Writes a value for other programs, even if output is quiet. -/
def json (o : OutputStyle) (value : Json) : List Written := o.plain value.indented true

/-- A duration, in milliseconds or from a second on in seconds. -/
def durationText (ms : Float) : String :=
  if ms < 1000 then fixedText 0 ms ++ "ms" else fixedText 1 (ms / 1000) ++ "s"

/-- Writes how many of a total number went well or wrong, even if output is quiet. -/
def summary (o : OutputStyle) (total success failed : Int) (duration : Option Float) :
    List Written :=
  let parts :=
    [s!"{total} total"] ++
      (if 0 < success then [s!"{success} successful"] else []) ++
      (if 0 < failed then [s!"{failed} failed"] else []) ++
      (duration.map durationText).toList
  o.line (some (if 0 < failed then .error else .success)) true (String.intercalate " | " parts)

end OutputStyle
end DeclScan
