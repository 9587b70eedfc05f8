import DeclScan.Log.Layout

/-!
# DeclScan.Console.Command

What command lines ask for: options of the program, and a command with its arguments.
-/

namespace DeclScan

/-- The names of the commands. -/
inductive CommandName where
  | scan
  | listVariables
  | imports
  | references
  | unused
  | hotspots
  | extensions
  | watch
  deriving Repr, DecidableEq

/-- The options of the program. -/
structure ProgramOptions where
  verbose : Bool
  quiet : Bool
  noColor : Bool
  configFile : Option String
  logFile : Option String
  logFormat : LogFormat
  deriving Repr, DecidableEq

/-- What a command line asks for: to be told something, or a command whose words are read later. -/
inductive Invocation where
  | told (text : String)
  | command (options : ProgramOptions) (name : CommandName) (words : List String)
  deriving Repr, DecidableEq

/-- A command with its arguments, or what is told in its place. -/
inductive Command where
  | scan (path : String) (asJson report : Bool)
  | listVariables (file : String) (asJson : Bool)
  | imports (file : String) (asJson : Bool)
  | references (file name : String)
  | unused (file : String)
  | hotspots (path : String)
  | extensions
  | watch (path : String)
  | told (text : String)
  deriving Repr, DecidableEq

end DeclScan
