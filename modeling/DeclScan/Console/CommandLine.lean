import DeclScan.Console.Arguments
import DeclScan.Console.Command
import DeclScan.FileStore
import DeclScan.Text.CharClass

/-!
# DeclScan.Console.CommandLine

The command lines of the program: `dauns [OPTIONS] COMMAND [ARGS]...`.

* `Invocation.read`: the options of the program, and the words of the command.
* `Command.read`: a command with its arguments.
* `UsageError`: a command line that is refused.

Paths of some arguments are looked up at once, since a wrong one is a mistake of usage.
-/

namespace DeclScan

/-- What a plain argument is: any text, or the path of a directory that is there. -/
inductive ParameterKind where
  | text
  | directory
  deriving Repr, DecidableEq

/-- A plain argument of a command. -/
structure Parameter where
  name : String
  kind : ParameterKind
  deriving Repr, DecidableEq

namespace CommandName

def word : CommandName → String
  | .scan => "scan"
  | .listVariables => "variables"
  | .imports => "imports"
  | .references => "references"
  | .unused => "unused"
  | .hotspots => "hotspots"
  | .extensions => "extensions"
  | .watch => "watch"

def all : List CommandName :=
  [scan, listVariables, imports, references, unused, hotspots, extensions, watch]

def ofWord? (s : String) : Option CommandName := all.find? fun c => c.word = s

theorem ofWord?_word (c : CommandName) : ofWord? c.word = some c := by cases c <;> rfl

def parameters : CommandName → List Parameter
  | .scan => [⟨"PATH", .text⟩]
  | .listVariables | .imports | .unused => [⟨"FILE", .text⟩]
  | .references => [⟨"FILE", .text⟩, ⟨"NAME", .text⟩]
  | .hotspots | .watch => [⟨"PATH", .directory⟩]
  | .extensions => []

end CommandName

/-! ## Options -/

def helpOption : OptionSpec := ⟨"--help", none, false⟩

def jsonOption : OptionSpec := ⟨"--json", none, false⟩

def reportOption : OptionSpec := ⟨"--report", none, false⟩

def CommandName.options : CommandName → List OptionSpec
  | .scan => [jsonOption, reportOption, helpOption]
  | .listVariables | .imports => [jsonOption, helpOption]
  | _ => [helpOption]

def programOptions : List OptionSpec :=
  [⟨"--version", none, false⟩, ⟨"--verbose", some 'v', false⟩, ⟨"--quiet", some 'q', false⟩,
    ⟨"--no-color", none, false⟩, ⟨"--config", none, true⟩, ⟨"--log-file", none, true⟩,
    ⟨"--log-format", none, true⟩, helpOption]

/-! ## Refusals -/

/-- What is wrong with a value. -/
inductive ValueFault where
  | noSuchFile (path : String)
  | noSuchDirectory (path : String)
  | isDirectory (path : String)
  | isFile (path : String)
  | notAChoice (value : String) (choices : List String)
  deriving Repr, DecidableEq

def ValueFault.message : ValueFault → String
  | .noSuchFile path => s!"File {Text.quoted path} does not exist."
  | .noSuchDirectory path => s!"Directory {Text.quoted path} does not exist."
  | .isDirectory path => s!"File {Text.quoted path} is a directory."
  | .isFile path => s!"Directory {Text.quoted path} is a file."
  | .notAChoice value choices =>
    let named := String.intercalate ", " (choices.map Text.quoted)
    s!"{Text.quoted value} is not one of {named}."

/-- What is wrong with a command line. -/
inductive UsageFault where
  | wrongSyntax (fault : SyntaxFault)
  | noCommand
  | unknownCommand (word : String) (similar : List String)
  | missingArgument (name : String)
  | wrongValue (name : String) (fault : ValueFault)
  | extraArguments (words : List String)
  deriving Repr, DecidableEq

namespace UsageFault

def message : UsageFault → String
  | .wrongSyntax fault => fault.message
  | .noCommand => "Missing command."
  | .unknownCommand word similar =>
    s!"No such command {Text.quoted word}.{suggestionText similar}"
  | .missingArgument name => s!"Missing argument {Text.quoted name}."
  | .wrongValue name fault => s!"Invalid value for {Text.quoted name}: {fault.message}"
  | .extraArguments words =>
    let noun := if words.length = 1 then "argument" else "arguments"
    s!"Got unexpected extra {noun} (" ++ String.intercalate " " words ++ ")"

def showsUsage : UsageFault → Bool
  | .wrongSyntax (.missingValue _) | .wrongSyntax (.unwantedValue _) => false
  | _ => true

end UsageFault

/-- A command line that is refused: by the program itself or by one of its commands. -/
structure UsageError where
  command : Option CommandName
  fault : UsageFault
  deriving Repr, DecidableEq

namespace UsageError

def calledAs : Option CommandName → String
  | none => "dauns"
  | some command => s!"dauns {command.word}"

def synopsis : Option CommandName → List String
  | none => ["[OPTIONS]", "COMMAND", "[ARGS]..."]
  | some command => "[OPTIONS]" :: command.parameters.map Parameter.name

def usageText (command : Option CommandName) : String :=
  "Usage: " ++ String.intercalate " " (calledAs command :: synopsis command) ++ "\n"

def helpHint (command : Option CommandName) : String :=
  s!"Try '{calledAs command} {helpOption.name}' for help.\n"

def text (e : UsageError) : String :=
  let usage := if e.fault.showsUsage then usageText e.command ++ helpHint e.command ++ "\n" else ""
  s!"{usage}Error: {e.fault.message}\n"

end UsageError

/-! ## The program -/

/-- Looks up the path of a file; one that is not there is a fault only if it has to be. -/
def checkFile {τ : Type} (store : FileStore τ) (required : Bool) (path : String) :
    Option ValueFault :=
  match store.status path with
  | .error _ => if required then some (.noSuchFile path) else none
  | .ok .directory => some (.isDirectory path)
  | .ok (.file _) => none

def checkDirectory {τ : Type} (store : FileStore τ) (path : String) : Option ValueFault :=
  match store.status path with
  | .error _ => some (.noSuchDirectory path)
  | .ok (.file _) => some (.isFile path)
  | .ok .directory => none

def logFormatNames : List String := ["text", "json"]

def versionText : String := "dauns, version 1.0.0\n"

namespace Invocation

def checkValue {τ : Type} (store : FileStore τ) (name value : String) : Option ValueFault :=
  if name = "--config" then checkFile store true value
  else if name = "--log-file" then checkFile store false value
  else if name = "--log-format" then
    if logFormatNames.contains value then none else some (.notAChoice value logFormatNames)
  else none

/-- Checks the values of the options of the program, in the order in which these were given. -/
def checkValues {τ : Type} (store : FileStore τ) (a : Arguments) : Option UsageFault :=
  a.names.findSome? fun name =>
    (a.value? name).bind fun value =>
      (checkValue store name value).map fun fault => .wrongValue name fault

def optionsOf (a : Arguments) : ProgramOptions :=
  { verbose := a.has "--verbose"
    quiet := a.has "--quiet"
    noColor := a.has "--no-color"
    configFile := a.value? "--config"
    logFile := a.value? "--log-file"
    logFormat := LogFormat.ofName ((a.value? "--log-format").getD "text") }

/-- Whether a word looks like an option, though it stands in the place of a command. -/
def looksLikeOption (word : String) : Bool :=
  match word.toList with
  | c :: _ => c = '_' || !Text.isWord c
  | [] => false

/-- The command that the words of a command line ask for. A word that is no command but looks like
an option is read as one once more, for the fault that it may have. -/
def commandOf (a : Arguments) (again : List String → Except UsageFault Invocation) :
    Except UsageFault Invocation :=
  match a.words with
  | [] => .error .noCommand
  | word :: words =>
    match CommandName.ofWord? word with
    | some name => .ok (.command (optionsOf a) name words)
    | none =>
      let unknown : UsageFault :=
        .unknownCommand word (Text.closeWords word (CommandName.all.map CommandName.word))
      match if looksLikeOption word then again (word :: words) else .error unknown with
      | .error (.unknownCommand ..) | .error .noCommand | .ok (.command ..) => .error unknown
      | outcome => outcome

/-- Reads a command line up to its command: `reads` times at most, each but the first because the
word for the command looks like an option. What asks for no command comes first, then wrong
values. -/
def readFrom {τ : Type} (store : FileStore τ) : Nat → List String → Except UsageFault Invocation
  | 0, _ => .error .noCommand
  | reads + 1, words =>
    match Arguments.read programOptions false words with
    | .error fault => .error (.wrongSyntax fault)
    | .ok a =>
      match a.names.find? fun name => name = "--version" || name = helpOption.name with
      | some "--version" => .ok (.told versionText)
      | some _ => .ok (.told (UsageError.usageText none))
      | none =>
        match checkValues store a with
        | some fault => .error fault
        | none => commandOf a (readFrom store reads)

def read {τ : Type} (store : FileStore τ) (words : List String) : Except UsageError Invocation :=
  match readFrom store 2 words with
  | .error fault => .error ⟨none, fault⟩
  | .ok invocation => .ok invocation

end Invocation

/-! ## Commands -/

namespace Command

/-- Takes a value for each parameter. The answer has the values and the words left over. -/
def takeValues {τ : Type} (store : FileStore τ) :
    List Parameter → List String → Except UsageFault (List String × List String)
  | [], words => .ok ([], words)
  | p :: _, [] => .error (.missingArgument p.name)
  | p :: parameters, word :: words =>
    match (if p.kind = .directory then checkDirectory store word else none) with
    | some fault => .error (.wrongValue p.name fault)
    | none => (takeValues store parameters words).map fun (values, rest) => (word :: values, rest)

/-- The command with a name and the values of its parameters. -/
def ofValues (name : CommandName) (a : Arguments) (values : List String) : Command :=
  let first := values.headD ""
  let asJson := a.has jsonOption.name
  match name with
  | .scan => .scan first asJson (a.has reportOption.name)
  | .listVariables => .listVariables first asJson
  | .imports => .imports first asJson
  | .references => .references first ((values.drop 1).headD "")
  | .unused => .unused first
  | .hotspots => .hotspots first
  | .extensions => .extensions
  | .watch => .watch first

def readWords {τ : Type} (store : FileStore τ) (name : CommandName) (words : List String) :
    Except UsageFault Command :=
  match Arguments.read name.options true words with
  | .error fault => .error (.wrongSyntax fault)
  | .ok a =>
    if a.has helpOption.name then .ok (.told (UsageError.usageText (some name)))
    else
      match takeValues store name.parameters a.words with
      | .error fault => .error fault
      | .ok (values, []) => .ok (ofValues name a values)
      | .ok (_, extra) => .error (.extraArguments extra)

def read {τ : Type} (store : FileStore τ) (name : CommandName) (words : List String) :
    Except UsageError Command :=
  match readWords store name words with
  | .error fault => .error ⟨some name, fault⟩
  | .ok command => .ok command

end Command
end DeclScan
