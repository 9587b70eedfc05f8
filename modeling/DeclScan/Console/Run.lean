import DeclScan.Console.Command
import DeclScan.Console.Session

/-!
# DeclScan.Console.Run

A run of the program, from its command line to its exit code.

* `Run.Libraries`: what a run relies on.
* `Run.start`: the run for a command line.
* `Run.streamText`, `Run.logLines`: what is seen of a run.

A run that is cut short by an error that is not its business (`Run.escaped`) has written all that
came before.
-/

namespace DeclScan

/-- What a run finds around it. The streams may keep control sequences that are not asked for. -/
structure Surroundings (τ : Type) where
  environment : Table String
  files : FileStore τ
  clock : Float
  keepsColor : Bool
  watching : WatchTime τ

/-- A run of the program. The log is set up only when a command is called. -/
structure Run where
  emitted : List Emission
  exitCode : Int
  escaped : Option Stop
  logging : Option LogSetup

namespace Run

/-- What a run relies on: the libraries for settings, the readers of command lines, and what takes
control sequences out of texts. A command line that is refused is answered by a text. -/
structure Libraries (κ ν τ : Type) where
  settings : Settings.Libraries κ ν
  invocation : FileStore τ → List String → Except String Invocation
  command : FileStore τ → CommandName → List String → Except String Command
  filter : ControlFilter

variable {κ ν τ : Type} [DecidableEq κ] [Time τ] (lib : Libraries κ ν τ)

def echo (env : Surroundings τ) (stream : OutputStream) (text : String) : Emission :=
  .written ⟨stream, if env.keepsColor then text else lib.filter.strip text⟩

/-- The memory that a run has in use by its own measure, in bytes. -/
def measuredMemory : Int := 1000

/-- The memory that a run has in use by the measure of its memory manager. -/
def managedMemory : MemoryStats := ⟨1048576, 2097152, 0.125⟩

def openWorkspace (settings : Settings) : Except Stop (Workspace τ) :=
  match Workspace.start settings Registry.standard (Sampler.constant measuredMemory)
      (Sampler.constant managedMemory) with
  | .ok workspace => .ok workspace
  | .error e => .error (.limits e)

/-! ## Commands -/

/-- What a command leaves: what it put out, how it ended, and what is put out after its end. -/
structure CommandRun where
  emitted : List Emission
  outcome : Except Stop Unit
  closing : List Emission

namespace CommandRun

def stopped (log : List LogRecord) (stop : Stop) : CommandRun := ⟨log.map .logged, .error stop, []⟩

/-- A command that works on a workspace, which is closed at the end. -/
def ofSession (env : Surroundings τ) (style : OutputStyle) (settings : Settings)
    (log : List LogRecord) (body : Session τ → CommandOutcome τ) : CommandRun :=
  match openWorkspace settings with
  | .error stop => stopped log stop
  | .ok workspace =>
    let (s, outcome) := body ⟨style, ⟨env.files, env.clock⟩, workspace, log.map .logged⟩
    let closed := (Session.takeLog { s with workspace := s.workspace.dispose, emitted := [] })
    ⟨s.emitted, outcome, closed.emitted⟩

def projectOf (env : Surroundings τ) (path : String) : String :=
  let path := Path.normalize path
  if env.files.isDirectory path then path else Path.parent path

def settingsSources (env : Surroundings τ) (options : ProgramOptions) (target : String) :
    Settings.Sources ν :=
  { project := projectOf env target
    explicitFile := options.configFile
    userFile := Settings.userFileIn ((env.environment.get? "HOME").getD "")
    environment := env.environment
    overrides := [] }

def onProject (env : Surroundings τ) (style : OutputStyle) (options : ProgramOptions)
    (target : String) (body : Session τ → CommandOutcome τ) : CommandRun :=
  match lib.settings.load (.ofStore env.files) (settingsSources env options target) with
  | (.error e, log) => stopped log (.ofLoadError e)
  | (.ok settings, log) => ofSession env style settings log body

def scan (path : String) (asJson report : Bool) (s : Session τ) : CommandOutcome τ :=
  let output (workspace : Workspace τ) (results : ScanResults) : List Written :=
    s.style.scanOutput asJson results (if report then some workspace.monitor.report else none)
  let target := Path.normalize path
  if s.world.files.isDirectory target then
    s.request none (fun workspace world => workspace.scanAll world .inOrder target) output
  else
    s.fileRequest path (fun workspace world => workspace.scanFile world target)
      fun workspace vars => output workspace [(path, vars)]

def ofCommand (env : Surroundings τ) (style : OutputStyle) (options : ProgramOptions) :
    Command → CommandRun
  | .scan path asJson report =>
    if env.files.pathExists (Path.normalize path) then
      onProject lib env style options path (scan path asJson report)
    else stopped [] (.failure (.pathNotFound path))
  | .listVariables file asJson =>
    onProject lib env style options file fun s =>
      s.fileRequest file (fun workspace world => workspace.scanFile world (Path.normalize file))
        fun _ found => style.variablesOutput asJson file found
  | .imports file asJson =>
    onProject lib env style options file fun s =>
      s.fileRequest file (fun workspace world => workspace.imports world (Path.normalize file))
        fun _ found => style.importsOutput asJson found
  | .references file name =>
    onProject lib env style options file fun s =>
      s.fileRequest file
        (fun workspace world => workspace.references world (Path.normalize file) name)
        fun _ found => style.referencesOutput name found
  | .unused file =>
    onProject lib env style options file fun s =>
      s.fileRequest file (fun workspace world => workspace.unused world (Path.normalize file))
        fun _ found => style.unusedOutput found
  | .hotspots path =>
    onProject lib env style options path fun s =>
      s.request none (fun workspace world => workspace.hotspots world .inOrder path)
        fun workspace found => style.hotspotsOutput workspace.analysis.hotspotThreshold found
  | .extensions =>
    ofSession env style Settings.standard [] fun s =>
      (s.say (style.extensionsOutput s.workspace.scanner.rules.registry), .ok ())
  | .watch path => onProject lib env style options path fun s => s.watch path env.watching
  | .told text => ⟨[echo lib env .out text], .ok (), []⟩

end CommandRun

/-! ## Runs -/

/-- The style of output that a command line asks for. The streams are no terminals. -/
def styleOf (env : Surroundings τ) (options : ProgramOptions) : OutputStyle :=
  { color := useColor (if options.noColor then some false else none) env.environment.keys false
    quiet := options.quiet
    verbose := options.verbose
    filter := lib.filter }

def loggingOf (options : ProgramOptions) : LogSetup :=
  { level := LogSetup.standardLevel
    quiet := options.quiet
    verbose := options.verbose
    file := options.logFile
    format := options.logFormat }

/-- Makes the log file, with the directories that hold it. -/
def makeLogFile (env : Surroundings τ) (options : ProgramOptions) (modified : τ) :
    Except FileError (Surroundings τ) :=
  match options.logFile with
  | none => .ok env
  | some path =>
    match env.files.ensureDirectory (Path.parent path) with
    | .error e => .error e
    | .ok files =>
      .ok { env with
        files := if files.pathExists path then files else files.write path ⟨[], modified⟩ }

def saying (env : Surroundings τ) (stream : OutputStream) (text : String) (exitCode : Int)
    (logging : Option LogSetup) : Run :=
  ⟨[echo lib env stream text], exitCode, none, logging⟩

def escapedCode : Int := 1

/-- The exit code of a command line that is refused. -/
def usageCode : Int := 2

def ofCommandRun (env : Surroundings τ) (style : OutputStyle) (logging : LogSetup)
    (done : CommandRun) : Run :=
  match done.outcome with
  | .ok () => ⟨done.emitted ++ done.closing, 0, none, some logging⟩
  | .error (.failure f) =>
    let e := CommandError.failure f
    let told := echo lib env .err (e.text style.color style.verbose ++ "\n")
    ⟨done.emitted ++ [told] ++ done.closing, e.exitCode, none, some logging⟩
  | .error stop => ⟨done.emitted ++ done.closing, escapedCode, some stop, some logging⟩

/-- The run of the command with a name. The log is set up before its words are read. -/
def ofInvocation (env : Surroundings τ) (options : ProgramOptions) (name : CommandName)
    (words : List String) : Run :=
  let logging := loggingOf options
  match makeLogFile env options Time.zero with
  | .error e => ⟨[], escapedCode, some (.logFile e), none⟩
  | .ok env =>
    match lib.command env.files name words with
    | .error text => saying lib env .err text usageCode (some logging)
    | .ok command =>
      let style := styleOf lib env options
      ofCommandRun lib env style logging (CommandRun.ofCommand lib env style options command)

def start (env : Surroundings τ) (words : List String) : Run :=
  match lib.invocation env.files words with
  | .error text => saying lib env .err text usageCode none
  | .ok (.told text) => saying lib env .out text 0 none
  | .ok (.command options name words) => ofInvocation lib env options name words

/-! ## What is seen -/

/-- The rank from which on records are shown. Without a log nothing is. -/
def consoleRank (r : Run) : Nat :=
  match r.logging.map LogSetup.consoleRank with
  | some (.ok rank) => rank
  | _ => LogLevel.critical.rank + 1

/-- The text that an emission adds to a stream. Log records are shown among the errors. -/
def emissionText (rank : Nat) (stream : OutputStream) : Emission → String
  | .written w => if w.stream = stream then w.text else ""
  | .logged r =>
    if stream = .err && rank ≤ r.level.rank then r.consoleLine ++ "\n" else ""

/-- A text in which every line break of two characters is one of one character. -/
def plainLineBreaks : List Char → List Char
  | '\r' :: '\n' :: s => '\n' :: plainLineBreaks s
  | c :: s => c :: plainLineBreaks s
  | [] => []

/-- All that a run wrote to a stream, as it is read from there. -/
def streamText (r : Run) (stream : OutputStream) : String :=
  let texts := r.emitted.map (emissionText r.consoleRank stream)
  String.ofList (plainLineBreaks (String.join texts).toList)

def records (r : Run) : List LogRecord := r.emitted.filterMap Emission.record?

def logLines (r : Run) (time : String) : List String :=
  match r.logging with
  | none => []
  | some logging => r.records.map (logging.format.line time)

end Run
end DeclScan
