import DeclScan.Console.Failure
import DeclScan.Console.Listing
import DeclScan.Watcher

/-!
# DeclScan.Console.Session

A command at work on a workspace. What it writes and what it logs come in one order (`Emission`).

* `Session.request`: one request and its output.
* `Session.watch`: a scan, and scans of changed files from then on.
-/

namespace DeclScan

/-- What comes out of a run. -/
inductive Emission where
  | written (w : Written)
  | logged (r : LogRecord)

namespace Emission

def record? : Emission → Option LogRecord
  | .written _ => none
  | .logged r => some r

end Emission

/-- Why a command ends early: a failure that the user is told about, or an error that is not the
business of the program. -/
inductive Stop where
  | failure (f : CommandFailure)
  | logFile (e : FileError)
  | settings (e : LoadError)
  | limits (e : MemoryManager.LimitError)
  | scan (e : ScanFailure)

namespace Stop

def ofLoadError : LoadError → Stop
  | .configuration fault => .failure (.ofConfigurationFault fault)
  | e => .settings e

/-- What the failure of a request about a file leads to; without a file it is not told to the
user. -/
def ofScanFailure : Option String → ScanFailure → Stop
  | some file, .refused r => .failure (.ofRefusal file r)
  | _, e => .scan e

end Stop

/-- Something that happens while a command watches: a file is written or removed, or the file system
tells something. -/
inductive Happening (τ : Type) where
  | write (path : String) (file : StoredFile τ)
  | remove (path : String)
  | notice (n : FileNotice)

/-- A time of watching: what happens in each second, whether the user breaks it off, and whether the
source of events does not end then. -/
structure WatchTime (τ : Type) where
  seconds : List (List (Happening τ))
  interrupted : Bool
  stillAlive : Bool

def WatchTime.none {τ : Type} : WatchTime τ := ⟨[], false, false⟩

/-- A command at work. -/
structure Session (τ : Type) where
  style : OutputStyle
  world : World τ
  workspace : Workspace τ
  emitted : List Emission

abbrev CommandOutcome (τ : Type) := Session τ × Except Stop Unit

namespace Session

variable {τ : Type} [Time τ]

def say (s : Session τ) (texts : List Written) : Session τ :=
  { s with emitted := s.emitted ++ texts.map .written }

def takeLog (s : Session τ) : Session τ :=
  { s with
    emitted := s.emitted ++ s.workspace.scanner.log.map .logged
    workspace := { s.workspace with scanner := { s.workspace.scanner with log := [] } } }

def change (s : Session τ) (act : Workspace τ → Workspace τ) : Session τ :=
  takeLog { s with workspace := act s.workspace }

def ask {α : Type} (s : Session τ)
    (act : Workspace τ → World τ → Workspace τ × Except ScanFailure α) :
    Session τ × Except ScanFailure α :=
  let (workspace, outcome) := act s.workspace s.world
  (takeLog { s with workspace := workspace }, outcome)

/-- Makes a request and writes its result. A refusal about `file` is told to the user. -/
def request {α : Type} (s : Session τ) (file : Option String)
    (act : Workspace τ → World τ → Workspace τ × Except ScanFailure α)
    (output : Workspace τ → α → List Written) : CommandOutcome τ :=
  match s.ask act with
  | (s, .ok a) => (s.say (output s.workspace a), .ok ())
  | (s, .error e) => (s, .error (.ofScanFailure file e))

/-- Makes a request about a file, which has to be there and to have an extractor. -/
def fileRequest {α : Type} (s : Session τ) (file : String)
    (act : Workspace τ → World τ → Workspace τ × Except ScanFailure α)
    (output : Workspace τ → α → List Written) : CommandOutcome τ :=
  if !s.world.files.pathExists (Path.normalize file) then
    (s, .error (.failure (.pathNotFound file)))
  else
    let registry := s.workspace.scanner.rules.registry
    if !registry.isSupported file then
      (s, .error (.failure (.unsupportedFile file registry.extensions)))
    else s.request (some file) act output

/-! ## Watching -/

def listener : Listener := ⟨none⟩

def setFiles (s : Session τ) (files : FileStore τ) : Session τ :=
  { s with world := { s.world with files := files } }

/-- What becomes of a watching session when something happens. -/
def happen (w : Watcher) (s : Session τ) : Happening τ → Watcher × Session τ
  | .write path file => (w, s.setFiles (s.world.files.write path file))
  | .remove path =>
    match s.world.files.remove path with
    | .ok files => (w, s.setFiles files)
    | .error _ => (w, s)
  | .notice n =>
    let (w, workspace) := w.notice s.workspace (some listener) n
    (w, takeLog { s with workspace := workspace })

def tellUpdates (s : Session τ) : Session τ :=
  let s := s.say (s.workspace.updates.flatMap fun u =>
    s.style.info s!"{u.path}: {u.vars.length} variables")
  { s with workspace := { s.workspace with updates := [] } }

def passSecond (s : Session τ) : Session τ :=
  match s.workspace.advance s.world runFuel (Time.ofMillis 1000) with
  | some (workspace, _) => (takeLog { s with workspace := workspace }).tellUpdates
  | none => s

def watchSecond (w : Watcher) (s : Session τ) (happenings : List (Happening τ)) :
    Watcher × Session τ :=
  let (w, s) := happenings.foldl (fun (w, s) h => happen w s h) (w, s)
  (w, s.passSecond)

def endRecords (time : WatchTime τ) : List LogRecord :=
  (if time.interrupted then [.info .watcher "Stopping file watcher"] else []) ++
    (if time.stillAlive then [.warning .watcher "File watcher did not stop cleanly"] else [])

/-- Watches the files below a root, once these are scanned. -/
def watchRoot (s : Session τ) (root : String) (time : WatchTime τ) : Session τ :=
  let s := s.change fun workspace =>
    workspace.startMonitoring.write [.info .watcher s!"Watching {root}"]
  let (w, s) := time.seconds.foldl (fun (w, s) seconds => watchSecond w s seconds)
    (Watcher.start (some root), s)
  let s := s.change fun workspace => workspace.write (endRecords time)
  s.say (s.style.info s!"Stopped after {w.forwarded} forwarded events ({w.ignored} ignored)")

def watch (s : Session τ) (root : String) (time : WatchTime τ) : CommandOutcome τ :=
  match s.ask fun workspace world => workspace.scanAll world .inOrder root with
  | (s, .error e) => (s, .error (.ofScanFailure none e))
  | (s, .ok results) =>
    let s := s.say (s.style.success s!"Initial scan: {results.length} files" false ++
      s.style.info "Watching for changes. Press Ctrl+C to stop")
    (s.watchRoot root time, .ok ())

end Session
end DeclScan
