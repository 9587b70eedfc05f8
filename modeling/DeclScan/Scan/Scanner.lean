import DeclScan.Cache
import DeclScan.Monitor
import DeclScan.Scan.Pool

/-!
# DeclScan.Scan.Scanner

Scanning files and workspaces. A scanner answers from its cache where it can, lets workers read the
other files, and writes their results back to the cache. A file that cannot be scanned is left out
of the result of a workspace.

* `Scanner.scanFile`: one file.
* `Scanner.scanWorkspace`: all supported files below a root. In which order the tasks of the pool are
  done, and whether a worker reports on each, is not in the scanner's hands (`Arrival`).
* `Scanner.writeBack`: what is done with a report. The cache takes the time of change that the file
  has then, which may be later than the time at which the worker read it.
-/

namespace DeclScan

/-- What a scan sees of the world: the files, and a clock in seconds. -/
structure World (τ : Type) where
  files : FileStore τ
  clock : Float

/-- A monitor with the source of its memory measurements. -/
structure Meter where
  monitor : Monitor
  sampler : Sampler Int

/-- A scanner: its rules, and if it has them a cache and a meter. The log holds its records, the
oldest first. -/
structure Scanner (τ : Type) where
  rules : ScanRules
  cache : Option (Cache τ)
  meter : Option Meter
  log : List LogRecord

/-- Why a file that was asked for is not scanned. -/
structure ScanRefusal where
  path : String
  reason : String
  deriving Repr, DecidableEq

def ScanRefusal.message (r : ScanRefusal) : String := s!"{r.path}: {r.reason}"

def unsupportedText : String := "unsupported file type"

/-- How an operation can go wrong: it is refused, or something that is not of this library breaks
off, such as the measuring of memory. -/
inductive ScanFailure where
  | refused (r : ScanRefusal)
  | broken (text : String)
  deriving Repr, DecidableEq

def ScanFailure.message : ScanFailure → String
  | .refused r => r.message
  | .broken text => text

/-- Results by path, in the order in which they were put in. -/
abbrev ScanResults := Table (List Variable)

namespace Scanner

variable {τ : Type} [LE τ] [DecidableLE τ]

def write (s : Scanner τ) (records : List LogRecord) : Scanner τ :=
  { s with log := s.log ++ records }

def measure (s : Scanner τ) (change : Monitor → Monitor) : Scanner τ :=
  { s with meter := s.meter.map fun m => { m with monitor := change m.monitor } }

/-! ## Timing -/

def startTimer (s : Scanner τ) (clock : Float) (operation : String) :
    Scanner τ × Option OperationTimer :=
  match s.meter with
  | none => (s, none)
  | some m =>
    let (monitor, timer) := m.monitor.startOperation operation clock
    ({ s with meter := some { m with monitor := monitor } }, some timer)

/-- Ends the timer of an operation; a failure of the memory measurement is the outcome then. -/
def endTimer {α : Type} (s : Scanner τ) (clock : Float) (timer : Option OperationTimer)
    (outcome : Except ScanFailure α) : Scanner τ × Except ScanFailure α :=
  match s.meter, timer with
  | some m, some timer =>
    let ended := m.monitor.endOperation timer m.sampler clock
    ({ s with meter := some ⟨ended.monitor, ended.sampler⟩, log := s.log ++ ended.log },
      match ended.outcome with
      | .ok _ => outcome
      | .error text => .error (.broken text))
  | _, _ => (s, outcome)

def timed {α : Type} (s : Scanner τ) (clock : Float) (operation : String)
    (body : Scanner τ → Scanner τ × Except ScanFailure α) : Scanner τ × Except ScanFailure α :=
  let (s, timer) := s.startTimer clock operation
  let (s, outcome) := body s
  s.endTimer clock timer outcome

/-- Times an operation whose failure counts as an error. -/
def guarded {α : Type} (s : Scanner τ) (clock : Float) (operation : String)
    (body : Scanner τ → Scanner τ × Except ScanFailure α) : Scanner τ × Except ScanFailure α :=
  let (s, timer) := s.startTimer clock operation
  let (s, outcome) := body s
  let (s, ended) := s.endTimer clock timer (.ok ())
  match ended, outcome with
  | .error e, _ => (s, .error e)
  | .ok _, .error e => (s.measure Monitor.recordError, .error e)
  | .ok _, .ok a => (s, .ok a)

/-! ## Cache -/

def lookup (s : Scanner τ) (w : World τ) (path : String) : Scanner τ × Option (List Variable) :=
  match s.cache with
  | none => (s, none)
  | some cache =>
    let (cache, found) := cache.lookup (w.files.modified path) w.clock path
    let s := { s with cache := some cache, log := s.log ++ found.log path }
    match found.found? with
    | some e => (s.measure Monitor.recordCacheHit, some e.vars)
    | none => (s.measure Monitor.recordCacheMiss, none)

def remember (s : Scanner τ) (w : World τ) (path : String) (vars : List Variable) :
    Scanner τ :=
  match s.cache with
  | none => s
  | some cache =>
    let (cache, stored) := cache.store (w.files.modified path) w.clock path vars
    { s with cache := some cache, log := s.log ++ stored.log path }

def scannedRecord (path : String) (vars : List Variable) : LogRecord :=
  { LogRecord.debug .scanner s!"Scanned {path}: {vars.length} variables" with
    extras := [("file_path", .str path), ("variable_count", .int vars.length)] }

/-- Takes in the report of a worker: a result goes to the cache, all else to the log. -/
def writeBack (s : Scanner τ) (w : World τ) (report : WorkerReport) :
    Scanner τ × Option (List Variable) :=
  match report.outcome with
  | .scanned vars =>
    ((s.remember w report.path vars).write [scannedRecord report.path vars],
      some vars)
  | .tooLarge size =>
    (s.write [.info .scanner s!"Skipping {report.path}: {Worker.tooLargeText size}"], none)
  | .noExtractor => (s.write [.debug .scanner s!"No parser for {report.path}"], none)
  | .failed reason =>
    ((s.write [.error .scanner s!"Error scanning file {report.path}: {reason}"]).measure
      Monitor.recordError, none)

/-! ## Files -/

def work (s : Scanner τ) (w : World τ) (path : String) : WorkerReport :=
  Worker.scan s.rules.registry s.rules.maxFileSize w.files path

/-- Takes in the report about a file that was asked for. A file that is not read at all is refused
without further ado. -/
def answer (s : Scanner τ) (w : World τ) (report : WorkerReport) :
    Scanner τ × Except ScanFailure (List Variable) :=
  match report.outcome with
  | .noExtractor => (s, .error (.refused ⟨report.path, unsupportedText⟩))
  | .tooLarge size => (s, .error (.refused ⟨report.path, Worker.tooLargeText size⟩))
  | .scanned vars => ((s.writeBack w report).1, .ok vars)
  | .failed reason => ((s.writeBack w report).1, .error (.refused ⟨report.path, reason⟩))

def scanFile (s : Scanner τ) (w : World τ) (path : String) :
    Scanner τ × Except ScanFailure (List Variable) :=
  s.timed w.clock "scan_file" fun s =>
    match s.lookup w path with
    | (s, some vars) => (s, .ok vars)
    | (s, none) =>
      let report := s.work w path
      (s.write report.log).answer w report

/-! ## Workspaces -/

/-- The files of a workspace, some with results from the cache and the others waiting. -/
structure Split where
  results : ScanResults
  waiting : List String

def splitCached (s : Scanner τ) (w : World τ) : List String → Scanner τ × Split
  | [] => (s, ⟨[], []⟩)
  | path :: paths =>
    let (s, found) := s.lookup w path
    let (s, rest) := splitCached s w paths
    match found with
    | some vars => (s, { rest with results := (path, vars) :: rest.results })
    | none => (s, { rest with waiting := path :: rest.waiting })

/-- Takes in reports one by one and adds their results. -/
def collect (s : Scanner τ) (w : World τ) (results : ScanResults) :
    List WorkerReport → Scanner τ × ScanResults
  | [] => (s, results)
  | report :: reports =>
    match s.writeBack w report with
    | (s, some vars) => collect s w (results.put report.path vars) reports
    | (s, none) => collect s w results reports

/-- The task of a pool about a file. -/
def task (s : Scanner τ) (w : World τ) (pool : WorkerPool) (arrival : Arrival) (path : String) :
    Future :=
  pool.submit arrival path (s.work w path)

/-- Lets the workers of a pool read the files that wait, and takes in the reports as the tasks are
done. -/
def scanWaiting (s : Scanner τ) (w : World τ) (pool : WorkerPool) (arrival : Arrival)
    (split : Split) : Scanner τ × ScanResults :=
  let futures := split.waiting.map (s.task w pool arrival)
  let s := if pool.sharesLog then s.write (futures.flatMap (·.report.log)) else s
  s.collect w split.results ((arrival.order futures).map Future.report)

def scanningRecord (root : String) (split : Split) : LogRecord :=
  .info .scanner
    s!"Scanning {split.waiting.length} files under {root} ({split.results.length} served from cache)"

/-- Scans the files below a root; `announce` tells whether the log says so first. -/
def scanFilesBelow (s : Scanner τ) (w : World τ) (pool : WorkerPool) (arrival : Arrival)
    (announce : Bool) (root : String) : Scanner τ × ScanResults :=
  let (files, records) := s.rules.workspaceFiles w.files root
  let (s, split) := (s.write records).splitCached w files
  let s := if announce then s.write [scanningRecord root split] else s
  s.scanWaiting w pool arrival split

def scanWorkspace (s : Scanner τ) (w : World τ) (arrival : Arrival) (root : String) :
    Scanner τ × Except ScanFailure ScanResults :=
  s.timed w.clock "scan_workspace" fun s =>
    let (s, results) := s.scanFilesBelow w s.rules.pool arrival true root
    (s, .ok results)

/-- Scans a workspace in the background, without a word in the log. -/
def scanWorkspaceQuietly (s : Scanner τ) (w : World τ) (arrival : Arrival) (root : String) :
    Scanner τ × Except ScanFailure ScanResults :=
  s.timed w.clock "scan_workspace_async" fun s =>
    let (s, results) := s.scanFilesBelow w s.rules.pool.background arrival false root
    (s, .ok results)

end Scanner
end DeclScan
