import DeclScan.Debounce
import DeclScan.Memory
import DeclScan.Scan.Scanner
import DeclScan.Usage

/-!
# DeclScan.Workspace

A workspace that is scanned, watched and measured. It owns a scanner with cache and meter, a
debouncer for changed files, and a memory manager whose cleanup empties the cache; all timers are in
one table, which others may share.

* `Workspace.scanFile`, `Workspace.scanAll`, `Workspace.references`, …: requests.
* `Workspace.fileChanged`, `Workspace.fileDeleted`: what a watcher tells.
* `Workspace.advance`: lets time pass; rescans, measurements and checks happen here.
-/

namespace DeclScan

/-- Who is told about the new variables of a changed file; it may fail on being told. -/
structure Listener where
  failure : Option String
  deriving Repr, DecidableEq

/-- What a timer of a workspace does. -/
inductive Job where
  | rescan (path : String) (listener : Option Listener)
  | sampleMemory
  | checkMemory
  deriving Repr, DecidableEq

/-- The new variables of a changed file, as a listener is told. -/
structure Update where
  path : String
  vars : List Variable
  deriving Repr, DecidableEq

/-- A workspace. -/
structure Workspace (τ : Type) where
  analysis : AnalysisSettings
  sampleInterval : τ
  checkInterval : τ
  scanner : Scanner τ
  debouncer : Debouncer
  memory : MemoryManager
  memorySampler : Sampler MemoryStats
  timers : Timers τ Job
  updates : List Update

namespace Workspace

variable {τ : Type} [Time τ]

def cacheCleanup : String := "cache"

/-- A workspace with some settings; its measurements come from two samplers. Settings that were
checked have thresholds in order. -/
def start (settings : Settings) (registry : Registry) (meterSampler : Sampler Int)
    (memorySampler : Sampler MemoryStats) :
    Except MemoryManager.LimitError (Workspace τ) :=
  let memory := settings.memory
  match MemoryManager.start memory.warningMb.toFloat memory.criticalMb.toFloat
      memory.historyLimit false with
  | .error e => .error e
  | .ok manager =>
    .ok
      { analysis := settings.analysis
        sampleInterval := Time.ofFloat settings.monitor.sampleIntervalSeconds.toFloat
        checkInterval := Time.ofFloat memory.checkIntervalSeconds.toFloat
        scanner :=
          { rules := ScanRules.ofSettings registry settings.scan
            cache := some (Cache.empty settings.cache.maxSizeBytes settings.cache.maxEntries)
            meter := some ⟨Monitor.start settings.monitor.windowSize.toNat, meterSampler⟩
            log := [] }
        debouncer := Debouncer.start settings.debounce.delayMs
        memory := manager.register cacheCleanup
        memorySampler := memorySampler
        timers := Timers.start Time.zero
        updates := [] }

def write (s : Workspace τ) (records : List LogRecord) : Workspace τ :=
  { s with scanner := s.scanner.write records }

/-- The variables that are shown: functions only if the settings say so. -/
def visible (s : Workspace τ) (vars : List Variable) : List Variable :=
  if s.analysis.showFunctionVariables then vars
  else vars.filter fun v => !v.isFunction

def onScanner {α : Type} (s : Workspace τ)
    (act : Scanner τ → Scanner τ × Except ScanFailure α) :
    Workspace τ × Except ScanFailure α :=
  let (scanner, outcome) := act s.scanner
  ({ s with scanner := scanner }, outcome)

/-! ## Requests -/

def scanFile (s : Workspace τ) (w : World τ) (path : String) :
    Workspace τ × Except ScanFailure (List Variable) :=
  let (s, outcome) := s.onScanner (·.scanFile w path)
  (s, outcome.map s.visible)

def visibleResults (s : Workspace τ) (results : ScanResults) : ScanResults :=
  results.map fun (path, vars) => (path, s.visible vars)

def scanAll (s : Workspace τ) (w : World τ) (arrival : Arrival) (root : String) :
    Workspace τ × Except ScanFailure ScanResults :=
  let (s, outcome) := s.onScanner (·.scanWorkspace w arrival root)
  (s, outcome.map s.visibleResults)

/-- Scans all supported files below a root in the background. -/
def scanAllQuietly (s : Workspace τ) (w : World τ) (arrival : Arrival) (root : String) :
    Workspace τ × Except ScanFailure ScanResults :=
  let (s, outcome) := s.onScanner (·.scanWorkspaceQuietly w arrival root)
  (s, outcome.map s.visibleResults)

def extractorFor (s : Workspace τ) (path : String) : Except ScanFailure Extractor :=
  match s.scanner.rules.registry.forFile? path with
  | some e => .ok e
  | none => .error (.refused ⟨path, unsupportedText⟩)

def textOf (w : World τ) (path : String) : Except ScanFailure (List Char) :=
  match w.files.readText (Path.normalize path) with
  | .ok text => .ok text
  | .error e => .error (.refused ⟨path, e.message⟩)

/-- Times an operation of an extractor whose failure counts as an error. -/
def withExtractor {α : Type} (s : Workspace τ) (w : World τ) (operation path : String)
    (act : Extractor → Except ScanFailure (α × List LogRecord)) :
    Workspace τ × Except ScanFailure α :=
  match s.extractorFor path with
  | .error e => (s, .error e)
  | .ok e =>
    s.onScanner fun scanner =>
      scanner.guarded w.clock operation fun scanner =>
        match act e with
        | .error failure => (scanner, .error failure)
        | .ok (a, records) => (scanner.write records, .ok a)

def scanContent (s : Workspace τ) (w : World τ) (path : String) (content : List Char) :
    Workspace τ × Except ScanFailure (List Variable) :=
  let (s, outcome) := s.withExtractor w "scan_content" path fun e =>
    match e.extract content path with
    | .ok found => .ok (found.vars, found.log)
    | .error text => .error (.broken text)
  (s, outcome.map s.visible)

def imports (s : Workspace τ) (w : World τ) (path : String) :
    Workspace τ × Except ScanFailure (List Import) :=
  s.withExtractor w "parse_imports" path fun e =>
    (textOf w path).map fun text => (e.imports text, [])

def references (s : Workspace τ) (w : World τ) (path name : String) :
    Workspace τ × Except ScanFailure (List Reference) :=
  s.withExtractor w "find_references" path fun e =>
    (textOf w path).map fun text => (e.references text name.toList, [])

/-- The variables of a file whose name does not occur in it again. -/
def unused (s : Workspace τ) (w : World τ) (path : String) :
    Workspace τ × Except ScanFailure (List Usage.Unused) :=
  match s.extractorFor path with
  | .error e => (s, .error e)
  | .ok e =>
    match textOf w path with
    | .error failure => (s, .error failure)
    | .ok text =>
      let (s, outcome) := s.onScanner (·.scanFile w path)
      (s, outcome.map fun vars => Usage.unusedIn text vars e.wordClass)

/-- The texts of scanned files; a file that cannot be read any more is reported. -/
def documents (w : World τ) (results : ScanResults) :
    List (String × List Char) × List LogRecord :=
  let read := results.map fun (path, _) => (path, textOf w path)
  (read.filterMap fun (path, text) => text.toOption.map fun text => (path, text),
    read.filterMap fun (_, text) =>
      match text with
      | .ok _ => none
      | .error e => some (.warning .scanner s!"Skipping cross-reference for {e.message}"))

/-- All occurrences of all scanned variables in the scanned files. -/
def crossReference (s : Workspace τ) (w : World τ) (results : ScanResults) :
    Workspace τ × Except ScanFailure Usage.CrossReference :=
  let (texts, records) := documents w results
  (s.write records).onScanner fun scanner =>
    scanner.guarded w.clock "cross_reference" fun scanner =>
      (scanner, .ok (Usage.crossReference texts results .dollar))

def hotspots (s : Workspace τ) (w : World τ) (arrival : Arrival) (root : String) :
    Workspace τ × Except ScanFailure (List Variable) :=
  match s.scanAll w arrival root with
  | (s, .error e) => (s, .error e)
  | (s, .ok results) =>
    let (s, outcome) := s.crossReference w results
    (s, outcome.map fun table => Usage.hotspots table s.analysis.hotspotThreshold)

/-! ## Changes -/

def forget (s : Workspace τ) (path : String) : Workspace τ :=
  { s with
    scanner := { s.scanner with cache := s.scanner.cache.map fun c => (c.invalidate path).1 } }

/-- Takes note of a changed file: after a while without further changes it is scanned anew. -/
def fileChanged (s : Workspace τ) (path : String) (listener : Option Listener) : Workspace τ :=
  let (debouncer, timers) := s.debouncer.update s.timers path (.rescan path listener)
  { s with debouncer := debouncer, timers := timers }.write [s.debouncer.updateRecord path]

def fileDeleted (s : Workspace τ) (path : String) : Workspace τ :=
  let (debouncer, timers, _) := s.debouncer.cancel s.timers path
  ({ s with debouncer := debouncer, timers := timers }.forget path).write
    [.debug .scanner s!"Dropped {path} after deletion"]

def pendingUpdates (s : Workspace τ) : Workspace τ × Nat :=
  let debouncer := s.debouncer.prune s.timers
  ({ s with debouncer := debouncer }, debouncer.keys.length)

/-! ## Measurements -/

def clearCache (s : Workspace τ) : Workspace τ :=
  { s with scanner := { s.scanner with cache := s.scanner.cache.map Cache.clear } }.write
    [Cache.clearedRecord]

/-- Does what a memory manager did: its cleanups empty the cache. The cleanups come after the first
records, which announce them. -/
def afterCleanup {α : Type} (s : Workspace τ) (announced : Nat)
    (done : MemoryManager.Outcome α) : Workspace τ :=
  let s := { s with memory := done.manager }.write (done.log.take announced)
  let s := done.events.foldl
    (fun s event =>
      match event with
      | .cleanup _ => s.clearCache
      | .notice _ => s)
    s
  s.write (done.log.drop announced)

def checkMemory (s : Workspace τ) : Workspace τ × Except String MemoryPressure :=
  let (sample, sampler) := s.memorySampler.take
  let done := s.memory.check (fun _ _ => .plain) sample
  ({ s with memorySampler := sampler }.afterCleanup 2 done, done.result)

def cleanUp (s : Workspace τ) : Workspace τ :=
  s.afterCleanup 1 (s.memory.cleanUp fun _ _ => .plain)

/-- Starts taking memory samples and checking memory at intervals. -/
def startMonitoring (s : Workspace τ) : Workspace τ :=
  { s with
    timers :=
      (s.timers.scheduleInterval Monitor.timerKey s.sampleInterval .sampleMemory).scheduleInterval
        MemoryManager.timerKey s.checkInterval .checkMemory }

def monitor (s : Workspace τ) : Monitor := (s.scanner.meter.map Meter.monitor).getD (Monitor.start 0)

/-- Gives up all that waits and forgets all that is known. -/
def dispose (s : Workspace τ) : Workspace τ :=
  let (debouncer, timers) := s.debouncer.cancelAll s.timers
  let timers := (timers.cancel Monitor.timerKey).cancel MemoryManager.timerKey
  { s with
    debouncer := debouncer
    timers := timers
    scanner := s.scanner.measure Monitor.reset
    memory := s.memory.forget }.clearCache

/-! ## Time -/

/-- Tells a listener about a file that was scanned anew. The answer is the text of its failure. -/
def tell (s : Workspace τ) (path : String) (vars : List Variable) :
    Option Listener → Workspace τ × Option String
  | none => (s, none)
  | some listener => ({ s with updates := s.updates ++ [⟨path, vars⟩] }, listener.failure)

/-- Scans a changed file anew. The answer is the text of a failure that nobody expects. -/
def rescan (s : Workspace τ) (w : World τ) (path : String) (listener : Option Listener) :
    Workspace τ × Option String :=
  match (s.forget path).scanFile w path with
  | (s, .ok vars) => s.tell path vars listener
  | (s, .error (.refused r)) => (s.write [.warning .scanner s!"Rescan failed: {r.message}"], none)
  | (s, .error (.broken text)) => (s, some text)

def sampleMemory (s : Workspace τ) : Workspace τ × Option String :=
  match s.scanner.meter with
  | none => (s, none)
  | some m =>
    let sampled := m.monitor.sampleMemory m.sampler
    ({ s with scanner := { s.scanner with meter := some ⟨sampled.monitor, sampled.sampler⟩ } }.write
      sampled.log, sampled.failure)

def perform (s : Workspace τ) (w : World τ) : Job → Workspace τ × Option String
  | .rescan path listener => s.rescan w path listener
  | .sampleMemory => s.sampleMemory
  | .checkMemory =>
    match s.checkMemory with
    | (s, .ok _) => (s, none)
    | (s, .error text) => (s, some text)

/-- The host of the timers of a workspace. No job lets time pass. -/
def host (w : World τ) : Host (Workspace τ) τ Job where
  timers := Workspace.timers
  setTimers s timers := { s with timers := timers }
  run _ timer s :=
    match s.perform w timer.action with
    | (s, none) => some s
    | (s, some text) => some (s.write [failureRecord timer.key text])

/-- Lets time pass; the answer has the number of timers that went off. -/
def advance (s : Workspace τ) (w : World τ) (fuel : Nat) (seconds : τ) :
    Option (Workspace τ × Nat) :=
  (host w).advance fuel seconds s

end Workspace
end DeclScan
