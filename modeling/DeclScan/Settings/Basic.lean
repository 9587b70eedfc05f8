import DeclScan.Json.Value
import DeclScan.Number.Binary64

/-!
# DeclScan.Settings.Basic

The settings of a scanner, one section for each of its parts, with the values they have when
nothing else is said.
-/

namespace DeclScan

/-- A quantity: doubles in general, but one that was never set stays the whole number that it is. -/
inductive Quantity where
  | whole (n : Int)
  | real (x : Float)

def Quantity.toFloat : Quantity → Float
  | .whole n => Binary64.ofInt n
  | .real x => x

def Quantity.toJson : Quantity → Json
  | .whole n => .int n
  | .real x => .float x

/-- How the files of a workspace are distributed to workers. -/
inductive Executor where
  | inline
  | thread
  | process
  deriving Repr, DecidableEq, Inhabited

def Executor.name : Executor → String
  | .inline => "inline"
  | .thread => "thread"
  | .process => "process"

def Executor.ofName? (s : String) : Option Executor :=
  [inline, thread, process].find? fun e => e.name = s

theorem Executor.ofName?_name (e : Executor) : ofName? e.name = some e := by cases e <;> rfl

structure CacheSettings where
  maxSizeBytes : Int
  maxEntries : Int

def CacheSettings.standard : CacheSettings := ⟨52428800, 1000⟩

structure DebounceSettings where
  delayMs : Int

def DebounceSettings.standard : DebounceSettings := ⟨300⟩

/-- What to scan and how. No extensions at all stand for those of every registered extractor. -/
structure ScanSettings where
  skipDirectories : List String
  fileExtensions : List String
  includeNodeModules : Bool
  maxFileSizeKb : Int
  maxWorkers : Int
  executor : Executor

def ScanSettings.standard : ScanSettings :=
  ⟨["node_modules", ".git", "dist", "build"], [], false, 1024, 4, .inline⟩

/-- The directory that holds the packages a workspace depends on. -/
def nodeModules : String := "node_modules"

def ScanSettings.effectiveSkipDirectories (s : ScanSettings) : List String :=
  if s.includeNodeModules then s.skipDirectories.filter (· ≠ nodeModules) else s.skipDirectories

structure MemorySettings where
  warningMb : Quantity
  criticalMb : Quantity
  checkIntervalSeconds : Quantity
  historyLimit : Int

def MemorySettings.standard : MemorySettings := ⟨.whole 100, .whole 200, .real 30, 100⟩

structure MonitorSettings where
  windowSize : Int
  sampleIntervalSeconds : Quantity

def MonitorSettings.standard : MonitorSettings := ⟨100, .real 5⟩

structure AnalysisSettings where
  hotspotThreshold : Int
  showFunctionVariables : Bool

def AnalysisSettings.standard : AnalysisSettings := ⟨10, true⟩

/-- The settings of a scanner. -/
structure Settings where
  cache : CacheSettings
  debounce : DebounceSettings
  scan : ScanSettings
  memory : MemorySettings
  monitor : MonitorSettings
  analysis : AnalysisSettings

namespace Settings

def standard : Settings :=
  ⟨.standard, .standard, .standard, .standard, .standard, .standard⟩

def sectionNames : List String := ["cache", "debounce", "scan", "memory", "monitor", "analysis"]

def textsJson (items : List String) : Json := .arr (items.map Json.str)

/-- The settings as sections of fields, to be read back. -/
def toJson (s : Settings) : Json :=
  .obj [
    ("cache", .obj [("max_cache_size_bytes", .int s.cache.maxSizeBytes),
      ("max_entries", .int s.cache.maxEntries)]),
    ("debounce", .obj [("delay_ms", .int s.debounce.delayMs)]),
    ("scan", .obj [("skip_dirs", textsJson s.scan.skipDirectories),
      ("file_extensions", textsJson s.scan.fileExtensions),
      ("include_node_modules", .bool s.scan.includeNodeModules),
      ("max_file_size_kb", .int s.scan.maxFileSizeKb),
      ("max_workers", .int s.scan.maxWorkers),
      ("executor", .str s.scan.executor.name)]),
    ("memory", .obj [("warning_mb", s.memory.warningMb.toJson),
      ("critical_mb", s.memory.criticalMb.toJson),
      ("check_interval_seconds", s.memory.checkIntervalSeconds.toJson),
      ("history_limit", .int s.memory.historyLimit)]),
    ("monitor", .obj [("window_size", .int s.monitor.windowSize),
      ("sample_interval_seconds", s.monitor.sampleIntervalSeconds.toJson)]),
    ("analysis", .obj [("hotspot_threshold", .int s.analysis.hotspotThreshold),
      ("show_function_variables", .bool s.analysis.showFunctionVariables)])]

/-- The settings as sections of fields, and the directories that are not entered for them. -/
def summary (s : Settings) : Json :=
  match s.toJson with
  | .obj sections =>
    .obj (sections ++ [("effective_skip_dirs", textsJson s.scan.effectiveSkipDirectories)])
  | j => j

end Settings
end DeclScan
