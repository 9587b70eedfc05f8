import DeclScan.Settings.Basic
import DeclScan.Settings.Scalar

/-!
# DeclScan.Settings.Check

Checking settings. `Settings.check` reads sections of fields; a missing section or field has its
standard value, and one that is not known is passed over. All faults are told, in the order of
sections and fields.
-/

namespace DeclScan

/-- A value that was read, and the faults found on the way. With a fault the value means nothing. -/
structure Checked (α : Type) where
  value : α
  faults : List SettingFault

namespace Checked

variable {α : Type}

def toExcept (c : Checked α) : Except (List SettingFault) α :=
  if c.faults.isEmpty then .ok c.value else .error c.faults

/-- Refuses a value that a condition on the whole does not hold for; it is not asked for a value
with faults. -/
def guard (holds : α → Bool) (reason : String) (c : Checked α) : Checked α :=
  if c.faults.isEmpty && !holds c.value then { c with faults := [SettingProblem.at (.refused reason) []] } else c

def within (step : SettingStep) (c : Checked α) : Checked α :=
  { c with faults := c.faults.map (SettingFault.within step) }

end Checked

namespace Settings

abbrev Fields := Table Json

/-- Reads a field whose faults have a way of their own. -/
def deepField {α : Type} (fields : Fields) (name : String) (standard : α)
    (read : Json → Checked α) : Checked α :=
  match fields.get? name with
  | none => ⟨standard, []⟩
  | some value => (read value).within (.name name)

def field {α : Type} (fields : Fields) (name : String) (standard : α)
    (read : Json → Except SettingProblem α) : Checked α :=
  deepField fields name standard fun value =>
    match read value with
    | .ok a => ⟨a, []⟩
    | .error problem => ⟨standard, [problem.at []]⟩

def readTexts (index : Nat) : List Json → Checked (List String)
  | [] => ⟨[], []⟩
  | item :: items =>
    let rest := readTexts (index + 1) items
    match Scalar.text item with
    | .ok s => ⟨s :: rest.value, rest.faults⟩
    | .error problem => ⟨rest.value, problem.at [.index index] :: rest.faults⟩

def texts : Json → Checked (List String)
  | .arr items => readTexts 0 items
  | _ => ⟨[], [SettingProblem.notList.at []]⟩

/-- An extension in lower case and with a dot, from any spelling of it. -/
def normalizeExtension (s : String) : String :=
  let s := Path.lower (String.ofList (Text.trim s.toList))
  if s = "" || s.startsWith "." then s else "." ++ s

def extensions (j : Json) : Checked (List String) :=
  let list := texts j
  ({ list with value := list.value.map normalizeExtension }).guard (·.all (· ≠ ""))
    "File extensions cannot be empty"

def positiveQuantity (j : Json) : Except SettingProblem Quantity :=
  match Scalar.positiveNumber j with
  | .ok x => .ok (.real x)
  | .error problem => .error problem

def executor : Json → Except SettingProblem Executor
  | .str s =>
    match Executor.ofName? s with
    | some e => .ok e
    | none => .error .notExecutor
  | _ => .error .notExecutor

/-! ## Sections -/

def checkCache (fields : Fields) : Checked CacheSettings :=
  let standard := CacheSettings.standard
  let maxSize := field fields "max_cache_size_bytes" standard.maxSizeBytes (Scalar.integerFrom 0)
  let maxEntries := field fields "max_entries" standard.maxEntries (Scalar.integerFrom 1)
  ⟨⟨maxSize.value, maxEntries.value⟩, maxSize.faults ++ maxEntries.faults⟩

def checkDebounce (fields : Fields) : Checked DebounceSettings :=
  let delay := field fields "delay_ms" DebounceSettings.standard.delayMs (Scalar.integerFrom 0)
  ⟨⟨delay.value⟩, delay.faults⟩

def checkScan (fields : Fields) : Checked ScanSettings :=
  let standard := ScanSettings.standard
  let skip := deepField fields "skip_dirs" standard.skipDirectories texts
  let extensions := deepField fields "file_extensions" standard.fileExtensions extensions
  let modules := field fields "include_node_modules" standard.includeNodeModules Scalar.boolean
  let maxSize := field fields "max_file_size_kb" standard.maxFileSizeKb (Scalar.integerFrom 1)
  let workers := field fields "max_workers" standard.maxWorkers (Scalar.integerBetween 1 64)
  let executor := field fields "executor" standard.executor executor
  ⟨⟨skip.value, extensions.value, modules.value, maxSize.value, workers.value, executor.value⟩,
    skip.faults ++ extensions.faults ++ modules.faults ++ maxSize.faults ++ workers.faults ++
      executor.faults⟩

/-- The critical threshold may not be below the warning threshold. -/
def areThresholdsOrdered (s : MemorySettings) : Bool :=
  !(s.criticalMb.toFloat < s.warningMb.toFloat)

def checkMemory (fields : Fields) : Checked MemorySettings :=
  let standard := MemorySettings.standard
  let warning := field fields "warning_mb" standard.warningMb positiveQuantity
  let critical := field fields "critical_mb" standard.criticalMb positiveQuantity
  let interval :=
    field fields "check_interval_seconds" standard.checkIntervalSeconds positiveQuantity
  let limit := field fields "history_limit" standard.historyLimit (Scalar.integerFrom 1)
  (Checked.mk ⟨warning.value, critical.value, interval.value, limit.value⟩
    (warning.faults ++ critical.faults ++ interval.faults ++ limit.faults)).guard
      areThresholdsOrdered "critical_mb must be greater than or equal to warning_mb"

def checkMonitor (fields : Fields) : Checked MonitorSettings :=
  let standard := MonitorSettings.standard
  let window := field fields "window_size" standard.windowSize (Scalar.integerFrom 1)
  let interval :=
    field fields "sample_interval_seconds" standard.sampleIntervalSeconds positiveQuantity
  ⟨⟨window.value, interval.value⟩, window.faults ++ interval.faults⟩

def checkAnalysis (fields : Fields) : Checked AnalysisSettings :=
  let standard := AnalysisSettings.standard
  let threshold := field fields "hotspot_threshold" standard.hotspotThreshold (Scalar.integerFrom 1)
  let functions :=
    field fields "show_function_variables" standard.showFunctionVariables Scalar.boolean
  ⟨⟨threshold.value, functions.value⟩, threshold.faults ++ functions.faults⟩

def checkSection {α : Type} (sections : Table Json) (name title : String) (standard : α)
    (check : Fields → Checked α) : Checked α :=
  deepField sections name standard fun value =>
    match value with
    | .obj fields => check fields
    | _ => ⟨standard, [SettingProblem.at (.notSection title) []]⟩

def check (sections : Table Json) : Except (List SettingFault) Settings :=
  let cache := checkSection sections "cache" "CacheSettings" .standard checkCache
  let debounce := checkSection sections "debounce" "DebounceSettings" .standard checkDebounce
  let scan := checkSection sections "scan" "ScanSettings" .standard checkScan
  let memory := checkSection sections "memory" "MemorySettings" .standard checkMemory
  let monitor := checkSection sections "monitor" "MonitorSettings" .standard checkMonitor
  let analysis := checkSection sections "analysis" "AnalysisSettings" .standard checkAnalysis
  (Checked.mk (Settings.mk cache.value debounce.value scan.value memory.value monitor.value
      analysis.value)
    (cache.faults ++ debounce.faults ++ scan.faults ++ memory.faults ++ monitor.faults ++
      analysis.faults)).toExcept

end Settings
end DeclScan
