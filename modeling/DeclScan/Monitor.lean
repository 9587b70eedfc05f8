import DeclScan.Json.Value
import DeclScan.Log
import DeclScan.Number.Decimal
import DeclScan.Sampler
import DeclScan.Table
import DeclScan.Text.Basic

/-!
# DeclScan.Monitor

Measurements of a running scanner: how often each operation starts and how long it takes, how much
memory is in use, how often the cache helps, and how often an operation fails. Durations and memory
are kept in windows of a fixed size, which hold the latest values.

* `Monitor.startOperation`, `Monitor.endOperation`: an operation and its timer.
* `Monitor.report`: a summary with advice.
* `Monitor.metrics`: the measurements themselves.
-/

namespace DeclScan

/-- Why a window cannot be had: its size is below zero. -/
inductive WindowError where
  | negative
  deriving Repr, DecidableEq

def WindowError.message : WindowError → String
  | .negative => "maxlen must be non-negative"

namespace Window

def sizeOf (n : Int) : Except WindowError Nat := if n < 0 then .error .negative else .ok n.toNat

/-- Adds a value to a window; the oldest value gives way. -/
def push {α : Type} (size : Nat) (window : List α) (a : α) : List α :=
  let window := window ++ [a]
  window.drop (window.length - size)

/-- No window holds more than its size. -/
theorem length_push_le {α : Type} (size : Nat) (window : List α) (a : α) :
    (push size window a).length ≤ size := by
  simp only [push, List.length_drop]
  omega

end Window

/-- What is measured. Durations are in milliseconds, memory in bytes. -/
structure Monitor where
  windowSize : Nat
  scanDurations : List Float
  memory : List Int
  counts : Table Nat
  durations : Table (List Float)
  cacheHitRate : Float
  errorRate : Float
  errorCount : Nat
  operationCount : Nat

/-- A running operation, or one that has ended and knows how long it took. -/
structure OperationTimer where
  operation : String
  started : Float
  duration : Option Float

namespace Monitor

def timerKey : String := "performance-monitor"

def start (windowSize : Nat) : Monitor := ⟨windowSize, [], [], [], [], 0, 0, 0, 0⟩

def reset (m : Monitor) : Monitor := start m.windowSize

def average (values : List Float) : Float :=
  if values.isEmpty then 0 else values.foldl (· + ·) 0 / Binary64.ofInt values.length

def averageInt (values : List Int) : Float :=
  if values.isEmpty then 0
  else
    let total := values.foldl (· + ·) 0
    Binary64.ofRatio (total < 0) total.natAbs values.length

/-! ## Operations -/

def startOperation (m : Monitor) (operation : String) (clock : Float) : Monitor × OperationTimer :=
  ({ m with
      operationCount := m.operationCount + 1
      counts := m.counts.put operation ((m.counts.get? operation).getD 0 + 1) },
    ⟨operation, clock, none⟩)

/-- Whether the durations of an operation count as scan times. -/
def isScan (operation : String) : Bool := Text.contains "scan".toList operation.toList

def recordDuration (m : Monitor) (operation : String) (duration : Float) : Monitor :=
  let window := (m.durations.get? operation).getD []
  { m with
    durations := m.durations.put operation (Window.push m.windowSize window duration)
    scanDurations :=
      if isScan operation then Window.push m.windowSize m.scanDurations duration
      else m.scanDurations }

def recordMemory (m : Monitor) (bytes : Int) : Monitor :=
  { m with memory := Window.push m.windowSize m.memory bytes }

/-- The record about a measurement that is unavailable. -/
def unavailableRecord (channel : LogChannel) (outage : Outage) : LogRecord :=
  .warning channel s!"Memory sampling failed: {outage.reason}"

def durationRecord (operation : String) (duration : Float) : LogRecord :=
  { LogRecord.debug .performance s!"[PERF] {operation}: {fixedText 2 duration}ms" with
    extras := [("duration_ms", .float duration), ("operation", .str operation)] }

/-- What ending a timer leads to. -/
structure Ended where
  monitor : Monitor
  timer : OperationTimer
  sampler : Sampler Int
  log : List LogRecord
  /-- The duration, or the text of the failure of the memory sampler. -/
  outcome : Except String Float

/-- Ends a timer: takes a memory sample and adds both to the windows. A timer that has ended already
only tells its duration. A memory sampler that fails leaves the timer ended but not recorded. -/
def endOperation (m : Monitor) (timer : OperationTimer) (sampler : Sampler Int) (clock : Float) :
    Ended :=
  match timer.duration with
  | some duration => ⟨m, timer, sampler, [], .ok duration⟩
  | none =>
    let duration := (clock - timer.started) * 1000
    let timer := { timer with duration := some duration }
    let (sample, sampler) := sampler.take
    let recorded := m.recordDuration timer.operation duration
    let done := durationRecord timer.operation duration
    match sample with
    | .value bytes => ⟨recorded.recordMemory bytes, timer, sampler, [done], .ok duration⟩
    | .unavailable outage =>
      ⟨recorded, timer, sampler, [unavailableRecord .performance outage, done], .ok duration⟩
    | .failure text => ⟨m, timer, sampler, [], .error text⟩

/-- What taking a memory sample leads to. -/
structure Sampled where
  monitor : Monitor
  sampler : Sampler Int
  log : List LogRecord
  failure : Option String

def sampleMemory (m : Monitor) (sampler : Sampler Int) : Sampled :=
  let (sample, sampler) := sampler.take
  match sample with
  | .value bytes => ⟨m.recordMemory bytes, sampler, [], none⟩
  | .unavailable outage => ⟨m, sampler, [unavailableRecord .performance outage], none⟩
  | .failure text => ⟨m, sampler, [], some text⟩

/-! ## Rates -/

def recordError (m : Monitor) : Monitor :=
  let errors := m.errorCount + 1
  { m with
    errorCount := errors
    errorRate := Binary64.ofRatio false errors (max m.operationCount 1) }

def hitRateStep : Float := 0.01

def recordCacheHit (m : Monitor) : Monitor :=
  let rate := m.cacheHitRate + hitRateStep
  { m with cacheHitRate := if rate < 1 then rate else 1 }

def recordCacheMiss (m : Monitor) : Monitor :=
  let rate := m.cacheHitRate - hitRateStep
  { m with cacheHitRate := if 0 < rate then rate else 0 }

/-! ## Reports -/

/-- How often an operation was started, and how long it takes on average. -/
structure OperationStats where
  count : Nat
  averageDuration : Float

/-- A summary of the measurements. -/
structure Report where
  averageScanTime : Float
  memoryTrend : List Int
  cacheEfficiency : Float
  errorRate : Float
  recommendations : List String
  operations : Table OperationStats

/-- Scans that take longer on average are slow, in milliseconds. -/
def slowScan : Float := 1000

def highMemory : Float := 104857600

/-- The number of samples that the memory average is taken of. -/
def recentSamples : Nat := 10

def lowHitRate : Float := 0.5

def highErrorRate : Float := 0.05

def recommendations (m : Monitor) : List String :=
  let slow :=
    if slowScan < average m.scanDurations then
      ["Consider enabling caching for large files",
        "Large file scanning may benefit from async processing"]
    else []
  let recent := m.memory.drop (m.memory.length - recentSamples)
  let memory :=
    if recentSamples < m.memory.length && highMemory < averageInt recent then
      ["High memory usage detected - consider clearing caches periodically"]
    else []
  let cache :=
    if m.cacheHitRate < lowHitRate then
      ["Low cache hit rate - consider adjusting cache invalidation strategy"]
    else []
  let errors :=
    if highErrorRate < m.errorRate then
      ["High error rate detected - check error logs for patterns"]
    else []
  match slow ++ memory ++ cache ++ errors with
  | [] => ["Performance is optimal - no immediate actions required"]
  | advice => advice

def report (m : Monitor) : Report :=
  { averageScanTime := average m.scanDurations
    memoryTrend := m.memory
    cacheEfficiency := m.cacheHitRate
    errorRate := m.errorRate
    recommendations := m.recommendations
    operations := m.counts.map fun (name, count) =>
      (name, ⟨count, average ((m.durations.get? name).getD [])⟩) }

def Report.toJson (r : Report) : Json :=
  .obj [("average_scan_time", .float r.averageScanTime),
    ("memory_trend", .arr (r.memoryTrend.map Json.int)),
    ("cache_efficiency", .float r.cacheEfficiency),
    ("error_rate", .float r.errorRate),
    ("recommendations", .arr (r.recommendations.map Json.str)),
    ("operation_stats", .obj (r.operations.map fun (name, s) =>
      (name, .obj [("count", .int s.count), ("average_duration", .float s.averageDuration)])))]

def metrics (m : Monitor) : Json :=
  .obj [("scan_duration", .arr (m.scanDurations.map Json.float)),
    ("memory_usage", .arr (m.memory.map Json.int)),
    ("cache_hit_rate", .float m.cacheHitRate),
    ("error_rate", .float m.errorRate),
    ("operation_counts", .obj (m.counts.map fun (name, n) => (name, .int n))),
    ("operation_durations", .obj (m.durations.map fun (name, ds) =>
      (name, .arr (ds.map Json.float))))]

end Monitor
end DeclScan
