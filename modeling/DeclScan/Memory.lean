import DeclScan.Monitor

/-!
# DeclScan.Memory

Watching the memory of the process. A check takes a sample and remembers it. Above a warning
threshold the registered cleanups run; above a critical one the user is also given notice.

A cleanup is known by a name. What it does is up to its `CleanupEffect`: it may register and
unregister cleanups, and it may fail. One that runs twice may do different things: what it does is
told by its turn in the round, counted from zero, and its name. Changes that a running cleanup makes
count from the next round on, and a failure does not stop the others.
-/

namespace DeclScan

/-- Memory in use: resident and virtual bytes, and the share of the whole in percent. -/
structure MemoryStats where
  rss : Float
  vms : Float
  percent : Float

def MemoryStats.numbers (s : MemoryStats) : List Float := [s.rss, s.vms, s.percent]

/-- How hard memory is pressed. -/
inductive MemoryPressure where
  | low
  | medium
  | high
  | critical
  deriving Repr, DecidableEq

def MemoryPressure.label : MemoryPressure → String
  | .low => "low"
  | .medium => "medium"
  | .high => "high"
  | .critical => "critical"

/-- A change to the registered cleanups. -/
inductive CleanupChange where
  | register (name : String)
  | unregister (name : String)
  deriving Repr, DecidableEq

/-- What a cleanup does beside its own work. -/
structure CleanupEffect where
  changes : List CleanupChange
  failure : Option String
  deriving Repr, DecidableEq

def CleanupEffect.plain : CleanupEffect := ⟨[], none⟩

/-- What others see of a memory manager. -/
inductive MemoryEvent where
  | cleanup (name : String)
  | notice (text : String)
  deriving Repr, DecidableEq

/-- A memory manager. Thresholds are in MiB. -/
structure MemoryManager where
  warningMb : Float
  criticalMb : Float
  historyLimit : Nat
  /-- Whether notices go to a receiver; otherwise they are logged. -/
  hasReceiver : Bool
  cleanups : List String
  history : List MemoryStats

namespace MemoryManager

def timerKey : String := "memory-monitor"

def bytesPerMb : Float := 1048576

/-- From this part of the warning threshold on, pressure is medium. -/
def mediumRatio : Float := 0.7

def noticeText : String :=
  "dauns is using a lot of memory. Consider restarting it if performance degrades."

/-- Why limits are refused: the thresholds are not in order, or the history cannot be had. -/
inductive LimitError where
  | notOrdered
  | history (e : WindowError)
  deriving Repr, DecidableEq

def LimitError.message : LimitError → String
  | .notOrdered => "Memory thresholds must satisfy 0 < warning_mb <= critical_mb"
  | .history e => e.message

def areThresholds (warningMb criticalMb : Float) : Bool :=
  !(warningMb ≤ 0 || criticalMb < warningMb)

def setThresholds (m : MemoryManager) (warningMb criticalMb : Float) :
    Except LimitError MemoryManager :=
  if areThresholds warningMb criticalMb then
    .ok { m with warningMb := warningMb, criticalMb := criticalMb }
  else .error .notOrdered

/-- A manager without cleanups or history. The thresholds are looked at first. -/
def start (warningMb criticalMb : Float) (historyLimit : Int) (hasReceiver : Bool) :
    Except LimitError MemoryManager :=
  match setThresholds ⟨0, 0, historyLimit.toNat, hasReceiver, [], []⟩ warningMb criticalMb with
  | .error e => .error e
  | .ok m =>
    match Window.sizeOf historyLimit with
    | .error e => .error (.history e)
    | .ok _ => .ok m

/-! ## Cleanups -/

/-- Registers a cleanup, once more if it is registered already. -/
def register (m : MemoryManager) (name : String) : MemoryManager :=
  { m with cleanups := m.cleanups ++ [name] }

def unregister (m : MemoryManager) (name : String) : MemoryManager :=
  { m with cleanups := m.cleanups.erase name }

def change (m : MemoryManager) : CleanupChange → MemoryManager
  | .register name => m.register name
  | .unregister name => m.unregister name

/-- What a step leads to. -/
structure Outcome (α : Type) where
  manager : MemoryManager
  events : List MemoryEvent
  log : List LogRecord
  result : α

def cleanupFailureRecord (text : String) : LogRecord :=
  { LogRecord.error .memory s!"Error during cleanup callback: {text}" with failure := some text }

def runAll (effect : Nat → String → CleanupEffect) : List String → MemoryManager → Outcome Unit
  | [], m => ⟨m, [], [], ()⟩
  | name :: names, m =>
    let e := effect 0 name
    let rest := runAll (fun turn => effect (turn + 1)) names (e.changes.foldl change m)
    { rest with
      events := .cleanup name :: rest.events
      log := (e.failure.map cleanupFailureRecord).toList ++ rest.log }

/-- Every cleanup of the round is run once, in order, whatever fails on the way. -/
theorem events_runAll (effect : Nat → String → CleanupEffect) (names : List String)
    (m : MemoryManager) : (runAll effect names m).events = names.map .cleanup := by
  induction names generalizing effect m with
  | nil => rfl
  | cons name names ih => simp [runAll, ih]

def cleanUp (m : MemoryManager) (effect : Nat → String → CleanupEffect) : Outcome Unit :=
  let done := runAll effect m.cleanups m
  { done with log := .info .memory "Performing memory cleanup" :: done.log }

/-- Runs the cleanups that are registered now, then gives notice. -/
def cleanUpCritical (m : MemoryManager) (effect : Nat → String → CleanupEffect) : Outcome Unit :=
  let done := runAll effect m.cleanups m
  { done with
    events := done.events ++ (if m.hasReceiver then [.notice noticeText] else [])
    log := .info .memory "Performing critical memory cleanup" ::
      (done.log ++ (if m.hasReceiver then [] else [.warning .memory noticeText])) }

/-! ## Checks -/

def pressureFor (m : MemoryManager) (mb : Float) : MemoryPressure :=
  if m.criticalMb < mb then .critical
  else if m.warningMb < mb then .high
  else if m.warningMb * mediumRatio < mb then .medium
  else .low

def residentMb (stats : MemoryStats) : Float := stats.rss / bytesPerMb

/-- Checks a sample. A sample that is unavailable counts as low pressure; a failure has no answer
but its text. -/
def check (m : MemoryManager) (effect : Nat → String → CleanupEffect)
    (sample : Sample MemoryStats) : Outcome (Except String MemoryPressure) :=
  match sample with
  | .failure text => ⟨m, [], [], .error text⟩
  | .unavailable outage => ⟨m, [], [Monitor.unavailableRecord .memory outage], .ok .low⟩
  | .value stats =>
    let m := { m with history := Window.push m.historyLimit m.history stats }
    let mb := residentMb stats
    let pressure := m.pressureFor mb
    if m.criticalMb < mb then
      let done := m.cleanUpCritical effect
      ⟨done.manager, done.events,
        .warning .memory s!"Critical memory usage: {fixedText 2 mb}MB" :: done.log, .ok pressure⟩
    else if m.warningMb < mb then
      let done := m.cleanUp effect
      ⟨done.manager, done.events,
        .warning .memory s!"High memory usage: {fixedText 2 mb}MB" :: done.log, .ok pressure⟩
    else ⟨m, [], [], .ok pressure⟩

/-- The mean of the history, or else what a sample gives. -/
def averageUsage (m : MemoryManager) (sample : Sample MemoryStats) : Sample MemoryStats :=
  match m.history with
  | [] => sample
  | history =>
    .value
      { rss := Monitor.average (history.map MemoryStats.rss)
        vms := Monitor.average (history.map MemoryStats.vms)
        percent := Monitor.average (history.map MemoryStats.percent) }

def forget (m : MemoryManager) : MemoryManager := { m with cleanups := [], history := [] }

end MemoryManager
end DeclScan
