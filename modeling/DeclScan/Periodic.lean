import DeclScan.Memory
import DeclScan.Timers.Program

/-!
# DeclScan.Periodic

A monitor and a memory manager that measure at intervals, each on timers of its own.

* `PeriodicMonitor`: takes memory samples.
* `PeriodicManager`: checks memory.
-/

namespace DeclScan

/-- A monitor with its sampler and timers. -/
structure PeriodicMonitor (τ : Type) where
  interval : τ
  monitor : Monitor
  sampler : Sampler Int
  timers : Timers τ Unit
  log : List LogRecord

namespace PeriodicMonitor

variable {τ : Type} [Time τ]

/-- A monitor that has not measured anything and does not take samples yet. -/
def create (windowSize : Int) (interval : τ) (sampler : Sampler Int) :
    Except WindowError (PeriodicMonitor τ) :=
  (Window.sizeOf windowSize).map fun size =>
    ⟨interval, Monitor.start size, sampler, Timers.start Time.zero, []⟩

/-- Takes a memory sample. The answer is the text of a failure. -/
def takeSample (m : PeriodicMonitor τ) : PeriodicMonitor τ × Option String :=
  let sampled := m.monitor.sampleMemory m.sampler
  ({ m with monitor := sampled.monitor, sampler := sampled.sampler, log := m.log ++ sampled.log },
    sampled.failure)

def startOperation (m : PeriodicMonitor τ) (operation : String) (clock : Float) :
    PeriodicMonitor τ × OperationTimer :=
  let (monitor, timer) := m.monitor.startOperation operation clock
  ({ m with monitor := monitor }, timer)

def endOperation (m : PeriodicMonitor τ) (timer : OperationTimer) (clock : Float) :
    PeriodicMonitor τ × OperationTimer × Except String Float :=
  let ended := m.monitor.endOperation timer m.sampler clock
  ({ m with monitor := ended.monitor, sampler := ended.sampler, log := m.log ++ ended.log },
    ended.timer, ended.outcome)

/-- Ends the operation of a block that was left, perhaps by an error with a text. -/
def leaveBlock (m : PeriodicMonitor τ) (timer : OperationTimer) (clock : Float)
    (failure : Option String) : PeriodicMonitor τ × Except String Float :=
  match m.endOperation timer clock with
  | (m, _, .error text) => (m, .error text)
  | (m, _, .ok duration) =>
    match failure with
    | none => (m, .ok duration)
    | some text => ({ m with monitor := m.monitor.recordError }, .error text)

def measure (m : PeriodicMonitor τ) (change : Monitor → Monitor) : PeriodicMonitor τ :=
  { m with monitor := change m.monitor }

def start (m : PeriodicMonitor τ) (seconds : Option τ) : PeriodicMonitor τ :=
  { m with
    timers := m.timers.scheduleInterval Monitor.timerKey (Time.spanOr seconds m.interval) () }

def stop (m : PeriodicMonitor τ) : PeriodicMonitor τ :=
  { m with timers := m.timers.cancel Monitor.timerKey }

def isRunning (m : PeriodicMonitor τ) : Bool := m.timers.isPending Monitor.timerKey

def dispose (m : PeriodicMonitor τ) : PeriodicMonitor τ := m.stop.measure Monitor.reset

def host : Host (PeriodicMonitor τ) τ Unit where
  timers := PeriodicMonitor.timers
  setTimers m timers := { m with timers := timers }
  run _ timer m :=
    match m.takeSample with
    | (m, none) => some m
    | (m, some text) => some { m with log := m.log ++ [failureRecord timer.key text] }

/-- Lets time pass; the answer has the number of samples taken. -/
def advance (m : PeriodicMonitor τ) (fuel : Nat) (seconds : τ) :
    Option (PeriodicMonitor τ × Nat) :=
  host.advance fuel seconds m

end PeriodicMonitor

/-- A memory manager with its sampler, what its cleanups do, and its timers. -/
structure PeriodicManager (τ : Type) where
  interval : τ
  manager : MemoryManager
  sampler : Sampler MemoryStats
  effects : Table CleanupEffect
  timers : Timers τ Unit
  events : List MemoryEvent
  log : List LogRecord

namespace PeriodicManager

variable {τ : Type} [Time τ]

def create (manager : MemoryManager) (interval : τ) (sampler : Sampler MemoryStats) :
    PeriodicManager τ :=
  ⟨interval, manager, sampler, [], Timers.start Time.zero, [], []⟩

def effectOf (m : PeriodicManager τ) (name : String) : CleanupEffect :=
  (m.effects.get? name).getD .plain

def define (m : PeriodicManager τ) (name : String) (effect : CleanupEffect) : PeriodicManager τ :=
  if m.effects.has name then m else { m with effects := m.effects.put name effect }

def register (m : PeriodicManager τ) (name : String) : PeriodicManager τ :=
  { m with manager := m.manager.register name }

def unregister (m : PeriodicManager τ) (name : String) : PeriodicManager τ :=
  { m with manager := m.manager.unregister name }

def sample (m : PeriodicManager τ) : PeriodicManager τ × Sample MemoryStats :=
  let (sample, sampler) := m.sampler.take
  ({ m with sampler := sampler }, sample)

def averageUsage (m : PeriodicManager τ) : PeriodicManager τ × Sample MemoryStats :=
  if m.manager.history.isEmpty then m.sample
  else (m, m.manager.averageUsage m.sampler.next)

def after {α : Type} (m : PeriodicManager τ) (done : MemoryManager.Outcome α) :
    PeriodicManager τ × α :=
  ({ m with manager := done.manager, events := m.events ++ done.events, log := m.log ++ done.log },
    done.result)

def check (m : PeriodicManager τ) : PeriodicManager τ × Except String MemoryPressure :=
  let (m, sample) := m.sample
  m.after (m.manager.check (fun _ => m.effectOf) sample)

def cleanUp (m : PeriodicManager τ) : PeriodicManager τ :=
  (m.after (m.manager.cleanUp fun _ => m.effectOf)).1

def start (m : PeriodicManager τ) (seconds : Option τ) : PeriodicManager τ :=
  { m with
    timers := m.timers.scheduleInterval MemoryManager.timerKey (Time.spanOr seconds m.interval) () }

def stop (m : PeriodicManager τ) : PeriodicManager τ :=
  { m with timers := m.timers.cancel MemoryManager.timerKey }

def dispose (m : PeriodicManager τ) : PeriodicManager τ :=
  { m.stop with manager := m.manager.forget }

def host : Host (PeriodicManager τ) τ Unit where
  timers := PeriodicManager.timers
  setTimers m timers := { m with timers := timers }
  run _ timer m :=
    match m.check with
    | (m, .ok _) => some m
    | (m, .error text) => some { m with log := m.log ++ [failureRecord timer.key text] }

/-- Lets time pass; the answer has the number of checks. -/
def advance (m : PeriodicManager τ) (fuel : Nat) (seconds : τ) :
    Option (PeriodicManager τ × Nat) :=
  host.advance fuel seconds m

end PeriodicManager
end DeclScan
