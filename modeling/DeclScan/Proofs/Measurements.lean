import DeclScan.Proofs.Number.UnitInterval
import DeclScan.Proofs.Sampling
import DeclScan.Proofs.Window

/-!
# DeclScan.Proofs.Measurements

What a monitor has measured, by what has happened. Its windows hold the ends of histories: the
durations of the timers that have ended, each of them once, and the samples that were to be had.

* `MonitorHistory.after`: what happens in a run, told by the calls alone.
* `Monitor.Shows`, `Monitor.Tells`: what a monitor holds, and what its metrics tell, after a list of
  events.
* `MonitorSession.shows_stateAfter`: the metrics of a run tell what has happened in it.
-/

namespace DeclScan

/-- What happens to a monitor. Timers are told by their numbers. -/
inductive MonitorEvent where
  | started (operation : String)
  | ended (number : Nat) (operation : String) (duration : Float)
  | sampled (bytes : Int)
  | reset
  deriving DecidableEq

namespace MonitorEvent

/-- What has happened since the last reset. -/
def sinceReset (events : List MonitorEvent) : List MonitorEvent :=
  events.rtakeWhile (· ≠ .reset)

/-- The number of a timer that ends. -/
def number? : MonitorEvent → Option Nat
  | .ended number _ _ => some number
  | _ => none

/-- The duration of a timer that ends, if it is one of an operation with a property. -/
def duration? (p : String → Bool) : MonitorEvent → Option Float
  | .ended _ operation duration => if p operation then some duration else none
  | _ => none

def bytes? : MonitorEvent → Option Int
  | .sampled bytes => some bytes
  | _ => none

/-- The timers that have ended, by their numbers. A reset does not make them run again. -/
def endedNumbers (events : List MonitorEvent) : List Nat := events.filterMap number?

def startsOf (operation : String) (events : List MonitorEvent) : Nat :=
  (sinceReset events).count (.started operation)

/-- The durations of the timers of operations with a property, in the order in which they ended. -/
def durationsOf (p : String → Bool) (events : List MonitorEvent) : List Float :=
  (sinceReset events).filterMap (duration? p)

def samplesOf (events : List MonitorEvent) : List Int := (sinceReset events).filterMap bytes?

section Append

variable (events : List MonitorEvent) {e : MonitorEvent} (he : e ≠ .reset)
include he

theorem sinceReset_append : sinceReset (events ++ [e]) = sinceReset events ++ [e] := by
  rw [sinceReset, List.rtakeWhile_concat_pos _ _ _ (by simpa using he), sinceReset]

theorem startsOf_append (operation : String) : startsOf operation (events ++ [e]) =
    startsOf operation events + if e = .started operation then 1 else 0 := by
  rw [startsOf, sinceReset_append events he, List.count_append, startsOf, List.count_singleton]
  simp

theorem startsOf_append_of_ne {operation : String} (hne : e ≠ .started operation) :
    startsOf operation (events ++ [e]) = startsOf operation events := by
  rw [startsOf_append events he, if_neg hne, Nat.add_zero]

theorem durationsOf_append (p : String → Bool) :
    durationsOf p (events ++ [e]) = durationsOf p events ++ (duration? p e).toList := by
  rw [durationsOf, sinceReset_append events he, List.filterMap_append, durationsOf]
  cases h : duration? p e <;> simp [h]

theorem durationsOf_append_of_none {p : String → Bool} (hnone : duration? p e = none) :
    durationsOf p (events ++ [e]) = durationsOf p events := by
  rw [durationsOf_append events he, hnone, Option.toList_none, List.append_nil]

theorem samplesOf_append : samplesOf (events ++ [e]) = samplesOf events ++ (bytes? e).toList := by
  rw [samplesOf, sinceReset_append events he, List.filterMap_append, samplesOf]
  cases h : bytes? e <;> simp [h]

theorem samplesOf_append_of_none (hnone : bytes? e = none) :
    samplesOf (events ++ [e]) = samplesOf events := by
  rw [samplesOf_append events he, hnone, Option.toList_none, List.append_nil]

end Append

theorem endedNumbers_append_of_none (events : List MonitorEvent) {e : MonitorEvent}
    (hnone : number? e = none) : endedNumbers (events ++ [e]) = endedNumbers events := by
  rw [endedNumbers, List.filterMap_append, List.filterMap_cons_none hnone, List.filterMap_nil,
    List.append_nil, endedNumbers]

theorem sinceReset_append_reset (events : List MonitorEvent) :
    sinceReset (events ++ [.reset]) = [] :=
  List.rtakeWhile_concat_neg _ _ _ (by simp)

end MonitorEvent

/-- What has happened in a session: the operations that were started, each with the clock at that
moment, the source of samples as it stands, and the events. -/
structure MonitorHistory where
  started : List (String × Float)
  sampler : Sampler Int
  events : List MonitorEvent

namespace MonitorHistory

open MonitorEvent

/-- A sample that was to be had. -/
def eventsOf : Sample Int → List MonitorEvent
  | .value bytes => [.sampled bytes]
  | .unavailable _ | .failure _ => []

/-- Takes samples. -/
def sample (h : MonitorHistory) : Nat → MonitorHistory
  | 0 => h
  | count + 1 =>
    sample { h with
      sampler := h.sampler.take.2
      events := h.events ++ eventsOf h.sampler.take.1 } count

/-- Ends the timer of a number. Only the first time is there something that happens. -/
def finish (h : MonitorHistory) (number : Nat) (clock : Float) : MonitorHistory :=
  match h.started[number]? with
  | none => h
  | some (operation, started) =>
    if number ∈ endedNumbers h.events then h
    else
      sample { h with
        events := h.events ++ [.ended number operation ((clock - started) * 1000)] } 1

/-- What happens at a call, in which so many samples are taken as time passes. -/
def next {τ : Type} (h : MonitorHistory) (ticks : Nat) : MonitorCall τ → MonitorHistory
  | .start operation clock =>
    { h with
      started := h.started ++ [(operation, clock)]
      events := h.events ++ [.started operation] }
  | .finish number clock | .leave number clock _ => h.finish number clock
  | .sample => h.sample 1
  | .advance _ _ => h.sample ticks
  | .reset | .dispose => { h with events := h.events ++ [.reset] }
  | .error | .hit | .miss | .startSampling _ | .stopSampling => h

/-- What happens in a run of a monitor that takes samples at an interval of its own. -/
noncomputable def after {τ : Type} [Time τ] (interval : τ) (c : SampleClock τ)
    (h : MonitorHistory) : List (MonitorCall τ) → MonitorHistory
  | [] => h
  | call :: calls => after interval (c.pass interval call) (h.next (c.ticks call) call) calls

@[simp] theorem started_sample (h : MonitorHistory) (count : Nat) :
    (h.sample count).started = h.started := by
  induction count generalizing h with
  | zero => rfl
  | succ count ih => exact ih _

theorem endedNumbers_sample (h : MonitorHistory) (count : Nat) :
    endedNumbers (h.sample count).events = endedNumbers h.events := by
  induction count generalizing h with
  | zero => rfl
  | succ count ih =>
    have hnone : (eventsOf h.sampler.take.1).filterMap number? = [] := by
      cases h.sampler.take.1 <;> rfl
    rw [sample, ih, endedNumbers, List.filterMap_append, hnone, List.append_nil, endedNumbers]

@[simp] theorem started_finish (h : MonitorHistory) (number : Nat) (clock : Float) :
    (h.finish number clock).started = h.started := by
  rw [finish]
  split
  · rfl
  · split
    · rfl
    · exact started_sample ..

theorem endedNumbers_finish {h : MonitorHistory} {number : Nat} (clock : Float)
    (hnumber : number < h.started.length) :
    endedNumbers (h.finish number clock).events =
      if number ∈ endedNumbers h.events then endedNumbers h.events
      else endedNumbers h.events ++ [number] := by
  rw [finish, List.getElem?_eq_getElem hnumber]
  dsimp only
  split
  · rfl
  · rw [endedNumbers_sample, endedNumbers, List.filterMap_append]
    rfl

end MonitorHistory

/-- No measurement breaks off. -/
def Sampler.NeverFails {α : Type} (s : Sampler α) : Prop :=
  ∀ sample ∈ s.next :: s.later, ∀ text, sample ≠ .failure text

theorem Sampler.NeverFails.take {α : Type} {s : Sampler α} (h : s.NeverFails) :
    (∀ text, s.take.1 ≠ .failure text) ∧ s.take.2.NeverFails := by
  obtain ⟨next, later⟩ := s
  cases later with
  | nil => exact ⟨h next List.mem_cons_self, h⟩
  | cons sample later =>
    exact ⟨h next List.mem_cons_self, fun other hother => h other (List.mem_cons_of_mem _ hother)⟩

theorem Sampler.NeverFails.sample {h : MonitorHistory} (hs : h.sampler.NeverFails) (count : Nat) :
    (h.sample count).sampler.NeverFails := by
  induction count generalizing h with
  | zero => exact hs
  | succ count ih => exact ih hs.take.2

/-! ## Events and windows -/

theorem Table.get?_mapValues {α β : Type} (value : α → β) (key : String) (table : Table α) :
    get? key (table.map fun entry => (entry.1, value entry.2)) = (get? key table).map value := by
  induction table with
  | nil => rfl
  | cons entry table ih =>
    rw [List.map_cons, get?, get?, ih]
    split_ifs <;> rfl

namespace Monitor

open MonitorEvent

theorem zero_mem_unit : (0 : Float) ≤ 0 ∧ (0 : Float) ≤ 1 := ⟨by decide +kernel, by decide +kernel⟩

/-- What a monitor holds after events, with windows of a size. -/
structure Shows (m : Monitor) (size : Nat) (events : List MonitorEvent) : Prop where
  windowSize : m.windowSize = size
  counts : ∀ operation, m.counts.get? operation =
    if startsOf operation events = 0 then none else some (startsOf operation events)
  durations : ∀ operation, m.durations.get? operation =
    if durationsOf (· = operation) events = [] then none
    else some ((durationsOf (· = operation) events).rtake size)
  scanDurations : m.scanDurations = (durationsOf isScan events).rtake size
  memory : m.memory = (samplesOf events).rtake size
  hitRate : 0 ≤ m.cacheHitRate ∧ m.cacheHitRate ≤ 1

/-- What the metrics of a monitor tell after events, with windows of a size. -/
structure Tells (m : Monitor) (size : Nat) (events : List MonitorEvent) : Prop where
  counts : ∃ table : Table Json, m.metrics.member? "operation_counts" = some (.obj table) ∧
    ∀ operation, table.get? operation =
      if startsOf operation events = 0 then none else some (.int (startsOf operation events))
  durations : ∃ table : Table Json, m.metrics.member? "operation_durations" = some (.obj table) ∧
    ∀ operation, table.get? operation =
      if durationsOf (· = operation) events = [] then none
      else some (.arr (((durationsOf (· = operation) events).rtake size).map .float))
  scanDurations : m.metrics.member? "scan_duration" =
    some (.arr (((durationsOf isScan events).rtake size).map .float))
  memory : m.metrics.member? "memory_usage" =
    some (.arr (((samplesOf events).rtake size).map .int))
  hitRate : ∃ rate, m.metrics.member? "cache_hit_rate" = some (.float rate) ∧ 0 ≤ rate ∧ rate ≤ 1

theorem shows_start (size : Nat) {events : List MonitorEvent} (h : sinceReset events = []) :
    (start size).Shows size events where
  windowSize := rfl
  counts operation := by rw [startsOf, h]; rfl
  durations operation := by rw [durationsOf, h]; rfl
  scanDurations := by rw [durationsOf, h]; exact (List.rtake_nil _).symm
  memory := by rw [samplesOf, h]; exact (List.rtake_nil _).symm
  hitRate := zero_mem_unit

namespace Shows

variable {m : Monitor} {size : Nat} {events : List MonitorEvent}

theorem tells (h : m.Shows size events) : m.Tells size events where
  counts := by
    refine ⟨_, rfl, fun operation =>
      (Table.get?_mapValues (fun n : Nat => Json.int n) operation m.counts).trans ?_⟩
    rw [h.counts]
    split_ifs <;> rfl
  durations := by
    refine ⟨_, rfl, fun operation =>
      (Table.get?_mapValues (fun ds : List Float => Json.arr (ds.map .float)) operation
        m.durations).trans ?_⟩
    rw [h.durations]
    split_ifs <;> rfl
  scanDurations := by rw [← h.scanDurations]; rfl
  memory := by rw [← h.memory]; rfl
  hitRate := ⟨m.cacheHitRate, rfl, h.hitRate⟩

theorem reset (h : m.Shows size events) : m.reset.Shows size (events ++ [.reset]) := by
  rw [Monitor.reset, h.windowSize]
  exact shows_start size (sinceReset_append_reset events)

theorem started (h : m.Shows size events) (operation : String) (clock : Float) :
    (m.startOperation operation clock).1.Shows size (events ++ [.started operation]) where
  windowSize := h.windowSize
  counts other := by
    rw [startsOf_append events (by simp), startOperation]
    by_cases hother : other = operation
    · subst hother
      rw [Table.get?_put_self, h.counts, if_pos rfl, if_neg (Nat.succ_ne_zero _)]
      split_ifs with hzero
      · rw [hzero]
        rfl
      · rfl
    · have hne : MonitorEvent.started operation ≠ .started other :=
        fun heq => hother (MonitorEvent.started.inj heq).symm
      rw [Table.get?_put_of_ne hother, h.counts, if_neg hne, Nat.add_zero]
  durations other := by
    rw [durationsOf_append_of_none events (by simp) rfl]
    exact h.durations other
  scanDurations := by
    rw [durationsOf_append_of_none events (by simp) rfl]
    exact h.scanDurations
  memory := by
    rw [samplesOf_append_of_none events (by simp) rfl]
    exact h.memory
  hitRate := h.hitRate

theorem ended (h : m.Shows size events) (number : Nat) (operation : String) (duration : Float) :
    (m.recordDuration operation duration).Shows size
      (events ++ [.ended number operation duration]) where
  windowSize := h.windowSize
  counts other := by
    rw [startsOf_append_of_ne events (by simp) (by simp)]
    exact h.counts other
  durations other := by
    rw [durationsOf_append events (by simp), duration?, recordDuration]
    by_cases hother : operation = other
    · subst hother
      have hwindow : (m.durations.get? operation).getD [] =
          (durationsOf (· = operation) events).rtake size := by
        rw [h.durations]
        split_ifs with hnone
        · rw [hnone, List.rtake_nil]
          rfl
        · rfl
      rw [Table.get?_put_self, hwindow, h.windowSize, Window.push_rtake]
      simp
    · rw [Table.get?_put_of_ne (Ne.symm hother), h.durations]
      simp [hother]
  scanDurations := by
    rw [durationsOf_append events (by simp), duration?, recordDuration]
    simp only [h.scanDurations, h.windowSize]
    by_cases hscan : isScan operation = true
    · rw [if_pos hscan, if_pos hscan, Window.push_rtake]
      rfl
    · rw [if_neg hscan, if_neg hscan]
      simp
  memory := by
    rw [samplesOf_append_of_none events (by simp) rfl]
    exact h.memory
  hitRate := h.hitRate

theorem sampled (h : m.Shows size events) (bytes : Int) :
    (m.recordMemory bytes).Shows size (events ++ [.sampled bytes]) where
  windowSize := h.windowSize
  counts other := by
    rw [startsOf_append_of_ne events (by simp) (by simp)]
    exact h.counts other
  durations other := by
    rw [durationsOf_append_of_none events (by simp) rfl]
    exact h.durations other
  scanDurations := by
    rw [durationsOf_append_of_none events (by simp) rfl]
    exact h.scanDurations
  memory := by
    rw [samplesOf_append events (by simp), recordMemory]
    simp only [h.memory, h.windowSize, Window.push_rtake]
    rfl
  hitRate := h.hitRate

theorem error (h : m.Shows size events) : m.recordError.Shows size events :=
  ⟨h.windowSize, h.counts, h.durations, h.scanDurations, h.memory, h.hitRate⟩

theorem hit (h : m.Shows size events) : m.recordCacheHit.Shows size events := by
  refine ⟨h.windowSize, h.counts, h.durations, h.scanDurations, h.memory, ?_⟩
  have hstep : (0 : Float) < hitRateStep := by decide +kernel
  simp only [recordCacheHit]
  split_ifs with hless
  · exact ⟨Binary64.zero_le_add h.hitRate.1 hstep hless, Binary64.le_of_lt hless⟩
  · exact ⟨by decide +kernel, by decide +kernel⟩

theorem miss (h : m.Shows size events) : m.recordCacheMiss.Shows size events := by
  refine ⟨h.windowSize, h.counts, h.durations, h.scanDurations, h.memory, ?_⟩
  have hstep : (0 : Float) < hitRateStep := by decide +kernel
  simp only [recordCacheMiss]
  split_ifs with hless
  · exact ⟨Binary64.le_of_lt hless, Binary64.sub_le_one h.hitRate.1 h.hitRate.2 hstep hless⟩
  · exact ⟨by decide +kernel, by decide +kernel⟩

theorem endOperation (h : m.Shows size events) {timer : OperationTimer}
    (hrunning : timer.duration = none) {sampler : Sampler Int}
    (hvalue : ∀ text, sampler.take.1 ≠ .failure text) (number : Nat) (clock : Float) :
    (m.endOperation timer sampler clock).monitor.Shows size
      (events ++ [.ended number timer.operation ((clock - timer.started) * 1000)] ++
        MonitorHistory.eventsOf sampler.take.1) ∧
    (m.endOperation timer sampler clock).sampler = sampler.take.2 := by
  obtain ⟨operation, started, duration⟩ := timer
  obtain rfl : duration = none := hrunning
  have hended := h.ended number operation ((clock - started) * 1000)
  simp only [Monitor.endOperation]
  generalize sampler.take = taken at hvalue ⊢
  obtain ⟨sample, sampler⟩ := taken
  cases sample with
  | value bytes => exact ⟨hended.sampled bytes, rfl⟩
  | unavailable outage =>
    rw [MonitorHistory.eventsOf, List.append_nil]
    exact ⟨hended, rfl⟩
  | failure text => exact absurd rfl (hvalue text)

theorem iterate_sampled {x : Monitor × Sampler Int} {h : MonitorHistory}
    (hx : x.1.Shows size h.events) (hsampler : x.2 = h.sampler) (count : Nat) :
    (Monitor.sampled^[count] x).1.Shows size (h.sample count).events ∧
      (Monitor.sampled^[count] x).2 = (h.sample count).sampler := by
  induction count generalizing x h with
  | zero => exact ⟨hx, hsampler⟩
  | succ count ih =>
    rw [Function.iterate_succ_apply, MonitorHistory.sample, ← hsampler]
    refine ih ?_ ?_
    all_goals
      rw [Monitor.sampled, sampleMemory]
      dsimp only
      generalize x.2.take = taken
      obtain ⟨sample, sampler⟩ := taken
    · cases sample with
      | value bytes => exact hx.sampled bytes
      | unavailable _ | failure _ => exact (List.append_nil h.events).symm ▸ hx
    · cases sample <;> rfl

end Shows

theorem endOperation_of_ended (m : Monitor) {timer : OperationTimer} {duration : Float}
    (hended : timer.duration = some duration) (sampler : Sampler Int) (clock : Float) :
    m.endOperation timer sampler clock = ⟨m, timer, sampler, [], .ok duration⟩ := by
  rw [endOperation, hended]

end Monitor

/-! ## Samples -/

namespace PeriodicMonitor

open MonitorEvent

variable {τ : Type}

/-- A monitor holds what has happened, and its source of samples stands where they were taken. -/
structure Measures (m : PeriodicMonitor τ) (size : Nat) (h : MonitorHistory) : Prop where
  sampler : m.sampler = h.sampler
  sound : h.sampler.NeverFails
  shows : m.monitor.Shows size h.events

variable {m r : PeriodicMonitor τ} {size : Nat} {h : MonitorHistory}

theorem Measures.samples (hm : m.Measures size h) (count : Nat)
    (hr : (r.monitor, r.sampler) = Monitor.sampled^[count] (m.monitor, m.sampler)) :
    r.Measures size (h.sample count) := by
  obtain ⟨hshows, hsampler⟩ := hm.shows.iterate_sampled
    (x := (m.monitor, m.sampler)) hm.sampler count
  rw [← hr] at hshows hsampler
  exact ⟨hsampler, hm.sound.sample count, hshows⟩

theorem Measures.finish (hm : m.Measures size h) {timer : OperationTimer} {number : Nat}
    (hstarted : h.started[number]? = some (timer.operation, timer.started))
    (hended : timer.duration.isSome ↔ number ∈ endedNumbers h.events) (clock : Float) :
    (m.endOperation timer clock).1.Measures size (h.finish number clock) := by
  obtain ⟨hsampler, hsound, hshows⟩ := hm
  rw [PeriodicMonitor.endOperation, MonitorHistory.finish, hstarted]
  dsimp only
  cases hduration : timer.duration with
  | some duration =>
    rw [if_pos (hended.1 (by rw [hduration]; rfl)), Monitor.endOperation_of_ended _ hduration]
    exact ⟨hsampler, hsound, hshows⟩
  | none =>
    have hrunning : number ∉ endedNumbers h.events := fun hmem => by
      have := hended.2 hmem
      rw [hduration] at this
      cases this
    obtain ⟨hshown, hleft⟩ := hshows.endOperation hduration hsound.take.1 number clock
    rw [if_neg hrunning, hsampler]
    exact ⟨hleft, hsound.take.2, hshown⟩

theorem ended_endOperation (m : PeriodicMonitor τ) (timer : OperationTimer) (clock : Float) :
    ((m.endOperation timer clock).2.1.operation, (m.endOperation timer clock).2.1.started) =
      (timer.operation, timer.started) ∧
    (m.endOperation timer clock).2.1.duration.isSome = true := by
  rw [PeriodicMonitor.endOperation]
  dsimp only
  cases hduration : timer.duration with
  | some duration =>
    rw [Monitor.endOperation_of_ended _ hduration]
    exact ⟨rfl, by rw [hduration]; rfl⟩
  | none =>
    rw [Monitor.endOperation, hduration]
    dsimp only
    split <;> exact ⟨rfl, rfl⟩

theorem Measures.leave (hm : m.Measures size h) {timer : OperationTimer} {number : Nat}
    (hstarted : h.started[number]? = some (timer.operation, timer.started))
    (hended : timer.duration.isSome ↔ number ∈ endedNumbers h.events) (clock : Float)
    (failure : Option String) :
    (m.leaveBlock timer clock failure).1.Measures size (h.finish number clock) := by
  have hfinished := hm.finish hstarted hended clock
  rcases m.leaveBlock_fst timer clock failure with hleft | hleft
  · rw [hleft]
    exact hfinished
  · rw [hleft]
    exact ⟨hfinished.sampler, hfinished.sound, hfinished.shows.error⟩

end PeriodicMonitor

/-! ## Runs -/

namespace MonitorSession

open MonitorEvent

variable {τ : Type}

/-- The session stands where its history says; and each timer has ended at most once. -/
structure Follows (s : MonitorSession τ) (size : Nat) (h : MonitorHistory) : Prop where
  measures : s.meter.Measures size h
  started : s.timers.map (fun timer => (timer.operation, timer.started)) = h.started
  ended : ∀ number timer, s.timers[number]? = some timer →
    (timer.duration.isSome ↔ number ∈ endedNumbers h.events)
  once : (endedNumbers h.events).Nodup
  known : ∀ number ∈ endedNumbers h.events, number < h.started.length

namespace Follows

variable {s : MonitorSession τ} {size : Nat} {h h' : MonitorHistory} {meter : PeriodicMonitor τ}

theorem same (hs : s.Follows size h) (hmeasures : meter.Measures size h')
    (hstarted : h'.started = h.started) (hended : endedNumbers h'.events = endedNumbers h.events) :
    ({ s with meter := meter } : MonitorSession τ).Follows size h' where
  measures := hmeasures
  started := hs.started.trans hstarted.symm
  ended number timer htimer := by
    rw [hended]
    exact hs.ended number timer htimer
  once := by
    rw [hended]
    exact hs.once
  known := by
    rw [hended, hstarted]
    exact hs.known

theorem getElem?_started (hs : s.Follows size h) (number : Nat) :
    h.started[number]? = (s.timers[number]?).map fun timer => (timer.operation, timer.started) := by
  rw [← hs.started, List.getElem?_map]

theorem started_of_some (hs : s.Follows size h) {number : Nat} {timer : OperationTimer}
    (htimer : s.timers[number]? = some timer) :
    h.started[number]? = some (timer.operation, timer.started) := by
  rw [hs.getElem?_started, htimer]
  rfl

theorem finish_of_none (hs : s.Follows size h) {number : Nat} (htimer : s.timers[number]? = none)
    (clock : Float) : h.finish number clock = h := by
  rw [MonitorHistory.finish, hs.getElem?_started, htimer]
  rfl

theorem finish (hs : s.Follows size h) {number : Nat} {timer ended : OperationTimer} (clock : Float)
    (htimer : s.timers[number]? = some timer)
    (hmeasures : meter.Measures size (h.finish number clock))
    (hended : (ended.operation, ended.started) = (timer.operation, timer.started) ∧
      ended.duration.isSome = true) :
    (⟨meter, s.timers.set number ended⟩ : MonitorSession τ).Follows size
      (h.finish number clock) := by
  obtain ⟨hbound, rfl⟩ := List.getElem?_eq_some_iff.1 htimer
  have hlength : s.timers.length = h.started.length := by
    rw [← hs.started, List.length_map]
  have hnumber : number < h.started.length := hlength ▸ hbound
  have hnumbers := MonitorHistory.endedNumbers_finish clock hnumber
  have hmem : ∀ other, other ∈ endedNumbers (h.finish number clock).events ↔
      other ∈ endedNumbers h.events ∨ other = number := by
    intro other
    rw [hnumbers]
    split_ifs with hdone
    · exact ⟨Or.inl, fun h => h.elim id fun heq => heq ▸ hdone⟩
    · simp
  refine ⟨hmeasures, ?_, fun other timer hother => ?_, ?_, fun other hother => ?_⟩
  · have hsame : h.started[number] = (ended.operation, ended.started) := by
      simp only [← hs.started, List.getElem_map, hended.1]
    rw [MonitorHistory.started_finish, List.map_set, hs.started, ← hsame, List.set_getElem_self]
  · rw [hmem]
    rw [List.getElem?_set] at hother
    split_ifs at hother with hsame
    · obtain rfl := Option.some.inj hother
      exact iff_of_true hended.2 (.inr hsame.symm)
    · rw [hs.ended other timer hother, or_iff_left (Ne.symm hsame)]
  · rw [hnumbers]
    split_ifs with hdone
    · exact hs.once
    · rw [← List.concat_eq_append, List.nodup_concat]
      exact ⟨hdone, hs.once⟩
  · rw [MonitorHistory.started_finish]
    rcases (hmem other).1 hother with hknown | rfl
    · exact hs.known other hknown
    · exact hnumber

end Follows

variable [Time τ]

/-- How many samples a call takes as time passes: one for each timer that goes off. -/
def ticks (s : MonitorSession τ) : MonitorCall τ → Nat
  | .advance fuel seconds => ((s.meter.advance fuel seconds).map Prod.snd).getD 0
  | _ => 0

theorem ticks_eq {s : MonitorSession τ} {call : MonitorCall τ} {count : Nat}
    (h : s.ticks? call = some count) : s.ticks call = count := by
  cases call with
  | advance fuel seconds => exact congrArg (Option.getD · 0) h
  | _ => exact Option.some.inj h

/-- What has happened after calls, if each of them comes to its end. -/
def historyAfter (s : MonitorSession τ) (h : MonitorHistory) :
    List (MonitorCall τ) → Option MonitorHistory
  | [] => some h
  | call :: calls =>
    (s.ticks? call).bind fun count => historyAfter (s.step call).1 (h.next count call) calls

theorem Follows.start {s : MonitorSession τ} {size : Nat} {h : MonitorHistory}
    (hs : s.Follows size h) (operation : String) (clock : Float) :
    (s.step (.start operation clock)).1.Follows size
      (h.next 0 (.start operation clock : MonitorCall τ)) := by
  have hlength : s.timers.length = h.started.length := by
    rw [← hs.started, List.length_map]
  have hnumbers := endedNumbers_append_of_none h.events (e := .started operation) rfl
  refine ⟨⟨hs.measures.sampler, hs.measures.sound, hs.measures.shows.started operation clock⟩,
    ?_, fun number timer htimer => ?_, hnumbers ▸ hs.once, fun number hnumber => ?_⟩
  · change (s.timers ++ [_]).map _ = h.started ++ [(operation, clock)]
    rw [List.map_append, hs.started]
    rfl
  · change (s.timers ++ [_])[number]? = some timer at htimer
    change _ ↔ number ∈ endedNumbers (h.events ++ [.started operation])
    rw [hnumbers]
    rcases Nat.lt_or_ge number s.timers.length with hlt | hge
    · rw [List.getElem?_append_left hlt] at htimer
      exact hs.ended number timer htimer
    · rw [List.getElem?_append_right hge] at htimer
      obtain rfl := List.mem_singleton.1 (List.mem_of_getElem? htimer)
      exact ⟨Bool.noConfusion, fun hmem => absurd (hs.known number hmem) (by omega)⟩
  · change number ∈ endedNumbers (h.events ++ [.started operation]) at hnumber
    rw [hnumbers] at hnumber
    exact (hs.known number hnumber).trans_le (by simp [MonitorHistory.next])

theorem follows_step {s : MonitorSession τ} {size : Nat} {h : MonitorHistory}
    (hs : s.Follows size h) (call : MonitorCall τ) :
    (s.step call).1.Follows size (h.next (s.ticks call) call) := by
  have hmeasures := hs.measures
  cases call with
  | start operation clock => exact hs.start operation clock
  | finish number clock =>
    simp only [step]
    cases htimer : s.timers[number]? with
    | none =>
      change s.Follows size (h.finish number clock)
      rw [hs.finish_of_none htimer]
      exact hs
    | some timer =>
      exact hs.finish clock htimer
        (hmeasures.finish (hs.started_of_some htimer) (hs.ended number timer htimer) clock)
        (PeriodicMonitor.ended_endOperation ..)
  | leave number clock failure =>
    simp only [step]
    cases htimer : s.timers[number]? with
    | none =>
      change s.Follows size (h.finish number clock)
      rw [hs.finish_of_none htimer]
      exact hs
    | some timer =>
      exact hs.finish clock htimer
        (hmeasures.leave (hs.started_of_some htimer) (hs.ended number timer htimer) clock failure)
        (PeriodicMonitor.ended_endOperation ..)
  | error =>
    exact hs.same ⟨hmeasures.sampler, hmeasures.sound, hmeasures.shows.error⟩ rfl rfl
  | hit => exact hs.same ⟨hmeasures.sampler, hmeasures.sound, hmeasures.shows.hit⟩ rfl rfl
  | miss => exact hs.same ⟨hmeasures.sampler, hmeasures.sound, hmeasures.shows.miss⟩ rfl rfl
  | startSampling seconds | stopSampling =>
    exact hs.same ⟨hmeasures.sampler, hmeasures.sound, hmeasures.shows⟩ rfl rfl
  | reset | dispose =>
    exact hs.same ⟨hmeasures.sampler, hmeasures.sound, hmeasures.shows.reset⟩ rfl
      (endedNumbers_append_of_none h.events rfl)
  | sample =>
    exact hs.same (hmeasures.samples 1 rfl) (h.started_sample 1) (h.endedNumbers_sample 1)
  | advance fuel seconds =>
    simp only [step, ticks]
    cases hrun : s.meter.advance fuel seconds with
    | none => exact hs
    | some answer =>
      obtain ⟨meter, count⟩ := answer
      exact hs.same (hmeasures.samples count (PeriodicMonitor.advance_eq_some hrun))
        (h.started_sample count) (h.endedNumbers_sample count)

theorem follows_stateAfter {s : MonitorSession τ} {size : Nat} {h h' : MonitorHistory}
    (hs : s.Follows size h) {calls : List (MonitorCall τ)}
    (hcalls : s.historyAfter h calls = some h') : (stateAfter step s calls).Follows size h' := by
  induction calls generalizing s h with
  | nil => exact Option.some.inj hcalls ▸ hs
  | cons call calls ih =>
    obtain ⟨count, hcount, hlater⟩ := Option.bind_eq_some_iff.1 hcalls
    exact ih (ticks_eq hcount ▸ follows_step hs call) hlater

theorem historyAfter_eq_after [Time.Steady τ] {s : MonitorSession τ} {interval : τ}
    {c : SampleClock τ} {a : TaskTable τ Unit} (hs : s.meter.Ticks interval c a)
    (h : MonitorHistory) {calls : List (MonitorCall τ)} (hends : c.Ends interval calls) :
    ∃ enough, ∀ fuel, enough ≤ fuel →
      s.historyAfter h (calls.map (.withFuel fuel)) = some (.after interval c h calls) := by
  induction calls generalizing s c a h with
  | nil => exact ⟨0, fun _ _ => rfl⟩
  | cons call calls ih =>
    obtain ⟨s', a', enough, hcall, hs'⟩ := ticks_step hs hends.1
    obtain ⟨later, hcalls⟩ := ih hs' (h.next (c.ticks call) call) hends.2
    refine ⟨max enough later, fun fuel hfuel => ?_⟩
    obtain ⟨hticks, hstep⟩ := hcall fuel (le_trans (le_max_left _ _) hfuel)
    have hnext : h.next (c.ticks call) (call.withFuel fuel) = h.next (c.ticks call) call := by
      cases call <;> rfl
    rw [List.map_cons, historyAfter, hticks, Option.bind_some, hstep, hnext]
    exact hcalls fuel (le_trans (le_max_right _ _) hfuel)

theorem create_eq_ok {windowSize : Int} (hsize : 0 ≤ windowSize) (interval : τ)
    (sampler : Sampler Int) : PeriodicMonitor.create windowSize interval sampler =
      .ok ⟨interval, .start windowSize.toNat, sampler, .start Time.zero, []⟩ := by
  rw [PeriodicMonitor.create, Window.sizeOf, if_neg (Int.not_lt.2 hsize)]
  rfl

/-- A monitor with windows of any size can be had. After any calls that come to their ends, each
window in its metrics is the end of what has happened since the last reset, where each timer ends
once. In steady time all calls do so, with enough fuel, and samples are taken when they fall due. -/
theorem shows_stateAfter {windowSize : Int} (hsize : 0 ≤ windowSize) (interval : τ)
    {sampler : Sampler Int} (hsampler : sampler.NeverFails) :
    ∃ meter, PeriodicMonitor.create windowSize interval sampler = .ok meter ∧
      (∀ (calls : List (MonitorCall τ)) h, historyAfter ⟨meter, []⟩ ⟨[], sampler, []⟩ calls = some h →
        (stateAfter step ⟨meter, []⟩ calls).meter.monitor.Tells windowSize.toNat h.events ∧
          (endedNumbers h.events).Nodup) ∧
      ∀ [Time.Steady τ] (calls : List (MonitorCall τ)), SampleClock.start.Ends interval calls →
        ∃ enough, ∀ fuel, enough ≤ fuel →
          historyAfter ⟨meter, []⟩ ⟨[], sampler, []⟩ (calls.map (.withFuel fuel)) =
            some (.after interval .start ⟨[], sampler, []⟩ calls) := by
  refine ⟨_, create_eq_ok hsize interval sampler, fun calls h hcalls => ?_, fun calls hends => ?_⟩
  · let meter : PeriodicMonitor τ :=
      ⟨interval, .start windowSize.toNat, sampler, .start Time.zero, []⟩
    have hstart : Follows ⟨meter, []⟩ windowSize.toNat ⟨[], sampler, []⟩ :=
      { measures := ⟨rfl, hsampler, Monitor.shows_start _ rfl⟩
        started := rfl
        ended := fun number timer htimer => by cases htimer
        once := List.nodup_nil
        known := fun number hnumber => by cases hnumber }
    have hfollows := follows_stateAfter hstart hcalls
    exact ⟨hfollows.measures.shows.tells, hfollows.once⟩
  · exact historyAfter_eq_after (PeriodicMonitor.ticks_start _ sampler interval) _ hends

namespace Sampled

/-- A sample that is not to be had among others that are. -/
def sampler : Sampler Int := ⟨.value 1000, [.unavailable .process, .value 2000, .value 3000]⟩

/-- A scan that is ended twice, and three samples at intervals. -/
def calls : List (MonitorCall ℚ) :=
  [.start "scan" 0, .finish 0 1, .finish 0 2, .startSampling none, .advance 0 17]

theorem events_after_calls : (MonitorHistory.after 5 .start ⟨[], sampler, []⟩ calls).events =
    [.started "scan", .ended 0 "scan" 1000, .sampled 1000, .sampled 2000, .sampled 3000] := by
  have hdue : Time.ticksBy (Time.zero + 5 : ℚ) 5 (Time.zero + 17) = 3 := by
    rw [Time.ticksBy_eq_floor (by norm_num), Time.zero_eq]
    norm_num
  let started : MonitorHistory := ⟨[("scan", 0)], sampler, [.started "scan"]⟩
  change (((started.finish 0 1).finish 0 2).sample
    (Time.ticksBy (Time.zero + 5 : ℚ) 5 (Time.zero + 17))).events = _
  rw [hdue]
  decide +kernel

end Sampled

open Sampled in
/-- With windows for two, the first sample has given way. -/
theorem shows_stateAfter_unavailable :
    (0 : Int) ≤ 2 ∧ sampler.NeverFails ∧
    ∃ meter, PeriodicMonitor.create 2 5 sampler = .ok meter ∧
      ∃ enough, ∀ fuel, enough ≤ fuel →
        let m := (stateAfter step ⟨meter, []⟩ (calls.map (.withFuel fuel))).meter.monitor
        m.metrics.member? "memory_usage" = some (.arr [.int 2000, .int 3000]) ∧
        m.metrics.member? "scan_duration" = some (.arr [.float 1000]) ∧
        ∃ counts : Table Json, m.metrics.member? "operation_counts" = some (.obj counts) ∧
          counts.get? "scan" = some (.int 1) := by
  have hsize : (0 : Int) ≤ 2 := by decide
  have hsampler : sampler.NeverFails := by simp [Sampler.NeverFails, sampler]
  obtain ⟨meter, hcreate, hshows, hends⟩ := shows_stateAfter hsize (5 : ℚ) hsampler
  obtain ⟨enough, hafter⟩ := hends calls (SampleClock.ends_of_pos (by norm_num)
    (fun seconds hmem => by simp [calls] at hmem) (fun plan hplan => by cases hplan))
  refine ⟨hsize, hsampler, meter, hcreate, enough, fun fuel hfuel => ?_⟩
  obtain ⟨htells, -⟩ := hshows _ _ (hafter fuel hfuel)
  rw [events_after_calls] at htells
  obtain ⟨counts, hcounts, hcount⟩ := htells.counts
  have hdurations : durationsOf Monitor.isScan
      [.started "scan", .ended 0 "scan" 1000, .sampled 1000, .sampled 2000, .sampled 3000] =
      [1000] := by
    decide +kernel
  refine ⟨htells.memory, ?_, counts, hcounts, hcount "scan"⟩
  rw [htells.scanDurations, hdurations]
  rfl

end MonitorSession
end DeclScan
