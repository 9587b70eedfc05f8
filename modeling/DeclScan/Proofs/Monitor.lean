import DeclScan.Periodic
import DeclScan.Proofs.Number.Ratio
import DeclScan.Proofs.Run
import DeclScan.Timers.Exact

/-!
# DeclScan.Proofs.Monitor

How often operations fail, as a monitor tells it. The rate is kept and only brought up to date when
an error is recorded; so it is that of the moment of the last error, and an operation that starts
later does not show.

* `MonitorSession.step`: a call of a monitor, and what it counts.
* `MonitorSession.tally_step`: what one call does to the counts and the rate.
* `MonitorSession.errorRate_current_iff`: the rate after any calls, and when it is that of all
  operations started so far.
-/

namespace DeclScan

/-- A call of a monitor. An operation is told by its number in the order in which they started; its
timer is ended, or the block that it is for is left, perhaps by an error with a text. -/
inductive MonitorCall (τ : Type) where
  | start (operation : String) (clock : Float)
  | finish (number : Nat) (clock : Float)
  | leave (number : Nat) (clock : Float) (failure : Option String)
  | error
  | hit
  | miss
  | sample
  | startSampling (seconds : Option τ)
  | stopSampling
  | advance (fuel : Nat) (seconds : τ)
  | reset
  | dispose

/-- What a call counts. -/
inductive MonitorMark where
  | operation
  | error
  | reset
  | nothing
  deriving Repr, DecidableEq

namespace MonitorMark

/-- What was counted since the last reset, the latest first. -/
def sinceReset (marks : List MonitorMark) : List MonitorMark :=
  marks.reverse.takeWhile (· ≠ .reset)

def errors (marks : List MonitorMark) : Nat := (sinceReset marks).count .error

def operations (marks : List MonitorMark) : Nat := (sinceReset marks).count .operation

/-- The operations that had started when the last error was recorded. -/
def operationsAtError (marks : List MonitorMark) : Nat :=
  ((sinceReset marks).dropWhile (· ≠ .error)).count .operation

theorem operationsAtError_le (marks : List MonitorMark) :
    operationsAtError marks ≤ operations marks :=
  (List.dropWhile_sublist _).count_le _

end MonitorMark

/-- A monitor and the timers that it has handed out. -/
structure MonitorSession (τ : Type) where
  meter : PeriodicMonitor τ
  timers : List OperationTimer

namespace MonitorSession

variable {τ : Type} [Time τ]

/-- An error is recorded for a block that an error left, unless ending its timer breaks off. -/
def leaveMark (m : PeriodicMonitor τ) (timer : OperationTimer) (clock : Float)
    (failure : Option String) : MonitorMark :=
  match (m.endOperation timer clock).2.2, failure with
  | .ok _, some _ => .error
  | _, _ => .nothing

def step (s : MonitorSession τ) : MonitorCall τ → MonitorSession τ × MonitorMark
  | .start operation clock =>
    let (meter, timer) := s.meter.startOperation operation clock
    (⟨meter, s.timers ++ [timer]⟩, .operation)
  | .finish number clock =>
    match s.timers[number]? with
    | none => (s, .nothing)
    | some timer =>
      let (meter, ended, _) := s.meter.endOperation timer clock
      (⟨meter, s.timers.set number ended⟩, .nothing)
  | .leave number clock failure =>
    match s.timers[number]? with
    | none => (s, .nothing)
    | some timer =>
      (⟨(s.meter.leaveBlock timer clock failure).1,
        s.timers.set number (s.meter.endOperation timer clock).2.1⟩,
        leaveMark s.meter timer clock failure)
  | .error => ({ s with meter := s.meter.measure Monitor.recordError }, .error)
  | .hit => ({ s with meter := s.meter.measure Monitor.recordCacheHit }, .nothing)
  | .miss => ({ s with meter := s.meter.measure Monitor.recordCacheMiss }, .nothing)
  | .sample => ({ s with meter := s.meter.takeSample.1 }, .nothing)
  | .startSampling seconds => ({ s with meter := s.meter.start seconds }, .nothing)
  | .stopSampling => ({ s with meter := s.meter.stop }, .nothing)
  | .advance fuel seconds =>
    match s.meter.advance fuel seconds with
    | none => (s, .nothing)
    | some (meter, _) => ({ s with meter := meter }, .nothing)
  | .reset => ({ s with meter := s.meter.measure Monitor.reset }, .reset)
  | .dispose => ({ s with meter := s.meter.dispose }, .reset)

end MonitorSession

/-! ## Counts and rate -/

/-- What a monitor keeps of operations and errors. -/
structure Tally where
  operations : Nat
  errors : Nat
  rate : Float

namespace Tally

def zero : Tally := ⟨0, 0, 0⟩

/-- What is counted changes the tally. Only an error changes the rate. -/
def next (t : Tally) : MonitorMark → Tally
  | .operation => { t with operations := t.operations + 1 }
  | .error =>
    { t with
      errors := t.errors + 1
      rate := Binary64.ofRatio false (t.errors + 1) (max t.operations 1) }
  | .reset => zero
  | .nothing => t

/-- The tally of all that was counted. -/
def ofMarks (marks : List MonitorMark) : Tally where
  operations := MonitorMark.operations marks
  errors := MonitorMark.errors marks
  rate :=
    Binary64.ofRatio false (MonitorMark.errors marks) (max (MonitorMark.operationsAtError marks) 1)

theorem ofMarks_nil : ofMarks [] = zero :=
  congrArg (mk 0 0) (Binary64.ofRatio_zero _)

theorem ofMarks_append_singleton (marks : List MonitorMark) (mark : MonitorMark) :
    ofMarks (marks ++ [mark]) = (ofMarks marks).next mark := by
  have hsince : MonitorMark.sinceReset (marks ++ [mark]) =
      if mark = .reset then [] else mark :: MonitorMark.sinceReset marks := by
    rw [MonitorMark.sinceReset, List.reverse_append, List.reverse_singleton,
      List.singleton_append, List.takeWhile_cons, MonitorMark.sinceReset]
    by_cases hmark : mark = .reset <;> simp [hmark]
  cases mark with
  | reset =>
    simp only [ofMarks, next, MonitorMark.operations, MonitorMark.errors,
      MonitorMark.operationsAtError, hsince]
    exact ofMarks_nil
  | operation | error | nothing =>
    simp [ofMarks, next, MonitorMark.operations, MonitorMark.errors, MonitorMark.operationsAtError,
      hsince]

end Tally

namespace Monitor

def tally (m : Monitor) : Tally := ⟨m.operationCount, m.errorCount, m.errorRate⟩

@[simp] theorem tally_endOperation (m : Monitor) (timer : OperationTimer) (sampler : Sampler Int)
    (clock : Float) : (m.endOperation timer sampler clock).monitor.tally = m.tally := by
  unfold endOperation
  split
  · rfl
  · dsimp only
    split <;> rfl

@[simp] theorem tally_sampleMemory (m : Monitor) (sampler : Sampler Int) :
    (m.sampleMemory sampler).monitor.tally = m.tally := by
  unfold sampleMemory
  dsimp only
  split <;> rfl

/-- A monitor and its source of samples after a sample. -/
def sampled (x : Monitor × Sampler Int) : Monitor × Sampler Int :=
  ((x.1.sampleMemory x.2).monitor, (x.1.sampleMemory x.2).sampler)

theorem tally_iterate_sampled (x : Monitor × Sampler Int) (count : Nat) :
    (sampled^[count] x).1.tally = x.1.tally := by
  induction count generalizing x with
  | zero => rfl
  | succ count ih =>
    rw [Function.iterate_succ_apply, ih]
    exact tally_sampleMemory ..

end Monitor

namespace PeriodicMonitor

variable {τ : Type}

@[simp] theorem tally_endOperation (m : PeriodicMonitor τ) (timer : OperationTimer)
    (clock : Float) : (m.endOperation timer clock).1.monitor.tally = m.monitor.tally :=
  Monitor.tally_endOperation ..

@[simp] theorem tally_takeSample (m : PeriodicMonitor τ) :
    m.takeSample.1.monitor.tally = m.monitor.tally :=
  Monitor.tally_sampleMemory ..

theorem tally_leaveBlock (m : PeriodicMonitor τ) (timer : OperationTimer) (clock : Float)
    (failure : Option String) :
    (m.leaveBlock timer clock failure).1.monitor.tally =
      m.monitor.tally.next (MonitorSession.leaveMark m timer clock failure) := by
  have hended := tally_endOperation m timer clock
  unfold leaveBlock MonitorSession.leaveMark
  generalize m.endOperation timer clock = answer at hended
  obtain ⟨ended, timer', outcome⟩ := answer
  cases outcome with
  | error text => exact hended
  | ok duration =>
    cases failure with
    | none => exact hended
    | some text => exact congrArg (Tally.next · .error) hended

theorem leaveBlock_fst (m : PeriodicMonitor τ) (timer : OperationTimer) (clock : Float)
    (failure : Option String) :
    (m.leaveBlock timer clock failure).1 = (m.endOperation timer clock).1 ∨
      (m.leaveBlock timer clock failure).1 =
        (m.endOperation timer clock).1.measure Monitor.recordError := by
  unfold leaveBlock
  generalize m.endOperation timer clock = answer
  obtain ⟨ended, timer', outcome⟩ := answer
  cases outcome with
  | error text => exact .inl rfl
  | ok duration =>
    cases failure with
    | none => exact .inl rfl
    | some text => exact .inr rfl

theorem advance_eq_some [Time τ] {fuel count : Nat} {seconds : τ} {m r : PeriodicMonitor τ}
    (h : m.advance fuel seconds = some (r, count)) :
    (r.monitor, r.sampler) = Monitor.sampled^[count] (m.monitor, m.sampler) := by
  have hrun {again} {timer : Timer τ Unit} {m m' : PeriodicMonitor τ}
      (h : host.run again timer m = some m') :
      (m'.monitor, m'.sampler) = Monitor.sampled (m.monitor, m.sampler) := by
    have hsample : (m.takeSample.1.monitor, m.takeSample.1.sampler) =
        Monitor.sampled (m.monitor, m.sampler) := rfl
    simp only [host] at h
    generalize m.takeSample = answer at h hsample
    obtain ⟨sampled, failure⟩ := answer
    cases failure <;> cases h <;> exact hsample
  unfold advance Host.advance at h
  generalize (host.timers m).now + seconds = target at h
  induction fuel generalizing m r count with
  | zero => cases h
  | succ fuel ih =>
    rcases Host.advanceTo_cases h with
      ⟨-, rfl, rfl⟩ | ⟨timer, timers, m', later, -, hgo, hlater, rfl⟩
    · rfl
    · rw [ih hlater, hrun hgo, Function.iterate_succ_apply]
      rfl

theorem tally_advance [Time τ] {fuel count : Nat} {seconds : τ} {m r : PeriodicMonitor τ}
    (h : m.advance fuel seconds = some (r, count)) : r.monitor.tally = m.monitor.tally := by
  have hsampled := congrArg (fun x => x.1.tally) (advance_eq_some h)
  exact hsampled.trans (Monitor.tally_iterate_sampled ..)

end PeriodicMonitor

namespace MonitorSession

open MonitorMark

variable {τ : Type} [Time τ]

/-! ## Runs -/

/-- A call does to counts and rate what it counts. -/
theorem tally_step (s : MonitorSession τ) (call : MonitorCall τ) :
    (s.step call).1.meter.monitor.tally = s.meter.monitor.tally.next (s.step call).2 := by
  cases call with
  | start operation clock | error | hit | miss | startSampling seconds | stopSampling | reset
  | dispose => rfl
  | finish number clock =>
    simp only [step]
    split
    · rfl
    · exact PeriodicMonitor.tally_endOperation ..
  | leave number clock failure =>
    simp only [step]
    split
    · rfl
    · exact PeriodicMonitor.tally_leaveBlock ..
  | sample => exact PeriodicMonitor.tally_takeSample s.meter
  | advance fuel seconds =>
    simp only [step]
    split
    · rfl
    · rename_i hadvance
      exact PeriodicMonitor.tally_advance hadvance

/-- What the calls of a run have counted. -/
def marksOf (s : MonitorSession τ) (calls : List (MonitorCall τ)) : List MonitorMark :=
  (transcript step s calls).map Prod.snd

theorem tally_stateAfter {s : MonitorSession τ} (h : s.meter.monitor.tally = .zero)
    (calls : List (MonitorCall τ)) :
    (stateAfter step s calls).meter.monitor.tally = .ofMarks (s.marksOf calls) := by
  refine transcript_induction step
    (p := fun past s => s.meter.monitor.tally = .ofMarks (past.map Prod.snd)) ?_ ?_ calls
  · intro past s call hpast
    rw [tally_step, hpast, List.map_append, List.map_singleton, Tally.ofMarks_append_singleton]
  · rw [h, List.map_nil, Tally.ofMarks_nil]

theorem tally_create {windowSize : Int} {interval : τ} {sampler : Sampler Int}
    {meter : PeriodicMonitor τ}
    (h : PeriodicMonitor.create windowSize interval sampler = .ok meter) :
    meter.monitor.tally = .zero := by
  unfold PeriodicMonitor.create at h
  cases hsize : Window.sizeOf windowSize with
  | error e =>
    rw [hsize] at h
    cases h
  | ok size =>
    rw [hsize] at h
    cases h
    rfl

/-- Reports and metrics give the rate of all errors to all operations since the last reset. -/
structure IsCurrent (m : Monitor) (marks : List MonitorMark) : Prop where
  report : m.report.errorRate = Binary64.ofRatio false (errors marks) (max (operations marks) 1)
  metrics : m.metrics.member? "error_rate" =
    some (.float (Binary64.ofRatio false (errors marks) (max (operations marks) 1)))

theorem member?_metrics (m : Monitor) :
    m.metrics.member? "error_rate" = some (.float m.errorRate) := rfl

theorem isCurrent_iff {m : Monitor} {marks : List MonitorMark} :
    IsCurrent m marks ↔
      m.errorRate = Binary64.ofRatio false (errors marks) (max (operations marks) 1) :=
  ⟨fun h => h.report, fun h => ⟨h, by rw [member?_metrics, h]⟩⟩

/-- After any calls of a new monitor the rate in reports and metrics is that of the errors to the
operations that had started when the last error was recorded. It is current if there is no error, if
at most one operation has started, or if none has started since the last error; and only then, as
long as the counts can be told apart as doubles. -/
theorem errorRate_current_iff {windowSize : Int} {interval : τ} {sampler : Sampler Int}
    {meter : PeriodicMonitor τ} (h : PeriodicMonitor.create windowSize interval sampler = .ok meter)
    (calls : List (MonitorCall τ)) :
    let m := (stateAfter step ⟨meter, []⟩ calls).meter.monitor
    let marks := marksOf ⟨meter, []⟩ calls
    m.report.errorRate = Binary64.ofRatio false (errors marks) (max (operationsAtError marks) 1) ∧
    m.metrics.member? "error_rate" = some (.float m.report.errorRate) ∧
    (errors marks = 0 ∨ operations marks ≤ 1 ∨ operationsAtError marks = operations marks →
      IsCurrent m marks) ∧
    (errors marks < 2 ^ 52 → operations marks < 2 ^ 52 → IsCurrent m marks →
      errors marks = 0 ∨ operations marks ≤ 1 ∨ operationsAtError marks = operations marks) := by
  intro m marks
  have htally : m.tally = .ofMarks marks := tally_stateAfter (tally_create h) calls
  have hrate : m.errorRate =
      Binary64.ofRatio false (errors marks) (max (operationsAtError marks) 1) :=
    congrArg Tally.rate htally
  refine ⟨hrate, member?_metrics m, fun hsame => isCurrent_iff.2 ?_,
    fun herrors hoperations hm => ?_⟩
  · rw [hrate]
    rcases hsame with hnone | hone | hsame
    · rw [hnone, Binary64.ofRatio_zero, Binary64.ofRatio_zero]
    · rw [max_eq_right ((operationsAtError_le marks).trans hone), max_eq_right hone]
    · rw [hsame]
  · rw [isCurrent_iff, hrate] at hm
    have hle := operationsAtError_le marks
    by_cases hnone : errors marks = 0
    · exact .inl hnone
    · have hdivisor := Binary64.ofRatio_inj (Nat.pos_of_ne_zero hnone) herrors (by omega) (by omega)
        (by omega) (by omega) hm
      omega

namespace Late

/-- A new monitor. -/
def meter : PeriodicMonitor ℚ := ⟨5, Monitor.start 100, .constant 1000, .start 0, []⟩

/-- An operation fails, and another one starts. -/
def calls : List (MonitorCall ℚ) := [.start "a" 0, .leave 0 0 (some "x"), .start "b" 0]

/-- While one of two operations has failed, all of them are said to have. -/
theorem errorRate_not_current :
    ¬IsCurrent (stateAfter step ⟨meter, []⟩ calls).meter.monitor (marksOf ⟨meter, []⟩ calls) := by
  rw [isCurrent_iff]
  decide +kernel

/-- One more error, and the rate is that of both errors to both operations. -/
theorem errorRate_recorded :
    IsCurrent (stateAfter step ⟨meter, []⟩ (calls ++ [.error])).meter.monitor
      (marksOf ⟨meter, []⟩ (calls ++ [.error])) := by
  have hcreate : PeriodicMonitor.create 100 5 (.constant 1000) = .ok meter := rfl
  obtain ⟨-, -, hcurrent, -⟩ := errorRate_current_iff hcreate (calls ++ [.error])
  exact hcurrent (.inr (.inr (by decide +kernel)))

end Late

end MonitorSession
end DeclScan
