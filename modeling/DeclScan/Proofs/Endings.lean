import DeclScan.Proofs.Measurements

/-!
# DeclScan.Proofs.Endings

Ends of timers where samples may break off. A timer is marked as ended before the sample is taken
that its duration is recorded with. So if that sample breaks off, the duration is never recorded; and
an error that leaves the block of the timer gives way to that of the sample, and is not counted.

* `MonitorSession.recorded`: what is recorded at a call.
* `MonitorSession.shows_step`: a monitor holds what is recorded, whatever the samples.
* `MonitorSession.isEnded_step`, `MonitorSession.endedNumbers_recorded`: what a call does to a timer
  that has ended, and to one that runs.
* `MonitorSession.isWhole_iff`: a timer that is ended is recorded, once, just if the sample of its
  first end does not break off.
-/

namespace DeclScan

open MonitorEvent

def Sample.BreaksOff {α : Type} : Sample α → Prop
  | .failure _ => True
  | .value _ | .unavailable _ => False

instance {α : Type} : DecidablePred (Sample.BreaksOff (α := α))
  | .failure _ => .isTrue trivial
  | .value _ | .unavailable _ => .isFalse id

/-- A call that is to end the timer of a number. -/
def MonitorCall.Ends {τ : Type} (number : Nat) : MonitorCall τ → Prop
  | .finish other _ | .leave other _ _ => other = number
  | _ => False

theorem Monitor.endOperation_of_breaksOff (m : Monitor) {timer : OperationTimer}
    (hrunning : timer.duration = none) {sampler : Sampler Int} (hbreaks : sampler.take.1.BreaksOff)
    (clock : Float) : ∃ text, m.endOperation timer sampler clock =
      ⟨m, { timer with duration := some ((clock - timer.started) * 1000) }, sampler.take.2, [],
        .error text⟩ := by
  rw [endOperation, hrunning]
  dsimp only
  generalize sampler.take = taken at hbreaks ⊢
  obtain ⟨sample, sampler⟩ := taken
  cases sample with
  | failure text => exact ⟨text, rfl⟩
  | value _ | unavailable _ => exact hbreaks.elim

theorem MonitorHistory.endedNumbers_eventsOf (sample : Sample Int) :
    endedNumbers (eventsOf sample) = [] := by
  cases sample <;> rfl

/-- What is recorded of samples that are taken one after the other. -/
def Sampler.recorded (sampler : Sampler Int) (count : Nat) : List MonitorEvent :=
  (MonitorHistory.sample ⟨[], sampler, []⟩ count).events

theorem MonitorHistory.events_sample (h : MonitorHistory) (count : Nat) :
    (h.sample count).events = h.events ++ h.sampler.recorded count := by
  induction count generalizing h with
  | zero => exact (List.append_nil h.events).symm
  | succ count ih =>
    rw [Sampler.recorded, MonitorHistory.sample, MonitorHistory.sample, ih, ih]
    exact List.append_assoc ..

theorem Sampler.endedNumbers_recorded (sampler : Sampler Int) (count : Nat) :
    endedNumbers (sampler.recorded count) = [] :=
  MonitorHistory.endedNumbers_sample _ count

namespace PeriodicMonitor

variable {τ : Type} {m r : PeriodicMonitor τ} {size : Nat} {past : List MonitorEvent}

/-- What is recorded when the timer of a number is ended. -/
def recordedAtEnd (m : PeriodicMonitor τ) (number : Nat) (timer : OperationTimer) (clock : Float) :
    List MonitorEvent :=
  if timer.duration.isSome ∨ m.sampler.take.1.BreaksOff then []
  else
    .ended number timer.operation ((clock - timer.started) * 1000) ::
      MonitorHistory.eventsOf m.sampler.take.1

theorem endedNumbers_recordedAtEnd (m : PeriodicMonitor τ) (number : Nat) (timer : OperationTimer)
    (clock : Float) : endedNumbers (m.recordedAtEnd number timer clock) =
      if timer.duration.isSome ∨ m.sampler.take.1.BreaksOff then [] else [number] := by
  rw [recordedAtEnd]
  split_ifs
  · rfl
  · exact congrArg (number :: ·) (MonitorHistory.endedNumbers_eventsOf _)

theorem shows_samples (h : m.monitor.Shows size past) (count : Nat)
    (hr : (r.monitor, r.sampler) = Monitor.sampled^[count] (m.monitor, m.sampler)) :
    r.monitor.Shows size (past ++ m.sampler.recorded count) := by
  have hstart : (m.monitor, m.sampler).1.Shows size (⟨[], m.sampler, past⟩ : MonitorHistory).events := h
  have hshows := (hstart.iterate_sampled rfl count).1
  rw [← hr, MonitorHistory.events_sample] at hshows
  exact hshows

theorem shows_endOperation (h : m.monitor.Shows size past) (number : Nat) (timer : OperationTimer)
    (clock : Float) : (m.endOperation timer clock).1.monitor.Shows size
      (past ++ m.recordedAtEnd number timer clock) := by
  rw [endOperation, recordedAtEnd]
  cases hduration : timer.duration with
  | some duration =>
    rw [Monitor.endOperation_of_ended _ hduration, if_pos (.inl rfl)]
    exact (List.append_nil past).symm ▸ h
  | none =>
    by_cases hbreaks : m.sampler.take.1.BreaksOff
    · obtain ⟨text, hended⟩ := m.monitor.endOperation_of_breaksOff hduration hbreaks clock
      rw [if_pos (.inr hbreaks), hended]
      exact (List.append_nil past).symm ▸ h
    · have hvalue : ∀ text, m.sampler.take.1 ≠ .failure text :=
        fun text heq => hbreaks (heq ▸ trivial)
      have hended := (h.endOperation hduration hvalue number clock).1
      rw [List.append_assoc] at hended
      rw [if_neg (by simp [hbreaks])]
      exact hended

theorem shows_leaveBlock (h : m.monitor.Shows size past) (number : Nat) (timer : OperationTimer)
    (clock : Float) (failure : Option String) : (m.leaveBlock timer clock failure).1.monitor.Shows size
      (past ++ m.recordedAtEnd number timer clock) := by
  have hended := shows_endOperation h number timer clock
  rcases m.leaveBlock_fst timer clock failure with hleft | hleft
  · rw [hleft]
    exact hended
  · rw [hleft]
    exact hended.error

/-! ## Blocks that are left by an error -/

theorem endOperation_isOk (m : PeriodicMonitor τ) (timer : OperationTimer) (clock : Float) :
    (m.endOperation timer clock).2.2.isOk = true ↔
      timer.duration.isSome ∨ ¬m.sampler.take.1.BreaksOff := by
  rw [endOperation]
  cases hduration : timer.duration with
  | some duration =>
    rw [Monitor.endOperation_of_ended _ hduration]
    exact iff_of_true rfl (.inl rfl)
  | none =>
    rw [Monitor.endOperation, hduration]
    dsimp only
    generalize m.sampler.take = taken
    obtain ⟨sample, sampler⟩ := taken
    cases sample <;> simp [Sample.BreaksOff, Except.isOk, Except.toBool]

/-- The error is counted, and it goes on. -/
def RecordsError (m : PeriodicMonitor τ) (timer : OperationTimer) (clock : Float) (text : String) :
    Prop :=
  (m.leaveBlock timer clock (some text)).1.monitor.errorCount = m.monitor.errorCount + 1 ∧
    (m.leaveBlock timer clock (some text)).2 = .error text

theorem recordsError_iff (m : PeriodicMonitor τ) (timer : OperationTimer) (clock : Float)
    (text : String) : m.RecordsError timer clock text ↔
      timer.duration.isSome ∨ ¬m.sampler.take.1.BreaksOff := by
  have hcount : (m.endOperation timer clock).1.monitor.errorCount = m.monitor.errorCount :=
    congrArg Tally.errors (tally_endOperation m timer clock)
  rw [← endOperation_isOk m timer clock, RecordsError]
  unfold leaveBlock
  generalize m.endOperation timer clock = answer at hcount
  obtain ⟨ended, timer', outcome⟩ := answer
  cases outcome with
  | error why =>
    refine iff_of_false (fun h => ?_) Bool.false_ne_true
    have := hcount.symm.trans h.1
    omega
  | ok duration => exact iff_of_true ⟨congrArg (· + 1) hcount, rfl⟩ rfl

end PeriodicMonitor

namespace MonitorSession

variable {τ : Type} [Time τ] {s : MonitorSession τ} {call : MonitorCall τ} {size number : Nat}
  {past : List MonitorEvent} {timer : OperationTimer}

/-- What is recorded at a call. -/
def recorded (s : MonitorSession τ) : MonitorCall τ → List MonitorEvent
  | .start operation _ => [.started operation]
  | .finish number clock | .leave number clock _ =>
    match s.timers[number]? with
    | none => []
    | some timer => s.meter.recordedAtEnd number timer clock
  | .sample => s.meter.sampler.recorded 1
  | .advance fuel seconds => s.meter.sampler.recorded (s.ticks (.advance fuel seconds))
  | .reset | .dispose => [.reset]
  | .error | .hit | .miss | .startSampling _ | .stopSampling => []

/-- What is recorded at calls. -/
def recordedBy (s : MonitorSession τ) : List (MonitorCall τ) → List MonitorEvent
  | [] => []
  | call :: calls => s.recorded call ++ recordedBy (s.step call).1 calls

theorem shows_step (h : s.meter.monitor.Shows size past) (call : MonitorCall τ) :
    (s.step call).1.meter.monitor.Shows size (past ++ s.recorded call) := by
  cases call with
  | start operation clock => exact h.started operation clock
  | finish number clock =>
    simp only [step, recorded]
    cases s.timers[number]? with
    | none => exact (List.append_nil past).symm ▸ h
    | some timer => exact PeriodicMonitor.shows_endOperation h number timer clock
  | leave number clock failure =>
    simp only [step, recorded]
    cases s.timers[number]? with
    | none => exact (List.append_nil past).symm ▸ h
    | some timer => exact PeriodicMonitor.shows_leaveBlock h number timer clock failure
  | error => exact (List.append_nil past).symm ▸ h.error
  | hit => exact (List.append_nil past).symm ▸ h.hit
  | miss => exact (List.append_nil past).symm ▸ h.miss
  | startSampling seconds | stopSampling => exact (List.append_nil past).symm ▸ h
  | reset | dispose => exact h.reset
  | sample => exact PeriodicMonitor.shows_samples h 1 rfl
  | advance fuel seconds =>
    simp only [step, recorded, ticks]
    cases hrun : s.meter.advance fuel seconds with
    | none => exact (List.append_nil past).symm ▸ h
    | some answer =>
      exact PeriodicMonitor.shows_samples h answer.2 (PeriodicMonitor.advance_eq_some hrun)

theorem shows_recordedBy (h : s.meter.monitor.Shows size past) (calls : List (MonitorCall τ)) :
    (stateAfter step s calls).meter.monitor.Shows size (past ++ s.recordedBy calls) := by
  induction calls generalizing s past with
  | nil => exact (List.append_nil past).symm ▸ h
  | cons call calls ih =>
    rw [recordedBy, ← List.append_assoc]
    exact ih (shows_step h call)

/-! ## Timers that have ended -/

def isEnded (s : MonitorSession τ) (number : Nat) : Bool :=
  (s.timers[number]?.bind OperationTimer.duration).isSome

omit [Time τ] in
theorem isEnded_of_some (htimer : s.timers[number]? = some timer) :
    s.isEnded number = timer.duration.isSome := by
  rw [isEnded, htimer]
  rfl

omit [Time τ] in
theorem isEnded_set {meter : PeriodicMonitor τ} {other : Nat} {ended : OperationTimer}
    (htimer : s.timers[other]? = some timer) (hended : ended.duration.isSome = true) :
    isEnded ⟨meter, s.timers.set other ended⟩ number = true ↔
      other = number ∨ s.isEnded number = true := by
  obtain ⟨hbound, -⟩ := List.getElem?_eq_some_iff.1 htimer
  rw [isEnded, isEnded, List.getElem?_set]
  by_cases hsame : other = number
  · subst hsame
    rw [if_pos rfl, if_pos hbound]
    exact iff_of_true hended (.inl rfl)
  · rw [if_neg hsame, or_iff_right hsame]

/-- A timer that has ended stays so. -/
theorem isEnded_step (call : MonitorCall τ) (h : s.isEnded number = true) :
    (s.step call).1.isEnded number = true := by
  cases call with
  | start operation clock =>
    have hbound : number < s.timers.length := by
      by_contra hge
      rw [isEnded, List.getElem?_eq_none (Nat.not_lt.1 hge)] at h
      cases h
    rw [isEnded] at h ⊢
    change ((s.timers ++ [_])[number]?.bind _).isSome = true
    rwa [List.getElem?_append_left hbound]
  | finish other clock | leave other clock failure =>
    simp only [step]
    cases htimer : s.timers[other]? with
    | none => exact h
    | some timer =>
      exact (isEnded_set htimer (PeriodicMonitor.ended_endOperation ..).2).2 (.inr h)
  | advance fuel seconds =>
    simp only [step]
    cases s.meter.advance fuel seconds with
    | none => exact h
    | some answer => exact h
  | error | hit | miss | startSampling seconds | stopSampling | reset | dispose | sample => exact h

theorem isEnded_stateAfter (calls : List (MonitorCall τ)) (h : s.isEnded number = true) :
    (stateAfter step s calls).isEnded number = true :=
  stateAfter_induction step (p := fun s => s.isEnded number = true)
    (fun _ call => isEnded_step call) h calls

theorem isEnded_step_of_ends (htimer : s.timers[number]? = some timer) (hends : call.Ends number) :
    (s.step call).1.isEnded number = true := by
  cases call with
  | finish other clock | leave other clock failure =>
    obtain rfl := hends
    simp only [step, htimer]
    exact (isEnded_set htimer (PeriodicMonitor.ended_endOperation ..).2).2 (.inl rfl)
  | start _ _ | error | hit | miss | sample | startSampling _ | stopSampling | advance _ _ | reset
  | dispose => exact hends.elim

/-- The timer that is recorded at a call is one that the call ends, and that ran before. -/
theorem endedNumbers_recorded (s : MonitorSession τ) (call : MonitorCall τ) :
    endedNumbers (s.recorded call) = [] ∨ ∃ number timer, call.Ends number ∧
      s.timers[number]? = some timer ∧ timer.duration = none ∧
        endedNumbers (s.recorded call) = [number] := by
  cases call with
  | start _ _ | error | hit | miss | startSampling _ | stopSampling | reset | dispose =>
    exact .inl rfl
  | sample | advance fuel seconds => exact .inl (Sampler.endedNumbers_recorded ..)
  | finish number clock | leave number clock failure =>
    simp only [recorded]
    cases htimer : s.timers[number]? with
    | none => exact .inl rfl
    | some timer =>
      simp only [PeriodicMonitor.endedNumbers_recordedAtEnd]
      split_ifs with hnot
      · exact .inl rfl
      · rw [not_or, Bool.not_eq_true, Option.isSome_eq_false_iff, Option.isNone_iff_eq_none] at hnot
        exact .inr ⟨number, timer, rfl, htimer, hnot.1, rfl⟩

theorem endedNumbers_recorded_of_ends (htimer : s.timers[number]? = some timer)
    (hrunning : timer.duration = none) (hends : call.Ends number) :
    endedNumbers (s.recorded call) = if s.meter.sampler.take.1.BreaksOff then [] else [number] := by
  cases call with
  | finish other clock | leave other clock failure =>
    obtain rfl := hends
    simp only [recorded, htimer, PeriodicMonitor.endedNumbers_recordedAtEnd, hrunning]
    simp
  | start _ _ | error | hit | miss | sample | startSampling _ | stopSampling | advance _ _ | reset
  | dispose => exact hends.elim

theorem endedNumbers_recordedBy_cons (s : MonitorSession τ) (call : MonitorCall τ)
    (calls : List (MonitorCall τ)) : endedNumbers (s.recordedBy (call :: calls)) =
      endedNumbers (s.recorded call) ++ endedNumbers ((s.step call).1.recordedBy calls) :=
  List.filterMap_append

theorem endedNumbers_recordedBy_append (s : MonitorSession τ) (before later : List (MonitorCall τ)) :
    endedNumbers (s.recordedBy (before ++ later)) = endedNumbers (s.recordedBy before) ++
      endedNumbers ((stateAfter step s before).recordedBy later) := by
  induction before generalizing s with
  | nil => rfl
  | cons call before ih =>
    rw [List.cons_append, endedNumbers_recordedBy_cons, endedNumbers_recordedBy_cons, ih,
      List.append_assoc]
    rfl

theorem notMem_endedNumbers (calls : List (MonitorCall τ)) (h : s.isEnded number = true) :
    number ∉ endedNumbers (s.recordedBy calls) := by
  induction calls generalizing s with
  | nil => exact List.not_mem_nil
  | cons call calls ih =>
    rw [endedNumbers_recordedBy_cons, List.mem_append, not_or]
    refine ⟨fun hmem => ?_, ih (isEnded_step call h)⟩
    rcases endedNumbers_recorded s call with hnone | ⟨other, timer, -, htimer, hrunning, hone⟩
    · rw [hnone] at hmem
      cases hmem
    · rw [hone, List.mem_singleton] at hmem
      subst hmem
      rw [isEnded_of_some htimer, hrunning] at h
      cases h

theorem isEnded_of_mem (calls : List (MonitorCall τ))
    (h : number ∈ endedNumbers (s.recordedBy calls)) :
    (stateAfter step s calls).isEnded number = true := by
  induction calls generalizing s with
  | nil => cases h
  | cons call calls ih =>
    rw [endedNumbers_recordedBy_cons, List.mem_append] at h
    rcases h with hmem | hlater
    · rcases endedNumbers_recorded s call with hnone | ⟨other, timer, hends, htimer, -, hone⟩
      · rw [hnone] at hmem
        cases hmem
      · rw [hone, List.mem_singleton] at hmem
        subst hmem
        exact isEnded_stateAfter calls (isEnded_step_of_ends htimer hends)
    · exact ih hlater

/-! ## Runs -/

/-- A timer runs and has not been recorded, or has ended and has been recorded once. -/
def IsWhole (s : MonitorSession τ) (past : List MonitorEvent) (number : Nat) : Prop :=
  (endedNumbers past).count number = if s.isEnded number then 1 else 0

instance : Decidable (IsWhole s past number) := inferInstanceAs (Decidable (_ = _))

theorem isWhole_stateAfter_iff (before later : List (MonitorCall τ))
    (htimer : (stateAfter step s before).timers[number]? = some timer)
    (hrunning : timer.duration = none) (hends : call.Ends number) :
    IsWhole (stateAfter step s (before ++ call :: later)) (s.recordedBy (before ++ call :: later))
      number ↔ ¬(stateAfter step s before).meter.sampler.take.1.BreaksOff := by
  have hbefore : (endedNumbers (s.recordedBy before)).count number = 0 := by
    refine List.count_eq_zero.2 fun hmem => ?_
    have := isEnded_of_mem before hmem
    rw [isEnded_of_some htimer, hrunning] at this
    cases this
  have hdone := isEnded_step_of_ends htimer hends
  have hlater := List.count_eq_zero.2 (notMem_endedNumbers later hdone)
  have hafter : (stateAfter step s (before ++ call :: later)).isEnded number = true := by
    rw [stateAfter_append]
    exact isEnded_stateAfter later hdone
  rw [IsWhole, hafter, if_pos rfl, endedNumbers_recordedBy_append, endedNumbers_recordedBy_cons,
    List.count_append, List.count_append, hbefore, hlater,
    endedNumbers_recorded_of_ends htimer hrunning hends]
  split_ifs with hbreaks <;> simp [hbreaks]

theorem shows_create {windowSize : Int} {interval : τ} {sampler : Sampler Int}
    {meter : PeriodicMonitor τ}
    (h : PeriodicMonitor.create windowSize interval sampler = .ok meter) :
    meter.monitor.Shows windowSize.toNat [] := by
  by_cases hsize : 0 ≤ windowSize
  · rw [create_eq_ok hsize] at h
    cases h
    exact Monitor.shows_start _ rfl
  · rw [PeriodicMonitor.create, Window.sizeOf, if_pos (Int.not_le.1 hsize)] at h
    cases h

/-- Whatever samples there are, and whatever calls come before and after: the windows of the monitor
hold what is recorded, and a timer that a call ends while it runs is recorded, once, just if the
sample that is taken then does not break off. An error that leaves the block of a timer at that point
is counted and goes on just if the timer has ended already or the sample does not break off. -/
theorem isWhole_iff {windowSize : Int} {interval : τ} {sampler : Sampler Int}
    {meter : PeriodicMonitor τ} (h : PeriodicMonitor.create windowSize interval sampler = .ok meter)
    (before later : List (MonitorCall τ)) {number : Nat} {timer : OperationTimer}
    (htimer : (stateAfter step ⟨meter, []⟩ before).timers[number]? = some timer)
    (hrunning : timer.duration = none) {call : MonitorCall τ} (hends : call.Ends number) :
    let s := stateAfter step ⟨meter, []⟩ before
    let calls := before ++ call :: later
    let past := recordedBy ⟨meter, []⟩ calls
    (stateAfter step ⟨meter, []⟩ calls).meter.monitor.Shows windowSize.toNat past ∧
      (IsWhole (stateAfter step ⟨meter, []⟩ calls) past number ↔
        ¬s.meter.sampler.take.1.BreaksOff) ∧
      ∀ (other : OperationTimer) clock text, s.meter.RecordsError other clock text ↔
        other.duration.isSome ∨ ¬s.meter.sampler.take.1.BreaksOff :=
  ⟨shows_recordedBy (s := ⟨meter, []⟩) (shows_create h) (before ++ call :: later),
    isWhole_stateAfter_iff before later htimer hrunning hends,
    PeriodicMonitor.recordsError_iff _⟩

namespace Broken

/-- A monitor whose first sample breaks off. -/
def meter : PeriodicMonitor ℚ :=
  ⟨5, Monitor.start 100, ⟨.failure "boom", [.value 1000]⟩, .start 0, []⟩

/-- The end of a timer breaks off, and the timer is ended again. -/
def calls : List (MonitorCall ℚ) := [.start "scan" 0, .finish 0 1, .finish 0 2]

/-- The timer has ended, and is not in the windows; and an error that leaves the block of one is not
counted. -/
theorem not_isWhole :
    ¬IsWhole (stateAfter step ⟨meter, []⟩ calls) (recordedBy ⟨meter, []⟩ calls) 0 ∧
      (stateAfter step ⟨meter, []⟩ calls).isEnded 0 = true ∧
      (stateAfter step ⟨meter, []⟩ calls).meter.monitor.scanDurations = [] ∧
      (stateAfter step ⟨meter, []⟩ calls).meter.monitor.durations = [] ∧
      ¬meter.RecordsError ⟨"scan", 0, none⟩ 1 "x" := by
  rw [PeriodicMonitor.recordsError_iff]
  decide +kernel

/-- The same timer is recorded if there is a sample in between. -/
theorem isWhole_sampled :
    let before : List (MonitorCall ℚ) := [.start "scan" 0, .sample]
    PeriodicMonitor.create 100 5 ⟨.failure "boom", [.value 1000]⟩ = .ok meter ∧
      (stateAfter step ⟨meter, []⟩ before).timers[0]? = some ⟨"scan", 0, none⟩ ∧
      IsWhole (stateAfter step ⟨meter, []⟩ (before ++ [.finish 0 1, .finish 0 2]))
        (recordedBy ⟨meter, []⟩ (before ++ [.finish 0 1, .finish 0 2])) 0 := by
  intro before
  have hcreate : PeriodicMonitor.create 100 5 ⟨.failure "boom", [.value 1000]⟩ = .ok meter := rfl
  have htimer : (stateAfter step ⟨meter, []⟩ before).timers[0]? = some ⟨"scan", 0, none⟩ := rfl
  have hends : MonitorCall.Ends 0 (.finish 0 1 : MonitorCall ℚ) := rfl
  obtain ⟨-, hwhole, -⟩ := isWhole_iff hcreate before [.finish 0 2] htimer rfl hends
  exact ⟨hcreate, htimer, hwhole.2 (by decide +kernel)⟩

end Broken

end MonitorSession
end DeclScan
