import DeclScan.Proofs.Monitor
import DeclScan.Proofs.Timers.Repeating

/-!
# DeclScan.Proofs.Sampling

When a monitor takes samples at intervals, in steady time.

* `SampleClock`: when the next sample falls due, told by the calls alone.
* `SampleClock.dueIn`: how many samples fall due as time passes.
* `PeriodicMonitor.Ticks`: the timers of a monitor are set for just that, and each call keeps this.
* `MonitorSession.ticks_step`: with enough fuel an advance comes to its end and takes these samples.
-/

namespace DeclScan

variable {τ : Type}

/-- The call, with so much fuel if it lets time pass. -/
def MonitorCall.withFuel (fuel : Nat) : MonitorCall τ → MonitorCall τ
  | .advance _ seconds => .advance fuel seconds
  | call => call

/-- When the next sample falls due, and the time from one to the next. -/
structure SamplePlan (τ : Type) where
  due : τ
  span : τ

/-- The clock of a monitor, and what is planned as long as samples are taken at intervals. -/
structure SampleClock (τ : Type) where
  now : τ
  plan : Option (SamplePlan τ)

namespace SampleClock

variable [Time τ]

def start : SampleClock τ := ⟨Time.zero, none⟩

/-- How many samples fall due as time passes. -/
noncomputable def dueIn (c : SampleClock τ) (seconds : τ) : Nat :=
  c.plan.elim 0 fun plan => Time.ticksBy plan.due plan.span (c.now + seconds)

/-- What is planned after a call. Samples are taken at an interval of the monitor's own unless the
call says otherwise. -/
noncomputable def pass (interval : τ) (c : SampleClock τ) : MonitorCall τ → SampleClock τ
  | .startSampling seconds =>
    { c with plan := some ⟨c.now + Time.spanOr seconds interval, Time.spanOr seconds interval⟩ }
  | .stopSampling | .dispose => { c with plan := none }
  | .advance _ seconds =>
    { now := c.now + seconds
      plan := c.plan.map fun plan =>
        { plan with due := Time.tick plan.due plan.span (c.dueIn seconds) } }
  | _ => c

/-- How many samples a call takes as time passes. -/
noncomputable def ticks (c : SampleClock τ) : MonitorCall τ → Nat
  | .advance _ seconds => c.dueIn seconds
  | _ => 0

/-- Samples do not fall due for ever as time passes. -/
def EndsAt (c : SampleClock τ) : MonitorCall τ → Prop
  | .advance _ seconds =>
    ∀ plan, c.plan = some plan → ∃ n, c.now + seconds < Time.tick plan.due plan.span n
  | _ => True

/-- They do not do so at any call of a run. In exact time that is so unless an interval is below
zero (`ends_of_pos`). -/
def Ends (interval : τ) : SampleClock τ → List (MonitorCall τ) → Prop
  | _, [] => True
  | c, call :: calls => c.EndsAt call ∧ Ends interval (c.pass interval call) calls

theorem ends_of_pos {interval : ℚ} (hinterval : 0 < interval) {calls : List (MonitorCall ℚ)}
    (hcalls : ∀ seconds, .startSampling (some seconds) ∈ calls → 0 ≤ seconds) {c : SampleClock ℚ}
    (hc : ∀ plan, c.plan = some plan → 0 < plan.span) : c.Ends interval calls := by
  induction calls generalizing c with
  | nil => trivial
  | cons call calls ih =>
    refine ⟨?_, ih (fun seconds hmem => hcalls seconds (List.mem_cons_of_mem _ hmem)) ?_⟩
    · cases call with
      | advance fuel seconds => exact fun plan hplan => Time.exists_lt_tick (hc plan hplan) _ _
      | _ => trivial
    · cases call with
      | startSampling seconds =>
        rintro _ ⟨⟩
        cases seconds with
        | none => exact hinterval
        | some seconds =>
          have hseconds : 0 ≤ seconds := hcalls seconds List.mem_cons_self
          change 0 < if seconds ≤ 0 ∧ 0 ≤ seconds then interval else seconds
          split_ifs with hzero
          · exact hinterval
          · exact lt_of_le_of_ne hseconds fun heq => hzero ⟨heq.ge, hseconds⟩
      | stopSampling => rintro _ ⟨⟩
      | dispose => rintro _ ⟨⟩
      | advance fuel seconds =>
        intro plan hplan
        obtain ⟨earlier, hearlier, rfl⟩ := Option.map_eq_some_iff.1 hplan
        exact hc earlier hearlier
      | _ => exact hc

end SampleClock

namespace PeriodicMonitor

variable [Time τ]

/-- The timers of a monitor are set for what is planned, and there are no others. -/
structure Ticks (m : PeriodicMonitor τ) (interval : τ) (c : SampleClock τ) (a : TaskTable τ Unit) :
    Prop where
  interval : m.interval = interval
  represents : m.timers.Represents a
  now : a.now = c.now
  plan : (a.tasks.lookup Monitor.timerKey).map Task.plan =
    c.plan.map fun plan => (plan.due, some plan.span, ())
  alone : ∀ key, key ≠ Monitor.timerKey → a.tasks.lookup key = none

variable {m r : PeriodicMonitor τ} {interval : τ} {c : SampleClock τ} {a : TaskTable τ Unit}

theorem ticks_start (monitor : Monitor) (sampler : Sampler Int) (interval : τ) :
    Ticks ⟨interval, monitor, sampler, Timers.start Time.zero, []⟩ interval .start
      (TaskTable.start Time.zero) where
  interval := rfl
  represents := Timers.represents_start _
  now := rfl
  plan := rfl
  alone _ _ := rfl

theorem Ticks.of_eq (h : m.Ticks interval c a) (hinterval : r.interval = m.interval)
    (htimers : r.timers = m.timers) : r.Ticks interval c a where
  interval := hinterval.trans h.interval
  represents := htimers ▸ h.represents
  now := h.now
  plan := h.plan
  alone := h.alone

theorem Ticks.stop (h : m.Ticks interval c a) :
    m.stop.Ticks interval { c with plan := none } (a.cancel Monitor.timerKey) where
  interval := h.interval
  represents := (h.represents.mono fun _ _ => trivial).cancel
  now := h.now
  plan := by rw [TaskTable.cancel, Finmap.lookup_erase]; rfl
  alone key hkey := by
    rw [TaskTable.cancel, Finmap.lookup_erase_ne hkey]
    exact h.alone key hkey

/-- A timer that goes off takes a sample. -/
def goOff (timer : Timer τ Unit) (m : PeriodicMonitor τ) : PeriodicMonitor τ :=
  match m.takeSample with
  | (m, none) => m
  | (m, some text) => { m with log := m.log ++ [failureRecord timer.key text] }

omit [Time τ] in
theorem passive_host : (host : Host (PeriodicMonitor τ) τ Unit).Passive (fun _ => True) goOff where
  run_eq again timer m _ := by
    simp only [host, goOff]
    cases m.takeSample with
    | mk sampled failure => cases failure <;> rfl
  timers_act timer m _ := by
    have hsample : m.takeSample.1.timers = m.timers := rfl
    simp only [host, goOff]
    generalize m.takeSample = answer at hsample
    obtain ⟨sampled, failure⟩ := answer
    cases failure <;> exact hsample
  timers_setTimers m timers := rfl

omit [Time τ] in
theorem interval_goOff (timer : Timer τ Unit) (m : PeriodicMonitor τ) :
    (goOff timer m).interval = m.interval := by
  have hsample : m.takeSample.1.interval = m.interval := rfl
  rw [goOff]
  generalize m.takeSample = answer at hsample
  obtain ⟨sampled, failure⟩ := answer
  cases failure <;> exact hsample

omit [Time τ] in
theorem interval_of_goOff {timers : List (Timer τ Unit)} (h : host.GoOff goOff timers m r) :
    r.interval = m.interval := by
  induction h with
  | nil => rfl
  | cons _ _ ih => exact ih.trans (interval_goOff _ _)

theorem Ticks.length_eq {target : τ} {timers : List (Timer τ Unit)} {a' : TaskTable τ Unit}
    (h : m.Ticks interval c a) (hpasses : a.Passes target timers a') :
    timers.length = c.plan.elim 0 fun plan => Time.ticksBy plan.due plan.span target := by
  have hkeys : ∀ timer ∈ timers, timer.key = Monitor.timerKey := by
    intro timer htimer
    by_contra hkey
    have htimes := hpasses.times timer.key
    rw [TaskTable.goesOff, h.alone timer.key hkey, Option.elim_none, List.map_eq_nil_iff,
      List.filter_eq_nil_iff] at htimes
    exact htimes timer htimer (by simp)
  have htimes := congrArg List.length (hpasses.times Monitor.timerKey)
  rw [List.filter_eq_self.2 (by simpa using hkeys), List.length_map] at htimes
  rw [htimes, TaskTable.goesOff]
  have hplan := h.plan
  cases hf : a.tasks.lookup Monitor.timerKey with
  | none =>
    rw [hf] at hplan
    rw [Option.map_eq_none_iff.1 hplan.symm]
    rfl
  | some task =>
    obtain ⟨plan, hc, htask⟩ := Option.map_eq_some_iff.1 (hf ▸ hplan).symm
    obtain ⟨due, sequence, span, action⟩ := task
    cases htask
    rw [hc]
    simp [Task.goesOff, Task.countBy]

variable [Time.Steady τ]

theorem Ticks.start (h : m.Ticks interval c a) (seconds : Option τ) :
    ∃ a', (m.start seconds).Ticks interval (c.pass interval (.startSampling seconds)) a' := by
  have hrep := (h.represents.mono (q := (· ≠ Monitor.timerKey)) fun _ _ => trivial).set
    (Time.spanOr seconds m.interval) (some (Time.spanOr seconds m.interval)) ()
  refine ⟨_, h.interval, hrep, h.now, ?_, fun key hkey => ?_⟩
  · rw [TaskTable.set, Finmap.lookup_insert, h.now, h.interval]
    rfl
  · rw [TaskTable.set, Finmap.lookup_insert_of_ne _ hkey]
    exact h.alone key hkey

theorem Ticks.advance (h : m.Ticks interval c a) {seconds : τ}
    (hends : c.EndsAt (.advance 0 seconds)) :
    ∃ r a' enough, (∀ fuel, enough ≤ fuel →
        m.advance fuel seconds = some (r, c.dueIn seconds)) ∧
      r.Ticks interval (c.pass interval (.advance 0 seconds)) a' := by
  have hregular : a.Regular (fun _ => True) (c.now + seconds) := by
    intro key task hf
    refine ⟨fun span hspan => ?_, trivial⟩
    by_cases hkey : key = Monitor.timerKey
    · subst hkey
      obtain ⟨plan, hc, htask⟩ := Option.map_eq_some_iff.1 (hf ▸ h.plan).symm
      obtain ⟨due, sequence, interval, action⟩ := task
      cases htask
      cases hspan
      exact hends plan hc
    · rw [h.alone key hkey] at hf
      cases hf
  obtain ⟨timers, r, a', hgo, hpasses, hrep, hrun⟩ :=
    passive_host.advanceTo_regular (c.now + seconds) h.represents hregular
  refine ⟨host.moveClock (c.now + seconds) r, a',
    a.remaining (c.now + seconds) a.tasks.keys + 1, fun fuel hfuel => ?_,
    (interval_of_goOff hgo).trans h.interval, hrep, hpasses.now, ?_, fun key hkey => ?_⟩
  · have hnow : m.timers.now + seconds = c.now + seconds := by
      rw [h.represents.now, h.now]
    rw [PeriodicMonitor.advance, Host.advance]
    exact (congrArg (host.advanceTo fuel · m) hnow).trans
      ((hrun fuel hfuel).1.trans (by rw [h.length_eq hpasses, SampleClock.dueIn]))
  · have hplan := h.plan
    rw [hpasses.plan, SampleClock.pass]
    cases hf : a.tasks.lookup Monitor.timerKey with
    | none =>
      rw [hf] at hplan
      rw [Option.map_eq_none_iff.1 hplan.symm]
      rfl
    | some task =>
      obtain ⟨plan, hc, htask⟩ := Option.map_eq_some_iff.1 (hf ▸ hplan).symm
      obtain ⟨due, sequence, span, action⟩ := task
      cases htask
      simp [SampleClock.dueIn, hc, Task.planAfter, Task.time, Task.countBy]
  · have hnone := hpasses.plan key
    rw [h.alone key hkey] at hnone
    exact Option.map_eq_none_iff.1 hnone

end PeriodicMonitor

namespace MonitorSession

variable [Time τ] {s : MonitorSession τ}

/-- How many samples a call takes as time passes. An advance that runs out of fuel has no answer. -/
def ticks? (s : MonitorSession τ) : MonitorCall τ → Option Nat
  | .advance fuel seconds => (s.meter.advance fuel seconds).map Prod.snd
  | _ => some 0

variable [Time.Steady τ] {interval : τ} {c : SampleClock τ}

/-- With enough fuel a call comes to its end, takes the samples that fall due, and does to the timers
what it does to the plan. -/
theorem ticks_step {a : TaskTable τ Unit} (h : s.meter.Ticks interval c a) {call : MonitorCall τ}
    (hends : c.EndsAt call) :
    ∃ s' a' enough, (∀ fuel, enough ≤ fuel →
        s.ticks? (call.withFuel fuel) = some (c.ticks call) ∧
          (s.step (call.withFuel fuel)).1 = s') ∧
      s'.meter.Ticks interval (c.pass interval call) a' := by
  cases call with
  | start operation clock => exact ⟨_, a, 0, fun _ _ => ⟨rfl, rfl⟩, h.of_eq rfl rfl⟩
  | finish number clock =>
    refine ⟨(s.step (.finish number clock)).1, a, 0, fun _ _ => ⟨rfl, rfl⟩, ?_⟩
    simp only [step]
    cases s.timers[number]? with
    | none => exact h
    | some timer => exact h.of_eq rfl rfl
  | leave number clock failure =>
    refine ⟨(s.step (.leave number clock failure)).1, a, 0, fun _ _ => ⟨rfl, rfl⟩, ?_⟩
    simp only [step]
    cases s.timers[number]? with
    | none => exact h
    | some timer =>
      dsimp only
      rcases s.meter.leaveBlock_fst timer clock failure with hleft | hleft
      · rw [hleft]
        exact h.of_eq rfl rfl
      · rw [hleft]
        exact h.of_eq rfl rfl
  | error | hit | miss | sample | reset =>
    exact ⟨_, a, 0, fun _ _ => ⟨rfl, rfl⟩, h.of_eq rfl rfl⟩
  | startSampling seconds =>
    obtain ⟨a', ha'⟩ := h.start seconds
    exact ⟨_, a', 0, fun _ _ => ⟨rfl, rfl⟩, ha'⟩
  | stopSampling => exact ⟨_, _, 0, fun _ _ => ⟨rfl, rfl⟩, h.stop⟩
  | dispose => exact ⟨_, _, 0, fun _ _ => ⟨rfl, rfl⟩, h.stop.of_eq rfl rfl⟩
  | advance given seconds =>
    obtain ⟨r, a', enough, hrun, hr⟩ := h.advance hends
    refine ⟨{ s with meter := r }, a', enough, fun fuel hfuel => ⟨?_, ?_⟩, hr⟩
    · simp only [MonitorCall.withFuel, ticks?, hrun fuel hfuel, Option.map_some, SampleClock.ticks]
    · simp only [MonitorCall.withFuel, step, hrun fuel hfuel]

end MonitorSession
end DeclScan
