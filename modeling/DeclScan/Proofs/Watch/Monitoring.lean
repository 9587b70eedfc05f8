import DeclScan.Proofs.Debounce.Awaited
import DeclScan.Proofs.Timers.Repeating
import DeclScan.Proofs.Watch.Rescans

/-!
# DeclScan.Proofs.Watch.Monitoring

The measurements that a workspace takes at intervals, while files change, are deleted, and updates
are cancelled. Measurements and updates share a table of timers, where the key of an update is the
path of its file; a path may be the key of a measurement.

* `Pulse`: a measurement that is taken at an interval. `Pulse.beats` and `Pulse.plan` say what it
  does in a run, by the clock alone.
* `MonitoredRun.Follows`: what the timers of a run are.
* `MonitoredRun.pulses_kept_iff`: a measurement goes on as it would without the calls just if none
  of them names its key.
-/

namespace DeclScan

variable {τ : Type}

/-- A call to a workspace that is monitored. -/
inductive MonitoredCall (τ : Type) where
  | changed (path : String) (listener : Option Listener)
  | deleted (path : String)
  | cancelled (key : String)
  | cancelledAll
  | counted
  | advanced (world : World τ) (seconds : τ)

namespace MonitoredCall

/-- The call is about a path or key. -/
def Names (key : String) : MonitoredCall τ → Prop
  | changed path _ => path = key
  | deleted path => path = key
  | cancelled other => other = key
  | _ => False

def isAdvance : MonitoredCall τ → Bool
  | advanced _ _ => true
  | _ => false

variable [Time τ]

def pass (now : τ) : MonitoredCall τ → τ
  | advanced _ seconds => now + seconds
  | _ => now

/-- What the clock shows after calls. -/
def clock (past : List (MonitoredCall τ)) : τ := past.foldl pass Time.zero

/-- The latest time that the clock shows on the way, when it shows `now` at first. -/
def furthest (now : τ) : List (MonitoredCall τ) → τ
  | [] => now
  | call :: rest => Time.later now (furthest (call.pass now) rest)

/-- What a call other than an advance does to the tasks. -/
def table (d : Debouncer) (a : TaskTable τ Job) : MonitoredCall τ → TaskTable τ Job
  | changed path listener => a.set path (Time.ofMillis d.delayMs) none (.rescan path listener)
  | deleted path => a.cancel path
  | cancelled key => a.cancel key
  | cancelledAll => d.keys.foldl TaskTable.cancel a
  | _ => a

end MonitoredCall

/-- A measurement that is taken at an interval. -/
structure Pulse (τ : Type) where
  key : String
  interval : τ
  job : Job

namespace Pulse

variable [Time τ]

/-- When a pulse goes off after it did so `n` times. The clock shows zero when it starts. -/
def time (p : Pulse τ) (n : Nat) : τ := Time.tick (Time.zero + p.interval) p.interval n

/-- How often a pulse goes off up to a time. -/
noncomputable def count (p : Pulse τ) (latest : τ) : Nat :=
  Time.ticksBy (Time.zero + p.interval) p.interval latest

/-- When a pulse goes off up to a time, with what it does. -/
noncomputable def beats (p : Pulse τ) (latest : τ) : List (τ × Job) :=
  (List.range (p.count latest)).map fun n => (p.time n, p.job)

/-- What a pulse is going to do after a time. -/
noncomputable def plan (p : Pulse τ) (latest : τ) : τ × Option τ × Job :=
  (p.time (p.count latest), some p.interval, p.job)

/-- The interval leads forward, and often enough beyond a time. In exact time that is so for every
positive interval (`isRegular_of_pos`). -/
structure IsRegular (p : Pulse τ) (latest : τ) : Prop where
  starts : Time.zero < p.time 0
  ends : ∃ n, latest < p.time n

end Pulse

/-- The measurements that a workspace takes when it is monitored. -/
def Workspace.pulses (s : Workspace τ) : List (Pulse τ) :=
  [⟨Monitor.timerKey, s.sampleInterval, .sampleMemory⟩,
    ⟨MemoryManager.timerKey, s.checkInterval, .checkMemory⟩]

/-- A workspace, and the timers that went off so far. -/
structure MonitoredRun (τ : Type) where
  workspace : Workspace τ
  fired : List (Timer τ Job)

variable [Time τ]

namespace MonitoredRun

open MonitoredCall

/-- When the timer of a key went off, with what it did. -/
def firedFor (r : MonitoredRun τ) (key : String) : List (τ × Job) :=
  (r.fired.filter (Timer.key · = key)).map fun timer => (timer.due, timer.action)

def step (fuel : Nat) (r : MonitoredRun τ) : MonitoredCall τ → Option (MonitoredRun τ)
  | changed path listener => some { r with workspace := r.workspace.fileChanged path listener }
  | deleted path => some { r with workspace := r.workspace.fileDeleted path }
  | cancelled key =>
    let (debouncer, timers, _) := r.workspace.debouncer.cancel r.workspace.timers key
    some { r with workspace := { r.workspace with debouncer := debouncer, timers := timers } }
  | cancelledAll =>
    let (debouncer, timers) := r.workspace.debouncer.cancelAll r.workspace.timers
    some { r with workspace := { r.workspace with debouncer := debouncer, timers := timers } }
  | counted => some { r with workspace := r.workspace.pendingUpdates.1 }
  | advanced world seconds =>
    (r.workspace.advance world fuel seconds).map fun (workspace, _) =>
      ⟨workspace, r.fired ++ (Workspace.host world).wentOff fuel
        (r.workspace.timers.now + seconds) r.workspace⟩

def after (fuel : Nat) (s : Workspace τ) (past : List (MonitoredCall τ)) : Option (MonitoredRun τ) :=
  past.foldlM (step fuel) ⟨s, []⟩

theorem after_concat (fuel : Nat) (s : Workspace τ) (past : List (MonitoredCall τ))
    (call : MonitoredCall τ) :
    after fuel s (past ++ [call]) = (after fuel s past).bind fun r => step fuel r call := by
  simp only [after, List.foldlM_append, List.foldlM_cons, List.foldlM_nil]
  cases List.foldlM (step fuel) ⟨s, []⟩ past with
  | none => rfl
  | some r => simp

end MonitoredRun

/-! ## The clock -/

namespace MonitoredCall

variable {now : τ} {call : MonitoredCall τ} {past : List (MonitoredCall τ)}

@[simp] theorem clock_concat (past : List (MonitoredCall τ)) (call : MonitoredCall τ) :
    clock (past ++ [call]) = call.pass (clock past) := by
  simp [clock]

theorem pass_of_not_isAdvance (h : ¬ call.isAdvance = true) (now : τ) : call.pass now = now := by
  cases call with
  | advanced world seconds => exact absurd rfl h
  | _ => rfl

section Steady

variable [Time.Steady τ]

theorem le_furthest (now : τ) (past : List (MonitoredCall τ)) : now ≤ furthest now past := by
  cases past with
  | nil => exact Std.le_refl _
  | cons call rest => exact Time.le_later_left _ _

theorem furthest_concat (now : τ) (past : List (MonitoredCall τ)) (call : MonitoredCall τ) :
    furthest now (past ++ [call]) =
      Time.later (furthest now past) ((past ++ [call]).foldl pass now) := by
  induction past generalizing now with
  | nil => rfl
  | cons first rest ih =>
    rw [List.cons_append, furthest, ih, furthest, Time.later_assoc]
    rfl

theorem furthest_filter_isAdvance (now : τ) (past : List (MonitoredCall τ)) :
    furthest now (past.filter isAdvance) = furthest now past := by
  induction past generalizing now with
  | nil => rfl
  | cons call rest ih =>
    by_cases h : call.isAdvance = true
    · rw [List.filter_cons_of_pos h, furthest, ih, furthest]
    · rw [List.filter_cons_of_neg h, ih, furthest, pass_of_not_isAdvance h,
        Time.later_eq_right (le_furthest now rest)]

end Steady

omit [Time τ] in
theorem not_names_of_mem_filter (past : List (MonitoredCall τ)) (key : String) :
    ∀ call ∈ past.filter isAdvance, ¬ call.Names key := by
  intro call hcall hnames
  have h := (List.mem_filter.1 hcall).2
  cases call with
  | advanced world seconds => exact hnames
  | _ => cases h

/-! ## What calls do to tasks -/

variable {d : Debouncer} {a : TaskTable τ Job} {key : String} {task : Task τ Job}

omit [Time τ] in
theorem lookup_foldl_cancel_of_not_mem {keys : List String} (h : key ∉ keys) (a : TaskTable τ Job) :
    (keys.foldl TaskTable.cancel a).tasks.lookup key = a.tasks.lookup key := by
  induction keys generalizing a with
  | nil => rfl
  | cons first keys ih =>
    obtain ⟨hfirst, hkeys⟩ := not_or.1 (mt List.mem_cons.2 h)
    rw [List.foldl_cons, ih hkeys, TaskTable.cancel, Finmap.lookup_erase_ne hfirst]

omit [Time τ] in
theorem lookup_of_foldl_cancel {keys : List String}
    (h : (keys.foldl TaskTable.cancel a).tasks.lookup key = some task) :
    a.tasks.lookup key = some task := by
  have hmem : key ∈ a.tasks ∧ key ∉ keys :=
    Debouncer.mem_foldl_cancel.1 (Finmap.mem_of_lookup_eq_some h)
  rwa [lookup_foldl_cancel_of_not_mem hmem.2] at h

omit [Time τ] in
theorem lookup_of_cancel {other : String} (h : (a.cancel other).tasks.lookup key = some task) :
    other ≠ key ∧ a.tasks.lookup key = some task := by
  by_cases hk : key = other
  · rw [hk, TaskTable.cancel, Finmap.lookup_erase] at h
    cases h
  · rw [TaskTable.cancel, Finmap.lookup_erase_ne hk] at h
    exact ⟨Ne.symm hk, h⟩

theorem lookup_table (h : ¬ call.Names key) (hkey : key ∉ d.keys) :
    (call.table d a).tasks.lookup key = a.tasks.lookup key := by
  cases call with
  | changed path listener => exact Finmap.lookup_insert_of_ne _ (Ne.symm h)
  | deleted path => exact Finmap.lookup_erase_ne (Ne.symm h)
  | cancelled other => exact Finmap.lookup_erase_ne (Ne.symm h)
  | cancelledAll => exact lookup_foldl_cancel_of_not_mem hkey a
  | counted => rfl
  | advanced world seconds => rfl

/-- After a call that names a key its task is a rescan, if there is one; after any other call it is
the task that was there. -/
theorem task_of_lookup_table (h : (call.table d a).tasks.lookup key = some task) :
    (call.Names key ∧ task.interval = none ∧ ∃ path listener, task.action = .rescan path listener) ∨
      (¬ call.Names key ∧ a.tasks.lookup key = some task) := by
  cases call with
  | changed path listener =>
    by_cases hk : path = key
    · subst hk
      rw [table, TaskTable.set, Finmap.lookup_insert] at h
      cases h
      exact .inl ⟨rfl, rfl, path, listener, rfl⟩
    · rw [table, TaskTable.set, Finmap.lookup_insert_of_ne _ (Ne.symm hk)] at h
      exact .inr ⟨hk, h⟩
  | deleted path => exact .inr (lookup_of_cancel h)
  | cancelled other => exact .inr (lookup_of_cancel h)
  | cancelledAll => exact .inr ⟨id, lookup_of_foldl_cancel h⟩
  | counted => exact .inr ⟨id, h⟩
  | advanced world seconds => exact .inr ⟨id, h⟩

theorem now_table (d : Debouncer) (a : TaskTable τ Job) (call : MonitoredCall τ) :
    (call.table d a).now = a.now := by
  cases call with
  | cancelledAll => exact Debouncer.now_foldl_cancel a d.keys
  | _ => rfl

theorem regular_table {p : Job → Prop} {latest : τ} (h : a.Regular p latest)
    (hp : ∀ path listener, p (.rescan path listener)) (d : Debouncer) (call : MonitoredCall τ) :
    (call.table d a).Regular p latest := by
  intro key task hf
  rcases task_of_lookup_table hf with ⟨-, hinterval, path, listener, haction⟩ | ⟨-, hf⟩
  · refine ⟨fun interval hi => ?_, haction ▸ hp path listener⟩
    rw [hinterval] at hi
    cases hi
  · exact h key task hf

end MonitoredCall

/-! ## One pulse -/

namespace Pulse

theorem isRegular_of_pos {p : Pulse ℚ} (hpos : 0 < p.interval) (latest : ℚ) :
    p.IsRegular latest where
  starts := by simpa [time] using hpos
  ends := Time.exists_lt_tick hpos _ _

variable {p : Pulse τ} {latest target : τ} {task : Task τ Job}

theorem count_zero (hstarts : Time.zero < p.time 0) : p.count Time.zero = 0 :=
  Time.ticksBy_of_lt hstarts

theorem time_eq (hplan : task.plan = p.plan latest) (n : Nat) :
    task.time n = p.time (p.count latest + n) := by
  obtain ⟨due, sequence, interval, action⟩ := task
  simp only [Task.plan, plan, Prod.mk.injEq] at hplan
  obtain ⟨rfl, rfl, rfl⟩ := hplan
  rw [Nat.add_comm]
  exact (Time.tick_add ..).symm

theorem action_eq (hplan : task.plan = p.plan latest) : task.action = p.job :=
  congrArg (fun plan => plan.2.2) hplan

variable [Time.Steady τ]

theorem count_later (hends : ∃ n, Time.later latest target < p.time n)
    (hplan : task.plan = p.plan latest) :
    p.count (Time.later latest target) = p.count latest + task.countBy target := by
  obtain ⟨due, sequence, interval, action⟩ := task
  simp only [Task.plan, plan, Prod.mk.injEq] at hplan
  obtain ⟨rfl, rfl, rfl⟩ := hplan
  by_cases hle : latest ≤ target
  · rw [Time.later_eq_right hle] at hends ⊢
    rw [Nat.add_comm]
    exact Time.ticksBy_eq_add hends fun n hn => Std.le_trans (Time.tick_le_of_lt_ticksBy hn) hle
  · have hlt : target < latest := Std.not_le.1 hle
    rw [Time.later_eq_left hlt] at hends ⊢
    rw [Task.countBy_of_lt (Std.lt_trans hlt (Time.lt_tick_ticksBy hends)), Nat.add_zero]

theorem beats_append_goesOff (hends : ∃ n, Time.later latest target < p.time n)
    (hplan : task.plan = p.plan latest) :
    p.beats latest ++ task.goesOff target = p.beats (Time.later latest target) := by
  rw [beats, beats, count_later hends hplan, List.range_add, List.map_append, List.map_map,
    Task.goesOff]
  refine congrArg _ (List.map_congr_left fun n _ => ?_)
  rw [time_eq hplan, action_eq hplan]
  rfl

theorem planAfter_eq (hends : ∃ n, Time.later latest target < p.time n)
    (hplan : task.plan = p.plan latest) :
    task.planAfter target = some (p.plan (Time.later latest target)) := by
  have hinterval : task.interval = some p.interval := congrArg (fun plan => plan.2.1) hplan
  simp only [Task.planAfter, hinterval]
  rw [time_eq hplan, action_eq hplan, plan, count_later hends hplan]

end Pulse

/-! ## Runs -/

namespace MonitoredRun

open MonitoredCall

variable {r : MonitoredRun τ} {a : TaskTable τ Job} {past : List (MonitoredCall τ)} {p : Pulse τ}
  {call : MonitoredCall τ} {latest : τ}

/-- The timers of a run hold tasks, none of which goes off for ever up to the latest time of the
run. -/
structure Follows (latest : τ) (past : List (MonitoredCall τ)) (r : MonitoredRun τ)
    (a : TaskTable τ Job) : Prop where
  represents : r.workspace.timers.Represents a
  regular : a.Regular (fun _ => True) latest
  now : a.now = clock past

/-- A pulse goes on as long as no call names its key; from then on the task of the key is a rescan,
if there is one. -/
structure Beats (p : Pulse τ) (past : List (MonitoredCall τ)) (r : MonitoredRun τ)
    (a : TaskTable τ Job) : Prop where
  keys : (∀ call ∈ past, ¬ call.Names p.key) → p.key ∉ r.workspace.debouncer.keys
  plan : (∀ call ∈ past, ¬ call.Names p.key) →
    (a.tasks.lookup p.key).map Task.plan = some (p.plan (furthest Time.zero past))
  fired : (∀ call ∈ past, ¬ call.Names p.key) → r.firedFor p.key = p.beats (furthest Time.zero past)
  lost : ¬ (∀ call ∈ past, ¬ call.Names p.key) →
    ∀ task, a.tasks.lookup p.key = some task → ∃ path listener, task.action = .rescan path listener

variable [Time.Steady τ]

theorem step_of_not_isAdvance (h : r.workspace.timers.Represents a)
    (hcall : ¬ call.isAdvance = true) :
    ∃ r', (∀ fuel, step fuel r call = some r') ∧ r'.fired = r.fired ∧
      r'.workspace.timers.Represents (call.table r.workspace.debouncer a) ∧
      ∀ key ∈ r'.workspace.debouncer.keys, key ∈ r.workspace.debouncer.keys ∨ call.Names key := by
  cases call with
  | changed path listener =>
    refine ⟨_, fun fuel => rfl, rfl, (h.mono fun _ _ => trivial).set _ none _, fun key hkey => ?_⟩
    exact (Debouncer.mem_addKey.1 hkey).symm.imp id Eq.symm
  | deleted path =>
    refine ⟨_, fun fuel => rfl, rfl, (h.mono fun _ _ => trivial).cancel, fun key hkey => ?_⟩
    exact .inl (List.mem_filter.1 hkey).1
  | cancelled other =>
    refine ⟨_, fun fuel => rfl, rfl, (h.mono fun _ _ => trivial).cancel, fun key hkey => ?_⟩
    exact .inl (List.mem_filter.1 hkey).1
  | cancelledAll =>
    exact ⟨_, fun fuel => rfl, rfl, Debouncer.represents_foldl_cancel h _, nofun⟩
  | counted =>
    exact ⟨_, fun fuel => rfl, rfl, h, fun key hkey => .inl (List.mem_filter.1 hkey).1⟩
  | advanced world seconds => exact absurd rfl hcall

omit [Time.Steady τ] in
theorem debouncer_of_goOff {w : World τ} {timers : List (Timer τ Job)} {s s' : Workspace τ}
    (h : (Workspace.host w).GoOff (Workspace.goOff w) timers s s') :
    s'.debouncer = s.debouncer := by
  induction h with
  | nil => rfl
  | @cons timer rest s left s' _ _ ih =>
    have hkeeps := Workspace.keeps_goOff ({ s with timers := left } : Workspace τ) w timer
    exact ih.trans hkeeps.debouncer

theorem step_advanced (h : Follows latest past r a) (world : World τ) {seconds : τ}
    (hle : clock past + seconds ≤ latest) :
    ∃ r' a' timers enough, (∀ fuel, enough ≤ fuel → step fuel r (advanced world seconds) = some r') ∧
      r'.fired = r.fired ++ timers ∧ r'.workspace.debouncer = r.workspace.debouncer ∧
      r'.workspace.timers.Represents a' ∧ a.Passes (clock past + seconds) timers a' := by
  obtain ⟨timers, s', a', hgo, hpasses, hrep, hrun⟩ :=
    (Workspace.passive_host world fun _ => True).advanceTo_regular (clock past + seconds)
      h.represents (h.regular.of_le hle)
  have hnow : r.workspace.timers.now = clock past := h.represents.now.trans h.now
  have hdebouncer : s'.debouncer = r.workspace.debouncer := debouncer_of_goOff hgo
  refine ⟨⟨(Workspace.host world).moveClock (clock past + seconds) s', r.fired ++ timers⟩, a', timers,
    a.remaining (clock past + seconds) a.tasks.keys + 1, fun fuel hfuel => ?_, rfl, hdebouncer, hrep,
    hpasses⟩
  obtain ⟨hadvance, hwent⟩ := hrun fuel hfuel
  have hadvance : r.workspace.advance world fuel seconds =
      some ((Workspace.host world).moveClock (clock past + seconds) s', timers.length) := by
    rw [Workspace.advance, Host.advance]
    rw [← hadvance, ← hnow]
    rfl
  rw [step, hadvance, hnow, hwent]
  rfl

omit [Time τ] in
theorem not_named_concat {key : String} :
    (∀ other ∈ past ++ [call], ¬ other.Names key) ↔
      (∀ other ∈ past, ¬ other.Names key) ∧ ¬ call.Names key := by
  simp [or_imp, forall_and]

theorem Beats.advanced {r' : MonitoredRun τ} {a' : TaskTable τ Job} {timers : List (Timer τ Job)}
    {world : World τ} {seconds : τ} (h : Beats p past r a)
    (hends : ∃ n, furthest Time.zero (past ++ [.advanced world seconds]) < p.time n)
    (hfired : r'.fired = r.fired ++ timers)
    (hdebouncer : r'.workspace.debouncer = r.workspace.debouncer)
    (hpasses : a.Passes (clock past + seconds) timers a') :
    Beats p (past ++ [.advanced world seconds]) r' a' := by
  have hquiet : (∀ call ∈ past ++ [.advanced world seconds], ¬ call.Names p.key) ↔
      ∀ call ∈ past, ¬ call.Names p.key :=
    not_named_concat.trans (and_iff_left id)
  have hfurthest : furthest Time.zero (past ++ [.advanced world seconds]) =
      Time.later (furthest Time.zero past) (clock past + seconds) := by
    rw [furthest_concat, List.foldl_append]
    rfl
  rw [hfurthest] at hends
  refine ⟨fun hq => ?_, fun hq => ?_, fun hq => ?_, fun hq task' hf' => ?_⟩
  · rw [hdebouncer]
    exact h.keys (hquiet.1 hq)
  · obtain ⟨task, hf, hplan⟩ := Option.map_eq_some_iff.1 (h.plan (hquiet.1 hq))
    rw [hpasses.plan, hf, hfurthest]
    exact Pulse.planAfter_eq hends hplan
  · obtain ⟨task, hf, hplan⟩ := Option.map_eq_some_iff.1 (h.plan (hquiet.1 hq))
    have htimes := hpasses.times p.key
    rw [TaskTable.goesOff, hf] at htimes
    have hbefore := h.fired (hquiet.1 hq)
    rw [firedFor] at hbefore ⊢
    rw [hfired, List.filter_append, List.map_append, hbefore, htimes, hfurthest]
    exact Pulse.beats_append_goesOff hends hplan
  · obtain ⟨task, hf, hplan⟩ := hpasses.exists_of_lookup hf'
    have haction : task'.action = task.action := congrArg (fun plan => plan.2.2) hplan
    rw [haction]
    exact h.lost (mt hquiet.2 hq) task hf

theorem Beats.called {r' : MonitoredRun τ} (h : Beats p past r a) (hcall : ¬ call.isAdvance = true)
    (hfired : r'.fired = r.fired)
    (hkeys : ∀ key ∈ r'.workspace.debouncer.keys,
      key ∈ r.workspace.debouncer.keys ∨ call.Names key) :
    Beats p (past ++ [call]) r' (call.table r.workspace.debouncer a) := by
  have hfurthest : furthest Time.zero (past ++ [call]) = furthest Time.zero past := by
    rw [← furthest_filter_isAdvance, List.filter_append, List.filter_cons_of_neg hcall,
      List.filter_nil, List.append_nil, furthest_filter_isAdvance]
  refine ⟨fun hq hmem => ?_, fun hq => ?_, fun hq => ?_, fun hq task hf => ?_⟩
  · obtain ⟨hpast, hnot⟩ := not_named_concat.1 hq
    exact (hkeys _ hmem).elim (h.keys hpast) hnot
  · obtain ⟨hpast, hnot⟩ := not_named_concat.1 hq
    rw [lookup_table hnot (h.keys hpast), hfurthest]
    exact h.plan hpast
  · obtain ⟨hpast, -⟩ := not_named_concat.1 hq
    rw [firedFor, hfired, hfurthest]
    exact h.fired hpast
  · rcases task_of_lookup_table hf with ⟨-, -, hrescan⟩ | ⟨hnot, hf⟩
    · exact hrescan
    · exact h.lost (fun hpast => hq (not_named_concat.2 ⟨hpast, hnot⟩)) task hf

theorem Follows.step (h : Follows latest past r a)
    (hle : furthest Time.zero (past ++ [call]) ≤ latest) :
    ∃ r' a' enough, (∀ fuel, enough ≤ fuel → step fuel r call = some r') ∧
      Follows latest (past ++ [call]) r' a' ∧
      ∀ p : Pulse τ, (∃ n, latest < p.time n) → Beats p past r a →
        Beats p (past ++ [call]) r' a' := by
  by_cases hcall : call.isAdvance = true
  · obtain ⟨world, seconds, rfl⟩ : ∃ world seconds, call = advanced world seconds := by
      cases call with
      | advanced world seconds => exact ⟨world, seconds, rfl⟩
      | _ => cases hcall
    have hreached : clock past + seconds ≤ latest := by
      rw [furthest_concat] at hle
      have hclock := (Time.later_le_iff.1 hle).2
      rwa [← clock, clock_concat] at hclock
    obtain ⟨r', a', timers, enough, hstep, hfired, hdebouncer, hrep, hpasses⟩ :=
      step_advanced h world hreached
    refine ⟨r', a', enough, hstep, ⟨hrep, h.regular.passes hreached hpasses, ?_⟩,
      fun p hends hp => hp.advanced ?_ hfired hdebouncer hpasses⟩
    · rw [clock_concat, hpasses.now]
      rfl
    · exact hends.imp fun _ hn => Std.lt_of_le_of_lt hle hn
  · obtain ⟨r', hstep, hfired, hrep, hkeys⟩ := step_of_not_isAdvance h.represents hcall
    refine ⟨r', _, 0, fun fuel _ => hstep fuel, ⟨hrep, ?_, ?_⟩, fun p _ hp =>
      hp.called hcall hfired hkeys⟩
    · exact regular_table h.regular (fun _ _ => trivial) _ call
    · rw [now_table, h.now, clock_concat, pass_of_not_isAdvance hcall]

theorem after_follows {s : Workspace τ} {a : TaskTable τ Job}
    (hstart : Follows latest [] ⟨s, []⟩ a) (past : List (MonitoredCall τ))
    (hle : furthest Time.zero past ≤ latest) :
    ∃ r a' enough, (∀ fuel, enough ≤ fuel → after fuel s past = some r) ∧
      Follows latest past r a' ∧
      ∀ p : Pulse τ, (∃ n, latest < p.time n) → Beats p [] ⟨s, []⟩ a → Beats p past r a' := by
  induction past using List.reverseRecOn with
  | nil => exact ⟨_, _, 0, fun _ _ => rfl, hstart, fun _ _ => id⟩
  | append_singleton past call ih =>
    have hearlier : furthest Time.zero past ≤ latest := by
      rw [furthest_concat] at hle
      exact (Time.later_le_iff.1 hle).1
    obtain ⟨r, a', enough, hafter, hfollows, hbeats⟩ := ih hearlier
    obtain ⟨r', a'', enough', hstep, hfollows', hbeats'⟩ := hfollows.step hle
    refine ⟨r', a'', max enough enough', fun fuel hfuel => ?_, hfollows', fun p hends hp =>
      hbeats' p hends (hbeats p hends hp)⟩
    rw [after_concat, hafter fuel (le_trans (le_max_left _ _) hfuel), Option.bind_some]
    exact hstep fuel (le_trans (le_max_right _ _) hfuel)

/-! ## From the start of monitoring -/

/-- The tasks of a workspace whose monitoring starts. -/
def startTable (s : Workspace τ) : TaskTable τ Job :=
  ((TaskTable.start Time.zero).set Monitor.timerKey s.sampleInterval (some s.sampleInterval)
    .sampleMemory).set MemoryManager.timerKey s.checkInterval (some s.checkInterval) .checkMemory

section Start

variable {s : Workspace τ}

theorem represents_startMonitoring (htimers : s.timers = Timers.start Time.zero) :
    s.startMonitoring.timers.Represents (startTable s) := by
  have hstart : s.timers.Represents (TaskTable.start Time.zero) := by
    rw [htimers]
    exact Timers.represents_start _
  have hsample := (hstart.mono (q := (· ≠ Monitor.timerKey)) fun _ _ => trivial).set
    s.sampleInterval (some s.sampleInterval) Job.sampleMemory
  exact (hsample.mono fun _ _ => trivial).set s.checkInterval (some s.checkInterval) Job.checkMemory

theorem follows_start (htimers : s.timers = Timers.start Time.zero)
    (hends : ∀ p ∈ s.pulses, ∃ n, latest < p.time n) :
    Follows latest [] ⟨s.startMonitoring, []⟩ (startTable s) where
  represents := represents_startMonitoring htimers
  regular := by
    simp only [Workspace.pulses, List.forall_mem_cons] at hends
    refine ((TaskTable.all_start _).set ⟨?_, trivial⟩ _).set ⟨?_, trivial⟩ _
    · rintro _ ⟨⟩
      exact hends.1
    · rintro _ ⟨⟩
      exact hends.2.1
  now := rfl

omit [Time.Steady τ] in
theorem plan_startTable (hp : p ∈ s.pulses) (hstarts : Time.zero < p.time 0) :
    ((startTable s).tasks.lookup p.key).map Task.plan = some (p.plan Time.zero) := by
  have hne : Monitor.timerKey ≠ MemoryManager.timerKey := by decide
  simp only [Workspace.pulses, List.mem_cons, List.not_mem_nil, or_false] at hp
  rw [Pulse.plan, Pulse.count_zero hstarts]
  simp only [startTable, TaskTable.set]
  rcases hp with rfl | rfl
  · rw [Finmap.lookup_insert_of_ne _ hne, Finmap.lookup_insert]
    rfl
  · rw [Finmap.lookup_insert]
    rfl

omit [Time.Steady τ] in
theorem beats_start (hkeys : s.debouncer.keys = []) (hp : p ∈ s.pulses)
    (hstarts : Time.zero < p.time 0) :
    Beats p [] ⟨s.startMonitoring, []⟩ (startTable s) where
  keys _ hmem := by
    have hmem : p.key ∈ s.debouncer.keys := hmem
    rw [hkeys] at hmem
    cases hmem
  plan _ := plan_startTable hp hstarts
  fired _ := by
    rw [furthest, Pulse.beats, Pulse.count_zero hstarts]
    rfl
  lost h := absurd nofun h

end Start

omit [Time τ] [Time.Steady τ] in
theorem job_ne_rescan {s : Workspace τ} (hp : p ∈ s.pulses) (path : String)
    (listener : Option Listener) : p.job ≠ .rescan path listener := by
  simp only [Workspace.pulses, List.mem_cons, List.not_mem_nil, or_false] at hp
  rcases hp with rfl | rfl <;> nofun

omit [Time.Steady τ] in
theorem Beats.plan?_iff {s : Workspace τ} (h : Beats p past r a) (hfollows : Follows latest past r a)
    (hp : p ∈ s.pulses) :
    r.workspace.timers.plan? p.key = some (p.plan (furthest Time.zero past)) ↔
      ∀ call ∈ past, ¬ call.Names p.key := by
  rw [hfollows.represents.plan?_eq]
  refine ⟨fun hplan => ?_, h.plan⟩
  by_contra hnamed
  obtain ⟨task, hf, htask⟩ := Option.map_eq_some_iff.1 hplan
  obtain ⟨path, listener, haction⟩ := h.lost hnamed task hf
  exact job_ne_rescan hp path listener ((Pulse.action_eq htask).symm.trans haction)

/-- Calls to a workspace that is monitored are answered, and so are the advances among them alone.
With the advances alone each measurement is taken at its interval, as far as the clock went, and is
going to be taken next an interval later. With the other calls it was taken at the same times and is
going to be taken in the same way just if none of the calls is about the key of the measurement. -/
theorem pulses_kept_iff {s : Workspace τ} (htimers : s.timers = Timers.start Time.zero)
    (hkeys : s.debouncer.keys = []) (calls : List (MonitoredCall τ))
    (hregular : ∀ p ∈ s.pulses, p.IsRegular (furthest Time.zero calls)) :
    ∃ r alone enough, (∀ fuel, enough ≤ fuel →
        after fuel s.startMonitoring calls = some r ∧
        after fuel s.startMonitoring (calls.filter isAdvance) = some alone) ∧
      ∀ p ∈ s.pulses,
        alone.firedFor p.key = p.beats (furthest Time.zero calls) ∧
        alone.workspace.timers.plan? p.key = some (p.plan (furthest Time.zero calls)) ∧
        ((r.firedFor p.key = alone.firedFor p.key ∧
            r.workspace.timers.plan? p.key = alone.workspace.timers.plan? p.key) ↔
          ∀ call ∈ calls, ¬ call.Names p.key) := by
  have hfurthest := furthest_filter_isAdvance Time.zero calls
  have hstart := follows_start htimers fun p hp => (hregular p hp).ends
  obtain ⟨r, a, enough, hafter, hfollows, hbeats⟩ := after_follows hstart calls (Std.le_refl _)
  obtain ⟨alone, a', enough', hafter', hfollows', hbeats'⟩ :=
    after_follows hstart (calls.filter isAdvance) (hfurthest ▸ Std.le_refl _)
  refine ⟨r, alone, max enough enough', fun fuel hfuel =>
    ⟨hafter fuel (le_trans (le_max_left _ _) hfuel),
      hafter' fuel (le_trans (le_max_right _ _) hfuel)⟩, fun p hp => ?_⟩
  obtain ⟨hstarts, hends⟩ := hregular p hp
  have hr := hbeats p hends (beats_start hkeys hp hstarts)
  have halone := hbeats' p hends (beats_start hkeys hp hstarts)
  have hquiet := not_names_of_mem_filter calls p.key
  have hfired := halone.fired hquiet
  have hplan := (halone.plan?_iff hfollows' hp).2 hquiet
  rw [hfurthest] at hfired hplan
  refine ⟨hfired, hplan, ?_⟩
  rw [hfired, hplan, hr.plan?_iff hfollows hp]
  exact ⟨And.right, fun h => ⟨hr.fired h, h⟩⟩

namespace Shared

def world : World ℚ := ⟨⟨[]⟩, 0⟩

/-- Samples are taken every 5 seconds, checks every 30. -/
def workspace : Workspace ℚ where
  analysis := .standard
  sampleInterval := 5
  checkInterval := 30
  scanner := ⟨⟨.standard, [], none, none, .standard⟩, none, none, []⟩
  debouncer := .start 300
  memory := ⟨100, 200, 10, false, [], []⟩
  memorySampler := .constant ⟨0, 0, 0⟩
  timers := .start 0
  updates := []

/-- Two files of other names. -/
theorem samples_kept :
    ∃ r enough, (∀ fuel, enough ≤ fuel → after fuel workspace.startMonitoring
        [.changed "w/a.js" none, .deleted "w/b.js", .cancelledAll, .advanced world 12] = some r) ∧
      r.firedFor Monitor.timerKey = [(5, .sampleMemory), (10, .sampleMemory)] ∧
      r.workspace.timers.plan? Monitor.timerKey = some (15, some 5, .sampleMemory) := by
  obtain ⟨r, alone, enough, hafter, hpulses⟩ := pulses_kept_iff (s := workspace) rfl rfl
    [.changed "w/a.js" none, .deleted "w/b.js", .cancelledAll, .advanced world 12]
    (by simp [Workspace.pulses, workspace, Pulse.isRegular_of_pos])
  obtain ⟨hfired, hplan, hiff⟩ := hpulses ⟨Monitor.timerKey, 5, .sampleMemory⟩ List.mem_cons_self
  have hquiet : ∀ call ∈ [.changed "w/a.js" none, .deleted "w/b.js", .cancelledAll,
      .advanced world 12], ¬ Names Monitor.timerKey call := by
    simp [Names, Monitor.timerKey]
  have hfurthest : furthest Time.zero [.changed "w/a.js" none, .deleted "w/b.js", .cancelledAll,
      .advanced world 12] = 12 := by
    simp [furthest, MonitoredCall.pass, Time.later]
  have hcount : Pulse.count ⟨Monitor.timerKey, (5 : ℚ), .sampleMemory⟩ 12 = 2 := by
    rw [Pulse.count, Time.ticksBy_eq_floor (by norm_num)]
    norm_num
  obtain ⟨hsame, hsame'⟩ := hiff.2 hquiet
  refine ⟨r, enough, fun fuel hfuel => (hafter fuel hfuel).1, ?_, ?_⟩
  · rw [hsame, hfired, hfurthest, Pulse.beats, hcount]
    simp [List.range_succ, Pulse.time, Time.tick_eq]
    norm_num
  · rw [hsame', hplan, hfurthest, Pulse.plan, hcount]
    norm_num [Pulse.time, Time.tick_eq]

/-- A file whose path is the key of a measurement: after its deletion no samples are taken. -/
theorem samples_stopped :
    (after 9 workspace.startMonitoring [.deleted Monitor.timerKey, .advanced world 12]).map
        (firedFor · Monitor.timerKey) = some [] ∧
      (after 9 workspace.startMonitoring [.advanced world 12]).map
        (firedFor · Monitor.timerKey) = some [(5, .sampleMemory), (10, .sampleMemory)] := by
  decide +kernel

end Shared

end MonitoredRun
end DeclScan
