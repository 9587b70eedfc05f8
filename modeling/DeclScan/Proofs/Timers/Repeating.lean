import DeclScan.Proofs.Timers.OneShot
import DeclScan.Proofs.Timers.Schedule
import Mathlib.Algebra.BigOperators.Group.Finset.Basic

/-!
# DeclScan.Proofs.Timers.Repeating

Timers that may repeat, on a host where going off changes no timers. Where no task goes off up to the
target for ever, an advance comes to an end: each task goes off as often as its own time and interval
say, whatever the others do.

* `Task.goesOff`, `Task.planAfter`: what a task does up to a time, said of the task alone.
* `TaskTable.Passes`: the tasks of all keys do just that.
* `Host.Passive.advanceTo_regular`: what an advance does, and the fuel that it takes.
-/

namespace DeclScan

variable {σ τ α : Type} [Time τ]

namespace Task

/-- How often a task goes off up to a time. -/
noncomputable def countBy (task : Task τ α) (target : τ) : Nat :=
  match task.interval with
  | none => if target < task.due then 0 else 1
  | some interval => Time.ticksBy task.due interval target

/-- When a task goes off after it did so `n` times. -/
def time (task : Task τ α) (n : Nat) : τ :=
  task.interval.elim task.due fun interval => Time.tick task.due interval n

/-- The times at which a task goes off up to a time, with what it does. -/
noncomputable def goesOff (task : Task τ α) (target : τ) : List (τ × α) :=
  (List.range (task.countBy target)).map fun n => (task.time n, task.action)

/-- What is left of a task after a time. -/
noncomputable def planAfter (task : Task τ α) (target : τ) : Option (τ × Option τ × α) :=
  match task.interval with
  | none => if target < task.due then some task.plan else none
  | some interval => some (task.time (task.countBy target), some interval, task.action)

/-- A task does not go off for ever before a time is over. -/
def EndsBy (task : Task τ α) (target : τ) : Prop :=
  ∀ interval, task.interval = some interval → ∃ n, target < Time.tick task.due interval n

variable {task : Task τ α} {target interval : τ}

theorem countBy_of_lt (h : target < task.due) : task.countBy target = 0 := by
  rw [countBy]
  cases task.interval with
  | none => exact if_pos h
  | some interval => exact Time.ticksBy_of_lt h

theorem goesOff_of_lt (h : target < task.due) : task.goesOff target = [] := by
  rw [goesOff, countBy_of_lt h]
  rfl

theorem planAfter_of_lt (h : target < task.due) : task.planAfter target = some task.plan := by
  rw [planAfter, countBy_of_lt h, plan, time]
  cases task.interval with
  | none => exact if_pos h
  | some interval => rfl

theorem planAfter_eq_some {plan : τ × Option τ × α} (h : task.planAfter target = some plan) :
    plan = (task.time (task.countBy target), task.interval, task.action) := by
  rw [planAfter] at h
  cases hi : task.interval with
  | none =>
    simp only [hi] at h
    split at h
    · obtain rfl := Option.some.inj h
      simp [Task.plan, time, hi]
    · cases h
  | some interval =>
    simp only [hi] at h
    exact (Option.some.inj h).symm

variable [Time.Steady τ]

theorem EndsBy.of_le {latest : τ} (h : task.EndsBy latest) (hle : target ≤ latest) :
    task.EndsBy target := fun interval hi =>
  (h interval hi).imp fun _ hn => Std.lt_of_le_of_lt hle hn

theorem countBy_again (due : τ) (sequence next : Nat) (action : α)
    (hends : ∃ n, target < Time.tick due interval n) (h : due ≤ target) :
    countBy ⟨due, sequence, some interval, action⟩ target =
      countBy ⟨due + interval, next, some interval, action⟩ target + 1 :=
  Time.ticksBy_again hends h

theorem goesOff_again (due : τ) (sequence next : Nat) (action : α)
    (hends : ∃ n, target < Time.tick due interval n) (h : due ≤ target) :
    goesOff ⟨due, sequence, some interval, action⟩ target =
      (due, action) :: goesOff ⟨due + interval, next, some interval, action⟩ target := by
  rw [goesOff, goesOff, countBy_again due sequence next action hends h, List.range_succ_eq_map,
    List.map_cons, List.map_map]
  rfl

theorem planAfter_again (due : τ) (sequence next : Nat) (action : α)
    (hends : ∃ n, target < Time.tick due interval n) (h : due ≤ target) :
    planAfter ⟨due, sequence, some interval, action⟩ target =
      planAfter ⟨due + interval, next, some interval, action⟩ target := by
  simp only [planAfter]
  rw [countBy_again due sequence next action hends h]
  rfl

end Task

namespace TaskTable

/-- No task goes off for ever before a time is over, and the actions of all have a property. -/
def Regular (a : TaskTable τ α) (p : α → Prop) (target : τ) : Prop :=
  a.All fun task => task.EndsBy target ∧ p task.action

/-- The times at which the task of a key goes off up to a time, with what it does. -/
noncomputable def goesOff (a : TaskTable τ α) (target : τ) (key : String) : List (τ × α) :=
  (a.tasks.lookup key).elim [] (Task.goesOff · target)

/-- The clock goes to a time. On the way each task goes off as often as it would without the
others. -/
structure Passes (a : TaskTable τ α) (target : τ) (timers : List (Timer τ α))
    (a' : TaskTable τ α) : Prop where
  now : a'.now = target
  times : ∀ key, (timers.filter (Timer.key · = key)).map (fun timer => (timer.due, timer.action)) =
    a.goesOff target key
  plan : ∀ key, (a'.tasks.lookup key).map Task.plan =
    (a.tasks.lookup key).bind (Task.planAfter · target)

/-- How many tasks go off up to a time, counted as often as they do. -/
noncomputable def remaining (a : TaskTable τ α) (target : τ) (keys : Finset String) : Nat :=
  ∑ key ∈ keys, (a.tasks.lookup key).elim 0 (Task.countBy · target)

variable {a a' : TaskTable τ α} {p : α → Prop} {target : τ} {key other : String} {task : Task τ α}
  {timer : Timer τ α} {timers : List (Timer τ α)}

theorem Quiet.passes (hq : a.Quiet target) : a.Passes target [] { a with now := target } where
  now := rfl
  times key := by
    rw [goesOff]
    cases hf : a.tasks.lookup key with
    | none => rfl
    | some task => exact (Task.goesOff_of_lt (hq key task hf)).symm
  plan key := by
    cases hf : a.tasks.lookup key with
    | none => rfl
    | some task => exact (Task.planAfter_of_lt (hq key task hf)).symm

theorem Passes.exists_of_lookup (h : a.Passes target timers a') {task' : Task τ α}
    (hf' : a'.tasks.lookup key = some task') :
    ∃ task, a.tasks.lookup key = some task ∧
      task'.plan = (task.time (task.countBy target), task.interval, task.action) := by
  have hplan := h.plan key
  rw [hf', Option.map_some] at hplan
  obtain ⟨task, hf, hafter⟩ := Option.bind_eq_some_iff.1 hplan.symm
  exact ⟨task, hf, Task.planAfter_eq_some hafter⟩

theorem mem_of_mem_fire (hf : a.tasks.lookup key = some task)
    (h : other ∈ (a.fire key task).tasks) : other ∈ a.tasks := by
  by_cases hk : other = key
  · rw [hk]
    exact Finmap.mem_of_lookup_eq_some hf
  · rwa [← Finmap.lookup_isSome, lookup_fire_of_ne hk, Finmap.lookup_isSome] at h

section Steady

variable [Time.Steady τ]

theorem Regular.of_le {latest : τ} (h : a.Regular p latest) (hle : target ≤ latest) :
    a.Regular p target := fun key task hf => (h key task hf).imp_left fun hends => hends.of_le hle

theorem Regular.fire (h : a.Regular p target) (hf : a.tasks.lookup key = some task)
    (hdue : task.due ≤ target) : (a.fire key task).Regular p target := by
  refine All.fire h fun interval hi => ⟨?_, (h key task hf).2⟩
  rintro _ ⟨⟩
  exact Time.exists_lt_tick_again ((h key task hf).1 interval hi) hdue

theorem IsNext.passes (hnext : a.IsNext target timer.key timer.task) (h : a.Regular p target)
    (hrest : (a.fire timer.key timer.task).Passes target timers a') :
    a.Passes target (timer :: timers) a' where
  now := hrest.now
  times key := by
    by_cases hk : timer.key = key
    · subst hk
      have hlater := hrest.times timer.key
      rw [goesOff, lookup_fire_self] at hlater
      rw [List.filter_cons_of_pos (by simp), List.map_cons, hlater, goesOff, hnext.found]
      obtain ⟨due, sequence, key, interval, action⟩ := timer
      have hdue : due ≤ target := hnext.isDue
      cases interval with
      | none => simp [Timer.task, Task.goesOff, Task.countBy, Task.time, Std.not_lt.2 hdue]
      | some interval =>
        have hends := (h _ _ hnext.found).1 interval rfl
        exact (Task.goesOff_again due sequence _ action hends hdue).symm
    · rw [List.filter_cons_of_neg (by simpa using hk), hrest.times, goesOff, goesOff,
        lookup_fire_of_ne (Ne.symm hk)]
  plan key := by
    rw [hrest.plan]
    by_cases hk : key = timer.key
    · subst hk
      rw [lookup_fire_self, hnext.found]
      obtain ⟨due, sequence, key, interval, action⟩ := timer
      have hdue : due ≤ target := hnext.isDue
      cases interval with
      | none => simp [Timer.task, Task.planAfter, Std.not_lt.2 hdue]
      | some interval =>
        have hends := (h _ _ hnext.found).1 interval rfl
        exact (Task.planAfter_again due sequence _ action hends hdue).symm
    · rw [lookup_fire_of_ne hk]

theorem Regular.passes {latest : τ} (h : a.Regular p latest) (hle : target ≤ latest)
    (hpasses : a.Passes target timers a') : a'.Regular p latest := by
  intro key task' hf'
  obtain ⟨task, hf, hplan⟩ := hpasses.exists_of_lookup hf'
  obtain ⟨due, sequence, interval, action⟩ := task'
  obtain ⟨rfl, rfl, rfl⟩ := Prod.mk.inj hplan |>.imp id Prod.mk.inj
  obtain ⟨hends, haction⟩ := h key task hf
  refine ⟨fun interval hi => ?_, haction⟩
  have hi : task.interval = some interval := hi
  simp only [Task.time, Task.countBy, hi]
  exact Time.exists_lt_tick_add (hends interval hi) fun n hn =>
    Std.le_trans (Time.tick_le_of_lt_ticksBy hn) hle

theorem IsNext.remaining_fire (hnext : a.IsNext target key task) (h : a.Regular p target)
    {keys : Finset String} (hkey : key ∈ keys) :
    (a.fire key task).remaining target keys + 1 = a.remaining target keys := by
  have hself : ((a.fire key task).tasks.lookup key).elim 0 (Task.countBy · target) + 1 =
      (a.tasks.lookup key).elim 0 (Task.countBy · target) := by
    rw [lookup_fire_self, hnext.found]
    obtain ⟨due, sequence, interval, action⟩ := task
    have hdue : due ≤ target := hnext.isDue
    cases interval with
    | none => simp [Task.countBy, Std.not_lt.2 hdue]
    | some interval =>
      have hends := (h _ _ hnext.found).1 interval rfl
      exact (Task.countBy_again due sequence _ action hends hdue).symm
  have hothers : ∑ other ∈ keys.erase key,
        ((a.fire key task).tasks.lookup other).elim 0 (Task.countBy · target) =
      ∑ other ∈ keys.erase key, (a.tasks.lookup other).elim 0 (Task.countBy · target) :=
    Finset.sum_congr rfl fun other hother => by
      rw [lookup_fire_of_ne (Finset.ne_of_mem_erase hother)]
  rw [remaining, remaining, ← Finset.add_sum_erase keys _ hkey, ← Finset.add_sum_erase keys _ hkey,
    hothers, ← hself]
  omega

end Steady

end TaskTable

namespace Timers

/-- What the timer of a key is going to do: when it goes off next, whether it does so again, and
how. -/
def plan? (t : Timers τ α) (key : String) : Option (τ × Option τ × α) :=
  (t.queue.find? fun timer => timer.key = key && isLive t.live timer).map fun timer =>
    timer.task.plan

theorem RepresentsOn.plan?_eq {t : Timers τ α} {a : TaskTable τ α} (h : t.Represents a)
    (key : String) : t.plan? key = (a.tasks.lookup key).map Task.plan := by
  rw [plan?]
  cases hfind : t.queue.find? fun timer => timer.key = key && isLive t.live timer with
  | none =>
    cases hf : a.tasks.lookup key with
    | none => rfl
    | some task =>
      obtain ⟨hqueue, hlive⟩ := (h.queued (task.timer key) trivial).2 hf
      have hnot := List.find?_eq_none.1 hfind (task.timer key) hqueue
      exact absurd (by rw [hlive]; simp [Task.timer]) hnot
  | some timer =>
    have hqueue := List.mem_of_find?_eq_some hfind
    have hfound := List.find?_some hfind
    simp only [Bool.and_eq_true, decide_eq_true_eq] at hfound
    rw [← hfound.1, (h.queued timer trivial).1 ⟨hqueue, hfound.2⟩]
    rfl

end Timers

namespace Host

/-- The timers that go off in an advance to a time, nested advances apart. -/
def wentOff (h : Host σ τ α) : Nat → τ → σ → List (Timer τ α)
  | 0, _, _ => []
  | fuel + 1, target, s =>
    match (h.timers s).popDue target with
    | none => []
    | some (timer, timers) =>
      let again (seconds : τ) (s : σ) : Option (σ × Nat) :=
        advanceTo h fuel ((h.timers s).now + seconds) s
      timer :: (h.run again timer (h.setTimers s timers)).elim [] (wentOff h fuel target)

variable {h : Host σ τ α} {p : α → Prop} {act : Timer τ α → σ → σ} {target : τ} {s : σ}

theorem wentOff_of_popDue_eq_none (hpop : (h.timers s).popDue target = none) (fuel : Nat) :
    h.wentOff fuel target s = [] := by
  cases fuel with
  | zero => rfl
  | succ fuel => simp only [wentOff, hpop]

theorem Passive.wentOff_of_popDue_eq_some (hp : h.Passive p act) {timer : Timer τ α}
    {timers : Timers τ α} (hpop : (h.timers s).popDue target = some (timer, timers))
    (haction : p timer.action) (fuel : Nat) :
    h.wentOff (fuel + 1) target s =
      timer :: h.wentOff fuel target (act timer (h.setTimers s timers)) := by
  simp only [wentOff, hpop, hp.run_eq _ _ _ haction, Option.elim_some]

/-- An advance runs every task as often as it goes off by itself up to the target, and then moves
the clock. It needs no more fuel than that. -/
theorem Passive.advanceTo_regular [Time.Steady τ] (hp : h.Passive p act) (target : τ)
    {a : TaskTable τ α} (hrep : (h.timers s).Represents a) (hregular : a.Regular p target) :
    ∃ timers s' a', GoOff h act timers s s' ∧ a.Passes target timers a' ∧
      (h.timers (h.moveClock target s')).Represents a' ∧
      ∀ fuel, a.remaining target a.tasks.keys < fuel →
        h.advanceTo fuel target s = some (h.moveClock target s', timers.length) ∧
        h.wentOff fuel target s = timers := by
  -- the keys stay fixed, so that a task that goes off changes one summand only
  have hkeys : ∀ key ∈ a.tasks, key ∈ a.tasks.keys := fun key => Finmap.mem_keys.2
  generalize a.tasks.keys = keys at hkeys ⊢
  induction hn : a.remaining target keys using Nat.strong_induction_on generalizing s a with
  | h n ih =>
    cases hpop : (h.timers s).popDue target with
    | none =>
      have hquiet := hrep.popDue_eq_none hpop
      refine ⟨[], s, _, .nil, hquiet.passes, hp.represents_moveClock hrep target,
        fun fuel hfuel => ⟨?_, ?_⟩⟩
      · exact advanceTo_of_popDue_eq_none hpop (Nat.zero_lt_of_lt hfuel)
      · exact wentOff_of_popDue_eq_none hpop fuel
    | some popped =>
      obtain ⟨timer, timers⟩ := popped
      obtain ⟨hnext, hnow, hrest⟩ := hrep.popDue_eq_some hpop
      have haction := (hregular _ _ hnext.found).2
      have hleft : (h.timers (act timer (h.setTimers s timers))).Represents
          (a.fire timer.key timer.task) := by
        rw [hp.timers_goOff haction]
        exact hrest
      have hkey := hkeys timer.key (Finmap.mem_of_lookup_eq_some hnext.found)
      have hcount := hnext.remaining_fire hregular hkey
      obtain ⟨later, s', a', hgo, hpasses, hrep', hrun⟩ :=
        ih _ (by omega) hleft (hregular.fire hnext.found hnext.isDue)
          (fun other hother => hkeys other (TaskTable.mem_of_mem_fire hnext.found hother)) rfl
      refine ⟨timer :: later, s', a', .cons hnow hgo, hnext.passes hregular hpasses, hrep',
        fun fuel hfuel => ?_⟩
      obtain ⟨fuel, rfl⟩ := Nat.exists_eq_add_of_le' (Nat.zero_lt_of_lt hfuel)
      obtain ⟨hadvance, hwent⟩ := hrun fuel (by omega)
      rw [hp.advanceTo_of_popDue_eq_some hpop haction, hadvance,
        hp.wentOff_of_popDue_eq_some hpop haction, hwent]
      exact ⟨rfl, rfl⟩

end Host
end DeclScan
