import DeclScan.Timers.Exact
import DeclScan.Timers.Script
import Mathlib.Data.Finmap
import Mathlib.Data.Rat.Lemmas

/-!
# DeclScan.Proofs.Timers.TaskTable

What timers mean, without a queue: a table that holds at most one task for each key.

* `TaskTable.IsNext`: the task that goes off next, the first by time and then by the order in which
  tasks were set.
* `TaskProgram.Advances`: advancing the clock. While some task is due, the next one goes off.
* `TaskProgram.Performs`: carrying out a script.

The relations say what a run does; they do not say how tasks are kept or found.
-/

namespace DeclScan

/-- The task of a key. -/
structure Task (τ α : Type) where
  due : τ
  /-- The place in the order in which tasks were set. -/
  sequence : Nat
  interval : Option τ
  action : α

/-- Tasks by key. -/
structure TaskTable (τ α : Type) where
  now : τ
  tasks : Finmap fun _ : String => Task τ α
  nextSequence : Nat

namespace TaskTable

variable {τ α : Type} [Time τ]

def start (now : τ) : TaskTable τ α := ⟨now, ∅, 0⟩

/-- Sets the task of a key; one that the key had is gone. -/
def set (t : TaskTable τ α) (key : String) (delay : τ) (interval : Option τ) (action : α) :
    TaskTable τ α :=
  { t with
    tasks := t.tasks.insert key ⟨t.now + delay, t.nextSequence, interval, action⟩
    nextSequence := t.nextSequence + 1 }

def cancel (t : TaskTable τ α) (key : String) : TaskTable τ α := { t with tasks := t.tasks.erase key }

def cancelAll (t : TaskTable τ α) : TaskTable τ α := { t with tasks := ∅ }

def isPending (t : TaskTable τ α) (key : String) : Bool := (t.tasks.lookup key).isSome

def pendingCount (t : TaskTable τ α) : Nat := t.tasks.keys.card

def Quiet (t : TaskTable τ α) (target : τ) : Prop :=
  ∀ key task, t.tasks.lookup key = some task → target < task.due

/-- The task of a key is the next one that goes off by a time: of the tasks that are due by then,
it has the least time, and among those the least place in the order of setting. -/
structure IsNext (t : TaskTable τ α) (target : τ) (key : String) (task : Task τ α) : Prop where
  found : t.tasks.lookup key = some task
  isDue : task.due ≤ target
  least : ∀ other task', t.tasks.lookup other = some task' → task'.due ≤ target →
    task.due < task'.due ∨ (task.due ≤ task'.due ∧ task.sequence ≤ task'.sequence)

/-- The task of a key goes off: the clock shows its time, and it is gone or, with an interval, set
anew. -/
def fire (t : TaskTable τ α) (key : String) (task : Task τ α) : TaskTable τ α :=
  let t := { t with now := task.due }
  match task.interval with
  | none => t.cancel key
  | some interval => t.set key interval (some interval) task.action

/-- All tasks have a property. -/
def All (a : TaskTable τ α) (q : Task τ α → Prop) : Prop :=
  ∀ key task, a.tasks.lookup key = some task → q task

variable {a : TaskTable τ α} {q : Task τ α → Prop} {key other : String} {task : Task τ α}

@[simp] theorem lookup_fire_self (a : TaskTable τ α) (key : String) (task : Task τ α) :
    (a.fire key task).tasks.lookup key = task.interval.map fun interval =>
      ⟨task.due + interval, a.nextSequence, some interval, task.action⟩ := by
  cases hi : task.interval with
  | none => simp only [fire, hi, cancel, Finmap.lookup_erase, Option.map_none]
  | some interval => simp only [fire, hi, set, Finmap.lookup_insert, Option.map_some]

theorem lookup_fire_of_ne (h : other ≠ key) (a : TaskTable τ α) (task : Task τ α) :
    (a.fire key task).tasks.lookup other = a.tasks.lookup other := by
  cases hi : task.interval with
  | none => simp only [fire, hi, cancel, Finmap.lookup_erase_ne h]
  | some interval => simp only [fire, hi, set, Finmap.lookup_insert_of_ne _ h]

theorem All.set (h : a.All q) {delay : τ} {interval : Option τ} {action : α}
    (hnew : q ⟨a.now + delay, a.nextSequence, interval, action⟩) (key : String) :
    (a.set key delay interval action).All q := by
  intro other task hf
  by_cases hk : other = key
  · rw [hk, TaskTable.set, Finmap.lookup_insert] at hf
    cases hf
    exact hnew
  · rw [TaskTable.set, Finmap.lookup_insert_of_ne _ hk] at hf
    exact h other task hf

theorem All.fire (h : a.All q) (hagain : ∀ interval, task.interval = some interval →
    q ⟨task.due + interval, a.nextSequence, some interval, task.action⟩) :
    (a.fire key task).All q := by
  intro other task' hf
  by_cases hk : other = key
  · rw [hk, lookup_fire_self] at hf
    obtain ⟨interval, hi, rfl⟩ := Option.map_eq_some_iff.1 hf
    exact hagain interval hi
  · rw [lookup_fire_of_ne hk] at hf
    exact h other task' hf

omit [Time τ] in
theorem all_start (now : τ) : (start now : TaskTable τ α).All q := by
  rintro key task ⟨⟩

omit [Time τ] in
theorem All.cancel (h : a.All q) (key : String) : (a.cancel key).All q := by
  intro other task hf
  by_cases hk : other = key
  · rw [hk, TaskTable.cancel, Finmap.lookup_erase] at hf
    cases hf
  · rw [TaskTable.cancel, Finmap.lookup_erase_ne hk] at hf
    exact h other task hf

omit [Time τ] in
theorem all_cancelAll (a : TaskTable τ α) : a.cancelAll.All q := by
  intro key task hf
  rw [cancelAll, Finmap.lookup_empty] at hf
  cases hf

end TaskTable

/-- Tasks with a client, and what happened so far. -/
structure TaskProgram (α σ : Type) where
  table : TaskTable ℚ α
  client : σ
  history : List (TimerEvent ℚ α)

namespace TaskProgram

variable {α σ : Type}

def start (client : σ) : TaskProgram α σ := ⟨TaskTable.start 0, client, []⟩

def act (s : TaskProgram α σ) (table : TaskTable ℚ α) (e : TimerEvent ℚ α) : TaskProgram α σ :=
  { s with table := table, history := s.history ++ [e] }

def note (s : TaskProgram α σ) (e : TimerEvent ℚ α) : TaskProgram α σ := s.act s.table e

def noteFailure (s : TaskProgram α σ) (key : String) : Option String → TaskProgram α σ
  | none => s
  | some text => s.note (.failed key text)

mutual

/-- `Performs behave script s s' failure`: carrying out a script leads from `s` to `s'`. -/
inductive Performs (behave : α → TimerScript ℚ α σ) :
    TimerScript ℚ α σ → TaskProgram α σ → TaskProgram α σ → Option String → Prop where
  | done {s failure} : Performs behave (.done failure) s s failure
  | recollect {s s' next failure} : Performs behave (next s.client) s s' failure →
      Performs behave (.recollect next) s s' failure
  | remember {s s' client next failure} : Performs behave next { s with client := client } s' failure →
      Performs behave (.remember client next) s s' failure
  | now {s s' next failure} :
      Performs behave (next s.table.now) (s.note (.read s.table.now)) s' failure →
      Performs behave (.now next) s s' failure
  | schedule {s s' key delay action next failure} :
      Performs behave next (s.act (s.table.set key delay none action)
        (.set key s.table.now delay false action)) s' failure →
      Performs behave (.schedule key delay action next) s s' failure
  | scheduleInterval {s s' key interval action next failure} :
      Performs behave next (s.act (s.table.set key interval (some interval) action)
        (.set key s.table.now interval true action)) s' failure →
      Performs behave (.scheduleInterval key interval action next) s s' failure
  | cancel {s s' key next failure} :
      Performs behave (next (s.table.isPending key)) (s.act (s.table.cancel key)
        (.cancelled key (s.table.isPending key))) s' failure →
      Performs behave (.cancel key next) s s' failure
  | cancelAll {s s' next failure} :
      Performs behave next (s.act s.table.cancelAll .cancelledAll) s' failure →
      Performs behave (.cancelAll next) s s' failure
  | isPending {s s' key next failure} :
      Performs behave (next (s.table.isPending key))
        (s.note (.asked key (s.table.isPending key))) s' failure →
      Performs behave (.isPending key next) s s' failure
  | pendingCount {s s' next failure} :
      Performs behave (next s.table.pendingCount) (s.note (.counted s.table.pendingCount)) s' failure →
      Performs behave (.pendingCount next) s s' failure
  | advance {s s₁ s' seconds next count failure} :
      Advances behave (s.table.now + seconds) s s₁ count →
      Performs behave (next count) (s₁.note (.advanced s₁.table.now count)) s' failure →
      Performs behave (.advance seconds next) s s' failure

/-- `Advances behave target s s' count`: advancing the clock to a time leads from `s` to `s'`, and
so many tasks go off. -/
inductive Advances (behave : α → TimerScript ℚ α σ) :
    ℚ → TaskProgram α σ → TaskProgram α σ → Nat → Prop where
  | rest {target s} : s.table.Quiet target →
      Advances behave target s { s with table := { s.table with now := target } } 0
  | fire {target s s₁ s' key task failure count} : s.table.IsNext target key task →
      Performs behave (behave task.action)
        (s.act (s.table.fire key task) (.fired key task.due task.action)) s₁ failure →
      Advances behave target (s₁.noteFailure key failure) s' count →
      Advances behave target s s' (count + 1)

end

end TaskProgram
end DeclScan
