import DeclScan.Proofs.Timers.Representation
import DeclScan.Timers.Host

/-!
# DeclScan.Proofs.Timers.OneShot

Timers that go off once, on a host where going off changes no timers. An advance comes to an end
then, and runs just the timers that are due, each of them once.

* `Host.Passive`: what is asked of the host.
* `Host.GoOff`: timers go off one after the other, each with the clock at its time.
* `Host.Passive.advanceTo_eq`: what an advance does.
-/

namespace DeclScan

variable {σ τ α : Type}

theorem Timer.eq_of_task {timer other : Timer τ α} (hkey : timer.key = other.key)
    (htask : timer.task = other.task) : timer = other := by
  cases timer
  cases other
  simp only [Timer.task, Task.mk.injEq] at hkey htask
  obtain ⟨rfl, rfl, rfl, rfl⟩ := htask
  rw [hkey]

variable [Time τ]

namespace TaskTable

/-- No task repeats, and all actions have a property. -/
def Once (a : TaskTable τ α) (p : α → Prop) : Prop :=
  a.All fun task => task.interval = none ∧ p task.action

/-- The timer of a task that is due by a time. -/
def IsDue (a : TaskTable τ α) (target : τ) (timer : Timer τ α) : Prop :=
  a.tasks.lookup timer.key = some timer.task ∧ timer.due ≤ target

/-- The clock shows a time, and the tasks that were due by then are gone. -/
structure Remains (a : TaskTable τ α) (target : τ) (a' : TaskTable τ α) : Prop where
  now : a'.now = target
  tasks : ∀ key, a'.tasks.lookup key = (a.tasks.lookup key).filter fun task => target < task.due

variable {a a' : TaskTable τ α} {target : τ} {key : String} {task : Task τ α}

theorem Once.fire_eq {p : α → Prop} (h : a.Once p) (hf : a.tasks.lookup key = some task) :
    a.fire key task = ({ a with now := task.due } : TaskTable τ α).cancel key := by
  simp only [fire, (h key task hf).1]

omit [Time τ] in
theorem pendingCount_cancel (hf : a.tasks.lookup key = some task) :
    (a.cancel key).pendingCount + 1 = a.pendingCount := by
  have hmem : key ∈ a.tasks.keys := Finmap.mem_keys.2 (Finmap.mem_of_lookup_eq_some hf)
  rw [pendingCount, pendingCount, cancel, Finmap.keys_erase, Finset.card_erase_add_one hmem]

theorem Quiet.not_isDue [Time.Steady τ] (h : a.Quiet target) (timer : Timer τ α) : ¬ a.IsDue target timer :=
  fun hdue => absurd hdue.2 (Std.not_le.2 (h _ _ hdue.1))

theorem Quiet.remains (h : a.Quiet target) : a.Remains target { a with now := target } where
  now := rfl
  tasks key := by
    cases hf : a.tasks.lookup key with
    | none => rfl
    | some task => simp [Option.filter, h key task hf]

theorem IsNext.isDue_iff {timer : Timer τ α} (h : a.IsNext target timer.key timer.task)
    (now : τ) (other : Timer τ α) :
    a.IsDue target other ↔
      other = timer ∨ (({ a with now := now } : TaskTable τ α).cancel timer.key).IsDue target other := by
  by_cases hk : other.key = timer.key
  · have hgone : ¬ (({ a with now := now } : TaskTable τ α).cancel timer.key).IsDue target other := by
      rintro ⟨hf, -⟩
      rw [hk, TaskTable.cancel, Finmap.lookup_erase] at hf
      cases hf
    rw [or_iff_left hgone]
    constructor
    · rintro ⟨hf, -⟩
      rw [hk, h.found] at hf
      exact Timer.eq_of_task hk (Option.some.inj hf).symm
    · rintro rfl
      exact ⟨h.found, h.isDue⟩
  · have hne : other ≠ timer := fun heq => hk (heq ▸ rfl)
    rw [or_iff_right hne, IsDue, IsDue, TaskTable.cancel, Finmap.lookup_erase_ne hk]

theorem IsNext.remains [Time.Steady τ] (h : a.IsNext target key task) {now : τ}
    (hrest : (({ a with now := now } : TaskTable τ α).cancel key).Remains target a') :
    a.Remains target a' where
  now := hrest.now
  tasks other := by
    rw [hrest.tasks, TaskTable.cancel]
    by_cases hk : other = key
    · have hdue : ¬ target < task.due := Std.not_lt.2 h.isDue
      rw [hk, Finmap.lookup_erase, h.found]
      simp [Option.filter, hdue]
    · rw [Finmap.lookup_erase_ne hk]

end TaskTable

namespace Host

/-- Actions with a property do what `act` says, whatever the clock is advanced by, and change no
timers. -/
structure Passive (h : Host σ τ α) (p : α → Prop) (act : Timer τ α → σ → σ) : Prop where
  run_eq : ∀ again timer s, p timer.action → h.run again timer s = some (act timer s)
  timers_act : ∀ timer s, p timer.action → h.timers (act timer s) = h.timers s
  timers_setTimers : ∀ s timers, h.timers (h.setTimers s timers) = timers

/-- Timers go off one after the other, each with the clock at its time. -/
inductive GoOff (h : Host σ τ α) (act : Timer τ α → σ → σ) : List (Timer τ α) → σ → σ → Prop where
  | nil {s} : GoOff h act [] s s
  | cons {timer rest s timers s'} : timers.now = timer.due →
      GoOff h act rest (act timer (h.setTimers s timers)) s' → GoOff h act (timer :: rest) s s'

/-- What an advance does in the end. -/
def moveClock (h : Host σ τ α) (target : τ) (s : σ) : σ :=
  h.setTimers s { h.timers s with now := target }

section Advance

variable {h : Host σ τ α} {p : α → Prop} {act : Timer τ α → σ → σ} {target : τ} {s : σ}

theorem advanceTo_of_popDue_eq_none (hpop : (h.timers s).popDue target = none) {fuel : Nat}
    (hfuel : 0 < fuel) : h.advanceTo fuel target s = some (h.moveClock target s, 0) := by
  obtain ⟨fuel, rfl⟩ := Nat.exists_eq_add_of_le' hfuel
  simp only [advanceTo, hpop]
  rfl

theorem Passive.advanceTo_of_popDue_eq_some (hp : h.Passive p act) {timer : Timer τ α}
    {timers : Timers τ α} (hpop : (h.timers s).popDue target = some (timer, timers))
    (haction : p timer.action) (fuel : Nat) :
    h.advanceTo (fuel + 1) target s =
      (h.advanceTo fuel target (act timer (h.setTimers s timers))).map
        fun (s, count) => (s, count + 1) := by
  simp only [advanceTo, hpop, hp.run_eq _ _ _ haction]
  cases h.advanceTo fuel target (act timer (h.setTimers s timers)) <;> rfl

theorem Passive.represents_moveClock (hp : h.Passive p act) {a : TaskTable τ α}
    (hrep : (h.timers s).Represents a) (target : τ) :
    (h.timers (h.moveClock target s)).Represents { a with now := target } := by
  rw [moveClock, hp.timers_setTimers]
  exact hrep.setNow target

omit [Time τ] in
theorem Passive.timers_goOff (hp : h.Passive p act) {timer : Timer τ α} (haction : p timer.action)
    (timers : Timers τ α) : h.timers (act timer (h.setTimers s timers)) = timers := by
  rw [hp.timers_act _ _ haction, hp.timers_setTimers]

/-- An advance runs just the timers that are due, each of them once, and then moves the clock. It
needs no more fuel than there are timers. -/
theorem Passive.advanceTo_eq [Time.Steady τ] (hp : h.Passive p act) (target : τ) {a : TaskTable τ α}
    (hrep : (h.timers s).Represents a) (honce : a.Once p) :
    ∃ timers s' a', GoOff h act timers s s' ∧ (timers.map Timer.key).Nodup ∧
      (∀ timer, timer ∈ timers ↔ a.IsDue target timer) ∧ a.Remains target a' ∧
      (h.timers (h.moveClock target s')).Represents a' ∧
      ∀ fuel, a.pendingCount < fuel →
        h.advanceTo fuel target s = some (h.moveClock target s', timers.length) := by
  induction hn : a.pendingCount using Nat.strong_induction_on generalizing s a with
  | h n ih =>
    cases hpop : (h.timers s).popDue target with
    | none =>
      have hquiet := hrep.popDue_eq_none hpop
      refine ⟨[], s, _, .nil, List.nodup_nil, fun timer => ?_, hquiet.remains,
        hp.represents_moveClock hrep target, fun fuel hfuel => ?_⟩
      · simp [hquiet.not_isDue timer]
      · exact advanceTo_of_popDue_eq_none hpop (Nat.zero_lt_of_lt hfuel)
    | some popped =>
      obtain ⟨timer, timers⟩ := popped
      obtain ⟨hnext, hnow, hrest⟩ := hrep.popDue_eq_some hpop
      rw [honce.fire_eq hnext.found] at hrest
      have hleft : (h.timers (act timer (h.setTimers s timers))).Represents
          (({ a with now := timer.task.due } : TaskTable τ α).cancel timer.key) := by
        rw [hp.timers_goOff (honce _ _ hnext.found).2]
        exact hrest
      have hcount : (({ a with now := timer.task.due } : TaskTable τ α).cancel
          timer.key).pendingCount + 1 = a.pendingCount :=
        TaskTable.pendingCount_cancel hnext.found
      obtain ⟨later, s', a', hgo, hnodup, hmem, hremains, hrep', hrun⟩ :=
        ih _ (by omega) hleft (honce.cancel _) rfl
      refine ⟨timer :: later, s', a', .cons hnow hgo, ?_, ?_, hnext.remains hremains, hrep', ?_⟩
      · refine List.nodup_cons.2 ⟨fun hkey => ?_, hnodup⟩
        obtain ⟨other, hother, hk⟩ := List.mem_map.1 hkey
        have hf := ((hmem other).1 hother).1
        rw [hk, TaskTable.cancel, Finmap.lookup_erase] at hf
        cases hf
      · intro other
        rw [List.mem_cons, hmem, ← hnext.isDue_iff]
      · intro fuel hfuel
        obtain ⟨fuel, rfl⟩ := Nat.exists_eq_add_of_le' (Nat.zero_lt_of_lt hfuel)
        rw [hp.advanceTo_of_popDue_eq_some hpop (honce _ _ hnext.found).2, hrun fuel (by omega)]
        rfl

end Advance

end Host
end DeclScan
