import DeclScan.Proofs.Timers.Queue
import DeclScan.Proofs.Timers.TaskTable
import Mathlib.Data.Finset.Card

/-!
# DeclScan.Proofs.Timers.Representation

Timers in a queue represent a table of tasks.

`RepresentsOn p`: for the keys that `p` holds for, the live timers of the queue are the tasks of
the table, each in the queue once because the queue is in order. All other timers of the queue are
retired for good: their places in the order of setting are given out already, so that no key can
have them as its live timer again.

Each operation keeps this. Setting and cancelling a key do so whatever was the matter with that key
before (`RepresentsOn.set`, `RepresentsOn.cancel`); so `popDue`, which takes the timer of a key from
the queue, comes down to one of them.
-/

namespace DeclScan

variable {τ α : Type}

def Timer.task (timer : Timer τ α) : Task τ α :=
  ⟨timer.due, timer.sequence, timer.interval, timer.action⟩

def Task.timer (task : Task τ α) (key : String) : Timer τ α :=
  ⟨task.due, task.sequence, key, task.interval, task.action⟩

namespace Timers

variable [Time τ]

/-- For the keys that `p` holds for, the live timers are the tasks of a table. -/
structure RepresentsOn (p : String → Prop) (t : Timers τ α) (a : TaskTable τ α) : Prop where
  now : t.now = a.now
  nextSequence : t.nextSequence = a.nextSequence
  inOrder : InOrder t.queue
  fresh : ∀ timer ∈ t.queue, timer.sequence < t.nextSequence
  distinct : t.live.keys.Nodup
  live : ∀ key, p key → t.live.get? key = (a.tasks.lookup key).map Task.sequence
  queued : ∀ timer, p timer.key →
    ((timer ∈ t.queue ∧ isLive t.live timer = true) ↔
      a.tasks.lookup timer.key = some timer.task)

abbrev Represents (t : Timers τ α) (a : TaskTable τ α) : Prop := RepresentsOn (fun _ => True) t a

theorem represents_start (now : τ) :
    Represents (Timers.start now : Timers τ α) (TaskTable.start now) where
  now := rfl
  nextSequence := rfl
  inOrder := List.Pairwise.nil
  fresh := by simp [Timers.start]
  distinct := List.nodup_nil
  live := by simp [Timers.start, TaskTable.start, Table.get?]
  queued := by simp [Timers.start, TaskTable.start]

/-! ## Operations -/

variable {t : Timers τ α} {a : TaskTable τ α} {key : String}

theorem RepresentsOn.mono {p q : String → Prop} (h : RepresentsOn p t a)
    (hq : ∀ key, q key → p key) : RepresentsOn q t a :=
  { h with
    live := fun key hk => h.live key (hq key hk)
    queued := fun timer hk => h.queued timer (hq timer.key hk) }

theorem RepresentsOn.queued_set_self (h : RepresentsOn (· ≠ key) t a) (delay : τ)
    (interval : Option τ) (action : α) {timer : Timer τ α} (hk : timer.key = key) :
    (timer ∈ (t.set key delay interval action).queue ∧
        isLive (t.set key delay interval action).live timer = true) ↔
      (a.set key delay interval action).tasks.lookup timer.key = some timer.task := by
  have hnow : t.now + delay = a.now + delay := congrArg (· + delay) h.now
  have hlive : isLive (t.set key delay interval action).live timer = true ↔
      t.nextSequence = timer.sequence := by
    simp [isLive_iff, Timers.set, hk]
  have hlookup : (a.set key delay interval action).tasks.lookup timer.key =
      some ⟨a.now + delay, a.nextSequence, interval, action⟩ := by
    rw [hk]; exact Finmap.lookup_insert _
  rw [hlive, hlookup]
  constructor
  · rintro ⟨hq, hs⟩
    rcases mem_enqueue.1 hq with rfl | hq
    · simp only [Timer.task, ← h.nextSequence, ← hnow]
    · exact absurd (h.fresh timer hq) (by omega)
  · intro he
    have he := Option.some.inj he
    simp only [Timer.task, Task.mk.injEq] at he
    obtain ⟨hd, hs, hi, ha⟩ := he
    refine ⟨mem_enqueue.2 (Or.inl ?_), by rw [h.nextSequence, hs]⟩
    cases timer
    simp only at hd hs hi ha hk
    subst hi ha hk
    rw [← hd, ← hs, ← hnow, ← h.nextSequence]

theorem RepresentsOn.queued_set_of_ne (h : RepresentsOn (· ≠ key) t a) (delay : τ)
    (interval : Option τ) (action : α) {timer : Timer τ α} (hk : timer.key ≠ key) :
    (timer ∈ (t.set key delay interval action).queue ∧
        isLive (t.set key delay interval action).live timer = true) ↔
      (a.set key delay interval action).tasks.lookup timer.key = some timer.task := by
  have hq : timer ∈ (t.set key delay interval action).queue ↔ timer ∈ t.queue := by
    refine mem_enqueue.trans (or_iff_right ?_)
    rintro rfl
    exact hk rfl
  have hl : isLive (t.set key delay interval action).live timer = isLive t.live timer := by
    simp only [isLive, Timers.set, Table.get?_put_of_ne hk]
  have ha : (a.set key delay interval action).tasks.lookup timer.key =
      a.tasks.lookup timer.key := Finmap.lookup_insert_of_ne _ hk
  rw [hq, hl, ha]
  exact h.queued timer hk

/-- Cancelling a key leaves it without a task, whatever it had before. -/
theorem RepresentsOn.cancel (h : RepresentsOn (· ≠ key) t a) :
    Represents (t.cancel key) (a.cancel key) := by
  refine
    { h with
      distinct := Table.nodup_keys_erase key h.distinct
      live := ?_
      queued := ?_ }
  · intro other _
    by_cases hk : other = key
    · subst hk
      simp [Timers.cancel, TaskTable.cancel]
    · simp only [Timers.cancel, TaskTable.cancel, Table.get?_erase_of_ne hk,
        Finmap.lookup_erase_ne hk]
      exact h.live other hk
  · intro timer _
    by_cases hk : timer.key = key
    · have ha : (a.cancel key).tasks.lookup timer.key = none := by
        rw [hk]; exact Finmap.lookup_erase _ _
      simp [isLive_iff, Timers.cancel, ha, hk]
    · have hl : isLive (t.cancel key).live timer = isLive t.live timer := by
        simp only [isLive, Timers.cancel, Table.get?_erase_of_ne hk]
      have ha : (a.cancel key).tasks.lookup timer.key = a.tasks.lookup timer.key :=
        Finmap.lookup_erase_ne hk
      rw [hl, ha]
      exact h.queued timer hk

theorem RepresentsOn.cancelAll (h : Represents t a) : Represents t.cancelAll a.cancelAll :=
  { h with
    inOrder := List.Pairwise.nil
    fresh := by simp [Timers.cancelAll]
    distinct := List.nodup_nil
    live := by simp [Timers.cancelAll, TaskTable.cancelAll, Table.get?]
    queued := by simp [Timers.cancelAll, TaskTable.cancelAll] }

theorem RepresentsOn.setNow (h : Represents t a) (now : τ) :
    Represents { t with now := now } { a with now := now } :=
  { h with now := rfl }

/-! ## Questions -/

theorem RepresentsOn.isPending (h : Represents t a) (key : String) :
    t.isPending key = a.isPending key := by
  simp only [Timers.isPending, Table.has, TaskTable.isPending, h.live key trivial,
    Option.isSome_map]

theorem RepresentsOn.pendingCount (h : Represents t a) : t.pendingCount = a.pendingCount := by
  have hkeys : t.live.keys.toFinset = a.tasks.keys := by
    ext key
    rw [List.mem_toFinset, ← Table.has_iff_mem_keys, Finmap.mem_keys, ← Finmap.lookup_isSome]
    exact iff_of_eq (congrArg (· = true) (h.isPending key))
  rw [TaskTable.pendingCount, ← hkeys, List.toFinset_card_of_nodup h.distinct, Table.keys,
    List.length_map]
  rfl

variable [Time.Steady τ]

/-- Setting a key makes its new timer the task of the key, whatever it had before. -/
theorem RepresentsOn.set (h : RepresentsOn (· ≠ key) t a) (delay : τ) (interval : Option τ)
    (action : α) : Represents (t.set key delay interval action) (a.set key delay interval action) := by
  refine
    { now := h.now
      nextSequence := congrArg (· + 1) h.nextSequence
      inOrder := inOrder_enqueue h.inOrder fun other ho => h.fresh other ho
      fresh := ?_
      distinct := Table.nodup_keys_put key _ h.distinct
      live := ?_
      queued := ?_ }
  · intro timer ht
    rcases mem_enqueue.1 ht with rfl | ht
    · exact Nat.lt_succ_self _
    · exact Nat.lt_succ_of_lt (h.fresh timer ht)
  · intro other _
    by_cases hk : other = key
    · subst hk
      simp [Timers.set, TaskTable.set, h.nextSequence]
    · simp only [Timers.set, TaskTable.set, Table.get?_put_of_ne hk,
        Finmap.lookup_insert_of_ne _ hk]
      exact h.live other hk
  · intro timer _
    by_cases hk : timer.key = key
    · exact h.queued_set_self delay interval action hk
    · exact h.queued_set_of_ne delay interval action hk

/-! ## Going off -/

theorem RepresentsOn.eq_of_sequence (h : Represents t a) {other : String} {task task' : Task τ α}
    (hf : a.tasks.lookup key = some task) (hf' : a.tasks.lookup other = some task')
    (hd : task.due ≤ task'.due) (hd' : task'.due ≤ task.due) (hs : task.sequence = task'.sequence) :
    key = other ∧ task = task' := by
  have hq := ((h.queued (task.timer key) trivial).2 hf).1
  have hq' := ((h.queued (task'.timer other) trivial).2 hf').1
  have he : task.timer key = task'.timer other := by
    rcases h.inOrder.eq_or hq hq' with he | hb | hb
    · exact he
    · rcases goesBefore_iff.1 hb with hb | ⟨-, hb⟩
      · exact absurd hb (Std.not_lt.2 hd')
      · exact absurd hs (ne_of_lt hb)
    · rcases goesBefore_iff.1 hb with hb | ⟨-, hb⟩
      · exact absurd hb (Std.not_lt.2 hd)
      · exact absurd hs.symm (ne_of_lt hb)
  obtain ⟨h1, h2, h3, h4, h5⟩ := Timer.mk.inj he
  cases task
  cases task'
  simp only at h1 h2 h4 h5
  subst h1 h2 h4 h5
  exact ⟨h3, rfl⟩

theorem RepresentsOn.isNext_unique (h : Represents t a) {target : τ} {other : String}
    {task task' : Task τ α} (hn : a.IsNext target key task) (hn' : a.IsNext target other task') :
    key = other ∧ task = task' := by
  rcases hn.least other task' hn'.found hn'.isDue with hlt | ⟨hd, hs⟩
  · rcases hn'.least key task hn.found hn.isDue with hlt' | ⟨hd', -⟩
    · exact absurd (Std.le_of_lt hlt') (Std.not_le.2 hlt)
    · exact absurd hd' (Std.not_le.2 hlt)
  · rcases hn'.least key task hn.found hn.isDue with hlt' | ⟨hd', hs'⟩
    · exact absurd hd (Std.not_le.2 hlt')
    · exact h.eq_of_sequence hn.found hn'.found hd hd' (Nat.le_antisymm hs hs')

theorem RepresentsOn.popDue_eq_none (h : Represents t a) {target : τ}
    (hnone : t.popDue target = none) : a.Quiet target := by
  intro key task hf
  have hnone' : nextDue? t.live target t.queue = none := by
    cases hc : nextDue? t.live target t.queue with
    | none => rfl
    | some found =>
      rw [Timers.popDue, hc] at hnone
      obtain ⟨timer, queue⟩ := found
      cases hi : timer.interval <;> simp [hi] at hnone
  obtain ⟨hq, hl⟩ := (h.queued (task.timer key) trivial).2 hf
  exact nextDue?_eq_none h.inOrder hnone' (task.timer key) hq hl

theorem RepresentsOn.isNext_of_nextDue (h : Represents t a) {target : τ} {first : Timer τ α}
    {queue : List (Timer τ α)} (hc : nextDue? t.live target t.queue = some (first, queue)) :
    a.IsNext target first.key first.task := by
  obtain ⟨hlive, hdue, hbehind, hall⟩ := nextDue?_eq_some h.inOrder hc
  have hmem : first ∈ t.queue := (hall first hlive).2 (Or.inl rfl)
  refine ⟨(h.queued first trivial).1 ⟨hmem, hlive⟩, hdue, fun other task' hf' _ => ?_⟩
  obtain ⟨hq', hl'⟩ := (h.queued (task'.timer other) trivial).2 hf'
  rcases (hall _ hl').1 hq' with he | hq'
  · rw [← he]
    exact Or.inr ⟨Std.le_refl _, Nat.le_refl _⟩
  · rcases goesBefore_iff.1 (hbehind _ hq') with hb | ⟨hd, hs⟩
    · exact Or.inl hb
    · exact Or.inr ⟨hd, Nat.le_of_lt hs⟩

omit [Time.Steady τ] in
theorem RepresentsOn.rest_of_nextDue (h : Represents t a) {target : τ} {first : Timer τ α}
    {queue : List (Timer τ α)} (hc : nextDue? t.live target t.queue = some (first, queue)) :
    RepresentsOn (· ≠ first.key) { t with now := first.due, queue := queue }
      { a with now := first.due } := by
  have hsub : queue.Sublist t.queue := nextDue?_sublist hc
  obtain ⟨-, -, -, hall⟩ := nextDue?_eq_some h.inOrder hc
  refine
    { now := rfl
      nextSequence := h.nextSequence
      inOrder := h.inOrder.sublist hsub
      fresh := fun other ho => h.fresh other (hsub.subset ho)
      distinct := h.distinct
      live := fun key _ => h.live key trivial
      queued := fun other hk => ?_ }
  rw [← h.queued other trivial]
  refine and_congr_left fun hl => ?_
  rw [hall other hl]
  refine (or_iff_right ?_).symm
  rintro rfl
  exact hk rfl

/-- The timer that is taken from the queue is the next task, and what is left represents the table
in which that task went off. -/
theorem RepresentsOn.popDue_eq_some (h : Represents t a) {target : τ} {timer : Timer τ α}
    {t' : Timers τ α} (hsome : t.popDue target = some (timer, t')) :
    a.IsNext target timer.key timer.task ∧ t'.now = timer.due ∧
      Represents t' (a.fire timer.key timer.task) := by
  rw [Timers.popDue] at hsome
  cases hc : nextDue? t.live target t.queue with
  | none => rw [hc] at hsome; cases hsome
  | some found =>
    obtain ⟨first, queue⟩ := found
    rw [hc] at hsome
    have hnext := h.isNext_of_nextDue hc
    have hrest := h.rest_of_nextDue hc
    cases hi : first.interval with
    | none =>
      simp only [hi, Option.some.injEq, Prod.mk.injEq] at hsome
      obtain ⟨rfl, rfl⟩ := hsome
      refine ⟨hnext, rfl, ?_⟩
      simp only [TaskTable.fire, Timer.task, hi]
      exact hrest.cancel
    | some interval =>
      simp only [hi, Option.some.injEq, Prod.mk.injEq] at hsome
      obtain ⟨rfl, rfl⟩ := hsome
      refine ⟨hnext, rfl, ?_⟩
      simp only [TaskTable.fire, Timer.task, hi]
      exact hrest.set interval (some interval) first.action

theorem RepresentsOn.popDue_of_isNext (h : Represents t a) {target : τ} {task : Task τ α}
    (hn : a.IsNext target key task) :
    ∃ t', t.popDue target = some (task.timer key, t') ∧ t'.now = task.due ∧
      Represents t' (a.fire key task) := by
  cases hp : t.popDue target with
  | none => exact absurd hn.isDue (Std.not_le.2 (h.popDue_eq_none hp key task hn.found))
  | some popped =>
    obtain ⟨timer, t'⟩ := popped
    obtain ⟨hn', hnow, hrep⟩ := h.popDue_eq_some hp
    obtain ⟨rfl, rfl⟩ := h.isNext_unique hn hn'
    exact ⟨t', rfl, hnow, hrep⟩

theorem RepresentsOn.popDue_of_quiet (h : Represents t a) {target : τ} (hq : a.Quiet target) :
    t.popDue target = none := by
  cases hp : t.popDue target with
  | none => rfl
  | some popped =>
    obtain ⟨hn, -, -⟩ := h.popDue_eq_some hp
    exact absurd hn.isDue (Std.not_le.2 (hq _ _ hn.found))

end Timers
end DeclScan
