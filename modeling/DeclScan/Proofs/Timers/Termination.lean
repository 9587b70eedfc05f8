import DeclScan.Proofs.Timers.Unnested
import DeclScan.Timers.Program
import Mathlib.Logic.Hydra

/-!
# DeclScan.Proofs.Timers.Termination

An advance comes to its end, although timers set further timers when they go off, under any keys and
with intervals as small as they like. What is asked for is that a timer sets only smaller ones, in
some order in which nothing gets smaller for ever.

* `TaskTable.weight`: for each task what it does, and how often it would go off by itself up to the
  target. When a task goes off, it gives way to itself with one time less and to smaller tasks, in
  any number (`IsNext.exists_weight`).
* `TimerProgram.advance_terminates`: that cannot go on for ever, so an advance comes to its end.
* `TimerCallback.isRegular_script`: callbacks that set timers with callbacks in them are smaller the
  deeper they are.
-/

namespace DeclScan

variable {α σ : Type}

namespace TaskTable

variable {a a' : TaskTable ℚ α} {p : α → Prop} {target : ℚ} {key : String} {task : Task ℚ α}

/-- A task and how often it goes off by itself up to a time. -/
noncomputable def loadOf (target : ℚ) (entry : Σ _ : String, Task ℚ α) : α × ℕ :=
  (entry.2.action, entry.2.countBy target)

/-- All tasks, with how often each of them goes off by itself up to a time. -/
noncomputable def weight (a : TaskTable ℚ α) (target : ℚ) : Multiset (α × ℕ) :=
  a.tasks.entries.map (loadOf target)

/-- A task that goes off makes room for what is below it: itself, less often, and smaller ones. -/
def Below (smaller : α → α → Prop) : α × ℕ → α × ℕ → Prop := Prod.Lex smaller (· < ·)

theorem wellFounded_below {smaller : α → α → Prop} (h : WellFounded smaller) :
    WellFounded (Below smaller) :=
  WellFounded.prod_lex h Nat.lt_wfRel.wf

/-! ## What the changes do to the weight -/

theorem entries_insert (tasks : Finmap fun _ : String => Task ℚ α) (key : String) (task : Task ℚ α) :
    (tasks.insert key task).entries = ⟨key, task⟩ ::ₘ (tasks.erase key).entries := by
  have hinsert : tasks.insert key task = (tasks.erase key).insert key task := by
    refine Finmap.ext_lookup fun other => ?_
    by_cases hk : other = key
    · subst hk
      rw [Finmap.lookup_insert, Finmap.lookup_insert]
    · rw [Finmap.lookup_insert_of_ne _ hk, Finmap.lookup_insert_of_ne _ hk, Finmap.lookup_erase_ne hk]
  rw [hinsert, Finmap.entries_insert_of_notMem Finmap.notMem_erase_self]

theorem entries_of_lookup {tasks : Finmap fun _ : String => Task ℚ α}
    (h : tasks.lookup key = some task) :
    tasks.entries = ⟨key, task⟩ ::ₘ (tasks.erase key).entries := by
  rw [← entries_insert]
  refine congrArg Finmap.entries (Finmap.ext_lookup fun other => ?_)
  by_cases hk : other = key
  · rw [hk, h, Finmap.lookup_insert]
  · rw [Finmap.lookup_insert_of_ne _ hk]

theorem weight_of_lookup (h : a.tasks.lookup key = some task) (target : ℚ) :
    a.weight target = (task.action, task.countBy target) ::ₘ (a.cancel key).weight target := by
  rw [weight, entries_of_lookup h, Multiset.map_cons]
  rfl

theorem weight_cancel_le (a : TaskTable ℚ α) (key : String) (target : ℚ) :
    (a.cancel key).weight target ≤ a.weight target := by
  cases h : a.tasks.lookup key with
  | none =>
    have herase : a.tasks.erase key = a.tasks := by
      refine Finmap.ext_lookup fun other => ?_
      by_cases hk : other = key
      · rw [hk, Finmap.lookup_erase, h]
      · rw [Finmap.lookup_erase_ne hk]
    rw [cancel, herase]
  | some task =>
    rw [weight_of_lookup h]
    exact Multiset.le_cons_self _ _

theorem weight_set (a : TaskTable ℚ α) (key : String) (delay : ℚ) (interval : Option ℚ) (action : α)
    (target : ℚ) : (a.set key delay interval action).weight target =
      (action, Task.countBy ⟨a.now + delay, a.nextSequence, interval, action⟩ target) ::ₘ
        (a.cancel key).weight target := by
  rw [weight, TaskTable.set, entries_insert, Multiset.map_cons]
  rfl

/-- Nothing is heavier after changes, but for the tasks that were set. -/
theorem Changes.exists_weight (h : Changes p a a') (target : ℚ) :
    ∃ more, (∀ load ∈ more, p load.1) ∧ a'.weight target ≤ a.weight target + more := by
  induction h with
  | refl => exact ⟨0, by simp, by simp⟩
  | @set a a' key delay interval action _ haction _ ih =>
    obtain ⟨more, hmore, hle⟩ := ih
    rw [weight_set, Multiset.cons_add, ← Multiset.add_cons] at hle
    exact ⟨_, Multiset.forall_mem_cons.2 ⟨haction, hmore⟩,
      hle.trans (Multiset.add_le_add_right (a.weight_cancel_le key target))⟩
  | @cancel a a' key _ ih =>
    obtain ⟨more, hmore, hle⟩ := ih
    exact ⟨more, hmore, hle.trans (Multiset.add_le_add_right (a.weight_cancel_le key target))⟩
  | @cancelAll a a' _ ih =>
    obtain ⟨more, hmore, hle⟩ := ih
    exact ⟨more, hmore, hle.trans (Multiset.add_le_add_right (Multiset.zero_le _))⟩

/-- The task that goes off gives way to what is below it. -/
theorem IsNext.exists_weight {smaller : α → α → Prop} (hnext : a.IsNext target key task)
    (ha : a.IsRegular p) (h : Changes (smaller · task.action) (a.fire key task) a') :
    ∃ load rest more, a.weight target = load ::ₘ rest ∧ (∀ other ∈ more, Below smaller other load) ∧
      a'.weight target ≤ rest + more := by
  obtain ⟨more, hmore, hle⟩ := h.exists_weight target
  have hbelow : ∀ other ∈ more, Below smaller other (task.action, task.countBy target) :=
    fun other hother => .left _ _ (hmore other hother)
  refine ⟨(task.action, task.countBy target), (a.cancel key).weight target, ?_⟩
  cases hi : task.interval with
  | none =>
    refine ⟨more, weight_of_lookup hnext.found target, hbelow, ?_⟩
    rwa [fire, hi] at hle
  | some interval =>
    obtain ⟨due, sequence, interval', action⟩ := task
    obtain rfl : interval' = some interval := hi
    have hpos : 0 < interval := (ha _ _ hnext.found).1 interval rfl
    have hagain := Task.countBy_again due sequence a.nextSequence action
      (Time.exists_lt_tick hpos due target) hnext.isDue
    simp only [fire, weight_set] at hle
    rw [Multiset.cons_add, ← Multiset.add_cons] at hle
    exact ⟨_, weight_of_lookup hnext.found target,
      Multiset.forall_mem_cons.2 ⟨.right _ (hagain ▸ Nat.lt_succ_self _), hbelow⟩, hle⟩

end TaskTable

namespace TimerProgram

variable {behave : α → TimerScript ℚ α σ} {smaller : α → α → Prop} {P : α → Prop}

open TaskTable in
theorem exists_advancesTo (hwf : WellFounded smaller)
    (hbehave : ∀ action, P action →
      (behave action).IsRegular fun next => P next ∧ smaller next action)
    (target : ℚ) (bound : Multiset (α × ℕ)) :
    ∀ {p s}, Matches p s → s.table.IsRegular P → s.table.weight target ≤ bound →
      ∃ r s' count, AdvancesTo behave target p r count ∧ Matches r s' ∧ s'.table.IsRegular P := by
  induction bound using (wellFounded_below hwf).cutExpand.induction with
  | _ bound ih =>
    intro p s hm hs hbound
    cases hpop : p.timers.popDue target with
    | none =>
      exact ⟨_, { s with table := { s.table with now := target } }, 0, advancesTo_of_none hpop,
        ⟨hm.timers.setNow target, hm.client, hm.history⟩, hs⟩
    | some popped =>
      obtain ⟨timer, timers⟩ := popped
      obtain ⟨hnext, -, -⟩ := hm.timers.popDue_eq_some hpop
      obtain ⟨p', s', hgo, hm', hchanges⟩ := hm.goesOff hpop (hbehave _ (hs _ _ hnext.found).2)
      obtain ⟨load, rest, more, hweight, hmore, hle⟩ :=
        hnext.exists_weight hs (hchanges.mono fun _ h => h.2)
      obtain ⟨others, rfl⟩ := Multiset.le_iff_exists_add.1 hbound
      have hcut : Relation.CutExpand (Below smaller) (rest + more + others)
          (s.table.weight target + others) := by
        refine ⟨more, load, hmore, ?_⟩
        rw [hweight, ← Multiset.singleton_add]
        abel
      have hregular := (hchanges.mono fun _ h => h.1).isRegular (hs.fire hnext.found)
      obtain ⟨r, s'', count, hrun, hend⟩ :=
        ih _ hcut hm' hregular (hle.trans (Multiset.le_add_right _ _))
      exact ⟨r, s'', count + 1, hgo.advancesTo hpop hrun, hend⟩

/-- From every state that can be reached, the clock can be advanced by any time: the advance comes to
its end after so many timers went off, and the timers left are of the same kind. It is enough that
those that are going to go off have positive intervals, and scripts that do not advance the clock and
set only smaller actions of the same kind. -/
theorem advance_terminates {p : TimerProgram ℚ α σ} (hp : Reachable behave p)
    (hwf : WellFounded smaller)
    (hbehave : ∀ action, P action →
      (behave action).IsRegular fun next => P next ∧ smaller next action)
    (htimers : p.timers.IsRegular P) (seconds : ℚ) :
    ∃ r count, AdvancesBy behave seconds p r count ∧ r.timers.IsRegular P := by
  obtain ⟨s, hm⟩ := hp.exists_matches
  obtain ⟨r, s', count, hrun, hm', hs'⟩ := exists_advancesTo hwf hbehave
    (p.timers.now + seconds) _ hm (hm.timers.isRegular_iff.1 htimers) le_rfl
  exact ⟨r, count, hrun, hm'.timers.isRegular_iff.2 hs'⟩

end TimerProgram

/-! ## Callbacks with callbacks in them -/

mutual

/-- A command that does not advance the clock, and may set a timer with a callback of the same
kind. -/
inductive TimerCommand.IsPlain {β : Type} : TimerCommand ℚ β → Prop where
  | schedule {key delay callback} : TimerCallback.IsPlain callback →
      TimerCommand.IsPlain (.schedule key delay callback)
  | interval {key seconds callback} : 0 < seconds → TimerCallback.IsPlain callback →
      TimerCommand.IsPlain (.interval key seconds callback)
  | cancel {key} : TimerCommand.IsPlain (.cancel key)
  | cancelAll : TimerCommand.IsPlain .cancelAll

/-- A callback that never advances the clock, nor do those in it, and sets only positive
intervals. -/
inductive TimerCallback.IsPlain {β : Type} : TimerCallback ℚ β → Prop where
  | mk {mark commands failure} : (∀ command ∈ commands, TimerCommand.IsPlain command) →
      TimerCallback.IsPlain (.mk mark commands failure)

end

namespace TimerCallback

variable {β : Type}

/-- A callback is smaller than one that it is in. -/
def IsPart (inner outer : TimerCallback ℚ β) : Prop := sizeOf inner < sizeOf outer

theorem wellFounded_isPart : WellFounded (IsPart (β := β)) := (measure sizeOf).wf

theorem isRegular_scriptOf {size : ℕ} (failure : Option String) {commands : List (TimerCommand ℚ β)}
    (h : ∀ command ∈ commands, command.IsPlain ∧ sizeOf command < size) :
    (CallbackProgram.scriptOf failure commands).IsRegular fun next =>
      next.IsPlain ∧ sizeOf next < size := by
  induction commands with
  | nil => exact trivial
  | cons command commands ih =>
    obtain ⟨⟨hplain, hsize⟩, hrest⟩ := List.forall_mem_cons.1 h
    cases hplain with
    | @schedule key delay callback hcallback =>
      exact ⟨⟨hcallback, by simp at hsize; omega⟩, ih hrest⟩
    | @interval key seconds callback hpos hcallback =>
      exact ⟨hpos, ⟨hcallback, by simp at hsize; omega⟩, ih hrest⟩
    | cancel => exact fun _ => ih hrest
    | cancelAll => exact ih hrest

/-- A plain callback sets only plain callbacks that are in it. -/
theorem isRegular_script {callback : TimerCallback ℚ β} (h : callback.IsPlain) :
    (CallbackProgram.script callback).IsRegular fun next => next.IsPlain ∧ IsPart next callback := by
  obtain ⟨hcommands⟩ := h
  refine isRegular_scriptOf _ fun command hcommand => ⟨hcommands command hcommand, ?_⟩
  have hsize := List.sizeOf_lt_of_mem hcommand
  simp
  omega

end TimerCallback

namespace TimerProgram.Cascade

def spark : TimerCallback ℚ String := .mk "spark" [] none

/-- Cancels the timer that it was set by, and fails. -/
def burst : TimerCallback ℚ String :=
  .mk "burst" [.interval "spark" (1 / 8) spark, .cancel "pulse"] (some "x")

def pulse : TimerCallback ℚ String :=
  .mk "pulse" [.schedule "burst" 2 burst, .interval "spare" (1 / 2) spark] none

/-- A timer with timers in it. -/
def program : CallbackProgram ℚ String :=
  ⟨(Timers.start 0).scheduleInterval "pulse" 1 pulse, (), [.set "pulse" 0 1 true pulse]⟩

theorem isPlain_spark : spark.IsPlain := .mk fun _ h => nomatch h

theorem isPlain_pulse : pulse.IsPlain := by
  have hburst : burst.IsPlain := by
    refine .mk ?_
    simp only [List.forall_mem_cons]
    exact ⟨.interval (by norm_num) isPlain_spark, .cancel, fun _ h => nomatch h⟩
  refine .mk ?_
  simp only [List.forall_mem_cons]
  exact ⟨.schedule hburst, .interval (by norm_num) isPlain_spark, fun _ h => nomatch h⟩

/-- An advance in which timers set timers that repeat. -/
theorem advance_program :
    Reachable CallbackProgram.script program ∧
      WellFounded (TimerCallback.IsPart (β := String)) ∧
      (∀ callback : TimerCallback ℚ String, callback.IsPlain →
        (CallbackProgram.script callback).IsRegular
          fun next => next.IsPlain ∧ next.IsPart callback) ∧
      program.timers.IsRegular TimerCallback.IsPlain ∧
      ∃ r count, AdvancesBy CallbackProgram.script 10 program r count ∧
        r.timers.IsRegular TimerCallback.IsPlain := by
  have hreachable : Reachable CallbackProgram.script program :=
    .script (.start ()) (show carryOut CallbackProgram.script 0
      (.scheduleInterval "pulse" 1 pulse (.done none)) (start ()) = some (program, none) from rfl)
  have hregular : program.timers.IsRegular TimerCallback.IsPlain := by
    intro timer htimer _
    obtain rfl := List.mem_singleton.1 htimer
    refine ⟨?_, isPlain_pulse⟩
    rintro _ ⟨⟩
    norm_num
  have hbehave := fun callback : TimerCallback ℚ String => callback.isRegular_script
  exact ⟨hreachable, TimerCallback.wellFounded_isPart, hbehave, hregular,
    advance_terminates hreachable TimerCallback.wellFounded_isPart hbehave hregular 10⟩

end TimerProgram.Cascade
end DeclScan
