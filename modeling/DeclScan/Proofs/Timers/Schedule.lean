import DeclScan.Proofs.Timers.TaskTable
import Mathlib.Logic.Relation
import Mathlib.Tactic.Linarith
import Mathlib.Tactic.Ring

/-!
# DeclScan.Proofs.Timers.Schedule

When tasks go off, told by the history alone.

* `standing`: what was last set for a key, unless it was cancelled since, with the number of times
  that it went off.
* `Orderly`: only what stands goes off, the `n`-th time at its start plus `n` times its delay, and
  what does not repeat only once; so nothing goes off that was replaced or cancelled. An advance ends
  with nothing left to go off by then; so nothing is left out.
* `Performs.orderly`: every run of the table of tasks has such a history.

`TaskProgram.Step` lists what can change a program at all, so that what all changes keep is kept by
every run (`Performs.steps`).
-/

namespace DeclScan

variable {α σ : Type}

/-- Something that was set for a key when the clock showed `start`, and the number of times that it
went off. -/
structure Standing (α : Type) where
  start : ℚ
  delay : ℚ
  repeats : Bool
  action : α
  firings : Nat

/-- The time at which it goes off next. What does not repeat goes off once. -/
def Standing.next? (st : Standing α) : Option ℚ :=
  if st.repeats || st.firings = 0 then some (st.start + (st.firings + 1) * st.delay) else none

namespace TimerEvent

def after (key : String) (st? : Option (Standing α)) : TimerEvent ℚ α → Option (Standing α)
  | .set k time delay repeats action =>
    if k = key then some ⟨time, delay, repeats, action, 0⟩ else st?
  | .cancelled k _ => if k = key then none else st?
  | .cancelledAll => none
  | .fired k _ _ =>
    if k = key then st?.map fun st => { st with firings := st.firings + 1 } else st?
  | _ => st?

def standing (key : String) (history : List (TimerEvent ℚ α)) : Option (Standing α) :=
  history.foldl (after key) none

/-- Whether something stands for a key that is still to go off. -/
def awaited (key : String) (history : List (TimerEvent ℚ α)) : Bool :=
  ((standing key history).bind Standing.next?).isSome

def Fits (past : List (TimerEvent ℚ α)) : TimerEvent ℚ α → Prop
  | .fired key time action =>
    ∃ st, standing key past = some st ∧ st.action = action ∧ st.next? = some time
  | .advanced time _ =>
    ∀ key st due, standing key past = some st → st.next? = some due → time < due
  | .cancelled key was => was = awaited key past
  | .asked key pending => pending = awaited key past
  | _ => True

def Orderly (history : List (TimerEvent ℚ α)) : Prop :=
  ∀ past e rest, history = past ++ e :: rest → Fits past e

@[simp] theorem standing_append (key : String) (history : List (TimerEvent ℚ α))
    (e : TimerEvent ℚ α) : standing key (history ++ [e]) = after key (standing key history) e := by
  simp [standing]

theorem orderly_nil : Orderly ([] : List (TimerEvent ℚ α)) := by
  intro past e rest h
  simp at h

theorem Orderly.append {history : List (TimerEvent ℚ α)} {e : TimerEvent ℚ α}
    (h : Orderly history) (he : Fits history e) : Orderly (history ++ [e]) := by
  intro past e' rest hsplit
  rcases List.append_eq_append_iff.1 hsplit with ⟨more, hpast, hmore⟩ | ⟨more, hhist, hmore⟩
  · cases more with
    | nil =>
      simp only [List.append_nil, List.nil_append, List.cons.injEq] at hpast hmore
      obtain ⟨rfl, -⟩ := hmore
      rw [hpast]
      exact he
    | cons e'' more => simp at hmore
  · cases more with
    | nil =>
      simp only [List.append_nil, List.nil_append, List.cons.injEq] at hhist hmore
      obtain ⟨rfl, -⟩ := hmore
      rw [← hhist]
      exact he
    | cons e'' more =>
      rw [List.cons_append] at hmore
      obtain ⟨rfl, -⟩ := List.cons.inj hmore
      exact h past e' more hhist

end TimerEvent

namespace TaskProgram

/-! ## What can change a program -/

/-- One change of a program. -/
inductive Step : TaskProgram α σ → TaskProgram α σ → Prop where
  | remember (s client) : Step s { s with client := client }
  | read (s) : Step s (s.note (.read s.table.now))
  | asked (s key) : Step s (s.note (.asked key (s.table.isPending key)))
  | counted (s) : Step s (s.note (.counted s.table.pendingCount))
  | set (s key delay repeats action) :
      Step s (s.act (s.table.set key delay (if repeats then some delay else none) action)
        (.set key s.table.now delay repeats action))
  | cancel (s key) :
      Step s (s.act (s.table.cancel key) (.cancelled key (s.table.isPending key)))
  | cancelAll (s) : Step s (s.act s.table.cancelAll .cancelledAll)
  | fire (s target key task) : s.table.IsNext target key task →
      Step s (s.act (s.table.fire key task) (.fired key task.due task.action))
  | failed (s key text) : Step s (s.note (.failed key text))
  | rest (s target) : s.table.Quiet target →
      Step s { s with table := { s.table with now := target } }
  | advanced (s count) : s.table.Quiet s.table.now →
      Step s (s.note (.advanced s.table.now count))

abbrev Steps : TaskProgram α σ → TaskProgram α σ → Prop := Relation.ReflTransGen Step

theorem steps_noteFailure (s : TaskProgram α σ) (key : String) (failure : Option String) :
    Steps s (s.noteFailure key failure) := by
  cases failure with
  | none => exact .refl
  | some text => exact .single (.failed s key text)

/-- A run is a sequence of such changes. An advance ends at its target with nothing due by then. -/
theorem Performs.steps {behave : α → TimerScript ℚ α σ} {script : TimerScript ℚ α σ}
    {s s' : TaskProgram α σ} {failure : Option String}
    (h : Performs behave script s s' failure) : Steps s s' := by
  refine @Performs.rec α σ behave (fun _ s s' _ _ => Steps s s')
    (fun target s s' _ _ => Steps s s' ∧ s'.table.now = target ∧ s'.table.Quiet target)
    ?done ?recollect ?remember ?now ?schedule ?scheduleInterval ?cancel ?cancelAll ?isPending
    ?pendingCount ?advance ?rest ?fire script s s' failure h
  case done => exact fun {s failure} => .refl
  case recollect => exact fun _ ih => ih
  case remember => exact fun {s s' client next failure} _ ih => .head (.remember s client) ih
  case now => exact fun {s s' next failure} _ ih => .head (.read s) ih
  case schedule =>
    exact fun {s s' key delay action next failure} _ ih => .head (.set s key delay false action) ih
  case scheduleInterval =>
    exact fun {s s' key interval action next failure} _ ih =>
      .head (.set s key interval true action) ih
  case cancel => exact fun {s s' key next failure} _ ih => .head (.cancel s key) ih
  case cancelAll => exact fun {s s' next failure} _ ih => .head (.cancelAll s) ih
  case isPending => exact fun {s s' key next failure} _ ih => .head (.asked s key) ih
  case pendingCount => exact fun {s s' next failure} _ ih => .head (.counted s) ih
  case advance =>
    intro s s₁ s' seconds next count failure _ _ ihadv ih
    obtain ⟨hsteps, hnow, hquiet⟩ := ihadv
    exact hsteps.trans (.head (.advanced s₁ count (hnow ▸ hquiet)) ih)
  case rest =>
    intro target s hq
    exact ⟨.single (.rest s target hq), rfl, hq⟩
  case fire =>
    intro target s s₁ s' key task failure count hnext _ _ ihperform ihrest
    obtain ⟨hsteps, hend⟩ := ihrest
    refine ⟨.head (.fire s target key task hnext) (ihperform.trans ?_), hend⟩
    exact (steps_noteFailure s₁ key failure).trans hsteps

end TaskProgram

/-! ## What every change keeps -/

/-- What a task is going to do: when it goes off next, whether it does so again, and how. -/
def Task.plan {τ : Type} (task : Task τ α) : τ × Option τ × α := (task.due, task.interval, task.action)

def Standing.plan (st : Standing α) : Option (ℚ × Option ℚ × α) :=
  st.next?.map fun due => (due, if st.repeats then some st.delay else none, st.action)

namespace TaskProgram

open TimerEvent

/-- The tasks of a table are what stands for their keys and is still to go off. -/
structure Tracks (s : TaskProgram α σ) : Prop where
  tasks : ∀ key, (s.table.tasks.lookup key).map Task.plan =
    (standing key s.history).bind Standing.plan
  orderly : Orderly s.history

theorem tracks_start (client : σ) : Tracks (start client : TaskProgram α σ) where
  tasks := by simp [start, TaskTable.start, standing]
  orderly := orderly_nil

variable {s s' : TaskProgram α σ}

theorem Tracks.isPending (h : Tracks s) (key : String) :
    s.table.isPending key = awaited key s.history := by
  have hkey := congrArg Option.isSome (h.tasks key)
  rw [Option.isSome_map] at hkey
  rw [TaskTable.isPending, hkey, awaited]
  cases standing key s.history with
  | none => rfl
  | some st => simp [Standing.plan]

theorem Tracks.note (h : Tracks s) {e : TimerEvent ℚ α} (hfits : Fits s.history e)
    (hsame : ∀ key st?, after key st? e = st?) : Tracks (s.note e) where
  tasks key := by
    rw [TaskProgram.note, act, standing_append, hsame]
    exact h.tasks key
  orderly := h.orderly.append hfits

theorem Tracks.act_of_key (h : Tracks s) {table : TaskTable ℚ α} {e : TimerEvent ℚ α}
    (key : String) (hfits : Fits s.history e)
    (hkey : (table.tasks.lookup key).map Task.plan =
      (after key (standing key s.history) e).bind Standing.plan)
    (htable : ∀ other, other ≠ key → table.tasks.lookup other = s.table.tasks.lookup other)
    (hother : ∀ other st?, other ≠ key → after other st? e = st?) : Tracks (s.act table e) where
  tasks other := by
    rw [act, standing_append]
    by_cases hk : other = key
    · subst hk
      exact hkey
    · rw [htable other hk, hother other _ hk]
      exact h.tasks other
  orderly := h.orderly.append hfits

theorem Tracks.set (h : Tracks s) (key : String) (delay : ℚ) (repeats : Bool) (action : α) :
    Tracks (s.act (s.table.set key delay (if repeats then some delay else none) action)
      (.set key s.table.now delay repeats action)) := by
  refine h.act_of_key key trivial ?_ (fun other hk => ?_) (fun other st? hk => ?_)
  · rw [TaskTable.set, Finmap.lookup_insert]
    simp [after, Standing.plan, Standing.next?, Task.plan]
  · exact Finmap.lookup_insert_of_ne _ hk
  · simp [after, Ne.symm hk]

theorem Tracks.cancel (h : Tracks s) (key : String) :
    Tracks (s.act (s.table.cancel key) (.cancelled key (s.table.isPending key))) := by
  refine h.act_of_key key (h.isPending key) ?_ (fun other hk => ?_) (fun other st? hk => ?_)
  · rw [TaskTable.cancel, Finmap.lookup_erase]
    simp [after]
  · exact Finmap.lookup_erase_ne hk
  · simp [after, Ne.symm hk]

theorem Tracks.cancelAll (h : Tracks s) :
    Tracks (s.act s.table.cancelAll .cancelledAll) where
  tasks key := by
    rw [act, standing_append]
    simp [TaskTable.cancelAll, after]
  orderly := h.orderly.append trivial

theorem Tracks.standing_of_found (h : Tracks s) {key : String} {task : Task ℚ α}
    (hf : s.table.tasks.lookup key = some task) :
    ∃ st, standing key s.history = some st ∧ st.next? = some task.due ∧
      task.interval = (if st.repeats then some st.delay else none) ∧ st.action = task.action := by
  have hplan := h.tasks key
  rw [hf, Option.map_some] at hplan
  obtain ⟨st, hst, hplan⟩ := Option.bind_eq_some_iff.1 hplan.symm
  obtain ⟨due, hdue, he⟩ := Option.map_eq_some_iff.1 hplan
  simp only [Task.plan, Prod.mk.injEq] at he
  obtain ⟨rfl, hi, ha⟩ := he
  exact ⟨st, hst, hdue, hi.symm, ha⟩

theorem Tracks.fire (h : Tracks s) {key : String} {task : Task ℚ α}
    (hf : s.table.tasks.lookup key = some task) :
    Tracks (s.act (s.table.fire key task) (.fired key task.due task.action)) := by
  obtain ⟨st, hst, hdue, hinterval, haction⟩ := h.standing_of_found hf
  have hfits : Fits s.history (.fired key task.due task.action) := ⟨st, hst, haction, hdue⟩
  have hafter : after key (standing key s.history) (.fired key task.due task.action) =
      some { st with firings := st.firings + 1 } := by simp [after, hst]
  refine h.act_of_key key hfits ?_ (fun other hk => ?_) (fun other st? hk => ?_)
  · rw [hafter, Option.bind_some]
    cases hr : st.repeats with
    | false =>
      have hnone : task.interval = none := by simpa [hr] using hinterval
      rw [TaskTable.fire, hnone]
      simp [TaskTable.cancel, Standing.plan, Standing.next?]
    | true =>
      have hsome : task.interval = some st.delay := by simpa [hr] using hinterval
      have htime : task.due = st.start + (st.firings + 1) * st.delay := by
        simpa [Standing.next?, hr] using hdue.symm
      have hagain : task.due + st.delay = st.start + (((st.firings + 1 : ℕ) : ℚ) + 1) * st.delay := by
        rw [htime]
        push_cast
        ring
      rw [TaskTable.fire, hsome]
      simp only [TaskTable.set, Finmap.lookup_insert, Option.map_some, Task.plan, Standing.plan,
        Standing.next?, Bool.true_or, if_true, haction, hagain]
  · rw [TaskTable.fire]
    cases task.interval with
    | none => exact Finmap.lookup_erase_ne hk
    | some interval => exact Finmap.lookup_insert_of_ne _ hk
  · simp [after, Ne.symm hk]

theorem Tracks.fits_advanced (h : Tracks s) (hq : s.table.Quiet s.table.now) (count : Nat) :
    Fits s.history (.advanced s.table.now count) := by
  intro key st due hst hdue
  have hplan := h.tasks key
  rw [hst, Option.bind_some, Standing.plan, hdue, Option.map_some] at hplan
  obtain ⟨task, hf, he⟩ := Option.map_eq_some_iff.1 hplan
  rw [← (Prod.mk.inj he).1]
  exact hq key task hf

theorem Tracks.step (h : Tracks s) (hstep : Step s s') : Tracks s' := by
  cases hstep with
  | remember client => exact ⟨h.tasks, h.orderly⟩
  | read => exact h.note trivial fun _ _ => rfl
  | asked key => exact h.note (h.isPending key) fun _ _ => rfl
  | counted => exact h.note trivial fun _ _ => rfl
  | set key delay repeats action => exact h.set key delay repeats action
  | cancel key => exact h.cancel key
  | cancelAll => exact h.cancelAll
  | fire target key task hnext => exact h.fire hnext.found
  | failed key text => exact h.note trivial fun _ _ => rfl
  | rest target hq => exact ⟨h.tasks, h.orderly⟩
  | advanced count hq => exact h.note (h.fits_advanced hq count) fun _ _ => rfl

theorem Tracks.steps (h : Tracks s) (hsteps : Steps s s') : Tracks s' := by
  induction hsteps with
  | refl => exact h
  | tail _ hstep ih => exact ih.step hstep

/-- Every run from the start has an orderly history. -/
theorem Performs.orderly {behave : α → TimerScript ℚ α σ} {script : TimerScript ℚ α σ}
    {client : σ} {failure : Option String}
    (h : Performs behave script (start client) s' failure) : Orderly s'.history :=
  ((tracks_start client).steps h.steps).orderly

end TaskProgram
end DeclScan
