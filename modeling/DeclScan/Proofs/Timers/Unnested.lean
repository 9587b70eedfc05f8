import DeclScan.Proofs.Timers.Repeating
import DeclScan.Proofs.Timers.Simulation

/-!
# DeclScan.Proofs.Timers.Unnested

Timers whose scripts leave the clock alone, so that there is one advance at a time.

* `TimerScript.IsRegular`: what is asked of a script.
* `TaskTable.Changes`: what such a script does to the tasks.
* `TimerProgram.perform_of_isRegular`: it comes to its end, however an advance would be done.
* `TimerProgram.Matches.goesOff`: so a timer that goes off does the same in every advance in which it
  is due.
-/

namespace DeclScan

variable {α σ : Type}

/-- A script that does not advance the clock, and sets only actions with a property and positive
intervals, whatever the answers are. -/
def TimerScript.IsRegular (p : α → Prop) : TimerScript ℚ α σ → Prop
  | .done _ => True
  | .recollect next => ∀ client, (next client).IsRegular p
  | .remember _ next => next.IsRegular p
  | .now next => ∀ time, (next time).IsRegular p
  | .schedule _ _ action next => p action ∧ next.IsRegular p
  | .scheduleInterval _ interval action next => 0 < interval ∧ p action ∧ next.IsRegular p
  | .cancel _ next => ∀ was, (next was).IsRegular p
  | .cancelAll next => next.IsRegular p
  | .isPending _ next => ∀ pending, (next pending).IsRegular p
  | .pendingCount next => ∀ pending, (next pending).IsRegular p
  | .advance _ _ => False

/-- The timers that are going to go off have positive intervals and actions with a property. -/
def Timers.IsRegular (t : Timers ℚ α) (p : α → Prop) : Prop :=
  ∀ timer ∈ t.queue, Timers.isLive t.live timer = true →
    (∀ interval, timer.interval = some interval → 0 < interval) ∧ p timer.action

namespace TaskTable

/-- Intervals are positive, and all actions have a property. -/
def IsRegular (a : TaskTable ℚ α) (p : α → Prop) : Prop :=
  a.All fun task => (∀ interval, task.interval = some interval → 0 < interval) ∧ p task.action

/-- What a script that does not advance the clock can do to the tasks. -/
inductive Changes (p : α → Prop) : TaskTable ℚ α → TaskTable ℚ α → Prop where
  | refl {a} : Changes p a a
  | set {a a' key delay interval action} :
      (∀ span, interval = some span → 0 < span) → p action →
      Changes p (a.set key delay interval action) a' → Changes p a a'
  | cancel {a a' key} : Changes p (a.cancel key) a' → Changes p a a'
  | cancelAll {a a'} : Changes p a.cancelAll a' → Changes p a a'

variable {a a' : TaskTable ℚ α} {p q : α → Prop} {key : String}

theorem Changes.mono (h : Changes p a a') (hpq : ∀ action, p action → q action) :
    Changes q a a' := by
  induction h with
  | refl => exact .refl
  | set hpos haction _ ih => exact .set hpos (hpq _ haction) ih
  | cancel _ ih => exact .cancel ih
  | cancelAll _ ih => exact .cancelAll ih

theorem Changes.isRegular (h : Changes p a a') (ha : a.IsRegular p) : a'.IsRegular p := by
  induction h with
  | refl => exact ha
  | set hpos haction _ ih => exact ih (ha.set ⟨hpos, haction⟩ _)
  | cancel _ ih => exact ih (ha.cancel _)
  | cancelAll _ ih => exact ih (all_cancelAll _)

theorem IsRegular.fire (h : a.IsRegular p) {task : Task ℚ α} (hf : a.tasks.lookup key = some task) :
    (a.fire key task).IsRegular p := by
  refine All.fire h fun interval hi => ⟨?_, (h key task hf).2⟩
  rintro _ ⟨⟩
  exact (h key task hf).1 interval hi

end TaskTable

theorem Timers.RepresentsOn.isRegular_iff {t : Timers ℚ α} {a : TaskTable ℚ α} {p : α → Prop}
    (h : t.Represents a) : t.IsRegular p ↔ a.IsRegular p := by
  constructor
  · intro ht key task hf
    obtain ⟨hqueue, hlive⟩ := (h.queued (task.timer key) trivial).2 hf
    exact ht _ hqueue hlive
  · intro ha timer hqueue hlive
    exact ha timer.key timer.task ((h.queued timer trivial).1 ⟨hqueue, hlive⟩)

namespace TimerProgram

variable {behave : α → TimerScript ℚ α σ} {p r : TimerProgram ℚ α σ} {s : TaskProgram α σ}
  {P : α → Prop}

/-- What scripts and advances can lead to, one after the other; they may fail, and the scripts may
do anything. -/
inductive Reachable (behave : α → TimerScript ℚ α σ) : TimerProgram ℚ α σ → Prop where
  | start (client) : Reachable behave (start client)
  | script {p r fuel script failure} : Reachable behave p →
      p.carryOut behave fuel script = some (r, failure) → Reachable behave r
  | advance {p r fuel seconds count} : Reachable behave p →
      TimerProgram.advance behave fuel seconds p = some (r, count) → Reachable behave r

theorem Reachable.exists_matches (h : Reachable behave p) : ∃ s, Matches p s := by
  induction h with
  | start client => exact ⟨_, matches_start client⟩
  | script _ hrun ih =>
    obtain ⟨s, hs⟩ := ih
    obtain ⟨s', -, hs'⟩ := perform_sound advance_sound _ hrun hs
    exact ⟨s', hs'⟩
  | advance _ hrun ih =>
    obtain ⟨s, hs⟩ := ih
    obtain ⟨s', -, hs'⟩ := advance_sound hrun hs
    exact ⟨s', hs'⟩

/-- A script that does not advance the clock comes to its end, and makes no use of how that is
done. -/
theorem perform_of_isRegular (script : TimerScript ℚ α σ) :
    ∀ {p s}, script.IsRegular P → Matches p s →
      ∃ r failure s', (∀ again, perform again script p = some (r, failure)) ∧ Matches r s' ∧
        s.table.Changes P s'.table := by
  induction script with
  | done failure => exact fun {p s} _ hm => ⟨p, failure, s, fun _ => rfl, hm, .refl⟩
  | recollect next ih => exact fun {p s} hscript hm => ih _ (hscript p.client) hm
  | remember client next ih =>
    intro p s hscript hm
    obtain ⟨r, failure, s', hrun, hm', hchanges⟩ := ih hscript (hm.remember client)
    exact ⟨r, failure, s', hrun, hm', hchanges⟩
  | now next ih =>
    intro p s hscript hm
    obtain ⟨r, failure, s', hrun, hm', hchanges⟩ := ih _ (hscript p.timers.now) (hm.note (.read _))
    exact ⟨r, failure, s', hrun, hm', hchanges⟩
  | schedule key delay action next ih =>
    intro p s ⟨haction, hnext⟩ hm
    obtain ⟨r, failure, s', hrun, hm', hchanges⟩ :=
      ih hnext (hm.act ((hm.timers.mono fun _ _ => trivial).set delay none action)
        (.set key p.timers.now delay false action))
    refine ⟨r, failure, s', hrun, hm', .set ?_ haction hchanges⟩
    rintro _ ⟨⟩
  | scheduleInterval key interval action next ih =>
    intro p s ⟨hpos, haction, hnext⟩ hm
    obtain ⟨r, failure, s', hrun, hm', hchanges⟩ :=
      ih hnext (hm.act ((hm.timers.mono fun _ _ => trivial).set interval (some interval) action)
        (.set key p.timers.now interval true action))
    refine ⟨r, failure, s', hrun, hm', .set ?_ haction hchanges⟩
    rintro _ ⟨⟩
    exact hpos
  | cancel key next ih =>
    intro p s hscript hm
    obtain ⟨r, failure, s', hrun, hm', hchanges⟩ :=
      ih _ (hscript (p.timers.isPending key))
        (hm.act (hm.timers.mono fun _ _ => trivial).cancel (.cancelled key _))
    exact ⟨r, failure, s', hrun, hm', .cancel hchanges⟩
  | cancelAll next ih =>
    intro p s hscript hm
    obtain ⟨r, failure, s', hrun, hm', hchanges⟩ :=
      ih hscript (hm.act hm.timers.cancelAll .cancelledAll)
    exact ⟨r, failure, s', hrun, hm', .cancelAll hchanges⟩
  | isPending key next ih =>
    intro p s hscript hm
    obtain ⟨r, failure, s', hrun, hm', hchanges⟩ :=
      ih _ (hscript (p.timers.isPending key)) (hm.note (.asked key _))
    exact ⟨r, failure, s', hrun, hm', hchanges⟩
  | pendingCount next ih =>
    intro p s hscript hm
    obtain ⟨r, failure, s', hrun, hm', hchanges⟩ :=
      ih _ (hscript p.timers.pendingCount) (hm.note (.counted _))
    exact ⟨r, failure, s', hrun, hm', hchanges⟩
  | advance seconds next => exact fun hscript => hscript.elim

/-- With all sufficiently large fuel, advancing the clock to a time leads from `p` to `r`, and so many
timers go off. -/
def AdvancesTo (behave : α → TimerScript ℚ α σ) (target : ℚ) (p r : TimerProgram ℚ α σ)
    (count : ℕ) : Prop :=
  ∃ enough, ∀ fuel, enough ≤ fuel → (host behave).advanceTo fuel target p = some (r, count)

/-- With all sufficiently large fuel, advancing the clock by a time leads from `p` to `r`, and so many
timers go off. -/
def AdvancesBy (behave : α → TimerScript ℚ α σ) (seconds : ℚ) (p r : TimerProgram ℚ α σ)
    (count : ℕ) : Prop :=
  ∃ enough, ∀ fuel, enough ≤ fuel → p.advance behave fuel seconds = some (r, count)

/-- The timer that goes off next, and the state in which it has done so. -/
structure GoesOff (behave : α → TimerScript ℚ α σ) (p : TimerProgram ℚ α σ) (timer : Timer ℚ α)
    (timers : Timers ℚ α) (r : TimerProgram ℚ α σ) : Prop where
  advanceTo_eq : ∀ target, p.timers.popDue target = some (timer, timers) → ∀ fuel,
    (host behave).advanceTo (fuel + 1) target p =
      ((host behave).advanceTo fuel target r).map fun (r, count) => (r, count + 1)

variable {target : ℚ} {timer : Timer ℚ α} {timers : Timers ℚ α} {count : ℕ}

/-- The script of a timer that goes off comes to its end, and the advance goes on. That is the same
for every target by which the timer is the next one. -/
theorem Matches.goesOff (hm : Matches p s)
    (hpop : p.timers.popDue target = some (timer, timers))
    (hscript : (behave timer.action).IsRegular P) :
    ∃ r s', GoesOff behave p timer timers r ∧ Matches r s' ∧
      (s.table.fire timer.key timer.task).Changes P s'.table := by
  obtain ⟨-, -, hrep⟩ := hm.timers.popDue_eq_some hpop
  obtain ⟨r, failure, s', hrun, hm', hchanges⟩ := perform_of_isRegular _ hscript
    (hm.act hrep (.fired timer.key timers.now timer.action))
  have htable : (s'.noteFailure timer.key failure).table = s'.table := by
    cases failure <;> rfl
  refine ⟨_, _, ⟨fun target hpop fuel => ?_⟩, hm'.noteFailure timer.key failure, htable ▸ hchanges⟩
  rw [advanceTo_of_popDue_eq_some hpop, hrun, Option.bind_some]

theorem advancesTo_of_none (hpop : p.timers.popDue target = none) :
    AdvancesTo behave target p { p with timers := { p.timers with now := target } } 0 := by
  refine ⟨1, fun fuel hfuel => ?_⟩
  obtain ⟨fuel, rfl⟩ := Nat.exists_eq_add_of_le' hfuel
  exact advanceTo_of_popDue_eq_none hpop fuel

theorem AdvancesTo.eq_of_none (hpop : p.timers.popDue target = none)
    (h : AdvancesTo behave target p r count) :
    r = { p with timers := { p.timers with now := target } } ∧ count = 0 := by
  obtain ⟨enough, hrun⟩ := h
  have hlast := hrun (enough + 1) (Nat.le_succ enough)
  rw [advanceTo_of_popDue_eq_none hpop] at hlast
  cases hlast
  exact ⟨rfl, rfl⟩

theorem GoesOff.advancesTo {q : TimerProgram ℚ α σ} (h : GoesOff behave p timer timers q)
    (hpop : p.timers.popDue target = some (timer, timers))
    (hrest : AdvancesTo behave target q r count) : AdvancesTo behave target p r (count + 1) := by
  obtain ⟨enough, hrun⟩ := hrest
  refine ⟨enough + 1, fun fuel hfuel => ?_⟩
  obtain ⟨fuel, rfl⟩ := Nat.exists_eq_add_of_le' (Nat.le_trans (Nat.le_add_left 1 _) hfuel)
  rw [h.advanceTo_eq target hpop, hrun fuel (Nat.le_of_succ_le_succ hfuel), Option.map_some]

theorem GoesOff.exists_advancesTo {q : TimerProgram ℚ α σ} (h : GoesOff behave p timer timers q)
    (hpop : p.timers.popDue target = some (timer, timers)) (hrun : AdvancesTo behave target p r count) :
    ∃ later, AdvancesTo behave target q r later ∧ count = later + 1 := by
  obtain ⟨enough, hrun⟩ := hrun
  have hlater : ∀ fuel, enough ≤ fuel → ∃ later,
      (host behave).advanceTo fuel target q = some (r, later) ∧ count = later + 1 := by
    intro fuel hfuel
    have hfirst := hrun (fuel + 1) (Nat.le_succ_of_le hfuel)
    rw [h.advanceTo_eq target hpop] at hfirst
    obtain ⟨⟨r', later⟩, hlater, he⟩ := Option.map_eq_some_iff.1 hfirst
    cases he
    exact ⟨later, hlater, rfl⟩
  obtain ⟨later, -, rfl⟩ := hlater enough (Nat.le_refl enough)
  refine ⟨later, ⟨enough, fun fuel hfuel => ?_⟩, rfl⟩
  obtain ⟨later', hlater', he⟩ := hlater fuel hfuel
  rwa [Nat.succ.inj he]

end TimerProgram
end DeclScan
