import DeclScan.Proofs.Timers.Execution
import DeclScan.Proofs.Timers.Steady
import Mathlib.Tactic.Linarith

/-!
# DeclScan.Proofs.Timers.Clock

The clock of timers whose scripts may advance it themselves, where no delay, interval or advance is
negative.

* `Timers.Ahead`: no timer that is going to go off has its time behind it. All that scripts ask for
  keeps this.
* `Execution.IsAhead`: beside this, the advances under way end at later and later times, the
  innermost first. It is lost when a script asks for an advance beyond the end of the innermost one
  (`StaysWithin`), and only then: the clock is at the end of an advance when it is over, so it goes
  back when an inner one went further.
* `Execution.clock_sorted_iff`: so that is when the clock goes back.
-/

namespace DeclScan

variable {τ α σ : Type} [Time τ]

namespace Timers

/-- No timer that is going to go off has its time behind it. Retired ones may. -/
structure Ahead (t : Timers τ α) : Prop where
  inOrder : t.queue.Pairwise fun a b => a.due ≤ b.due
  sequence_lt : ∀ timer ∈ t.queue, timer.sequence < t.nextSequence
  interval : ∀ timer ∈ t.queue, ∀ span, timer.interval = some span → Time.zero ≤ span
  due : ∀ timer ∈ t.queue, isLive t.live timer = true → t.now ≤ timer.due

variable {t t' : Timers τ α} {timer : Timer τ α} {queue rest : List (Timer τ α)} {live : Table Nat}
  {target : τ}

section Steady

variable [Time.Steady τ]

theorem inOrder_of_enqueue (h : queue.Pairwise fun a b => a.due ≤ b.due) :
    (enqueue timer queue).Pairwise fun a b => a.due ≤ b.due := by
  induction queue with
  | nil => exact List.pairwise_singleton _ _
  | cons first queue ih =>
    obtain ⟨hfirst, hrest⟩ := List.pairwise_cons.1 h
    rw [enqueue]
    split
    · rename_i hb
      have hle : timer.due ≤ first.due := by
        simp only [goesBefore, Bool.or_eq_true, Bool.and_eq_true, Bool.not_eq_true',
          decide_eq_true_eq, decide_eq_false_iff_not, Time.Steady.lt_iff_not_le, not_not] at hb
        rcases hb with hb | ⟨hb, -⟩
        · exact (Time.Steady.le_total _ _).resolve_right hb
        · exact hb
      refine List.pairwise_cons.2 ⟨fun other ho => ?_, h⟩
      rcases List.mem_cons.1 ho with rfl | ho
      · exact hle
      · exact Time.Steady.le_trans hle (hfirst other ho)
    · rename_i hb
      have hle : first.due ≤ timer.due := by
        by_contra hn
        exact hb (by simp [goesBefore, Time.Steady.lt_iff_not_le, hn])
      refine List.pairwise_cons.2 ⟨fun other ho => ?_, ih hrest⟩
      rcases mem_enqueue.1 ho with rfl | ho
      · exact hle
      · exact hfirst other ho

theorem le_due_of_nextDue?_eq_none (h : queue.Pairwise fun a b => a.due ≤ b.due)
    (hnone : nextDue? live target queue = none) :
    ∀ timer ∈ queue, isLive live timer = true → target ≤ timer.due := by
  induction queue with
  | nil => intro timer ht; cases ht
  | cons first queue ih =>
    obtain ⟨hfirst, hrest⟩ := List.pairwise_cons.1 h
    rw [nextDue?] at hnone
    intro timer ht hlive
    split at hnone
    · split at hnone
      · cases hnone
      · rename_i hdead
        rcases List.mem_cons.1 ht with rfl | ht
        · exact absurd hlive hdead
        · exact ih hrest hnone timer ht hlive
    · rename_i hlate
      have hlate : target ≤ first.due := (Time.Steady.le_total _ _).resolve_right hlate
      rcases List.mem_cons.1 ht with rfl | ht
      · exact hlate
      · exact Time.Steady.le_trans hlate (hfirst timer ht)

theorem Ahead.set (h : t.Ahead) {delay : τ} (hdelay : Time.zero ≤ delay) {interval : Option τ}
    (hinterval : ∀ span, interval = some span → Time.zero ≤ span) (key : String) (action : α) :
    (t.set key delay interval action).Ahead where
  inOrder := inOrder_of_enqueue h.inOrder
  sequence_lt timer ht := by
    rcases mem_enqueue.1 ht with rfl | ht
    · exact Nat.lt_succ_self _
    · exact Nat.lt_succ_of_lt (h.sequence_lt timer ht)
  interval timer ht := by
    rcases mem_enqueue.1 ht with rfl | ht
    · exact hinterval
    · exact h.interval timer ht
  due timer ht hlive := by
    rcases mem_enqueue.1 ht with rfl | ht
    · exact Time.Steady.le_add t.now hdelay
    · refine h.due timer ht (isLive_iff.2 ?_)
      have hlive : (Table.put key t.nextSequence t.live).get? timer.key = some timer.sequence :=
        isLive_iff.1 hlive
      by_cases hk : timer.key = key
      · rw [hk, Table.get?_put_self] at hlive
        exact absurd (Option.some.inj hlive).symm (h.sequence_lt timer ht).ne
      · rwa [Table.get?_put_of_ne hk] at hlive

omit [Time.Steady τ] in
theorem Ahead.cancel (h : t.Ahead) (key : String) : (t.cancel key).Ahead where
  inOrder := h.inOrder
  sequence_lt := h.sequence_lt
  interval := h.interval
  due timer ht hlive := by
    refine h.due timer ht (isLive_iff.2 ?_)
    have hlive : (t.live.erase key).get? timer.key = some timer.sequence := isLive_iff.1 hlive
    by_cases hk : timer.key = key
    · rw [hk, Table.get?_erase_self] at hlive
      cases hlive
    · rwa [Table.get?_erase_of_ne hk] at hlive

omit [Time.Steady τ] in
theorem Ahead.cancelAll (t : Timers τ α) : t.cancelAll.Ahead where
  inOrder := .nil
  sequence_lt _ ht := by cases ht
  interval _ ht := by cases ht
  due _ ht := by cases ht

omit [Time.Steady τ] in
theorem ahead_start (now : τ) : (start now : Timers τ α).Ahead := .cancelAll (start now)

theorem Ahead.popDue_eq_none (h : t.Ahead) (hpop : t.popDue target = none) :
    ({ t with now := target } : Timers τ α).Ahead where
  inOrder := h.inOrder
  sequence_lt := h.sequence_lt
  interval := h.interval
  due := by
    have hnone : nextDue? t.live target t.queue = none := by
      rw [popDue] at hpop
      split at hpop
      · assumption
      · split at hpop <;> cases hpop
    exact le_due_of_nextDue?_eq_none h.inOrder hnone

theorem Ahead.popDue_eq_some (h : t.Ahead) (hpop : t.popDue target = some (timer, t')) :
    t'.Ahead ∧ t.now ≤ t'.now ∧ t'.now ≤ target := by
  rw [popDue] at hpop
  cases hfound : nextDue? t.live target t.queue with
  | none => rw [hfound] at hpop; cases hpop
  | some found =>
    obtain ⟨first, rest⟩ := found
    obtain ⟨hdue, hlive, passed, hqueue⟩ := nextDue?_eq_append hfound
    have hfirst : first ∈ t.queue := by simp [hqueue]
    have hsuffix : rest.Sublist t.queue := nextDue?_sublist hfound
    have hsorted := h.inOrder
    rw [hqueue, List.pairwise_append, List.pairwise_cons] at hsorted
    have hmoved : ({ t with now := first.due, queue := rest } : Timers τ α).Ahead :=
      { inOrder := hsorted.2.1.2
        sequence_lt := fun timer ht => h.sequence_lt timer (hsuffix.subset ht)
        interval := fun timer ht => h.interval timer (hsuffix.subset ht)
        due := fun timer ht _ => hsorted.2.1.1 timer ht }
    have hnow : t.now ≤ first.due := h.due first hfirst hlive
    rw [hfound] at hpop
    cases hspan : first.interval with
    | none =>
      simp only [hspan] at hpop
      cases hpop
      exact ⟨hmoved.cancel timer.key, hnow, hdue⟩
    | some span =>
      simp only [hspan] at hpop
      cases hpop
      have hpositive := h.interval timer hfirst span hspan
      refine ⟨hmoved.set hpositive ?_ timer.key timer.action, hnow, hdue⟩
      rintro _ ⟨⟩
      exact hpositive

end Steady
end Timers

/-! ## One step -/

/-- What a script asks for first is not negative. -/
def TimerScript.AsksForward : TimerScript τ α σ → Prop
  | .schedule _ delay _ _ => Time.zero ≤ delay
  | .scheduleInterval _ interval _ _ => Time.zero ≤ interval
  | .advance seconds _ => Time.zero ≤ seconds
  | _ => True

/-- Nothing that a script asks for is negative, whatever the answers are. -/
def TimerScript.IsForward : TimerScript τ α σ → Prop
  | .done _ => True
  | .recollect next => ∀ client, (next client).IsForward
  | .remember _ next => next.IsForward
  | .now next => ∀ time, (next time).IsForward
  | .schedule _ delay _ next => Time.zero ≤ delay ∧ next.IsForward
  | .scheduleInterval _ interval _ next => Time.zero ≤ interval ∧ next.IsForward
  | .cancel _ next => ∀ was, (next was).IsForward
  | .cancelAll next => next.IsForward
  | .isPending _ next => ∀ pending, (next pending).IsForward
  | .pendingCount next => ∀ pending, (next pending).IsForward
  | .advance seconds next => Time.zero ≤ seconds ∧ ∀ count, (next count).IsForward

namespace Execution

open TimerProgram

def now (e : Execution τ α σ) : τ := e.program.timers.now

/-- When the advances under way are to end, the innermost first. -/
def targets (e : Execution τ α σ) : List τ := e.underWay.map Activation.target

/-- The values that the clock takes in so many steps. -/
def clockValues (behave : α → TimerScript τ α σ) : Nat → Execution τ α σ → List τ
  | 0, e => [e.now]
  | n + 1, e => e.now :: (step behave e).elim [] (clockValues behave n)

/-- If the script asks for something now, it is not negative. -/
def AsksForward (e : Execution τ α σ) : Prop := ∀ script ∈ e.script?, script.AsksForward

/-- If the script asks for an advance now, it ends no later than the innermost one under way. -/
def StaysWithin (e : Execution τ α σ) : Prop :=
  ∀ seconds next, e.script? = some (.advance seconds next) →
    ∀ target ∈ e.targets.head?, e.now + seconds ≤ target

/-- No time that is still to come is behind the clock. -/
structure IsAhead (e : Execution τ α σ) : Prop where
  timers : e.program.timers.Ahead
  targets : (e.now :: e.targets).Pairwise (· ≤ ·)

variable {behave : α → TimerScript τ α σ} {e e' : Execution τ α σ} {n : Nat}

theorem isAhead_start (client : σ) (script : TimerScript τ α σ) : (start client script).IsAhead where
  timers := Timers.ahead_start Time.zero
  targets := List.pairwise_singleton _ _

omit [Time τ] in
@[simp] theorem timers_noteFailure (p : TimerProgram τ α σ) (key : String)
    (failure : Option String) : (p.noteFailure key failure).timers = p.timers := by
  cases failure <;> rfl

section Steady

variable [Time.Steady τ]

theorem ahead_of_request {script rest : TimerScript τ α σ} {p r : TimerProgram τ α σ}
    (h : request script p = some (r, rest)) (hasks : script.AsksForward) (hp : p.timers.Ahead) :
    r.timers.Ahead ∧ r.timers.now = p.timers.now := by
  cases script with
  | done failure => cases h
  | advance seconds next => cases h
  | schedule key delay action next =>
    cases h
    refine ⟨hp.set hasks ?_ key action, rfl⟩
    rintro _ ⟨⟩
  | scheduleInterval key interval action next =>
    cases h
    refine ⟨hp.set hasks ?_ key action, rfl⟩
    rintro _ ⟨⟩
    exact hasks
  | cancel key next => cases h; exact ⟨hp.cancel key, rfl⟩
  | cancelAll next => cases h; exact ⟨.cancelAll _, rfl⟩
  | _ => cases h; exact ⟨hp, rfl⟩

theorem IsAhead.round {p : TimerProgram τ α σ} {a : Activation τ α σ}
    {outer : List (Activation τ α σ)} (h : IsAhead ⟨p, none, a :: outer⟩) :
    (round behave p a outer).IsAhead ∧ p.timers.now ≤ (round behave p a outer).now := by
  obtain ⟨hlater, htargets⟩ := List.pairwise_cons.1 h.targets
  cases hpop : p.timers.popDue a.target with
  | none =>
    rw [round_of_none hpop]
    exact ⟨⟨h.timers.popDue_eq_none hpop, htargets⟩, hlater a.target List.mem_cons_self⟩
  | some popped =>
    obtain ⟨timer, timers⟩ := popped
    obtain ⟨htimers, hnow, htarget⟩ := h.timers.popDue_eq_some hpop
    rw [round_of_some hpop]
    refine ⟨⟨htimers, List.pairwise_cons.2 ⟨fun target ht => ?_, htargets⟩⟩, hnow⟩
    rcases List.mem_cons.1 ht with rfl | ht
    · exact htarget
    · exact Time.Steady.le_trans htarget (List.rel_of_pairwise_cons htargets ht)

theorem IsAhead.opens {p : TimerProgram τ α σ} {seconds : τ} {next : Nat → TimerScript τ α σ}
    {outer : List (Activation τ α σ)} (h : IsAhead ⟨p, some (.advance seconds next), outer⟩)
    (hseconds : Time.zero ≤ seconds)
    (hwithin : StaysWithin ⟨p, some (.advance seconds next), outer⟩) :
    IsAhead ⟨p, none, ⟨p.timers.now + seconds, 0, "", next⟩ :: outer⟩ := by
  obtain ⟨hlater, htargets⟩ := List.pairwise_cons.1 h.targets
  have hend : p.timers.now ≤ p.timers.now + seconds := Time.Steady.le_add _ hseconds
  refine ⟨h.timers, List.pairwise_cons.2 ⟨fun target ht => ?_, List.pairwise_cons.2
    ⟨fun target ht => ?_, htargets⟩⟩⟩
  · rcases List.mem_cons.1 ht with rfl | ht
    · exact hend
    · exact hlater target ht
  · cases outer with
    | nil => cases ht
    | cons a outer =>
      have hfirst : p.timers.now + seconds ≤ a.target := hwithin seconds next rfl _ rfl
      rcases List.mem_cons.1 ht with rfl | ht
      · exact hfirst
      · exact Time.Steady.le_trans hfirst (List.rel_of_pairwise_cons htargets ht)

/-- A step that asks for nothing negative, and for no advance beyond the innermost one, does not move
the clock back. -/
theorem IsAhead.step (h : e.IsAhead) (hstep : step behave e = some e') (hasks : e.AsksForward)
    (hwithin : e.StaysWithin) : e'.IsAhead ∧ e.now ≤ e'.now := by
  have hrefl : e.now ≤ e.now := (Time.Steady.le_total _ _).elim id id
  rcases step_cases hstep with ⟨p, a, outer, rfl, rfl⟩ | ⟨p, failure, a, outer, rfl, rfl⟩ |
    ⟨p, seconds, next, outer, rfl, rfl⟩ | ⟨p, r, script, rest, outer, rfl, hrequest, rfl⟩
  · exact h.round
  · refine ⟨⟨?_, ?_⟩, ?_⟩
    · rw [timers_noteFailure]
      exact h.timers
    · rw [now, timers_noteFailure]
      exact h.targets
    · rw [now, now, timers_noteFailure]
      exact hrefl
  · exact ⟨h.opens (hasks _ rfl) hwithin, hrefl⟩
  · obtain ⟨htimers, hnow⟩ := ahead_of_request hrequest (hasks script rfl) h.timers
    refine ⟨⟨htimers, ?_⟩, ?_⟩
    · rw [now, hnow]
      exact h.targets
    · rw [now, now, hnow]
      exact hrefl

end Steady

/-! ## Runs -/

theorem exists_clockValues_eq_cons (behave : α → TimerScript τ α σ) (n : Nat)
    (e : Execution τ α σ) : ∃ later, clockValues behave n e = e.now :: later := by
  cases n with
  | zero => exact ⟨[], rfl⟩
  | succ n => exact ⟨_, rfl⟩

theorem clockValues_succ (h : step behave e = some e') :
    clockValues behave (n + 1) e = e.now :: clockValues behave n e' := by
  rw [clockValues, h, Option.elim_some]

theorem IsAhead.clockValues_sorted [Time.Steady τ] (n : Nat) :
    ∀ {e : Execution τ α σ}, e.IsAhead →
      (∀ m < n, ∀ d, after behave m e = some d → d.AsksForward ∧ d.StaysWithin) →
      (clockValues behave n e).Pairwise (· ≤ ·) := by
  induction n with
  | zero => exact fun _ _ => List.pairwise_singleton _ _
  | succ n ih =>
    intro e he hway
    obtain ⟨hasks, hwithin⟩ := hway 0 (Nat.succ_pos n) e rfl
    cases hstep : Execution.step behave e with
    | none =>
      rw [clockValues, hstep]
      exact List.pairwise_singleton _ _
    | some e' =>
      obtain ⟨he', hnow⟩ := he.step hstep hasks hwithin
      have hsorted := ih he' fun m hm d hd =>
        hway (m + 1) (Nat.succ_lt_succ hm) d ((after_succ hstep).trans hd)
      rw [clockValues_succ hstep]
      refine List.pairwise_cons.2 ⟨fun value hvalue => ?_, hsorted⟩
      obtain ⟨later, hlater⟩ := exists_clockValues_eq_cons behave n e'
      rw [hlater] at hvalue hsorted
      rcases List.mem_cons.1 hvalue with rfl | hvalue
      · exact hnow
      · exact Time.Steady.le_trans hnow (List.rel_of_pairwise_cons hsorted hvalue)

/-- By the end of a run, the clock was at the end of every advance that was under way, of the
innermost first. -/
theorem targets_sublist_clockValues (n : Nat) :
    ∀ {e d : Execution τ α σ}, after behave n e = some d → d.IsOver →
      (e.now :: e.targets).Sublist (clockValues behave n e) := by
  induction n with
  | zero =>
    rintro e d h ⟨p, failure, rfl⟩
    cases h
    exact List.Sublist.refl _
  | succ n ih =>
    intro e d h hover
    cases hstep : step behave e with
    | none => rw [after, hstep] at h; cases h
    | some e' =>
      rw [after_succ hstep] at h
      rw [clockValues_succ hstep]
      refine List.Sublist.cons_cons _ (List.Sublist.trans ?_ (ih h hover))
      rcases step_cases hstep with ⟨p, a, outer, rfl, rfl⟩ | ⟨p, failure, a, outer, rfl, rfl⟩ |
        ⟨p, seconds, next, outer, rfl, rfl⟩ | ⟨p, r, script, rest, outer, rfl, hrequest, rfl⟩
      · cases hpop : p.timers.popDue a.target with
        | none =>
          rw [round_of_none hpop]
          exact List.Sublist.refl _
        | some popped =>
          rw [round_of_some hpop]
          exact List.sublist_cons_self _ _
      · exact List.sublist_cons_self _ _
      · exact (List.sublist_cons_self _ _).trans (List.sublist_cons_self _ _)
      · exact List.sublist_cons_self _ _

/-- If the clock never goes back in a run that comes to its end, then every advance stayed within
the one that it was asked for in. -/
theorem staysWithin_of_sorted {d : Execution τ α σ} (hover : d.IsOver) (n : Nat) :
    ∀ {e : Execution τ α σ}, after behave n e = some d →
      (clockValues behave n e).Pairwise (· ≤ ·) →
      ∀ m < n, ∀ d, after behave m e = some d → d.StaysWithin := by
  induction n with
  | zero => exact fun _ _ m hm => absurd hm (Nat.not_lt_zero m)
  | succ n ih =>
    intro e h hsorted m hm d hd
    cases hstep : step behave e with
    | none => rw [after, hstep] at h; cases h
    | some e' =>
      rw [after_succ hstep] at h
      rw [clockValues_succ hstep] at hsorted
      have hlater := (List.pairwise_cons.1 hsorted).2
      cases m with
      | succ m =>
        rw [after_succ hstep] at hd
        exact ih h hlater m (Nat.lt_of_succ_lt_succ hm) d hd
      | zero =>
        cases hd
        intro seconds next hscript target htarget
        obtain ⟨p, script?, outer⟩ := e
        cases hscript
        rw [← Option.some.inj hstep] at h hlater
        have hends := hlater.sublist (targets_sublist_clockValues n h hover)
        exact List.rel_of_pairwise_cons (List.pairwise_cons.1 hends).2 (List.mem_of_mem_head? htarget)

/-! ## Scripts that ask for nothing negative -/

theorem isForward_of_request {script rest : TimerScript τ α σ} {p r : TimerProgram τ α σ}
    (h : request script p = some (r, rest)) (hscript : script.IsForward) : rest.IsForward := by
  cases script with
  | done failure => cases h
  | advance seconds next => cases h
  | remember client next => cases h; exact hscript
  | cancelAll next => cases h; exact hscript
  | schedule key delay action next => cases h; exact hscript.2
  | scheduleInterval key interval action next => cases h; exact hscript.2
  | _ => cases h; exact hscript _

/-- The script, and how the scripts around it go on, ask for nothing negative. -/
structure IsForward (e : Execution τ α σ) : Prop where
  script : ∀ script ∈ e.script?, script.IsForward
  next : ∀ a ∈ e.underWay, ∀ count, (a.next count).IsForward

theorem IsForward.step (hbehave : ∀ action, (behave action).IsForward) (h : e.IsForward)
    (hstep : step behave e = some e') : e'.IsForward := by
  obtain ⟨hscript, hnext⟩ := h
  rcases step_cases hstep with ⟨p, a, outer, rfl, rfl⟩ | ⟨p, failure, a, outer, rfl, rfl⟩ |
    ⟨p, seconds, next, outer, rfl, rfl⟩ | ⟨p, r, script, rest, outer, rfl, hrequest, rfl⟩
  · obtain ⟨hfirst, houter⟩ := List.forall_mem_cons.1 hnext
    cases hpop : p.timers.popDue a.target with
    | none =>
      rw [round_of_none hpop]
      refine ⟨?_, houter⟩
      rintro _ ⟨⟩
      exact hfirst a.count
    | some popped =>
      rw [round_of_some hpop]
      refine ⟨?_, List.forall_mem_cons.2 ⟨hfirst, houter⟩⟩
      rintro _ ⟨⟩
      exact hbehave popped.1.action
  · refine ⟨?_, hnext⟩
    rintro _ ⟨⟩
  · refine ⟨?_, List.forall_mem_cons.2 ⟨(hscript _ rfl).2, hnext⟩⟩
    rintro _ ⟨⟩
  · refine ⟨?_, hnext⟩
    rintro _ ⟨⟩
    exact isForward_of_request hrequest (hscript script rfl)

theorem IsForward.after (hbehave : ∀ action, (behave action).IsForward) (n : Nat) :
    ∀ {e d : Execution τ α σ}, e.IsForward → after behave n e = some d → d.IsForward := by
  induction n with
  | zero => intro e d he h; cases h; exact he
  | succ n ih =>
    intro e d he h
    cases hstep : Execution.step behave e with
    | none => rw [Execution.after, hstep] at h; cases h
    | some e' =>
      rw [after_succ hstep] at h
      exact ih (he.step hbehave hstep) h

theorem IsForward.asksForward (h : e.IsForward) : e.AsksForward := by
  intro script hscript
  have hforward := h.script script hscript
  cases script with
  | schedule key delay action next => exact hforward.1
  | scheduleInterval key interval action next => exact hforward.1
  | advance seconds next => exact hforward.1
  | _ => trivial

theorem asksForward_of_isForward (hbehave : ∀ action, (behave action).IsForward) (client : σ)
    {script : TimerScript τ α σ} (hscript : script.IsForward) :
    ∀ n e, after behave n (start client script) = some e → e.AsksForward := by
  intro n e h
  have hstart : (start client script).IsForward := by
    refine ⟨?_, fun _ ha => by cases ha⟩
    rintro _ ⟨⟩
    exact hscript
  exact (hstart.after hbehave n h).asksForward

/-! ## The clock of a run -/

theorem now_of_advanceTo {target : τ} (fuel : Nat) :
    ∀ {p r : TimerProgram τ α σ} {count : Nat},
      (host behave).advanceTo fuel target p = some (r, count) → r.timers.now = target := by
  induction fuel with
  | zero => intro p r count h; cases h
  | succ fuel ih =>
    intro p r count h
    rcases Host.advanceTo_cases h with ⟨-, rfl, -⟩ | ⟨timer, timers, p', later, -, -, hlater, -⟩
    · rfl
    · exact ih hlater

/-- Where nothing negative is asked for: as long as every advance stays within the one that it is
asked for in, the clock does not go back, also in runs without an end. A run that comes to its end,
which is what is carried out with some fuel, has the clock go back just if an advance does not stay
within. And every advance leaves the clock exactly so much later than it was. -/
theorem clock_sorted_iff [Time.Steady τ] (behave : α → TimerScript τ α σ) (client : σ)
    (script : TimerScript τ α σ)
    (hasks : ∀ n e, after behave n (start client script) = some e → e.AsksForward) :
    (∀ n, (∀ m < n, ∀ e, after behave m (start client script) = some e → e.StaysWithin) →
      (clockValues behave n (start client script)).Pairwise (· ≤ ·)) ∧
    (∀ r failure, (∃ fuel,
        (TimerProgram.start client).carryOut behave fuel script = some (r, failure)) ↔
      ∃ n, after behave n (start client script) = some ⟨r, some (.done failure), []⟩) ∧
    (∀ n r failure, after behave n (start client script) = some ⟨r, some (.done failure), []⟩ →
      ((clockValues behave n (start client script)).Pairwise (· ≤ ·) ↔
        ∀ m < n, ∀ e, after behave m (start client script) = some e → e.StaysWithin)) ∧
    ∀ fuel seconds (p r : TimerProgram τ α σ) count,
      p.advance behave fuel seconds = some (r, count) → r.timers.now = p.timers.now + seconds := by
  have hforward : ∀ n,
      (∀ m < n, ∀ e, after behave m (start client script) = some e → e.StaysWithin) →
      (clockValues behave n (start client script)).Pairwise (· ≤ ·) := fun n hwithin =>
    (isAhead_start client script).clockValues_sorted n fun m hm e he =>
      ⟨hasks m e he, hwithin m hm e he⟩
  refine ⟨hforward, fun r failure => carryOut_iff_after, fun n r failure h => ?_,
    fun fuel seconds p r count h => now_of_advanceTo fuel h⟩
  exact ⟨staysWithin_of_sorted ⟨r, failure, rfl⟩ n h, hforward n⟩

namespace Nested

/-- Two timers, at 1 and at 5; the first one advances the clock when it goes off. -/
def alarms : TimerScript ℚ Bool Unit :=
  .schedule "a" 1 true (.schedule "b" 5 false (.advance 2 fun _ => .done none))

def ring (seconds : ℚ) : Bool → TimerScript ℚ Bool Unit
  | true => .advance seconds fun _ => .done none
  | false => .done none

theorem isForward_alarms : alarms.IsForward := by
  simp only [alarms, TimerScript.IsForward, Time.zero]
  norm_num

theorem isForward_ring {seconds : ℚ} (h : 0 ≤ seconds) (action : Bool) :
    (ring seconds action).IsForward := by
  cases action
  · trivial
  · exact ⟨h, fun _ => trivial⟩

/-- An inner advance that ends with the outer one. -/
theorem clock_sorted :
    (∀ n e, after (ring 1) n (start () alarms) = some e → e.AsksForward) ∧
      clockValues (ring 1) 8 (start () alarms) = [0, 0, 0, 0, 1, 1, 2, 2, 2] ∧
      (clockValues (ring 1) 8 (start () alarms)).Pairwise (· ≤ ·) ∧
      ∀ m < 8, ∀ e, after (ring 1) m (start () alarms) = some e → e.StaysWithin := by
  have hasks := asksForward_of_isForward (isForward_ring (zero_le_one)) () isForward_alarms
  have hvalues : clockValues (ring 1) 8 (start () alarms) = [0, 0, 0, 0, 1, 1, 2, 2, 2] := by
    decide +kernel
  have hsorted : (clockValues (ring 1) 8 (start () alarms)).Pairwise (· ≤ ·) := by
    rw [hvalues]
    decide +kernel
  obtain ⟨r, hr⟩ : ∃ r, after (ring 1) 8 (start () alarms) = some ⟨r, some (.done none), []⟩ :=
    ⟨_, by with_unfolding_all rfl⟩
  have hwithin := (clock_sorted_iff (ring 1) () alarms hasks).2.2.1 8 r none hr
  exact ⟨hasks, hvalues, hsorted, hwithin.1 hsorted⟩

/-- The inner advance goes on to 11, and the outer one sets the clock back to 2. -/
theorem clock_back :
    (∀ n e, after (ring 10) n (start () alarms) = some e → e.AsksForward) ∧
      clockValues (ring 10) 10 (start () alarms) = [0, 0, 0, 0, 1, 1, 5, 5, 11, 11, 2] ∧
      ¬ (clockValues (ring 10) 10 (start () alarms)).Pairwise (· ≤ ·) := by
  have hvalues : clockValues (ring 10) 10 (start () alarms) = [0, 0, 0, 0, 1, 1, 5, 5, 11, 11, 2] := by
    decide +kernel
  refine ⟨asksForward_of_isForward (isForward_ring (by norm_num)) () isForward_alarms, hvalues, ?_⟩
  rw [hvalues]
  decide +kernel

end Nested

end Execution
end DeclScan
