import DeclScan.Proofs.Timers.Clock
import DeclScan.Proofs.Timers.Unnested

/-!
# DeclScan.Proofs.Timers.Stages

An advance in stages. Where no script advances the clock, stopping on the way makes no difference:
the stages together do what one advance by the whole time does, and come to their end just if that
one does.

* `advanceTo_setNow`: an advance makes no use of the time that the clock shows.
* `popDue_of_le`: what is next by a time is next by all later ones.
* `TimerProgram.advance_add`: so an advance can be cut anywhere, at the time of a timer too.
-/

namespace DeclScan

variable {α σ : Type}

namespace Timers

variable {t t' : Timers ℚ α} {target later : ℚ} {timer : Timer ℚ α}

theorem nextDue?_of_le {live : Table Nat} {queue rest : List (Timer ℚ α)} (hle : target ≤ later)
    (h : nextDue? live target queue = some (timer, rest)) :
    nextDue? live later queue = some (timer, rest) := by
  induction queue with
  | nil => cases h
  | cons first queue ih =>
    rw [nextDue?] at h ⊢
    split at h
    · rename_i hdue
      rw [if_pos (hdue.trans hle)]
      split at h
      · rename_i hlive
        rw [if_pos hlive]
        exact h
      · rename_i hdead
        rw [if_neg hdead]
        exact ih h
    · cases h

theorem popDue_of_le (hle : target ≤ later) (h : t.popDue target = some (timer, t')) :
    t.popDue later = some (timer, t') := by
  rw [popDue] at h ⊢
  cases hfound : nextDue? t.live target t.queue with
  | none => rw [hfound] at h; cases h
  | some found =>
    rw [nextDue?_of_le hle hfound]
    rwa [hfound] at h

end Timers

namespace TimerProgram

variable {behave : α → TimerScript ℚ α σ} {P : α → Prop} {p q r : TimerProgram ℚ α σ}
  {s : TaskProgram α σ} {target later : ℚ} {fuel m n count : ℕ}

theorem advanceTo_setNow (now : ℚ) (fuel : ℕ) (target : ℚ) (p : TimerProgram ℚ α σ) :
    (host behave).advanceTo fuel target { p with timers := { p.timers with now := now } } =
      (host behave).advanceTo fuel target p := by
  cases fuel <;> rfl

theorem advancesTo_setNow_iff (now : ℚ) : AdvancesTo behave target
    { p with timers := { p.timers with now := now } } r count ↔ AdvancesTo behave target p r count := by
  simp only [AdvancesTo, advanceTo_setNow]

theorem advancesTo_iff_between (hbehave : ∀ action, P action → (behave action).IsRegular P)
    (hle : target ≤ later) (hm : Matches p s) (hs : s.table.IsRegular P) :
    AdvancesTo behave later p r count ↔
      ∃ q m n, AdvancesTo behave target p q m ∧ AdvancesTo behave later q r n ∧ m + n = count := by
  -- on the number of timers that go off, of which those up to the stop are the first
  induction count using Nat.strong_induction_on generalizing p s with
  | _ count ih =>
    cases hpop : p.timers.popDue target with
    | none =>
      constructor
      · intro hrun
        exact ⟨_, 0, count, advancesTo_of_none hpop, (advancesTo_setNow_iff target).2 hrun,
          Nat.zero_add count⟩
      · rintro ⟨q, m, n, hfirst, hrest, rfl⟩
        obtain ⟨rfl, rfl⟩ := hfirst.eq_of_none hpop
        rw [Nat.zero_add]
        exact (advancesTo_setNow_iff target).1 hrest
    | some popped =>
      obtain ⟨timer, timers⟩ := popped
      have hpop' := Timers.popDue_of_le hle hpop
      obtain ⟨hnext, -, -⟩ := hm.timers.popDue_eq_some hpop
      obtain ⟨p', s', hgo, hm', hchanges⟩ := hm.goesOff hpop (hbehave _ (hs _ _ hnext.found).2)
      have hregular := hchanges.isRegular (hs.fire hnext.found)
      constructor
      · intro hrun
        obtain ⟨count, hrun', rfl⟩ := hgo.exists_advancesTo hpop' hrun
        obtain ⟨q, m, n, hfirst, hrest, rfl⟩ :=
          (ih count (Nat.lt_succ_self count) hm' hregular).1 hrun'
        exact ⟨q, m + 1, n, hgo.advancesTo hpop hfirst, hrest, Nat.add_right_comm m 1 n⟩
      · rintro ⟨q, m, n, hfirst, hrest, rfl⟩
        obtain ⟨m, hfirst', rfl⟩ := hgo.exists_advancesTo hpop hfirst
        have hrun' := (ih (m + n) (by omega) hm' hregular).2 ⟨q, m, n, hfirst', hrest, rfl⟩
        rw [Nat.add_right_comm]
        exact hgo.advancesTo hpop' hrun'

theorem AdvancesTo.now_eq (h : AdvancesTo behave target p r count) : r.timers.now = target := by
  obtain ⟨enough, hrun⟩ := h
  exact Execution.now_of_advanceTo enough (hrun enough (Nat.le_refl enough))

/-- An advance by `a + b` comes to its end just if one by `a` does, and then one by `b`. It leads to
the same state then: what went off and when, the clock, the client, and the timers with their times
and their order. The numbers of timers that went off add up. -/
theorem advance_add (hp : Reachable behave p)
    (hbehave : ∀ action, P action → (behave action).IsRegular P) (htimers : p.timers.IsRegular P)
    (a : ℚ) {b : ℚ} (hb : 0 ≤ b) (r : TimerProgram ℚ α σ) (count : ℕ) :
    AdvancesBy behave (a + b) p r count ↔
      ∃ q m n, AdvancesBy behave a p q m ∧ AdvancesBy behave b q r n ∧ m + n = count := by
  obtain ⟨s, hm⟩ := hp.exists_matches
  have hbetween : AdvancesTo behave (p.timers.now + a + b) p r count ↔ ∃ q m n,
      AdvancesTo behave (p.timers.now + a) p q m ∧
        AdvancesTo behave (p.timers.now + a + b) q r n ∧ m + n = count :=
    advancesTo_iff_between hbehave (le_add_of_nonneg_right hb) hm (hm.timers.isRegular_iff.1 htimers)
  have hwhole : AdvancesBy behave (a + b) p r count ↔
      AdvancesTo behave (p.timers.now + a + b) p r count := by
    rw [add_assoc]
    exact Iff.rfl
  rw [hwhole, hbetween]
  refine exists_congr fun q => exists_congr fun m => exists_congr fun n => and_congr_right ?_
  intro hfirst
  rw [← AdvancesTo.now_eq hfirst]
  exact Iff.rfl

end TimerProgram

namespace TimerProgram.Relay

/-- A timer that sets itself again, and one that repeats. -/
def behave (_ : Unit) : TimerScript ℚ Unit Unit := .schedule "again" 1 () (.done none)

def program : TimerProgram ℚ Unit Unit :=
  ⟨((Timers.start 0).schedule "again" 1 ()).scheduleInterval "repeat" (1 / 2) (), (),
    [.set "again" 0 1 false (), .set "repeat" 0 (1 / 2) true ()]⟩

/-- A stop at a time at which both timers go off. -/
theorem advance_tie :
    Reachable behave program ∧ (∀ action, True → (behave action).IsRegular fun _ => True) ∧
      program.timers.IsRegular (fun _ => True) ∧ (0 : ℚ) ≤ 1 ∧
      ∀ r count, AdvancesBy behave (1 + 1) program r count ↔
        ∃ q m n, AdvancesBy behave 1 program q m ∧ AdvancesBy behave 1 q r n ∧ m + n = count := by
  have hreachable : Reachable behave program :=
    .script (.start ()) (show carryOut behave 0 (.schedule "again" 1 ()
      (.scheduleInterval "repeat" (1 / 2) () (.done none))) (start ()) = some (program, none)
      from rfl)
  have hbehave : ∀ action, True → (behave action).IsRegular fun _ => True :=
    fun _ _ => ⟨trivial, trivial⟩
  have hregular : program.timers.IsRegular fun _ => True := by
    intro timer htimer _
    refine ⟨fun interval hinterval => ?_, trivial⟩
    rcases Timers.mem_enqueue.1 htimer with rfl | htimer
    · cases hinterval
      norm_num
    · rcases Timers.mem_enqueue.1 htimer with rfl | htimer
      · cases hinterval
      · cases htimer
  exact ⟨hreachable, hbehave, hregular, zero_le_one,
    advance_add hreachable hbehave hregular 1 zero_le_one⟩

end TimerProgram.Relay

end DeclScan
