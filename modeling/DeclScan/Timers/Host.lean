import DeclScan.Timers.Basic

/-!
# DeclScan.Timers.Host

Advancing the clock of a state that holds a table of timers. What a timer does when it goes off is
up to the host: it may change the state, its timers included, and may advance the clock itself.

`Host.advance` runs every timer that is due, in order, and then leaves the clock at the target. The
number of timers that go off has no bound that could be told in advance, so there is fuel, one unit
for each; without enough of it there is no answer.
-/

namespace DeclScan

/-- A state `σ` that holds timers with actions `α`. `run` does what a timer asks for; its first
argument advances the clock of the state, and tells how many timers went off. -/
structure Host (σ τ α : Type) where
  timers : σ → Timers τ α
  setTimers : σ → Timers τ α → σ
  run : (τ → σ → Option (σ × Nat)) → Timer τ α → σ → Option σ

namespace Host

variable {σ τ α : Type} [Time τ]

/-- Runs the timers that are due by a time, then moves the clock there. The answer is the state and
the number of timers run. -/
def advanceTo (h : Host σ τ α) : Nat → τ → σ → Option (σ × Nat)
  | 0, _, _ => none
  | fuel + 1, target, s =>
    match (h.timers s).popDue target with
    | none => some (h.setTimers s { h.timers s with now := target }, 0)
    | some (timer, timers) =>
      let again (seconds : τ) (s : σ) : Option (σ × Nat) :=
        advanceTo h fuel ((h.timers s).now + seconds) s
      match h.run again timer (h.setTimers s timers) with
      | none => none
      | some s =>
        match advanceTo h fuel target s with
        | none => none
        | some (s, count) => some (s, count + 1)

def advance (h : Host σ τ α) (fuel : Nat) (seconds : τ) (s : σ) : Option (σ × Nat) :=
  h.advanceTo fuel ((h.timers s).now + seconds) s

/-- What a round of an advance can be: the last one, or one with a timer that goes off and a rest. -/
theorem advanceTo_cases {h : Host σ τ α} {fuel count : Nat} {target : τ} {s r : σ}
    (hrun : h.advanceTo (fuel + 1) target s = some (r, count)) :
    ((h.timers s).popDue target = none ∧ r = h.setTimers s { h.timers s with now := target } ∧
      count = 0) ∨
    ∃ timer timers s' later, (h.timers s).popDue target = some (timer, timers) ∧
      h.run (h.advance fuel) timer (h.setTimers s timers) = some s' ∧
      h.advanceTo fuel target s' = some (r, later) ∧ count = later + 1 := by
  rw [advanceTo] at hrun
  cases hpop : (h.timers s).popDue target with
  | none =>
    rw [hpop] at hrun
    cases hrun
    exact .inl ⟨rfl, rfl, rfl⟩
  | some popped =>
    obtain ⟨timer, timers⟩ := popped
    simp only [hpop] at hrun
    cases hdone : h.run (h.advance fuel) timer (h.setTimers s timers) with
    | none =>
      have hnone : h.run (fun seconds s => h.advanceTo fuel ((h.timers s).now + seconds) s) timer
          (h.setTimers s timers) = none := hdone
      rw [hnone] at hrun
      cases hrun
    | some s' =>
      have hsome : h.run (fun seconds s => h.advanceTo fuel ((h.timers s).now + seconds) s) timer
          (h.setTimers s timers) = some s' := hdone
      simp only [hsome] at hrun
      cases hlater : h.advanceTo fuel target s' with
      | none => rw [hlater] at hrun; cases hrun
      | some rest =>
        obtain ⟨r', later⟩ := rest
        rw [hlater] at hrun
        cases hrun
        exact .inr ⟨timer, timers, s', later, rfl, hdone, hlater, rfl⟩

end Host

/-- More timers than go off in any run that comes to an end in reasonable time. -/
def runFuel : Nat := powerOfTwo 32

end DeclScan
