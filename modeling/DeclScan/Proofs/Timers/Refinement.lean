import DeclScan.Proofs.Timers.Schedule
import DeclScan.Proofs.Timers.Simulation

/-!
# DeclScan.Proofs.Timers.Refinement

Timers in a queue cannot be told from a table that holds at most one task for each key
(`carryOut_iff_performs`): whatever scripts are carried out, at the start or by timers that go off,
the clock, the history and the pending keys are the same. The history has the keys and times of all
timers that went off, and the answers to all requests.
-/

namespace DeclScan

variable {α σ : Type}

/-- What is seen of timers from outside. -/
structure TimerView (α σ : Type) where
  now : ℚ
  client : σ
  history : List (TimerEvent ℚ α)
  pending : String → Bool
  pendingCount : Nat

def TimerProgram.view (p : TimerProgram ℚ α σ) : TimerView α σ where
  now := p.timers.now
  client := p.client
  history := p.history
  pending := p.timers.isPending
  pendingCount := p.timers.pendingCount

def TaskProgram.view (s : TaskProgram α σ) : TimerView α σ where
  now := s.table.now
  client := s.client
  history := s.history
  pending := s.table.isPending
  pendingCount := s.table.pendingCount

theorem TimerProgram.Matches.view {p : TimerProgram ℚ α σ} {s : TaskProgram α σ}
    (h : Matches p s) : p.view = s.view := by
  rw [TimerProgram.view, TaskProgram.view, h.timers.now, h.client, h.history,
    funext h.timers.isPending, h.timers.pendingCount]

/-- A script ends with what is seen of the table of tasks, and in no other way; and every history is
orderly: the task that goes off is the one that was set last for its key and not cancelled since, for
the `n`-th time at its start plus `n` times its delay, and only once if it does not repeat; and when
an advance ends, nothing is left to go off by then. What the scripts of tasks ask for, and whether
they fail, makes no difference to this. -/
theorem TimerProgram.carryOut_iff_performs (behave : α → TimerScript ℚ α σ)
    (script : TimerScript ℚ α σ) (client : σ) (failure : Option String) (view : TimerView α σ) :
    (∃ fuel p, (TimerProgram.start client).carryOut behave fuel script = some (p, failure) ∧
        p.view = view) ↔
      (∃ s, TaskProgram.Performs behave script (TaskProgram.start client) s failure ∧
        s.view = view) ∧ TimerEvent.Orderly view.history := by
  constructor
  · rintro ⟨fuel, p, hrun, rfl⟩
    obtain ⟨s, hs, hm⟩ := perform_sound advance_sound script hrun (matches_start client)
    rw [hm.view]
    exact ⟨⟨s, hs, rfl⟩, hs.orderly⟩
  · rintro ⟨⟨s, hs, rfl⟩, -⟩
    obtain ⟨p, enough, hm, hrun⟩ := hs.complete _ (matches_start client)
    exact ⟨enough, p, hrun enough (Nat.le_refl _), hm.view⟩

end DeclScan
