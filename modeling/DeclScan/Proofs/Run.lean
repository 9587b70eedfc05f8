/-!
# DeclScan.Proofs.Run

Runs of a machine that answers each event.

* `stateAfter`: the state that events lead to.
* `transcript`: the events with their answers.
* `transcript_induction`: a property of past and state that every step keeps.
-/

namespace DeclScan

variable {σ ε α : Type} (step : σ → ε → σ × α)

def stateAfter (s : σ) : List ε → σ
  | [] => s
  | event :: events => stateAfter (step s event).1 events

def transcript (s : σ) : List ε → List (ε × α)
  | [] => []
  | event :: events => (event, (step s event).2) :: transcript (step s event).1 events

theorem stateAfter_append (s : σ) (before later : List ε) :
    stateAfter step s (before ++ later) = stateAfter step (stateAfter step s before) later := by
  induction before generalizing s with
  | nil => rfl
  | cons event before ih => exact ih _

theorem map_fst_transcript (s : σ) (events : List ε) :
    (transcript step s events).map Prod.fst = events := by
  induction events generalizing s with
  | nil => rfl
  | cons event events ih => rw [transcript, List.map_cons, ih]

theorem split_of_transcript_eq {s : σ} {events : List ε} {before later : List (ε × α)} {event : ε}
    {answer : α} (h : transcript step s events = before ++ (event, answer) :: later) :
    ∃ first rest, events = first ++ event :: rest ∧ transcript step s first = before ∧
      (step (stateAfter step s first) event).2 = answer := by
  induction before generalizing s events with
  | nil =>
    cases events with
    | nil => simp [transcript] at h
    | cons head tail =>
      simp only [transcript, List.nil_append, List.cons.injEq, Prod.mk.injEq] at h
      obtain ⟨⟨rfl, rfl⟩, -⟩ := h
      exact ⟨[], tail, rfl, rfl, rfl⟩
  | cons exchange before ih =>
    cases events with
    | nil => simp [transcript] at h
    | cons head tail =>
      simp only [transcript, List.cons_append, List.cons.injEq] at h
      obtain ⟨first, rest, rfl, hbefore, hanswer⟩ := ih h.2
      exact ⟨head :: first, rest, rfl, by rw [transcript, hbefore, h.1], hanswer⟩

theorem stateAfter_induction {p : σ → Prop} (hstep : ∀ s event, p s → p (step s event).1) {s : σ}
    (h : p s) (events : List ε) : p (stateAfter step s events) := by
  induction events generalizing s with
  | nil => exact h
  | cons event events ih => exact ih (hstep s event h)

theorem transcript_induction {p : List (ε × α) → σ → Prop}
    (hstep : ∀ past s event, p past s → p (past ++ [(event, (step s event).2)]) (step s event).1)
    {s : σ} (h : p [] s) (events : List ε) :
    p (transcript step s events) (stateAfter step s events) := by
  suffices hfrom : ∀ past s, p past s →
      p (past ++ transcript step s events) (stateAfter step s events) from hfrom [] s h
  induction events with
  | nil =>
    intro past s hp
    simpa [transcript, stateAfter] using hp
  | cons event events ih =>
    intro past s hp
    have := ih (past ++ [(event, (step s event).2)]) (step s event).1 (hstep past s event hp)
    simpa [transcript, stateAfter, List.append_assoc] using this

end DeclScan
