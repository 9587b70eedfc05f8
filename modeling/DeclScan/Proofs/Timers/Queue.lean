import DeclScan.Proofs.Timers.Steady

/-!
# DeclScan.Proofs.Timers.Queue

The queue of timers, in steady time.

* `InOrder`: every timer goes off before all timers behind it. `inOrder_enqueue` keeps this.
* `nextDue?_eq_some`, `nextDue?_eq_none`: what the search for the next live timer finds in a queue
  that is in order.
-/

namespace DeclScan
namespace Timers

variable {τ α : Type} [Time τ]

/-- Every timer of a queue goes off before all timers behind it. -/
def InOrder (queue : List (Timer τ α)) : Prop :=
  queue.Pairwise fun a b => goesBefore a b = true

theorem InOrder.eq_or {queue : List (Timer τ α)} (h : InOrder queue) {a b : Timer τ α}
    (ha : a ∈ queue) (hb : b ∈ queue) :
    a = b ∨ goesBefore a b = true ∨ goesBefore b a = true := by
  induction queue with
  | nil => cases ha
  | cons first queue ih =>
    obtain ⟨hfirst, hrest⟩ := List.pairwise_cons.1 h
    rcases List.mem_cons.1 ha with rfl | ha' <;> rcases List.mem_cons.1 hb with rfl | hb'
    · exact Or.inl rfl
    · exact Or.inr (Or.inl (hfirst b hb'))
    · exact Or.inr (Or.inr (hfirst a ha'))
    · exact ih hrest ha' hb'

/-- What the search finds is live and due. What it drops on the way is retired, and what is left
goes off later. -/
theorem nextDue?_eq_some {live : Table Nat} {target : τ} {queue rest : List (Timer τ α)}
    {timer : Timer τ α} (h : InOrder queue)
    (hfound : nextDue? live target queue = some (timer, rest)) :
    isLive live timer = true ∧ timer.due ≤ target ∧
      (∀ other ∈ rest, goesBefore timer other = true) ∧
      ∀ other, isLive live other = true → (other ∈ queue ↔ other = timer ∨ other ∈ rest) := by
  induction queue with
  | nil => simp [nextDue?] at hfound
  | cons first queue ih =>
    obtain ⟨hfirst, hrest⟩ := List.pairwise_cons.1 h
    rw [nextDue?] at hfound
    split at hfound
    · rename_i hdue
      split at hfound
      · rename_i hlive
        cases hfound
        exact ⟨hlive, hdue, hfirst, fun other _ => List.mem_cons⟩
      · rename_i hdead
        obtain ⟨hlive, hdue', hbehind, hall⟩ := ih hrest hfound
        refine ⟨hlive, hdue', hbehind, fun other ho => ?_⟩
        rw [List.mem_cons, hall other ho]
        constructor
        · rintro (rfl | h)
          · exact absurd ho hdead
          · exact h
        · exact Or.inr
    · cases hfound

variable [Time.Steady τ]

theorem goesBefore_iff {a b : Timer τ α} :
    goesBefore a b = true ↔ a.due < b.due ∨ (a.due ≤ b.due ∧ a.sequence < b.sequence) := by
  simp only [goesBefore, Bool.or_eq_true, Bool.and_eq_true, Bool.not_eq_true', decide_eq_true_eq,
    decide_eq_false_iff_not, Std.not_lt]

theorem goesBefore_trans {a b c : Timer τ α} (hab : goesBefore a b = true)
    (hbc : goesBefore b c = true) : goesBefore a c = true := by
  rw [goesBefore_iff] at *
  rcases hab with hab | ⟨hab, hs⟩ <;> rcases hbc with hbc | ⟨hbc, ht⟩
  · exact Or.inl (Std.lt_trans hab hbc)
  · exact Or.inl (Std.lt_of_lt_of_le hab hbc)
  · exact Or.inl (Std.lt_of_le_of_lt hab hbc)
  · exact Or.inr ⟨Std.le_trans hab hbc, hs.trans ht⟩

theorem goesBefore_total {a b : Timer τ α} (h : a.sequence ≠ b.sequence) :
    goesBefore a b = true ∨ goesBefore b a = true := by
  simp only [goesBefore_iff]
  by_cases hlt : a.due < b.due
  · exact Or.inl (Or.inl hlt)
  · have hba : b.due ≤ a.due := Std.not_lt.1 hlt
    rcases Nat.lt_or_gt_of_ne h with hs | hs
    · by_cases hab : a.due ≤ b.due
      · exact Or.inl (Or.inr ⟨hab, hs⟩)
      · exact Or.inr (Or.inl (Std.not_le.1 hab))
    · exact Or.inr (Or.inr ⟨hba, hs⟩)

theorem due_le_of_goesBefore {a b : Timer τ α} (h : goesBefore a b = true) : a.due ≤ b.due := by
  rcases goesBefore_iff.1 h with h | ⟨h, -⟩
  · exact Std.le_of_lt h
  · exact h

theorem inOrder_enqueue {timer : Timer τ α} {queue : List (Timer τ α)} (h : InOrder queue)
    (hnew : ∀ other ∈ queue, other.sequence < timer.sequence) :
    InOrder (enqueue timer queue) := by
  induction queue with
  | nil => simp [enqueue, InOrder]
  | cons first queue ih =>
    obtain ⟨hfirst, hrest⟩ := List.pairwise_cons.1 h
    rw [enqueue]
    split
    · rename_i hb
      refine List.pairwise_cons.2 ⟨fun other ho => ?_, h⟩
      rcases List.mem_cons.1 ho with rfl | ho
      · exact hb
      · exact goesBefore_trans hb (hfirst other ho)
    · rename_i hb
      have hfirst' : goesBefore first timer = true :=
        (goesBefore_total (hnew first List.mem_cons_self).ne).resolve_right hb
      refine List.pairwise_cons.2 ⟨fun other ho => ?_,
        ih hrest fun other ho => hnew other (List.mem_cons_of_mem _ ho)⟩
      rcases mem_enqueue.1 ho with rfl | ho
      · exact hfirst'
      · exact hfirst other ho

theorem nextDue?_eq_none {live : Table Nat} {target : τ} {queue : List (Timer τ α)}
    (h : InOrder queue) (hnone : nextDue? live target queue = none) :
    ∀ timer ∈ queue, isLive live timer = true → target < timer.due := by
  induction queue with
  | nil => intro timer ht; cases ht
  | cons first queue ih =>
    obtain ⟨hfirst, hrest⟩ := List.pairwise_cons.1 h
    rw [nextDue?] at hnone
    intro timer ht hlive
    split at hnone
    · split at hnone
      · cases hnone
      · rename_i hdead
        rcases List.mem_cons.1 ht with rfl | ht
        · exact absurd hlive hdead
        · exact ih hrest hnone timer ht hlive
    · rename_i hlate
      have hlate : target < first.due := Std.not_le.1 hlate
      rcases List.mem_cons.1 ht with rfl | ht
      · exact hlate
      · exact Std.lt_of_lt_of_le hlate (due_le_of_goesBefore (hfirst timer ht))

end Timers
end DeclScan
