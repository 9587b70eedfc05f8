import DeclScan.Timers.Exact
import Mathlib.Algebra.Order.Archimedean.Basic
import Mathlib.Data.Rat.Floor
import Mathlib.Order.Lattice.Nat
import Mathlib.Tactic.Ring

/-!
# DeclScan.Proofs.Timers.Steady

Time in which spans that are not negative lead forward, and what a timer does in it that goes off
again and again.

* `Time.Steady`: what is asked of time.
* `Time.tick`, `Time.ticksBy`: when a timer goes off, and how often it does so by a time.
* `Time.exists_lt_tick`, `Time.ticksBy_eq_floor`: the same in exact time.
-/

namespace DeclScan
namespace Time

/-- Time in which spans that are not negative lead forward. Exact time is steady, and so are doubles
that are numbers: a rounded sum is never less than what was added to. -/
class Steady (τ : Type) [Time τ] : Prop where
  le_trans {a b c : τ} : a ≤ b → b ≤ c → a ≤ c
  le_total (a b : τ) : a ≤ b ∨ b ≤ a
  lt_iff_not_le {a b : τ} : a < b ↔ ¬ b ≤ a
  le_add (a : τ) {span : τ} : Time.zero ≤ span → a ≤ a + span

instance : Steady ℚ where
  le_trans h h' := h.trans h'
  le_total _ _ := Rat.le_total
  lt_iff_not_le := not_le.symm
  le_add _ _ h := le_add_of_nonneg_right h

section Order

variable {τ : Type} [Time τ]

/-- The later of two points in time. -/
def later (a b : τ) : τ := if a ≤ b then b else a

variable {a b c : τ}

theorem later_eq_right (h : a ≤ b) : later a b = b := if_pos h

variable [Steady τ]

instance : Std.IsLinearPreorder τ where
  le_refl a := (Steady.le_total a a).elim id id
  le_trans _ _ _ := Steady.le_trans
  le_total := Steady.le_total

instance : Std.LawfulOrderLT τ where
  lt_iff a b := Steady.lt_iff_not_le.trans
    ⟨fun h => ⟨(Steady.le_total a b).resolve_right h, h⟩, And.right⟩

theorem later_eq_left (h : b < a) : later a b = a := if_neg (Std.not_le.2 h)

theorem later_le_iff : later a b ≤ c ↔ a ≤ c ∧ b ≤ c := by
  by_cases hab : a ≤ b
  · rw [later_eq_right hab]
    exact ⟨fun hb => ⟨Std.le_trans hab hb, hb⟩, And.right⟩
  · have hba : b < a := Std.not_le.1 hab
    rw [later_eq_left hba]
    exact ⟨fun ha => ⟨ha, Std.le_trans (Std.le_of_lt hba) ha⟩, And.left⟩

theorem le_later_left (a b : τ) : a ≤ later a b := (later_le_iff.1 (Std.le_refl _)).1

theorem later_assoc (a b c : τ) : later (later a b) c = later a (later b c) := by
  by_cases hab : a ≤ b
  · rw [later_eq_right hab, later_eq_right (Std.le_trans hab (le_later_left b c))]
  · have hba : b < a := Std.not_le.1 hab
    rw [later_eq_left hba]
    by_cases hbc : b ≤ c
    · rw [later_eq_right hbc]
    · have hcb : c < b := Std.not_le.1 hbc
      rw [later_eq_left hcb, later_eq_left hba, later_eq_left (Std.lt_trans hcb hba)]

end Order

/-! ## Going off again and again -/

section Ticks

variable {τ : Type} [Time τ]

/-- When a timer goes off that first does so at `start`, after it did so `n` times. -/
def tick (start span : τ) (n : Nat) : τ := (· + span)^[n] start

/-- How often it goes off up to a time. -/
noncomputable def ticksBy (start span target : τ) : Nat := sInf {n | target < tick start span n}

variable {start span target : τ} {k : Nat}

@[simp] theorem tick_zero (start span : τ) : tick start span 0 = start := rfl

theorem tick_add (start span : τ) (m n : Nat) :
    tick start span (m + n) = tick (tick start span n) span m :=
  Function.iterate_add_apply ..

theorem ticksBy_of_lt (h : target < start) : ticksBy start span target = 0 :=
  Nat.sInf_eq_zero.2 (.inl h)

theorem lt_tick_ticksBy (hends : ∃ n, target < tick start span n) :
    target < tick start span (ticksBy start span target) :=
  Nat.sInf_mem hends

variable [Steady τ]

theorem tick_le_of_lt_ticksBy {n : Nat} (h : n < ticksBy start span target) :
    tick start span n ≤ target :=
  Std.not_lt.1 (Nat.notMem_of_lt_sInf h)

theorem ticksBy_eq_add (hends : ∃ n, target < tick start span n)
    (hk : ∀ n < k, tick start span n ≤ target) :
    ticksBy start span target = ticksBy (tick start span k) span target + k := by
  have hle : k ≤ sInf {n | target < tick start span n} :=
    le_csInf hends fun n hn => Nat.le_of_not_lt fun hlt => Std.not_lt.2 (hk n hlt) hn
  rw [ticksBy, ← Nat.sInf_add hle, ticksBy]
  simp only [tick_add]

theorem exists_lt_tick_add (hends : ∃ n, target < tick start span n)
    (hk : ∀ n < k, tick start span n ≤ target) :
    ∃ n, target < tick (tick start span k) span n := by
  obtain ⟨n, hn⟩ := hends
  have hkn : k ≤ n := Nat.le_of_not_lt fun hlt => Std.not_lt.2 (hk n hlt) hn
  refine ⟨n - k, ?_⟩
  rwa [← tick_add, Nat.sub_add_cancel hkn]

omit [Steady τ] in
theorem tick_le_of_lt_one (h : start ≤ target) : ∀ n < 1, tick start span n ≤ target := by
  intro n hn
  obtain rfl : n = 0 := by omega
  exact h

theorem ticksBy_again (hends : ∃ n, target < tick start span n) (h : start ≤ target) :
    ticksBy start span target = ticksBy (start + span) span target + 1 :=
  ticksBy_eq_add (k := 1) hends (tick_le_of_lt_one h)

theorem exists_lt_tick_again (hends : ∃ n, target < tick start span n) (h : start ≤ target) :
    ∃ n, target < tick (start + span) span n :=
  exists_lt_tick_add (k := 1) hends (tick_le_of_lt_one h)

end Ticks

section Exact

@[simp] theorem zero_eq : (Time.zero : ℚ) = 0 := rfl

@[simp] theorem ofMillis_eq (ms : Int) : (Time.ofMillis ms : ℚ) = ms / 1000 := rfl

variable {span : ℚ}

theorem tick_eq (start span : ℚ) (n : Nat) : tick start span n = start + n * span := by
  induction n with
  | zero => simp
  | succ n ih =>
    rw [tick, Function.iterate_succ_apply', ← tick, ih, Nat.cast_succ]
    ring

/-- In exact time a positive span leads beyond any time. -/
theorem exists_lt_tick (hspan : 0 < span) (start target : ℚ) : ∃ n, target < tick start span n := by
  obtain ⟨n, hn⟩ := exists_lt_nsmul hspan (target - start)
  refine ⟨n, ?_⟩
  rw [nsmul_eq_mul] at hn
  rw [tick_eq]
  exact sub_lt_iff_lt_add'.1 hn

theorem ticksBy_eq_floor (hspan : 0 < span) (start target : ℚ) :
    ticksBy start span target = ⌊(target - start) / span + 1⌋₊ := by
  have hlt : ∀ n : Nat, target < tick start span n ↔ ⌊(target - start) / span + 1⌋₊ ≤ n := by
    intro n
    rw [tick_eq, ← Nat.lt_succ_iff, Nat.floor_lt' n.succ_ne_zero, Nat.cast_succ,
      add_lt_add_iff_right, div_lt_iff₀ hspan, sub_lt_iff_lt_add']
  rw [ticksBy]
  simp only [hlt]
  exact csInf_Ici

end Exact

end Time
end DeclScan
