import Mathlib

/-!
# DeclScan.Proofs.Number.Order

Comparing doubles. No double is below one that it is above; a comparison with what is not a number
fails both ways.
-/

namespace DeclScan
namespace Binary64

open Float.Model (UnpackedFloat)

theorem compare_swap (x y : UnpackedFloat) : y.compare x = (x.compare y).map Ordering.swap := by
  have hfinite (e e' : Int) (m m' : Nat) :
      (compare e' e).then (compare m' m) = ((compare e e').then (compare m m')).swap := by
    rw [Ordering.swap_then, ← Std.OrientedCmp.eq_swap, ← Std.OrientedCmp.eq_swap]
  cases x with
  | notANumber => cases y <;> rfl
  | infinity s =>
    cases y with
    | infinity s' => cases s <;> cases s' <;> rfl
    | notANumber | zero s' | finite s' m' e' h' => cases s <;> rfl
  | zero s =>
    cases y with
    | infinity s' | finite s' m' e' h' => cases s' <;> rfl
    | notANumber | zero s' => rfl
  | finite s m e h =>
    cases y with
    | infinity s' => cases s <;> cases s' <;> rfl
    | notANumber | zero s' => cases s <;> rfl
    | finite s' m' e' h' =>
      cases s <;> cases s' <;>
        simp only [UnpackedFloat.compare, Option.map_some, hfinite e e' m m', Ordering.swap_swap,
          Ordering.swap_lt, Ordering.swap_gt]

theorem lt_iff {x y : Float} : x < y ↔ x.toModel.compare y.toModel = some .lt :=
  decide_eq_true_iff.trans beq_iff_eq

theorem le_iff {x y : Float} : x ≤ y ↔ (x.toModel.compare y.toModel).any (·.isLE) = true :=
  decide_eq_true_iff

theorem le_of_lt {x y : Float} (h : x < y) : x ≤ y := by
  rw [le_iff, lt_iff.1 h]
  rfl

theorem not_le_of_lt {x y : Float} (h : x < y) : ¬y ≤ x := by
  have hswap : y.toModel.compare x.toModel = (x.toModel.compare y.toModel).map Ordering.swap :=
    compare_swap _ _
  rw [le_iff, hswap, lt_iff.1 h]
  decide

theorem not_lt_of_le {x y : Float} (h : x ≤ y) : ¬y < x := fun hlt => not_le_of_lt hlt h

end Binary64
end DeclScan
