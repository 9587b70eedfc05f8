import DeclScan.Timers.Basic

/-!
# DeclScan.Timers.Exact

Exact time: points in time and spans are rational numbers, so that no sum is rounded.
-/

namespace DeclScan

/-- The number that a double stands for; those that stand for none count as zero. -/
def Binary64.toRat (x : Float) : Rat :=
  match decode x with
  | .finite negative significand exponent =>
    let size : Rat := significand * (2 : Rat) ^ exponent
    if negative then -size else size
  | _ => 0

instance : Time Rat where
  decideLe := inferInstance
  decideLt := inferInstance
  zero := 0
  ofMillis ms := (ms : Rat) / 1000
  ofFloat := Binary64.toRat

end DeclScan
