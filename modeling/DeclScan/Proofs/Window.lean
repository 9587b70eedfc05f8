import DeclScan.Monitor
import Mathlib.Data.List.DropRight

/-!
# DeclScan.Proofs.Window

A window that is filled value by value holds the last values of all that were added.
-/

namespace DeclScan
namespace Window

variable {α : Type}

theorem push_eq_rtake (size : Nat) (window : List α) (a : α) :
    push size window a = (window ++ [a]).rtake size := rfl

theorem push_rtake (size : Nat) (values : List α) (a : α) :
    push size (values.rtake size) a = (values ++ [a]).rtake size := by
  rw [push_eq_rtake]
  simp only [List.rtake_eq_reverse_take_reverse, List.reverse_append, List.reverse_reverse,
    List.reverse_singleton, List.singleton_append]
  cases size with
  | zero => rfl
  | succ size => rw [List.take_succ_cons, List.take_succ_cons, List.take_take, min_eq_left (by omega)]

theorem foldl_push (size : Nat) (values more : List α) :
    more.foldl (push size) (values.rtake size) = (values ++ more).rtake size := by
  induction more generalizing values with
  | nil => rw [List.append_nil, List.foldl_nil]
  | cons a more ih => rw [List.foldl_cons, push_rtake, ih, List.append_assoc, List.singleton_append]

end Window
end DeclScan
