import DeclScan.Language.JavaScript
import Mathlib.Data.List.TakeWhile

/-!
# DeclScan.Proofs.Language.Initialisers

The label of an initialiser is that of its statement. The equals sign is looked for in all of the
text that follows the name, and only then is it asked whether a statement ends before it. That comes
to the same as looking at the statement alone.

* `statementEnd`: where the statement at an offset ends.
* `inferType_of_notMem`, `inferType_append`: a text without an equals sign, and one with the first.
* `inferType_takeWhile`: nothing counts from the end of the statement on.
* `inferTypeAt_eq_statement`: the same at an offset of a text, and what edits around the statement do.
-/

namespace DeclScan
namespace JavaScript

open Text

/-- An offset of a text. One below zero counts from the end. -/
def offsetIn (text : List Char) (start : Int) : Nat :=
  if start < 0 then text.length - start.natAbs else start.toNat

/-- The first place from an offset on that ends a statement, or the end of the text. -/
def statementEnd (text : List Char) (offset : Nat) : Nat :=
  offset + (text.drop offset).findIdx endsStatement

theorem fromOffset_eq_drop (start : Int) (text : List Char) :
    fromOffset start text = text.drop (offsetIn text start) := by
  rw [fromOffset, offsetIn]
  split_ifs <;> rfl

theorem drop_take_statementEnd (text : List Char) (offset : Nat) :
    (text.take (statementEnd text offset)).drop offset =
      (text.drop offset).takeWhile fun c => !endsStatement c := by
  rw [List.drop_take, statementEnd, Nat.add_sub_cancel_left, List.takeWhile_eq_take_findIdx_not]
  simp only [Bool.not_not]

/-! ## The two searches -/

variable {between after statement rest : List Char}

theorem inferType_of_notMem {tail : List Char} (h : '=' ∉ tail) : inferType tail = "unknown" := by
  have hnone : tail.dropWhile (· ≠ '=') = [] := by
    rw [List.dropWhile_eq_nil_iff]
    intro c hc
    exact decide_eq_true fun heq => h (heq ▸ hc)
  rw [inferType, hnone]

theorem inferType_append (h : '=' ∉ between) (after : List Char) :
    inferType (between ++ '=' :: after) =
      if between.any endsStatement then "unknown"
      else labelOf (beforeComment (trim (after.takeWhile fun c => !endsStatement c))) := by
  have hall : ∀ c ∈ between, decide (c ≠ '=') = true :=
    fun c hc => decide_eq_true fun heq => h (heq ▸ hc)
  rw [inferType, List.takeWhile_append_of_pos hall, List.dropWhile_append_of_pos hall]
  simp

theorem takeWhile_append_of_any (h : between.any endsStatement = true) (rest : List Char) :
    ((between ++ rest).takeWhile fun c => !endsStatement c) =
      between.takeWhile fun c => !endsStatement c := by
  rw [List.takeWhile_append, if_neg]
  intro hlength
  have hall := List.takeWhile_eq_self_iff.1 ((List.takeWhile_prefix _).eq_of_length hlength)
  obtain ⟨c, hc, hend⟩ := List.any_eq_true.1 h
  simpa [hend] using hall c hc

/-- The cases are whether there is an equals sign, and whether the statement ends before it. -/
theorem inferType_takeWhile (tail : List Char) :
    inferType (tail.takeWhile fun c => !endsStatement c) = inferType tail := by
  by_cases hsign : '=' ∈ tail
  · obtain ⟨between, after, rfl, hbetween⟩ := List.eq_append_cons_of_mem hsign
    rw [inferType_append hbetween]
    by_cases hends : between.any endsStatement = true
    · rw [if_pos hends, takeWhile_append_of_any hends, inferType_of_notMem]
      exact fun hmem => hbetween ((List.takeWhile_prefix _).mem hmem)
    · have hinside : ∀ c ∈ between, (!endsStatement c) = true := by
        simpa using hends
      have hcut : (('=' :: after).takeWhile fun c => !endsStatement c) =
          '=' :: after.takeWhile fun c => !endsStatement c := rfl
      rw [if_neg hends, List.takeWhile_append_of_pos hinside, hcut, inferType_append hbetween,
        if_neg hends, List.takeWhile_idem]
  · rw [inferType_of_notMem hsign, inferType_of_notMem]
    exact fun hmem => hsign ((List.takeWhile_prefix _).mem hmem)

/-! ## At an offset of a text -/

theorem inferTypeAt_length (before tail : List Char) :
    inferTypeAt (before ++ tail) before.length = inferType tail := by
  have hoffset : offsetIn (before ++ tail) before.length = before.length := rfl
  rw [inferTypeAt, fromOffset_eq_drop, hoffset, List.drop_left]

theorem inferTypeAt_zero (text : List Char) : inferTypeAt text 0 = inferType text :=
  inferTypeAt_length [] text

/-- The label at an offset is that of the statement there, taken alone. What else the text holds makes
no difference: not what stands before the offset, and behind the statement only what an edit adds to
it, by taking away its end. -/
theorem inferTypeAt_eq_statement (text : List Char) (start : Int) :
    let s := offsetIn text start
    let e := statementEnd text s
    let statement := (text.take e).drop s
    inferTypeAt text start = inferTypeAt statement 0 ∧
      ∀ before rest,
        inferTypeAt (before ++ statement ++ rest) before.length =
          inferTypeAt (statement ++ rest.takeWhile fun c => !endsStatement c) 0 ∧
        (rest.head?.all endsStatement = true →
          inferTypeAt (before ++ statement ++ rest) before.length = inferTypeAt text start) := by
  intro s e statement
  have hstatement : statement = (text.drop s).takeWhile fun c => !endsStatement c :=
    drop_take_statementEnd text s
  have hinside : ∀ c ∈ statement, (!endsStatement c) = true := by
    rw [hstatement]
    exact fun c hc => List.mem_takeWhile_imp (p := fun c => !endsStatement c) hc
  have halone : inferTypeAt text start = inferTypeAt statement 0 := by
    rw [inferTypeAt_zero, hstatement, inferType_takeWhile, inferTypeAt, fromOffset_eq_drop]
  have hedited : ∀ before rest, inferTypeAt (before ++ statement ++ rest) before.length =
      inferTypeAt (statement ++ rest.takeWhile fun c => !endsStatement c) 0 := by
    intro before rest
    rw [List.append_assoc, inferTypeAt_length, inferTypeAt_zero, ← inferType_takeWhile,
      List.takeWhile_append_of_pos hinside]
  refine ⟨halone, fun before rest => ⟨hedited before rest, fun hrest => ?_⟩⟩
  have hnone : (rest.takeWhile fun c => !endsStatement c) = [] := by
    cases rest with
    | nil => rfl
    | cons c rest => simpa using hrest
  rw [hedited, hnone, List.append_nil, halone]

/-- The same statement in other surroundings. -/
theorem inferTypeAt_edited :
    let text := "let a\nlet b = 1; c = 'x'".toList
    let rest := "\nd = []".toList
    rest.head?.all endsStatement = true ∧
      inferTypeAt ("const b".toList ++ " = 1".toList ++ rest) 7 = inferTypeAt text 11 := by
  intro text rest
  obtain ⟨-, hedits⟩ := inferTypeAt_eq_statement text 11
  exact ⟨rfl, (hedits "const b".toList rest).2 rfl⟩

/-- An assignment in a later statement does not count. -/
example : inferTypeAt "let a\nb = 1;".toList 5 = "unknown" := rfl

end JavaScript
end DeclScan
