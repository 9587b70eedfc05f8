import DeclScan.Record
import Mathlib.Tactic

/-!
# DeclScan.Proofs.Record

Records are faithful: a variable that is written as a record and read back is the same variable. So
it does not matter that workers hand over records.
-/

namespace DeclScan

theorem Reference.ofJson_toJson (r : Reference) : ofJson r.toJson = .ok r := rfl

theorem Reference.mapM_ofJson (references : List Reference) :
    (references.map toJson).mapM ofJson = .ok references := by
  induction references with
  | nil => rfl
  | cons r references ih =>
    rw [List.map_cons, List.mapM_cons, ih, ofJson_toJson]
    rfl

theorem Variable.ofJson_toJson (v : Variable) : ofJson v.toJson = .ok v := by
  have hreferences : referencesField v.toJson = .ok v.references :=
    Reference.mapM_ofJson v.references
  rw [ofJson, hreferences]
  obtain ⟨name, type, declaredAs, line, character, filePath, scope, value, references⟩ := v
  cases value <;> rfl

theorem Variable.mapM_ofJson (vars : List Variable) :
    (vars.map toJson).mapM ofJson = .ok vars := by
  induction vars with
  | nil => rfl
  | cons v vars ih =>
    rw [List.map_cons, List.mapM_cons, ih, ofJson_toJson]
    rfl

end DeclScan
