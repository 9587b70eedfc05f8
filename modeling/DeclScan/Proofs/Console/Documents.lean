import DeclScan.Console.Run
import DeclScan.Proofs.Json.RoundTrip
import DeclScan.Proofs.Record
import DeclScan.Proofs.Scan.Extents

/-!
# DeclScan.Proofs.Console.Documents

What is written for other programs can be read by them: the text of a document survives all that
output does to lines, and the records in it are those of the variables.

* `OutputStyle.variablesOfJson`, `OutputStyle.resultsOfJson`: records in a document, read back.
* `OutputStyle.readable_variablesJson`, `OutputStyle.readable_resultsJson`: documents that hold no
  number beyond the limit of the reader.
* `OutputStyle.json_eq`: in every style the same text is written.
-/

namespace DeclScan

/-! ## Lines -/

theorem Run.plainLineBreaks_of_not_mem {s : List Char} (h : '\r' ∉ s) : plainLineBreaks s = s := by
  induction s with
  | nil => rfl
  | cons c s ih =>
    rw [List.mem_cons, not_or] at h
    rw [plainLineBreaks.eq_def]
    split
    · rename_i heq
      exact absurd (List.cons.inj heq).1.symm h.1
    · rename_i heq
      obtain ⟨rfl, rfl⟩ := List.cons.inj heq
      rw [ih h.2]
    · rename_i heq
      cases heq

theorem Json.IsPlain.not_mem {s : List Char} (h : IsPlain s) :
    DeclScan.escapeChar ∉ s ∧ '\r' ∉ s := by
  have hescape : ¬ IsPlain [DeclScan.escapeChar] := by decide
  have hreturn : ¬ IsPlain ['\r'] := by decide
  exact ⟨fun hmem => hescape (by simpa [IsPlain] using h _ hmem),
    fun hmem => hreturn (by simpa [IsPlain] using h _ hmem)⟩

namespace OutputStyle

/-- Whatever the style, a document is written, and as it is. -/
theorem json_eq (o : OutputStyle) {j : Json} (h : Json.IsPlain j.indented.toList) :
    o.json j = [⟨.out, j.indented ++ "\n"⟩] := by
  have hstrip : o.filter.strip j.indented = j.indented :=
    o.filter.strip_of_not_mem j.indented h.not_mem.1
  simp only [json, plain, line, render, hstrip, ite_self, Bool.not_true, Bool.and_false,
    Bool.false_eq_true, if_false]

/-! ## Records -/

/-- The variables that a document lists. -/
def variablesOfJson : Json → Except RecordError (List Variable)
  | .arr items => items.mapM Variable.ofJson
  | _ => .error .malformed

/-- The results that a document lists: files with their variables. -/
def resultsOfJson : Json → Except RecordError ScanResults
  | .obj members => members.mapM fun (path, vars) => (variablesOfJson vars).map fun vars => (path, vars)
  | _ => .error .malformed

theorem variablesOfJson_variablesJson (vars : List Variable) :
    variablesOfJson (variablesJson vars) = .ok vars :=
  Variable.mapM_ofJson vars

theorem resultsOfJson_resultsJson (results : ScanResults) :
    resultsOfJson (resultsJson results) = .ok results := by
  simp only [resultsOfJson, resultsJson]
  induction results with
  | nil => rfl
  | cons entry results ih =>
    obtain ⟨path, vars⟩ := entry
    rw [List.map_cons, List.mapM_cons, ih]
    simp only [variablesOfJson_variablesJson]
    rfl

theorem readable_toJson {v : Variable} (h : v.Within (10 ^ Json.maxDigits)) :
    Json.Readable 2 v.toJson := by
  have hvalue : Json.Readable 1 (Json.ofText? v.value) := by
    cases v.value with
    | none => exact .null
    | some s => exact .str s
  have hreferences : Json.Readable 1 (.arr (v.references.map Reference.toJson)) := by
    rw [h.references]
    exact .arr (List.forall_mem_nil _)
  rw [Variable.toJson]
  refine .obj (by simp [Table.keys]) ?_
  simp only [List.forall_mem_cons]
  exact ⟨.str _, .str _, .str _, .int h.line,
    .int h.character, .str _, .str _, hvalue, hreferences,
    List.forall_mem_nil _⟩

theorem readable_variablesJson {vars : List Variable} (h : ∀ v ∈ vars, v.Within (10 ^ Json.maxDigits)) :
    Json.Readable 3 (variablesJson vars) := by
  refine .arr fun item hitem => ?_
  obtain ⟨v, hv, rfl⟩ := List.mem_map.1 hitem
  exact readable_toJson (h v hv)

theorem readable_resultsJson {results : ScanResults}
    (h : ScanResults.Sound (·.Within (10 ^ Json.maxDigits)) results) :
    Json.Readable 4 (resultsJson results) := by
  refine .obj ?_ fun m hm => ?_
  · have hkeys := h.nodup
    simpa [Table.keys, Function.comp_def] using hkeys
  · obtain ⟨entry, hentry, rfl⟩ := List.mem_map.1 hm
    exact readable_variablesJson (h.all entry hentry)

end OutputStyle
end DeclScan
