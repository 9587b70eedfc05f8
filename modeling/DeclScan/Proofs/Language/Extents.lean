import DeclScan.Proofs.Language.Origins

/-!
# DeclScan.Proofs.Language.Extents

No number that an extractor reports is greater than the length of its text, and no extractor reports
references.

* `Variable.Within`: a variable with its line and column below some number.
* `Extractor.Measures`: what an extractor finds is within the length of the text.
* `Extractor.measures_of_mem_builtin`, `Registry.measures_of_forFile?`: the built-in extractors.
-/

namespace DeclScan

/-! ## Positions -/

namespace Position

theorem after_le_length (s : List Char) :
    (after s).line ≤ s.length ∧ (after s).character ≤ s.length := by
  induction s using List.reverseRecOn with
  | nil => exact ⟨Nat.le_refl 0, Nat.le_refl 0⟩
  | append_singleton s c ih =>
    have hafter : after (s ++ [c]) = (after s).advance c := by
      rw [after, List.foldl_append]
      rfl
    rw [hafter, advance, List.length_append, List.length_singleton]
    split
    · exact ⟨Nat.succ_le_succ ih.1, Nat.zero_le _⟩
    · exact ⟨Nat.le_succ_of_le ih.1, Nat.succ_le_succ ih.2⟩

end Position

/-- A variable without references, with its line and its column below `n`. -/
structure Variable.Within (n : Nat) (v : Variable) : Prop where
  line : v.line.natAbs < n
  character : v.character.natAbs < n
  references : v.references = []

theorem Variable.Within.mono {n m : Nat} {v : Variable} (h : v.Within n) (hle : n ≤ m) :
    v.Within m :=
  ⟨h.line.trans_le hle, h.character.trans_le hle, h.references⟩

theorem Variable.Placed.isWithin {content : List Char} {v : Variable} (h : v.Placed content)
    (hreferences : v.references = []) : v.Within (content.length + 1) := by
  obtain ⟨pre, rest, hcontent, hline, hcharacter⟩ := h.placed
  have hlength : content.length = pre.length + v.name.toList.length + rest.length := by
    rw [hcontent, List.length_append, List.length_append]
  have hname := List.length_pos_iff.2 h.named
  obtain ⟨hlineLe, hcharacterLe⟩ := Position.after_le_length pre
  refine ⟨?_, ?_, hreferences⟩
  · omega
  · omega

/-! ## Languages -/

theorem JavaScript.within_of_mem_extract {content : List Char} {filePath : String} {v : Variable}
    (h : v ∈ JavaScript.extract content filePath) : v.Within (content.length + 1) := by
  have hplaced := (stands_of_mem_extract h).placed (by decide)
  obtain ⟨s, -, rfl⟩ := List.mem_map.1 h
  exact hplaced.isWithin rfl

theorem Python.within_of_mem_extract {content : List Char} {filePath : String} {v : Variable}
    (h : v ∈ Python.extract content filePath) : v.Within (content.length + 1) := by
  have hplaced := (stands_of_mem_extract h).placed (by decide)
  obtain ⟨i, line, -, hv⟩ := mem_of_line_by_line (variablesFrom filePath)
    (fun _ => rfl) (fun _ _ _ => rfl) h
  obtain ⟨b, -, rfl⟩ := List.mem_map.1 hv
  exact hplaced.isWithin rfl

theorem Yaml.within_of_mem_extract {content : List Char} {filePath : String} {v : Variable}
    (h : v ∈ Yaml.extract content filePath) : v.Within (content.length + 1) := by
  have hplaced := (stands_of_mem_extract h).placed (by decide)
  obtain ⟨i, line, -, hv⟩ := mem_of_line_by_line (variablesFrom filePath)
    (fun _ => rfl) (fun _ _ _ => rfl) h
  obtain ⟨e, -, rfl⟩ := Option.map_eq_some_iff.1 (Option.mem_toList.1 hv)
  exact hplaced.isWithin rfl

theorem Vue.references_of_mem_templateVariablesFrom {b : Block} {filePath : String} {n : Nat}
    {lines : List (List Char)} {v : Variable} (h : v ∈ templateVariablesFrom b filePath n lines) :
    v.references = [] := by
  obtain ⟨i, line, -, hv⟩ := mem_of_line_by_line
    (templateVariablesFrom b filePath) (fun _ => rfl) (fun _ _ _ => rfl) h
  obtain ⟨m, -, hv⟩ := List.mem_flatMap.1 hv
  obtain ⟨found, -, rfl⟩ := List.mem_map.1 hv
  rfl

theorem Vue.within_of_mem_extract {content : List Char} {filePath : String} {v : Variable}
    (h : v ∈ Vue.extract content filePath) : v.Within (content.length + 1) := by
  refine (placed_of_mem_extract h).isWithin ?_
  rcases List.mem_append.1 h with hscript | htemplate
  · rw [scriptVariables] at hscript
    split at hscript
    · cases hscript
    · obtain ⟨w, hw, rfl⟩ := List.mem_map.1 hscript
      exact (JavaScript.within_of_mem_extract hw).references
  · rw [templateVariables] at htemplate
    split at htemplate
    · cases htemplate
    · exact references_of_mem_templateVariablesFrom htemplate

theorem JsonDocument.within_of_mem_ofDocument {filePath : String} {document : Json} {v : Variable}
    (h : v ∈ ofDocument filePath document) : v.Within 1 := by
  obtain ⟨path, key, value, rfl⟩ := exists_property_of_mem_ofDocument h
  exact ⟨Nat.zero_lt_one, Nat.zero_lt_one, rfl⟩

/-! ## Extractors -/

namespace Extractor

/-- What the extractor finds is within the length of the text. -/
def Measures (e : Extractor) : Prop :=
  ∀ content filePath found, e.extract content filePath = .ok found →
    ∀ v ∈ found.vars, v.Within (content.length + 1)

theorem within_of_mem_jsonVariables {content : List Char} {filePath : String} {v : Variable}
    (h : v ∈ (jsonVariables content filePath).vars) : v.Within (content.length + 1) := by
  unfold jsonVariables at h
  extract_lets comments at h
  cases hread : JsonDocument.extract? comments content filePath with
  | error e => simp [hread] at h
  | ok vars =>
    simp only [hread] at h
    rw [JsonDocument.extract?] at hread
    split at hread
    · cases hread
    · rw [← Except.ok.inj hread] at h
      exact (JsonDocument.within_of_mem_ofDocument h).mono (Nat.le_add_left 1 _)

theorem measures_of_mem_builtin {e : Extractor} (he : e ∈ builtin) : e.Measures := by
  intro content filePath found hfound v hv
  have hquiet : ∀ vars : List Char → String → List Variable,
      quiet vars content filePath = .ok found → v ∈ vars content filePath := by
    intro vars heq
    rw [← Except.ok.inj heq] at hv
    exact hv
  simp only [builtin, List.mem_cons, List.not_mem_nil, or_false] at he
  rcases he with rfl | rfl | rfl | rfl | rfl
  · exact JavaScript.within_of_mem_extract (hquiet _ hfound)
  · exact Python.within_of_mem_extract (hquiet _ hfound)
  · exact Vue.within_of_mem_extract (hquiet _ hfound)
  · rw [← Except.ok.inj hfound] at hv
    exact within_of_mem_jsonVariables hv
  · exact Yaml.within_of_mem_extract (hquiet _ hfound)

end Extractor

theorem Registry.measures_of_forFile? {path : String} {e : Extractor}
    (he : standard.forFile? path = some e) : e.Measures :=
  holds_of_forFile? (forall_mem_standard fun _ => Extractor.measures_of_mem_builtin) he

end DeclScan
