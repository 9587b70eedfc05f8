import DeclScan.Proofs.Language.Positions
import DeclScan.Registry

/-!
# DeclScan.Proofs.Language.Origins

Every variable says which file it is from. So one can tell from which of two files a variable was
taken, also where both declare it alike.

* `Extractor.Signs`: what an extractor finds bears the path that it was told.
* `Extractor.signs_of_mem_builtin`: all of them do so.
* `Registry.forall_mem_standard`: what holds of the extractors of a registry, with
  `Registry.signs_standard` as an instance.
-/

namespace DeclScan

/-! ## Languages -/

theorem JavaScript.filePath_of_mem_extract {content : List Char} {filePath : String} {v : Variable}
    (h : v ∈ JavaScript.extract content filePath) : v.filePath = filePath := by
  obtain ⟨s, -, rfl⟩ := List.mem_map.1 h
  rfl

theorem Python.filePath_of_mem_extract {content : List Char} {filePath : String} {v : Variable}
    (h : v ∈ Python.extract content filePath) : v.filePath = filePath := by
  obtain ⟨i, line, -, hv⟩ := mem_of_line_by_line (variablesFrom filePath)
    (fun _ => rfl) (fun _ _ _ => rfl) h
  obtain ⟨b, -, rfl⟩ := List.mem_map.1 hv
  rfl

theorem Yaml.filePath_of_mem_extract {content : List Char} {filePath : String} {v : Variable}
    (h : v ∈ Yaml.extract content filePath) : v.filePath = filePath := by
  obtain ⟨i, line, -, hv⟩ := mem_of_line_by_line (variablesFrom filePath)
    (fun _ => rfl) (fun _ _ _ => rfl) h
  obtain ⟨e, -, rfl⟩ := Option.map_eq_some_iff.1 (Option.mem_toList.1 hv)
  rfl

theorem Vue.filePath_of_mem_extract {content : List Char} {filePath : String} {v : Variable}
    (h : v ∈ Vue.extract content filePath) : v.filePath = filePath := by
  rcases List.mem_append.1 h with hscript | htemplate
  · rw [scriptVariables] at hscript
    split at hscript
    · cases hscript
    · obtain ⟨w, hw, rfl⟩ := List.mem_map.1 hscript
      have horigin : w.filePath = filePath := JavaScript.filePath_of_mem_extract hw
      exact horigin
  · rw [templateVariables] at htemplate
    split at htemplate
    · cases htemplate
    · rename_i b hb
      obtain ⟨i, line, -, hv⟩ := mem_of_line_by_line
        (templateVariablesFrom b filePath) (fun _ => rfl) (fun _ _ _ => rfl) htemplate
      obtain ⟨m, -, hv⟩ := List.mem_flatMap.1 hv
      obtain ⟨found, -, rfl⟩ := List.mem_map.1 hv
      rfl

theorem JsonDocument.exists_property_of_mem_walk? {filePath : String} {n : Nat}
    {levels : List Level} {vars : List Variable} (h : walk? filePath n levels = some vars)
    {v : Variable} (hv : v ∈ vars) : ∃ path key value, v = property filePath path key value := by
  induction n generalizing levels vars with
  | zero =>
    cases levels with
    | nil =>
      cases h
      cases hv
    | cons level outer => cases h
  | succ n ih =>
    match levels, h with
    | [], h =>
      cases h
      cases hv
    | ⟨_, []⟩ :: outer, h => exact ih h hv
    | ⟨path, (key, value) :: left⟩ :: outer, h =>
      obtain ⟨rest, hrest, rfl⟩ := Option.map_eq_some_iff.1 h
      rcases List.mem_cons.1 hv with rfl | hv
      · exact ⟨path, key, value, rfl⟩
      · exact ih hrest hv

theorem JsonDocument.exists_property_of_mem_ofDocument {filePath : String} {document : Json}
    {v : Variable} (hv : v ∈ ofDocument filePath document) :
    ∃ path key value, v = property filePath path key value := by
  rw [ofDocument] at hv
  cases hwalk : walk? filePath (turns document + 1) [⟨"", entries document⟩] with
  | none => simp [hwalk] at hv
  | some vars =>
    rw [hwalk] at hv
    exact exists_property_of_mem_walk? hwalk hv

theorem JsonDocument.filePath_of_mem_extract? {comments : Bool} {content : List Char}
    {filePath : String} {vars : List Variable} (h : extract? comments content filePath = .ok vars)
    {v : Variable} (hv : v ∈ vars) : v.filePath = filePath := by
  rw [extract?] at h
  split at h
  · cases h
  · rw [← Except.ok.inj h] at hv
    obtain ⟨path, key, value, rfl⟩ := exists_property_of_mem_ofDocument hv
    rfl

/-! ## Extractors -/

namespace Extractor

/-- What the extractor finds bears the path that it was told. -/
def Signs (e : Extractor) : Prop :=
  ∀ content filePath found, e.extract content filePath = .ok found →
    ∀ v ∈ found.vars, v.filePath = filePath

theorem filePath_of_mem_jsonVariables {content : List Char} {filePath : String} {v : Variable}
    (h : v ∈ (jsonVariables content filePath).vars) : v.filePath = filePath := by
  unfold jsonVariables at h
  extract_lets comments at h
  cases hread : JsonDocument.extract? comments content filePath with
  | error e => simp [hread] at h
  | ok vars =>
    simp only [hread] at h
    exact JsonDocument.filePath_of_mem_extract? hread h

theorem signs_of_mem_builtin {e : Extractor} (he : e ∈ builtin) : e.Signs := by
  intro content filePath found hfound v hv
  have hquiet : ∀ vars : List Char → String → List Variable,
      quiet vars content filePath = .ok found → v ∈ vars content filePath := by
    intro vars heq
    rw [← Except.ok.inj heq] at hv
    exact hv
  simp only [builtin, List.mem_cons, List.not_mem_nil, or_false] at he
  rcases he with rfl | rfl | rfl | rfl | rfl
  · exact JavaScript.filePath_of_mem_extract (hquiet _ hfound)
  · exact Python.filePath_of_mem_extract (hquiet _ hfound)
  · exact Vue.filePath_of_mem_extract (hquiet _ hfound)
  · rw [← Except.ok.inj hfound] at hv
    exact filePath_of_mem_jsonVariables hv
  · exact Yaml.filePath_of_mem_extract (hquiet _ hfound)

end Extractor

/-! ## Registries -/

namespace Registry

section

variable {p : Extractor → Prop}

theorem forall_mem_register {r : Registry} (h : ∀ entry ∈ r.table, p entry.2) {e : Extractor}
    (he : p e) : ∀ entry ∈ (r.register e).table, p entry.2 := by
  have hfold : ∀ (extensions : List String) (table : Table Extractor),
      (∀ entry ∈ table, p entry.2) →
      ∀ entry ∈ extensions.foldl (fun table extension => table.put (Path.lower extension) e) table,
        p entry.2 := by
    intro extensions
    induction extensions with
    | nil => exact fun _ htable => htable
    | cons extension extensions ih =>
      exact fun table htable => ih _ (Table.forall_mem_put htable he)
  exact hfold e.extensions r.table h

/-- The standard registry has the built-in extractors and no others. -/
theorem forall_mem_standard (h : ∀ e ∈ Extractor.builtin, p e) :
    ∀ entry ∈ standard.table, p entry.2 := by
  have hfold : ∀ (extractors : List Extractor) (r : Registry), (∀ entry ∈ r.table, p entry.2) →
      (∀ e ∈ extractors, p e) → ∀ entry ∈ (extractors.foldl register r).table, p entry.2 := by
    intro extractors
    induction extractors with
    | nil => exact fun _ hr _ => hr
    | cons e extractors ih =>
      intro r hr hall
      rw [List.forall_mem_cons] at hall
      exact ih _ (forall_mem_register hr hall.1) hall.2
  exact hfold Extractor.builtin empty (fun _ hentry => nomatch hentry) h

theorem holds_of_forFile? {r : Registry} (h : ∀ entry ∈ r.table, p entry.2) {path : String}
    {e : Extractor} (he : r.forFile? path = some e) : p e :=
  Table.of_get?_eq_some h he

end

/-- All its extractors say where their variables are from. -/
def Signs (r : Registry) : Prop := ∀ entry ∈ r.table, entry.2.Signs

theorem signs_standard : standard.Signs :=
  forall_mem_standard fun _ => Extractor.signs_of_mem_builtin

theorem Signs.of_forFile? {r : Registry} (h : r.Signs) {path : String} {e : Extractor}
    (he : r.forFile? path = some e) : e.Signs :=
  holds_of_forFile? h he

end Registry
end DeclScan
