import DeclScan.Proofs.Language.Positions
import DeclScan.Proofs.Usage

/-!
# DeclScan.Proofs.Unused

Which declarations are not used. A declaration that is used nowhere else is found in two ways: by counting
the occurrences of its name, and by the references that the name is listed with. Both look for the same
occurrences, and a name that is declared more than once has one list for all of its declarations. Only the
empty name, which a key of a document may have, is listed without references and yet counted wherever no
word character is on either side.

* `Usage.get?_crossReference`, `Usage.mem_unusedIn`: what is listed, and what is counted.
* `Occurrence.count_nil_eq_zero_iff`: when the empty name is not counted at all.
* `Usage.agrees_iff`: where the two ways come to the same.
-/

namespace DeclScan

open Text

/-! ## Occurrences counted -/

namespace Occurrence

variable {content name : List Char} {w : WordClass}

theorem length_references (hname : name ≠ []) (lineOffset : Int) :
    (references content name w lineOffset).length = count content name w := by
  rw [references, if_neg hname, List.length_map, count]

/-- A place between two characters that do not continue an identifier. -/
def IsFree (w : WordClass) (content : List Char) : Prop :=
  ∃ pre rest, content = pre ++ rest ∧ isBoundary w pre.getLast? = true ∧
    isBoundary w rest.head? = true

/-- The empty name is counted, unless every place of the text has a word character beside it. -/
theorem count_nil_eq_zero_iff : count content [] w = 0 ↔ ¬ IsFree w content := by
  rw [count, List.length_eq_zero_iff]
  constructor
  · rintro hnone ⟨pre, rest, hcontent, hbefore, hbehind⟩
    obtain ⟨found, hfound, -⟩ := Search.exists_mem_all (isSome_recogniser [] hbefore hbehind)
    rw [List.nil_append, ← hcontent, hnone] at hfound
    cases hfound
  · intro hfree
    refine List.eq_nil_iff_forall_not_mem.2 ?_
    intro found hfound
    obtain ⟨pre, tail, length, hcontent, -, heq⟩ := Search.mem_all hfound
    obtain ⟨hbefore, rest, rfl, hbehind, -⟩ := recogniser_eq_some_iff.1 heq
    exact hfree ⟨pre, tail, hcontent, hbefore, hbehind⟩

end Occurrence

theorem Table.get?_map {α β : Type} (key : α → String) (value : α → β) (name : String)
    (entries : List α) :
    get? name (entries.map fun a => (key a, value a)) =
      (entries.find? fun a => key a = name).map value := by
  induction entries with
  | nil => rfl
  | cons a entries ih =>
    rw [List.map_cons, get?, List.find?_cons, ih]
    by_cases hkey : key a = name <;> simp [hkey]

namespace Usage

variable {content : List Char} {path : String} {vars : List Variable} {w : WordClass} {v : Variable}

/-! ## What is listed and what is counted -/

/-- A name is listed with its first declaration, and with its occurrences in all documents. -/
theorem get?_crossReference (documents : List (String × List Char))
    (variablesByFile : List (String × List Variable)) (w : WordClass) (name : String) :
    Table.get? name (crossReference documents variablesByFile w) =
      ((variablesByFile.flatMap Prod.snd).find? fun u => u.name = name).map fun u =>
        ⟨u, documents.flatMap (occurrencesIn w name)⟩ := by
  have hlisted := Table.get?_map Variable.name
    (fun u => (⟨u, documents.flatMap (occurrencesIn w u.name)⟩ : Usages)) name
    (firsts (variablesByFile.flatMap Prod.snd))
  rw [crossReference, declarations_eq, List.map_map]
  refine hlisted.trans ?_
  rw [find?_firsts, List.head?_filter]
  refine Option.map_congr ?_
  intro u hu
  have hname : u.name = name := by simpa using List.find?_some hu
  rw [hname]

theorem length_occurrencesIn (w : WordClass) (name path : String) (content : List Char) :
    (occurrencesIn w name (path, content)).length =
      if name = "" then 0 else Occurrence.count content name.toList w := by
  rw [occurrencesIn, List.length_map]
  split
  · rename_i hname
    rw [hname]
    rfl
  · rename_i hname
    refine Occurrence.length_references ?_ 0
    simpa [String.toList_eq_nil_iff] using hname

theorem mem_unusedIn {n : Nat} :
    ⟨v, n⟩ ∈ unusedIn content vars w ↔
      v ∈ vars ∧ v.isFunction = false ∧ n = Occurrence.count content v.name.toList w ∧ n ≤ 1 := by
  rw [unusedIn, List.mem_filterMap]
  constructor
  · rintro ⟨u, hu, hsome⟩
    split at hsome
    · cases hsome
    · rename_i hfunction
      simp only at hsome
      split at hsome
      · rename_i hle
        cases hsome
        exact ⟨hu, by simpa using hfunction, rfl, hle⟩
      · cases hsome
  · rintro ⟨hv, hfunction, rfl, hle⟩
    exact ⟨v, hv, by simp [hfunction, hle]⟩

/-! ## Two ways to look for what is not used -/

/-- The declaration is reported exactly if its name is listed with no more than one reference, and with
the number of them. -/
structure Agrees (reports : List Unused) (entry : Usages) (v : Variable) : Prop where
  reported_iff : (∃ n, ⟨v, n⟩ ∈ reports) ↔ entry.references.length ≤ 1
  usageCount_eq : ∀ n, ⟨v, n⟩ ∈ reports → n = entry.references.length

theorem agrees_iff_count {entry : Usages} (hv : v ∈ vars) (hfunction : v.isFunction = false) :
    Agrees (unusedIn content vars w) entry v ↔
      let n := Occurrence.count content v.name.toList w
      (n ≤ 1 ↔ entry.references.length ≤ 1) ∧ (n ≤ 1 → n = entry.references.length) := by
  extract_lets n
  have hreported : (∃ m, ⟨v, m⟩ ∈ unusedIn content vars w) ↔ n ≤ 1 := by
    constructor
    · rintro ⟨m, hm⟩
      obtain ⟨-, -, rfl, hle⟩ := mem_unusedIn.1 hm
      exact hle
    · intro hle
      exact ⟨n, mem_unusedIn.2 ⟨hv, hfunction, rfl, hle⟩⟩
  constructor
  · intro h
    refine ⟨hreported.symm.trans h.reported_iff, ?_⟩
    intro hle
    exact h.usageCount_eq n (mem_unusedIn.2 ⟨hv, hfunction, rfl, hle⟩)
  · rintro ⟨hiff, heq⟩
    refine ⟨hreported.trans hiff, ?_⟩
    intro m hm
    obtain ⟨-, -, rfl, hle⟩ := mem_unusedIn.1 hm
    exact heq hle

theorem name_ne_empty_of_mem_extract {e : Extractor} (he : e ∈ Extractor.positional)
    {found : Extraction} (hfound : e.extract content path = .ok found) (hv : v ∈ found.vars) :
    v.name ≠ "" := by
  have hplaced : v.Placed content := by
    simp only [Extractor.positional, List.mem_cons, List.not_mem_nil, or_false] at he
    rcases he with rfl | rfl | rfl | rfl <;> cases hfound
    · exact (JavaScript.stands_of_mem_extract hv).placed (by decide)
    · exact (Python.stands_of_mem_extract hv).placed (by decide)
    · exact Vue.placed_of_mem_extract hv
    · exact (Yaml.stands_of_mem_extract hv).placed (by decide)
  exact hplaced.pointsAt.1

/-- Of the declarations in a text, each that is no function has its name listed. The two ways agree about
it unless its name is empty and counted somewhere; they always do where declarations have positions, since
no name is empty there. -/
theorem agrees_iff (content : List Char) (path : String) {vars : List Variable} (w : WordClass)
    {v : Variable} (hv : v ∈ vars) (hfunction : v.isFunction = false) :
    ∃ entry, Table.get? v.name (crossReference [(path, content)] [(path, vars)] w) = some entry ∧
      (Agrees (unusedIn content vars w) entry v ↔
        (v.name = "" → ¬ Occurrence.IsFree w content)) ∧
      ∀ e ∈ Extractor.positional, ∀ found, e.extract content path = .ok found → v ∈ found.vars →
        Agrees (unusedIn content vars w) entry v := by
  obtain ⟨u, hu⟩ : ∃ u, vars.find? (fun u => u.name = v.name) = some u := by
    refine Option.isSome_iff_exists.1 (List.find?_isSome.2 ⟨v, hv, ?_⟩)
    simp
  have hentry : Table.get? v.name (crossReference [(path, content)] [(path, vars)] w) =
      some ⟨u, occurrencesIn w v.name (path, content)⟩ := by
    rw [get?_crossReference]
    simp [hu]
  have hagrees : Agrees (unusedIn content vars w) ⟨u, occurrencesIn w v.name (path, content)⟩ v ↔
      (v.name = "" → ¬ Occurrence.IsFree w content) := by
    rw [agrees_iff_count hv hfunction, ← Occurrence.count_nil_eq_zero_iff]
    simp only [length_occurrencesIn]
    by_cases hname : v.name = ""
    · simp only [hname, if_true, String.toList_empty, forall_const]
      omega
    · simp [hname]
  refine ⟨_, hentry, hagrees, ?_⟩
  intro e he found hfound hmem
  exact hagrees.2 fun hname => absurd hname (name_ne_empty_of_mem_extract he hfound hmem)

/-- Two declarations with one name, which occurs at both of them. -/
theorem agrees_twice :
    let content := "let a = 1; let a = b".toList
    let vars := JavaScript.extract content "a.js"
    ∃ v ∈ vars, v.isFunction = false ∧ v.name = "a" ∧
      ∃ entry, Table.get? v.name (crossReference [("a.js", content)] [("a.js", vars)] .dollar) =
        some entry ∧ entry.references.length = 2 ∧ Agrees (unusedIn content vars .dollar) entry v := by
  intro content vars
  obtain ⟨v, hv, hfunction, hname⟩ : ∃ v ∈ vars, v.isFunction = false ∧ v.name = "a" := by
    decide +kernel
  obtain ⟨entry, hentry, hiff, -⟩ := agrees_iff content "a.js" .dollar hv hfunction
  refine ⟨v, hv, hfunction, hname, entry, hentry, ?_, hiff.2 fun hempty => ?_⟩
  · rw [hname] at hentry
    have hlength : (Table.get? "a" (crossReference [("a.js", content)] [("a.js", vars)] .dollar)).map
        (fun entry => entry.references.length) = some 2 := by
      decide +kernel
    rw [hentry] at hlength
    exact Option.some.inj hlength
  · rw [hname] at hempty
    exact absurd hempty (by decide)

namespace Unnamed

/-- A document whose only key is empty. -/
def document : List Char := "\x7b\"\": 1\x7d".toList

/-- The empty key is listed without a reference, and is not reported. -/
theorem key_unreported :
    let vars := (Extractor.jsonVariables document "a.json").vars
    let table := crossReference [("a.json", document)] [("a.json", vars)] .dollar
    ∃ v ∈ vars, v.isFunction = false ∧
      (Table.get? v.name table).map (fun entry => entry.references) = some [] ∧
      unusedIn document vars .dollar = [] := by
  decide +kernel

end Unnamed

end Usage
end DeclScan
