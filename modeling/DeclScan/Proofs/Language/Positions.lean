import DeclScan.Extractor
import DeclScan.Proofs.Language.Blocks
import DeclScan.Proofs.Language.Columns
import DeclScan.Proofs.Occurrence

/-!
# DeclScan.Proofs.Language.Positions

Every position that an extractor reports is one of the text that it was given: its line is a line of
the text, and from its column on the line begins with the name. For a component these are lines and
columns of the whole file.

* `Variable.Stands`: a variable at the place of its name, with what is beside it.
* `JavaScript.stands_of_mem_extract`, `Python.stands_of_mem_extract`, …: the variables of each
  language.
* `Vue.framed_toFile`: what stands in a block of a component stands in the file. Variables and
  references are moved there from their blocks (`Vue.mem_extract`, `Vue.mem_references`).
* `Extractor.positions_pointAt`: every position is one of the text.
-/

namespace DeclScan

open Text

/-- A variable stands at its line and column, and its name is part of that line. -/
structure Variable.Placed (content : List Char) (v : Variable) : Prop where
  placed : PlacedAt content v.line v.character v.name.toList
  named : v.name.toList ≠ []
  within : '\n' ∉ v.name.toList

theorem Variable.Placed.pointsAt {content : List Char} {v : Variable} (h : v.Placed content) :
    v.name ≠ "" ∧ PointsAt content v.line v.character v.name.toList := by
  refine ⟨fun hname => h.named ?_, h.placed.pointsAt h.within⟩
  rw [hname]
  rfl

/-- A variable stands at its line and column between characters that pass the tests, and its name
goes on as long as its characters do. -/
structure Variable.Stands (before behind : Option Char → Bool) (inner : Char → Bool)
    (content : List Char) (v : Variable) : Prop where
  framed : Framed before behind content v.line v.character v.name.toList
  run : IsRun inner v.name.toList

theorem Variable.Stands.placed {before behind : Option Char → Bool} {inner : Char → Bool}
    {content : List Char} {v : Variable} (h : v.Stands before behind inner content)
    (hinner : inner '\n' = false) : v.Placed content where
  placed := h.framed.placedAt
  named := h.run.ne_nil
  within hmem := by
    have := h.run.all _ hmem
    rw [hinner] at this
    cases this

theorem mem_of_line_by_line {β : Type} (collect : Nat → List (List Char) → List β)
    {ofLine : Nat → List Char → List β} (hnil : ∀ n, collect n [] = [])
    (hcons : ∀ n line lines, collect n (line :: lines) = ofLine n line ++ collect (n + 1) lines)
    {lines : List (List Char)} {n : Nat} {b : β} (h : b ∈ collect n lines) :
    ∃ i line, lines[i]? = some line ∧ b ∈ ofLine (n + i) line := by
  induction lines generalizing n with
  | nil => simp [hnil] at h
  | cons first lines ih =>
    rw [hcons] at h
    rcases List.mem_append.1 h with hfirst | hlater
    · exact ⟨0, first, rfl, hfirst⟩
    · obtain ⟨i, line, hline, hb⟩ := ih hlater
      exact ⟨i + 1, line, by simpa using hline, by rwa [Nat.add_right_comm] at hb⟩

/-! ## Variables -/

theorem JavaScript.stands_of_mem_extract {content : List Char} {filePath : String} {v : Variable}
    (h : v ∈ JavaScript.extract content filePath) :
    v.Stands (·.any isBlank) endsIdent isIdentRest content := by
  obtain ⟨s, hs, rfl⟩ := List.mem_map.1 h
  obtain ⟨k, -, hk⟩ := List.mem_flatMap.1 hs
  obtain ⟨found, hfound, hsome⟩ := List.mem_filterMap.1 hk
  split at hsome
  · obtain rfl := Option.some.inj hsome
    obtain ⟨_, _, _, _, _, heq⟩ := Search.mem_all hfound
    have hframed := Search.framedAt_of_mem_all hfound (fun _ => rfl) fun _ _ _ _ h =>
      (framedAt_of_declarator h).1
    constructor
    · rw [String.toList_ofList]
      exact framed_of_framedAt hframed filePath
    · rw [String.toList_ofList]
      exact (framedAt_of_declarator heq).2
  · cases hsome

theorem Python.stands_of_mem_extract {content : List Char} {filePath : String} {v : Variable}
    (h : v ∈ Python.extract content filePath) :
    v.Stands (·.all isIntroducer) endsName isNameRest content := by
  obtain ⟨i, line, hline, hv⟩ := mem_of_line_by_line (variablesFrom filePath)
    (fun _ => rfl) (fun _ _ _ => rfl) h
  obtain ⟨b, hb, rfl⟩ := List.mem_map.1 hv
  obtain ⟨hframed, hrun⟩ := inLine_of_mem_lineBindings hb
  have hplaced := framed_of_line hline hframed (fun _ => rfl) fun _ => rfl
  constructor
  · simpa [Binding.toVariable, Int.add_comm] using hplaced
  · simpa [Binding.toVariable] using hrun

theorem Yaml.stands_of_mem_extract {content : List Char} {filePath : String} {v : Variable}
    (h : v ∈ Yaml.extract content filePath) :
    v.Stands (·.all isBlank) endsKey isKeyRest content := by
  obtain ⟨i, line, hline, hv⟩ := mem_of_line_by_line (variablesFrom filePath)
    (fun _ => rfl) (fun _ _ _ => rfl) h
  obtain ⟨e, he, rfl⟩ := Option.map_eq_some_iff.1 (Option.mem_toList.1 hv)
  obtain ⟨hframed, hrun⟩ := framedAt_of_entryOfLine? he
  have hplaced := framed_of_line hline hframed (fun _ => rfl) fun hnone => by cases hnone
  constructor
  · simpa [Entry.toVariable, Int.add_comm] using hplaced
  · simpa [Entry.toVariable] using hrun

/-! ## Components -/

namespace Vue

/-- The component has this block, as its script or as its template. -/
def HasBlock (content : List Char) (b : Block) : Prop :=
  script? content = some b ∨ template? content = some b

/-- A variable of a block at its place in the file. -/
def Block.variableToFile (b : Block) (v : Variable) : Variable :=
  { v with line := (b.toFile v.line v.character).1, character := (b.toFile v.line v.character).2 }

/-- A reference in a block at its place in the file. -/
def Block.referenceToFile (b : Block) (r : Reference) : Reference :=
  { r with line := (b.toFile r.line r.character).1, character := (b.toFile r.line r.character).2 }

section

variable {content name : List Char} {b : Block} {before behind : Option Char → Bool}

theorem content_of_findBlock? {tag : String} (h : findBlock? tag content = some b) :
    ∃ pre rest, content = pre ++ b.text ++ rest ∧ b.start = Position.after pre ∧
      pre.getLast? = some '>' ∧ rest.head? = some '<' := by
  obtain ⟨pre, rest, hfirst, hstart⟩ := findBlock?_eq_some_iff.1 h
  refine ⟨pre, rest, ?_, hstart, hfirst.getLast?_before, hfirst.head?_behind⟩
  rw [List.append_assoc]
  exact hfirst.content_eq

/-- What stands in a block stands in the file, at the place that the block makes of it. At the ends
of the block, its tags are beside it. -/
theorem framed_toFile (hb : HasBlock content b) {line character : Int}
    (h : Framed before behind b.text line character name)
    (hbefore : before none = true → before (some '>') = true)
    (hbehind : behind none = true → behind (some '<') = true) :
    Framed before behind content (b.toFile line character).1 (b.toFile line character).2 name := by
  obtain ⟨pre, rest, hcontent, hstart, hpre, hrest⟩ :=
    hb.elim content_of_findBlock? content_of_findBlock?
  rw [Block.toFile, hstart]
  exact h.of_part hcontent (hpre ▸ hbefore) (hrest ▸ hbehind)

theorem stands_variableToFile (hb : HasBlock content b) {inner : Char → Bool} {v : Variable}
    (h : v.Stands before behind inner b.text) (hbefore : before none = true → before (some '>') = true)
    (hbehind : behind none = true → behind (some '<') = true) :
    (b.variableToFile v).Stands before behind inner content :=
  ⟨framed_toFile hb h.framed hbefore hbehind, h.run⟩

end

/-- A name that a template mentions stands between what opens and what closes the mention. -/
def Mentioned (content : List Char) (v : Variable) : Prop :=
  v.Stands (opensMention v.name.toList) closesMention (· ≠ '\n') content ∧ v.scope = "template"

theorem mentioned_of_mem_templateVariables {content : List Char} {filePath : String} {v : Variable}
    (h : v ∈ templateVariables content filePath) :
    ∃ b u, template? content = some b ∧ Mentioned b.text u ∧ b.variableToFile u = v := by
  rw [templateVariables] at h
  split at h
  · cases h
  · rename_i b hb
    obtain ⟨i, line, hline, hv⟩ := mem_of_line_by_line
      (templateVariablesFrom b filePath) (fun _ => rfl) (fun _ _ _ => rfl) h
    obtain ⟨m, hm, hv⟩ := List.mem_flatMap.1 hv
    obtain ⟨found, hfound, rfl⟩ := List.mem_map.1 hv
    obtain ⟨hframed, hne⟩ := framedAt_of_mentions hm hfound
    have hplaced := framed_of_line hline hframed (fun hnone => by cases hnone)
      fun hnone => by cases hnone
    have hnewline := not_mem_of_mem_splitOn (List.mem_of_getElem? hline)
    refine ⟨b, { templateVariable b filePath (1 + i) found with
      line := (1 + i : Nat), character := (found.offset + found.value.lead : Nat) }, hb,
      ⟨⟨?_, ?_, ?_⟩, rfl⟩, rfl⟩
    · simpa [templateVariable, Nat.add_comm] using hplaced
    · simpa [templateVariable] using hne
    · intro c hc
      have hc : c ∈ found.value.name := by simpa [templateVariable] using hc
      refine decide_eq_true fun hcn => hnewline (hframed.mem ?_)
      exact hcn ▸ hc

/-- A variable of a component is one that its script declares or its template mentions, at its place
in the file. -/
theorem mem_extract {content : List Char} {filePath : String} {v : Variable}
    (h : v ∈ Vue.extract content filePath) :
    (∃ b u, script? content = some b ∧ u ∈ JavaScript.extract b.text filePath ∧
      b.variableToFile u = v) ∨
    ∃ b u, template? content = some b ∧ Mentioned b.text u ∧ b.variableToFile u = v := by
  rcases List.mem_append.1 h with hscript | htemplate
  · left
    rw [scriptVariables] at hscript
    split at hscript
    · cases hscript
    · rename_i b hb
      obtain ⟨u, hu, rfl⟩ := List.mem_map.1 hscript
      exact ⟨b, u, hb, hu, rfl⟩
  · exact Or.inr (mentioned_of_mem_templateVariables htemplate)

/-- A reference in a component is one in a block, at its place in the file. -/
theorem mem_references {content name : List Char} {r : Reference} :
    r ∈ Vue.references content name ↔ ∃ b s, HasBlock content b ∧
      s ∈ Occurrence.references b.text name .dollar 0 ∧ b.referenceToFile s = r := by
  constructor
  · intro h
    obtain ⟨b?, hb?, hr⟩ := List.mem_flatMap.1 h
    split at hr
    · cases hr
    · rename_i b
      obtain ⟨s, hs, rfl⟩ := List.mem_map.1 hr
      simp only [List.mem_cons, List.not_mem_nil, or_false] at hb?
      exact ⟨b, s, hb?.imp Eq.symm Eq.symm, hs, rfl⟩
  · rintro ⟨b, s, hb, hs, rfl⟩
    refine List.mem_flatMap.2 ⟨some b, ?_, List.mem_map.2 ⟨s, hs, rfl⟩⟩
    simp only [List.mem_cons, List.not_mem_nil, or_false]
    exact hb.imp Eq.symm Eq.symm

theorem framed_of_mem_references {content name : List Char} {r : Reference}
    (h : r ∈ Vue.references content name) : name ≠ [] ∧
      Framed (Occurrence.isBoundary .dollar) (Occurrence.isBoundary .dollar) content r.line
        r.character name := by
  obtain ⟨b, s, hb, hs, rfl⟩ := mem_references.1 h
  obtain ⟨hne, hframed⟩ := Occurrence.framed_of_mem_references hs
  exact ⟨hne, framed_toFile hb hframed (fun _ => by decide) fun _ => by decide⟩

theorem placed_of_mem_extract {content : List Char} {filePath : String} {v : Variable}
    (h : v ∈ Vue.extract content filePath) : v.Placed content := by
  rcases mem_extract h with ⟨b, u, hb, hu, rfl⟩ | ⟨b, u, hb, ⟨hu, -⟩, rfl⟩
  · have hstands := JavaScript.stands_of_mem_extract hu
    have hfile := stands_variableToFile (Or.inl hb) hstands (fun hnone => by cases hnone)
      fun _ => by decide
    exact hfile.placed (by decide)
  · have hfile := stands_variableToFile (Or.inr hb) hu (fun hnone => by cases hnone)
      fun hnone => by cases hnone
    exact hfile.placed (by decide)

end Vue

/-! ## Extractors -/

namespace Extractor

/-- The extractors of languages whose declarations have positions. -/
def positional : List Extractor := [javaScript, python, vue, yaml]

/-- Every variable and every reference that is reported points at its name: the line is there, and
goes on with the name from the column on. -/
theorem positions_pointAt {e : Extractor} (he : e ∈ positional) (content : List Char)
    (filePath : String) :
    (∃ found, e.extract content filePath = .ok found ∧ ∀ v ∈ found.vars,
      v.name ≠ "" ∧ PointsAt content v.line v.character v.name.toList) ∧
    ∀ name, '\n' ∉ name → ∀ r ∈ e.references content name,
      name ≠ [] ∧ PointsAt content r.line r.character name := by
  have hextract : ∀ extract : List Char → String → List Variable,
      (∀ v ∈ extract content filePath, v.Placed content) →
      ∃ found, quiet extract content filePath = .ok found ∧ ∀ v ∈ found.vars,
        v.name ≠ "" ∧ PointsAt content v.line v.character v.name.toList :=
    fun extract hplaced => ⟨_, rfl, fun v hv => (hplaced v hv).pointsAt⟩
  have hreferences : ∀ references : List Char → List Reference,
      (∀ name, ∀ r ∈ references name, name ≠ [] ∧ PlacedAt content r.line r.character name) →
      ∀ name, '\n' ∉ name → ∀ r ∈ references name,
        name ≠ [] ∧ PointsAt content r.line r.character name :=
    fun _ hplaced name hname r hr => ⟨(hplaced name r hr).1, (hplaced name r hr).2.pointsAt hname⟩
  simp only [positional, List.mem_cons, List.not_mem_nil, or_false] at he
  rcases he with rfl | rfl | rfl | rfl
  · exact ⟨hextract _ fun _ hv => (JavaScript.stands_of_mem_extract hv).placed (by decide),
      hreferences _ fun _ _ hr => (Occurrence.framed_of_mem_references hr).imp_right Framed.placedAt⟩
  · exact ⟨hextract _ fun _ hv => (Python.stands_of_mem_extract hv).placed (by decide),
      hreferences _ fun _ _ hr => (Occurrence.framed_of_mem_references hr).imp_right Framed.placedAt⟩
  · exact ⟨hextract _ fun _ => Vue.placed_of_mem_extract, hreferences _ fun _ _ hr =>
      (Vue.framed_of_mem_references hr).imp_right Framed.placedAt⟩
  · exact ⟨hextract _ fun _ hv => (Yaml.stands_of_mem_extract hv).placed (by decide),
      hreferences _ fun _ _ hr => (Occurrence.framed_of_mem_references hr).imp_right Framed.placedAt⟩

/-- A component on two lines, with a template and a script that begin within the first. -/
def component : List Char :=
  "<template><p :x=\"n\"></p></template> <script>let n = 1\nn</script>".toList

/-- Both blocks count columns from the start of the file's line. -/
theorem positions_of_component :
    vue ∈ positional ∧ '\n' ∉ ['n'] ∧
      (Vue.extract component "a.vue").map (fun v => (v.name, v.line, v.character)) =
        [("n", 1, 48), ("n", 1, 17)] ∧
      (vue.references component ['n']).map (fun r => (r.line, r.character)) =
        [(1, 48), (2, 0), (1, 17)] ∧
      (∃ found, vue.extract component "a.vue" = .ok found ∧ ∀ v ∈ found.vars,
        v.name ≠ "" ∧ PointsAt component v.line v.character v.name.toList) ∧
      ∀ r ∈ vue.references component ['n'],
        ['n'] ≠ [] ∧ PointsAt component r.line r.character ['n'] := by
  have hvue : vue ∈ positional := by simp [positional]
  have hname : '\n' ∉ ['n'] := by decide
  obtain ⟨hvars, hreferences⟩ := positions_pointAt hvue component "a.vue"
  exact ⟨hvue, hname, by decide +kernel, by decide +kernel, hvars, hreferences ['n'] hname⟩

end Extractor
end DeclScan
