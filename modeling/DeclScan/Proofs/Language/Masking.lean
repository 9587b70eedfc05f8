import DeclScan.Proofs.Language.Blocks
import DeclScan.Proofs.Language.Positions
import DeclScan.Proofs.Language.Seams

/-!
# DeclScan.Proofs.Language.Masking

The script of a component, read in place. Its declarations are found in the text of the block and moved
to the file. The same declarations are found in the file as it is, if everything around the block is
blanked: line ends stay, and other characters become spaces.

* `blanked`: a text with its characters blanked; it takes up the same lines and columns.
* `JavaScript.extract_around`: blanks around a text only move its declarations.
* `Vue.extract_script`: the declarations of a component, except for the names in its template.
-/

namespace DeclScan

open Text

/-- The text with a space for each character that is not a newline. -/
def blanked (s : List Char) : List Char := s.map fun c => if c = '\n' then '\n' else ' '

theorem isPad_blanked (s : List Char) : IsPad (blanked s) := by
  intro b hb
  obtain ⟨c, -, rfl⟩ := List.mem_map.1 hb
  split <;> decide

theorem Position.after_blanked (s : List Char) : after (blanked s) = after s := by
  rw [after, after, blanked, List.foldl_map]
  congr 1
  funext p c
  by_cases hc : c = '\n'
  · rw [if_pos hc, hc]
  · simp [advance, hc]

namespace JavaScript

variable {keyword pad : List Char}

/-! ## Blanks behind a declaration -/

theorem declarator_of_isBlank (hkeyword : IsKeyword keyword) {b : Char} (hb : isBlank b = true)
    (before : Option Char) (s : List Char) : declarator keyword before (b :: s) = none := by
  obtain ⟨first, more, rfl⟩ := List.exists_cons_of_ne_nil hkeyword.ne_nil
  have hne : first ≠ b := by
    rintro rfl
    rw [isBlank_eq_false_of_isNameRest (hkeyword.all first List.mem_cons_self)] at hb
    cases hb
  rw [declarator_eq, dropLiteral, if_neg hne]
  simp

theorem declarator_keyword_append (h : IsPad pad) (before : Option Char) :
    declarator keyword before (keyword ++ pad) = none := by
  have hnone : (dropBlanks? pad).bind takeIdent? = none := by
    cases pad with
    | nil => rfl
    | cons b pad =>
      have hpad : IsPad pad := h.suffix (List.suffix_cons b pad)
      rw [dropBlanks?, if_pos (h b List.mem_cons_self), trimStart_of_isPad hpad]
      rfl
  rw [declarator_eq, dropLiteral_append]
  split
  · rfl
  · cases hread : dropBlanks? pad with
    | none => simp [hread]
    | some rest =>
      rw [hread, Option.bind_some] at hnone
      simp [hread, hnone]

theorem declarator_append_pad (hkeyword : IsKeyword keyword) (h : IsPad pad) (before : Option Char)
    (s : List Char) :
    declarator keyword before (s ++ pad) =
      (declarator keyword before s).map fun (d, length) =>
        (⟨d.before, d.name, d.lead, d.tail ++ pad⟩, length) := by
  cases pad with
  | nil =>
    rw [List.append_nil]
    cases declarator keyword before s <;> simp
  | cons b rest =>
    have hb : isIdentRest b = false := by
      refine Bool.eq_false_iff.2 fun hident => ?_
      have hblank := h b List.mem_cons_self
      rw [isBlank_eq_false_of_isIdent hident] at hblank
      cases hblank
    by_cases hends : ∃ gap, s = keyword ++ gap ∧ IsPad gap
    · obtain ⟨gap, rfl, hgap⟩ := hends
      rw [List.append_assoc, declarator_keyword_append (hgap.append h),
        declarator_keyword_append hgap]
      rfl
    · refine declarator_append_cons hkeyword hb ?_ before rest
      intro gap hs hgap
      exact hends ⟨gap, hs, hgap⟩

theorem inferType_append_pad (h : IsPad pad) (tail : List Char) :
    inferType (tail ++ pad) = inferType tail := by
  have hsign : '=' ∉ pad := by
    intro hmem
    exact Bool.noConfusion (h '=' hmem)
  by_cases hmem : '=' ∈ tail
  · obtain ⟨between, after, rfl, hbetween⟩ := List.eq_append_cons_of_mem hmem
    rw [List.append_assoc, List.cons_append, inferType_append hbetween, inferType_append hbetween]
    by_cases hends : after.any endsStatement = true
    · rw [takeWhile_append_of_any hends]
    · have hinside : ∀ c ∈ after, (!endsStatement c) = true := by
        intro c hc
        rw [List.any_eq_true] at hends
        simpa using fun hend => hends ⟨c, hc, hend⟩
      have hpad : IsPad (pad.takeWhile fun c => !endsStatement c) := by
        intro c hc
        exact h c ((List.takeWhile_prefix _).subset hc)
      have hall : (after.takeWhile fun c => !endsStatement c) = after :=
        List.takeWhile_eq_self_iff.2 hinside
      rw [List.takeWhile_append_of_pos hinside, hall, trim_append hpad]
  · rw [inferType_of_notMem hmem, inferType_of_notMem]
    rw [List.mem_append, not_or]
    exact ⟨hmem, hsign⟩

/-! ## Blanks around a text -/

variable {pre post : List Char}

theorem scanKeyword_around (k : Keyword) (hpre : IsPad pre) (hpost : IsPad post)
    (hstarts : startsStatement pre.getLast? = true) (body : List Char) (fileName : String) :
    scanKeyword (Document.ofText (pre ++ (body ++ post)) fileName) k =
      (scanKeyword (Document.ofText body fileName) k).map (Scanned.behind (Position.after pre)) := by
  have hkeyword := isKeyword_text k
  have hplaces : Search.places (declarator k.text.toList) (pre ++ (body ++ post)) =
      (Search.places (declarator k.text.toList) body).map fun place =>
        (pre ++ place.1, place.2 ++ post) := by
    refine Search.places_around (bounded_declarator hkeyword.ne_nil) ?_ ?_ ?_ ?_
    · intro u v huv hv
      obtain ⟨b, v, rfl⟩ := List.exists_cons_of_ne_nil hv
      have hb : isBlank b = true := hpre b (by rw [huv]; simp)
      rw [List.cons_append, Search.extent, declarator_of_isBlank hkeyword hb, Option.map_none]
    · have hword : pre.getLast?.any isWord = none.any isWord := by
        rw [any_isWord_of_opensStatement (startsStatement_iff.1 hstarts)]
        rfl
      rw [Search.extent, declarator_congr hword, Option.map_map]
      rfl
    · intro u v _
      rw [Search.extent, declarator_append_pad hkeyword hpost, Option.map_map]
      rfl
    · intro before v hv
      cases v with
      | nil => exact (bounded_declarator hkeyword.ne_nil).extent_nil before
      | cons b v =>
        have hb : isBlank b = true := hpost.suffix hv b List.mem_cons_self
        rw [Search.extent, declarator_of_isBlank hkeyword hb, Option.map_none]
  have hscanned : ∀ place, scannedAt k (pre ++ place.1, place.2 ++ post) =
      (scannedAt k place).map (Scanned.behind (Position.after pre)) := by
    intro place
    have hread := declarator_append_pad hkeyword hpost place.1.getLast? place.2
    rw [scannedAt_append_left k hstarts, scannedAt_append k hread (inferType_append_pad hpost)]
  rw [scanKeyword_eq_places, scanKeyword_eq_places, hplaces, List.filterMap_map, List.map_filterMap]
  exact List.filterMap_congr fun place _ => hscanned place

theorem scan_around (hpre : IsPad pre) (hpost : IsPad post)
    (hstarts : startsStatement pre.getLast? = true) (body : List Char) (fileName : String) :
    scan (Document.ofText (pre ++ (body ++ post)) fileName) =
      (scan (Document.ofText body fileName)).map (Scanned.behind (Position.after pre)) := by
  rw [scan, scan, List.map_flatMap]
  refine List.flatMap_congr fun k _ => ?_
  exact scanKeyword_around k hpre hpost hstarts body fileName

end JavaScript

/-! ## Scripts -/

namespace Vue

/-- Blanks around a script move its declarations as a block does that starts behind them. -/
theorem extract_around {pre post : List Char} (hpre : IsPad pre) (hpost : IsPad post)
    (hstarts : JavaScript.startsStatement pre.getLast? = true) (body : List Char)
    (filePath : String) :
    JavaScript.extract (pre ++ (body ++ post)) filePath =
      (JavaScript.extract body filePath).map (Block.variableToFile ⟨body, Position.after pre⟩) := by
  have hextract : ∀ text, JavaScript.extract text filePath =
      (JavaScript.scan (Document.ofText text filePath)).map (·.toVariable filePath) := fun _ => rfl
  rw [hextract, hextract, JavaScript.scan_around hpre hpost hstarts, List.map_map, List.map_map]
  refine List.map_congr_left fun s _ => ?_
  simp only [Function.comp, JavaScript.Scanned.behind, JavaScript.Scanned.toVariable,
    Block.variableToFile, Block.toFile]
  congr 1
  · push_cast
    omega
  · by_cases hline : s.position.line = 0
    · simp [hline, Int.add_comm]
    · have hlater : ¬ ((s.position.line : Int) + 1 = 1) := by omega
      simp [hline, hlater]

theorem startsStatement_blanked {tag : String} {content before body behind : List Char}
    (h : IsFirstBlock tag content before body behind) :
    JavaScript.startsStatement (blanked before).getLast? = true := by
  have hlast : (blanked before).getLast? = some ' ' := by
    rw [blanked, List.getLast?_map, h.getLast?_before]
    rfl
  rw [hlast]
  rfl

theorem declaredAs_of_mem_scriptVariables {content : List Char} {filePath : String} {v : Variable}
    (h : v ∈ scriptVariables content filePath) : v.declaredAs ≠ "vue-template-variable" := by
  rw [scriptVariables] at h
  split at h
  · cases h
  · obtain ⟨u, hu, rfl⟩ := List.mem_map.1 h
    obtain ⟨s, -, rfl⟩ := List.mem_map.1 hu
    change s.keyword.text ≠ _
    cases s.keyword <;> decide

theorem declaredAs_of_mem_templateVariables {content : List Char} {filePath : String} {v : Variable}
    (h : v ∈ templateVariables content filePath) : v.declaredAs = "vue-template-variable" := by
  rw [templateVariables] at h
  split at h
  · cases h
  · obtain ⟨i, line, -, hv⟩ := mem_of_line_by_line (templateVariablesFrom _ filePath)
      (fun _ => rfl) (fun _ _ _ => rfl) h
    obtain ⟨m, -, hv⟩ := List.mem_flatMap.1 hv
    obtain ⟨found, -, rfl⟩ := List.mem_map.1 hv
    rfl

theorem filter_extract (content : List Char) (filePath : String) :
    (extract content filePath).filter (·.declaredAs ≠ "vue-template-variable") =
      scriptVariables content filePath := by
  have hscript : (scriptVariables content filePath).filter
      (·.declaredAs ≠ "vue-template-variable") = scriptVariables content filePath :=
    List.filter_eq_self.2 fun v hv => decide_eq_true (declaredAs_of_mem_scriptVariables hv)
  have htemplate : (templateVariables content filePath).filter
      (·.declaredAs ≠ "vue-template-variable") = [] :=
    List.filter_eq_nil_iff.2 fun v hv hne =>
      of_decide_eq_true hne (declaredAs_of_mem_templateVariables hv)
  rw [extract, List.filter_append, hscript, htemplate, List.append_nil]

/-- Except for the names in its template, the variables of a component are those that are declared in
the file with everything blanked outside of the first script. Without a script there are none. -/
theorem extract_script (content : List Char) (filePath : String) :
    let declared := (extract content filePath).filter (·.declaredAs ≠ "vue-template-variable")
    (∀ before body behind, IsFirstBlock "script" content before body behind →
      declared = JavaScript.extract (blanked before ++ (body ++ blanked behind)) filePath) ∧
    ((∀ before body behind, ¬ IsFirstBlock "script" content before body behind) →
      declared = []) := by
  intro declared
  have hdeclared : declared = scriptVariables content filePath := filter_extract content filePath
  rw [hdeclared]
  constructor
  · intro before body behind hfirst
    have hscript : script? content = some ⟨body, Position.after before⟩ :=
      findBlock?_eq_some_iff.2 ⟨before, behind, hfirst, rfl⟩
    rw [extract_around (isPad_blanked before) (isPad_blanked behind)
      (startsStatement_blanked hfirst), Position.after_blanked, scriptVariables, hscript]
    rfl
  · intro hnone
    have hscript : script? content = none := findBlock?_eq_none_iff.2 hnone
    rw [scriptVariables, hscript]

namespace Component

def before : List Char := "\n <Script lang>".toList

def body : List Char := "let n = 1\nvar".toList

def behind : List Char := "</SCRIPT> m".toList

/-- A script that begins within a line, and ends with a keyword before a name. -/
theorem extract_script_component :
    IsFirstBlock "script" (before ++ (body ++ behind)) before body behind ∧
      (JavaScript.extract (blanked before ++ (body ++ blanked behind)) "a.vue").map
          (fun v => (v.name, v.type, v.line, v.character)) = [("n", "number", 2, 18)] ∧
      (extract (before ++ (body ++ behind)) "a.vue").filter
          (·.declaredAs ≠ "vue-template-variable") =
        JavaScript.extract (blanked before ++ (body ++ blanked behind)) "a.vue" ∧
      (∀ before body behind, ¬ IsFirstBlock "script" Component.body before body behind) ∧
      (extract Component.body "a.vue").filter (·.declaredAs ≠ "vue-template-variable") = [] := by
  have hopening : IsOpening "script" "<Script lang>".toList :=
    ⟨"<Script".toList, " lang".toList, by decide, by decide, by decide⟩
  have hclose : Begins (closingTag "script") behind :=
    ⟨"</SCRIPT>".toList, " m".toList, by decide, by decide⟩
  have hfirst : IsFirstBlock "script" (before ++ (body ++ behind)) before body behind :=
    @isFirstBlock_of_not_mem "script" "\n ".toList "<Script lang>".toList body behind (by decide)
      hopening (by decide) hclose
  have hnone : ∀ before body behind,
      ¬ IsFirstBlock "script" Component.body before body behind :=
    findBlock?_eq_none_iff.1 (by decide)
  exact ⟨hfirst, by decide +kernel, (extract_script _ "a.vue").1 before body behind hfirst, hnone,
    (extract_script body "a.vue").2 hnone⟩

end Component

end Vue
end DeclScan
