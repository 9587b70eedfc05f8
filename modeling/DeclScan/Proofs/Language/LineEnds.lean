import DeclScan.Proofs.Language.Assignments
import DeclScan.Proofs.Language.Declarators
import DeclScan.Proofs.Language.KeyLines
import DeclScan.Proofs.Language.Positions

/-!
# DeclScan.Proofs.Language.LineEnds

Sources whose lines end with a carriage return and a newline. An unsaved text may have such line ends;
once it is saved and read again, its lines end with newlines alone. In three of the languages whose
declarations have positions the variables are the same: the search for a declaration passes both as
blanks, types are those of trimmed values, and a line of YAML is cut off before its carriage return. In
Python the carriage return is a part of what is assigned.

* `JavaScript.extract_withReturns`: a search over the whole text.
* `Vue.findBlock?_withReturns`, `Vue.extract_withReturns`: blocks, and the lines of a template.
* `Yaml.extract_withReturns`: line by line.
* `Extractor.extract_withReturns_iff`: all four, and what a Python source must not have.
-/

namespace DeclScan

open Text

namespace JavaScript

variable {keyword : List Char}

theorem takeIdent?_withReturns (s : List Char) :
    takeIdent? (withReturns s) = (takeIdent? s).map fun (name, rest) => (name, withReturns rest) := by
  have hreturn : isIdentRest '\r' = false := by decide
  have hnewline : isIdentRest '\n' = false := by decide
  cases s with
  | nil => rfl
  | cons c s =>
    by_cases hc : c = '\n'
    · subst hc
      rfl
    · rw [withReturns_cons hc, takeIdent?, takeIdent?, takeWhile_withReturns hreturn hnewline,
        dropWhile_withReturns (hreturn.trans hnewline.symm)]
      split <;> rfl

theorem inferType_withReturns (tail : List Char) :
    inferType (withReturns tail) = inferType tail := by
  have hends : endsStatement '\r' = false := by decide
  obtain ⟨hbetween, hafter⟩ := span_withReturns (p := fun c => decide (c ≠ '=')) rfl tail
  rw [inferType, inferType, hbetween, hafter]
  cases hrest : tail.dropWhile (· ≠ '=') with
  | nil => rfl
  | cons c after =>
    have hc : c = '=' := by
      have := head?_dropWhile (· ≠ '=') tail
      rw [hrest] at this
      simpa using this
    subst hc
    obtain ⟨pad, hpad, htake⟩ :=
      exists_takeWhile_withReturns (p := fun c => !endsStatement c) rfl rfl after
    simp only [withReturns_cons (by decide : '=' ≠ '\n'), any_withReturns hends, htake,
      trim_append hpad]

theorem isWithinLine_keyword (hkeyword : IsKeyword keyword) : IsWithinLine keyword := by
  constructor <;> intro hmem <;> have hname := hkeyword.all _ hmem <;> revert hname <;> decide

theorem declarator_withReturns (hkeyword : IsKeyword keyword) (before : Option Char)
    (s : List Char) :
    declarator keyword before (withReturns s) =
      (declarator keyword before s).map fun (d, length) =>
        (⟨d.before, d.name, (withReturns (s.take d.lead)).length, withReturns d.tail⟩,
          (withReturns (s.take length)).length) := by
  rw [declarator_eq, declarator_eq, dropLiteral_withReturns (isWithinLine_keyword hkeyword)]
  split
  · rfl
  cases hread : dropLiteral keyword s with
  | none => rfl
  | some r =>
    simp only [Option.map_some, Option.bind_some, dropBlanks?_withReturns]
    cases hblanks : dropBlanks? r with
    | none => rfl
    | some rest =>
      simp only [Option.map_some, Option.bind_some, takeIdent?_withReturns]
      cases hname : takeIdent? rest with
      | none => rfl
      | some found =>
        obtain ⟨name, tail⟩ := found
        obtain ⟨u, rfl⟩ := (suffix_of_dropBlanks? hblanks).trans (suffix_of_dropLiteral hread)
        obtain ⟨rfl, hrun, -⟩ := takeIdent?_eq_some hname
        have hwithin : '\n' ∉ name := fun hmem => absurd (hrun.all _ hmem) (by decide)
        have hlead : (u ++ (name ++ tail)).length - (name ++ tail).length = u.length := by simp
        have hlead' : (withReturns (u ++ (name ++ tail))).length - (withReturns (name ++ tail)).length =
            (withReturns u).length := by
          rw [withReturns_append u, List.length_append, Nat.add_sub_cancel]
        have htaken : (u ++ (name ++ tail)).take (u.length + name.length) = u ++ name := by
          rw [← List.append_assoc, ← List.length_append, List.take_left]
        simp only [Option.map_some, hlead, hlead', htaken, List.take_left]
        rw [withReturns_append u name, withReturns_of_not_mem hwithin, List.length_append]

theorem extent_declarator_at_newline (hkeyword : IsKeyword keyword) (before : Option Char)
    (s : List Char) : Search.extent (declarator keyword) before ('\n' :: s) = none := by
  obtain ⟨first, more, rfl⟩ := List.exists_cons_of_ne_nil hkeyword.ne_nil
  have hfirst : first ≠ '\n' := fun heq => (isWithinLine_keyword hkeyword).2 (by simp [heq])
  rw [Search.extent, declarator_eq, dropLiteral, if_neg hfirst]
  split <;> rfl

/-- A declaration has the same line and column, since a carriage return ends no name and stands behind
what stands in its line. -/
theorem scannedAt_withReturns (k : Keyword) (u v : List Char) :
    scannedAt k (withReturns u, withReturns v) = scannedAt k (u, v) := by
  have hposition : ∀ n, Position.after (withReturns u ++
      (withReturns v).take (withReturns (v.take n)).length) = Position.after (u ++ v.take n) := by
    intro n
    rw [take_withReturns, ← withReturns_append, Position.after_withReturns]
  simp only [scannedAt, getLast?_withReturns, declarator_withReturns (isKeyword_text k),
    Option.map_map]
  split
  · refine Option.map_congr fun found _ => ?_
    simp only [Function.comp, inferType_withReturns, hposition]
  · rfl

theorem scanKeyword_withReturns (k : Keyword) (text : List Char) (fileName : String) :
    scanKeyword (Document.ofText (withReturns text) fileName) k =
      scanKeyword (Document.ofText text fileName) k := by
  have hkeyword := isKeyword_text k
  have hextent : ∀ before t, Search.extent (declarator k.text.toList) before (withReturns t) =
      (Search.extent (declarator k.text.toList) before t).map fun length =>
        (withReturns (t.take length)).length := by
    intro before t
    rw [Search.extent, Search.extent, declarator_withReturns hkeyword, Option.map_map, Option.map_map]
    rfl
  rw [scanKeyword_eq_places, scanKeyword_eq_places, Search.places_withReturns
    (bounded_declarator hkeyword.ne_nil) (extent_declarator_at_newline hkeyword) hextent,
    List.filterMap_map]
  refine List.filterMap_congr fun place _ => ?_
  exact scannedAt_withReturns k place.1 place.2

theorem extract_withReturns (content : List Char) (filePath : String) :
    extract (withReturns content) filePath = extract content filePath := by
  rw [extract, extract, scan, scan]
  simp only [List.flatMap_cons, List.flatMap_nil, scanKeyword_withReturns]

end JavaScript

/-! ## Components -/

namespace Vue

variable {tag : String} {literal : List Char}

theorem dropIgnoringCase_withReturns (h : IsWithinLine literal) (s : List Char) :
    dropIgnoringCase literal (withReturns s) = (dropIgnoringCase literal s).map withReturns := by
  have hreturn : foldCase '\r' = '\r' := by decide
  have hnewline : foldCase '\n' = '\n' := by decide
  induction literal generalizing s with
  | nil => rfl
  | cons d literal ih =>
    obtain ⟨hr, hn⟩ := h
    rw [List.mem_cons, not_or] at hr hn
    cases s with
    | nil => rfl
    | cons c s =>
      by_cases hc : c = '\n'
      · simp [hc, withReturns, dropIgnoringCase, hreturn, hnewline, Ne.symm hr.1, Ne.symm hn.1]
      · rw [withReturns_cons hc, dropIgnoringCase, dropIgnoringCase, ih ⟨hr.2, hn.2⟩]
        split <;> rfl

theorem bodyUpTo?_withReturns {close : List Char} (hne : close ≠ []) (h : IsWithinLine close)
    (seen s : List Char) :
    bodyUpTo? close (withReturns seen.reverse).reverse (withReturns s) =
      (bodyUpTo? close seen s).map withReturns := by
  induction s generalizing seen with
  | nil => rfl
  | cons c s ih =>
    have hhere := dropIgnoringCase_withReturns h (c :: s)
    have hnext := ih (c :: seen)
    rw [List.reverse_cons, withReturns_append] at hnext
    by_cases hc : c = '\n'
    · subst hc
      have hnone : ∀ t, dropIgnoringCase close ('\n' :: t) = none := by
        intro t
        obtain ⟨d, more, rfl⟩ := List.exists_cons_of_ne_nil hne
        have hd : d ≠ foldCase '\n' := fun heq => h.2 (by simp [heq, foldCase])
        rw [dropIgnoringCase, if_neg hd]
      rw [hnone, withReturns_newline, Option.map_none] at hhere
      have hseen : (withReturns seen.reverse ++ withReturns ['\n']).reverse =
          '\n' :: '\r' :: (withReturns seen.reverse).reverse := by
        simp [withReturns]
      rw [hseen] at hnext
      rw [withReturns_newline, bodyUpTo?, hhere, bodyUpTo?, hnone, bodyUpTo?, hnone]
      exact hnext
    · have hseen : (withReturns seen.reverse ++ withReturns [c]).reverse =
          c :: (withReturns seen.reverse).reverse := by
        simp [withReturns_cons hc, withReturns_nil]
      rw [hseen] at hnext
      rw [withReturns_cons hc] at hhere ⊢
      rw [bodyUpTo?, bodyUpTo?, hhere, Option.isSome_map, hnext]
      split
      · rw [List.reverse_reverse]
        rfl
      · rfl

theorem block_withReturns (h : IsWithinLine tag.toList) (before : Option Char) (s : List Char) :
    (block tag before (withReturns s)).map Prod.fst =
      (block tag before s).map fun ((body, lead), _) =>
        (withReturns body, (withReturns (s.take lead)).length) := by
  have hopen : IsWithinLine ('<' :: tag.toList) := by simpa [IsWithinLine] using h
  have hclose : IsWithinLine ('<' :: '/' :: tag.toList ++ ['>']) := by simpa [IsWithinLine] using h
  rw [block, block, dropIgnoringCase_withReturns hopen]
  cases hr : dropIgnoringCase ('<' :: tag.toList) s with
  | none => rfl
  | some r =>
    simp only [Option.map_some]
    rw [dropWhile_withReturns rfl]
    cases hinside : r.dropWhile (· ≠ '>') with
    | nil => rfl
    | cons c inside =>
      have hc : c ≠ '\n' := by
        have hhead := head?_dropWhile (· ≠ '>') r
        rw [hinside] at hhead
        obtain rfl : c = '>' := by simpa using hhead
        decide
      have hsuffix : inside <:+ s := by
        have hr' := suffix_of_dropIgnoringCase hr
        exact ((List.suffix_cons c inside).trans (hinside ▸ List.dropWhile_suffix _)).trans hr'
      have hne : '<' :: '/' :: tag.toList ++ ['>'] ≠ [] := by simp
      have hbody := bodyUpTo?_withReturns hne hclose [] inside
      simp only [List.reverse_nil, withReturns_nil] at hbody
      simp only [withReturns_cons hc, hbody, Option.map_map, length_sub_withReturns hsuffix]
      rfl

theorem lead_le_of_block {before : Option Char} {s : List Char} {found : (List Char × Nat) × Nat}
    (h : block tag before s = some found) : found.1.2 ≤ s.length := by
  rw [block] at h
  split at h
  · cases h
  · split at h
    · cases h
    · obtain ⟨body, -, rfl⟩ := Option.map_eq_some_iff.1 h
      exact Nat.sub_le _ _

/-- A block has its own line ends, and starts at the same line and column. -/
theorem findBlock?_withReturns (h : IsWithinLine tag.toList) (content : List Char) :
    findBlock? tag (withReturns content) =
      (findBlock? tag content).map fun b => ⟨withReturns b.text, b.start⟩ := by
  rw [findBlock?, findBlock?, Option.map_map]
  refine Search.first?_withReturns (fun before t => ?_) fun u v huv => ?_
  · have hopen : dropIgnoringCase ('<' :: tag.toList) ('\n' :: t) = none := by
      rw [dropIgnoringCase, if_neg (by decide)]
    rw [block, hopen]
  · have hfst := block_withReturns h u.getLast? v
    simp only [Search.resultAt, getLast?_withReturns]
    cases hv : block tag u.getLast? v with
    | none =>
      rw [hv, Option.map_none, Option.map_eq_none_iff] at hfst
      rw [hfst]
      rfl
    | some found =>
      rw [hv, Option.map_some, Option.map_eq_some_iff] at hfst
      obtain ⟨found', hfound', hvalue⟩ := hfst
      have hle := lead_le_of_block hv
      have hplace : u.length + found.1.2 = (u ++ v.take found.1.2).length := by
        rw [List.length_append, List.length_take_of_le hle]
      have hplace' : (withReturns u).length + (withReturns (v.take found.1.2)).length =
          (withReturns (u ++ v.take found.1.2)).length := by
        rw [withReturns_append, List.length_append]
      have hcontent : content = u ++ v.take found.1.2 ++ v.drop found.1.2 := by
        rw [List.append_assoc, List.take_append_drop, huv]
      rw [hfound']
      simp only [Option.bind_some, Function.comp, hvalue, hplace, hplace', hcontent,
        withReturns_append _ (v.drop found.1.2), Document.positionAt_length,
        Position.after_withReturns]

theorem scriptVariables_withReturns (content : List Char) (filePath : String) :
    scriptVariables (withReturns content) filePath = scriptVariables content filePath := by
  rw [scriptVariables, scriptVariables, script?, script?, findBlock?_withReturns (by decide)]
  cases findBlock? "script" content with
  | none => rfl
  | some b => simp only [Option.map_some, JavaScript.extract_withReturns, Block.toFile]

/-! ## Lines of a template -/

theorem takePath?_append_return (s : List Char) :
    takePath? (s ++ ['\r']) = (takePath? s).map fun (name, rest) => (name, rest ++ ['\r']) := by
  have hreturn : isPathRest '\r' = false := by decide
  cases s with
  | nil => rfl
  | cons c s =>
    obtain ⟨htake, hdrop⟩ := takeWhile_append_cons hreturn s []
    rw [List.cons_append, takePath?, takePath?, htake, hdrop]
    split <;> rfl

theorem loopDirective_append_return (before : Option Char) (s : List Char) :
    loopDirective before (s ++ ['\r']) = loopDirective before s := by
  have hreturn : isNameRest '\r' = false := by decide
  have hopen : IsWithinLine "v-for=\"".toList := by decide
  have hin : IsWithinLine "in".toList := by decide
  rw [loopDirective, loopDirective, dropLiteral_append_return hopen, Option.bind_map]
  cases dropLiteral "v-for=\"".toList s with
  | none => rfl
  | some r =>
    simp only [Option.bind_some, Function.comp, takeName?_append_cons hreturn r []]
    cases takeName? r with
    | none => rfl
    | some found =>
      obtain ⟨name, after⟩ := found
      simp only [Option.map_some, bind_dropLiteral_append_return (by decide) hin]
      cases (dropBlanks? after).bind (dropLiteral "in".toList) with
      | none => rfl
      | some r =>
        simp only [Option.map_some]
        rcases span_append_return (by decide : '"' ≠ '\r') r with
          ⟨value, rest, hv, hr, hv', hr'⟩ | ⟨hr, hr'⟩
        · simp only [hv, hr, hv', hr', length_append_return_sub]
        · simp only [hr, hr']

theorem modelDirective_append_return (before : Option Char) (s : List Char) :
    modelDirective before (s ++ ['\r']) = modelDirective before s := by
  have hopen : IsWithinLine "v-model=\"".toList := by decide
  rw [modelDirective, modelDirective, dropLiteral_append_return hopen]
  cases dropLiteral "v-model=\"".toList s with
  | none => rfl
  | some r =>
    simp only [Option.map_some]
    rcases span_append_return (by decide : '"' ≠ '\r') r with
      ⟨value, rest, hv, hr, hv', hr'⟩ | ⟨hr, hr'⟩
    · rw [hv, hr, hv', hr']
      cases value with
      | nil => rfl
      | cons c name => simp only [length_append_return_sub]
    · rw [hr, hr']
      cases r.takeWhile (· ≠ '"') <;> cases (r ++ ['\r']).takeWhile (· ≠ '"') <;> rfl

/-- What an interpolation and a bound attribute in `s` have inside, from `r` on: a name with blanks around
it, and what closes them. -/
def enclosed? (close s r : List Char) : Option (Mention × Nat) :=
  match takePath? (trimStart r) with
  | none => none
  | some (name, after) =>
    (dropLiteral close (trimStart after)).map fun rest =>
      (⟨name, s.length - (trimStart r).length⟩, s.length - rest.length)

theorem enclosed?_append_return {close : List Char} (hne : close ≠ []) (hclose : IsWithinLine close)
    (s r : List Char) : enclosed? close (s ++ ['\r']) (r ++ ['\r']) = enclosed? close s r := by
  rw [enclosed?, enclosed?]
  by_cases hr : IsPad r
  · rw [trimStart_of_isPad hr, trimStart_of_isPad (hr.append (by decide))]
    rfl
  · rw [trimStart_append_of_not_isPad hr, takePath?_append_return, length_append_return_sub]
    cases takePath? (trimStart r) with
    | none => rfl
    | some found =>
      obtain ⟨name, after⟩ := found
      simp only [Option.map_some]
      rw [dropLiteral_trimStart_append_return hne hclose, Option.map_map]
      simp only [Function.comp_def, length_append_return_sub]

theorem interpolation_append_return (before : Option Char) (s : List Char) :
    interpolation before (s ++ ['\r']) = interpolation before s := by
  have hopen : IsWithinLine ['\x7b', '\x7b'] := by decide
  have hclose : IsWithinLine ['\x7d', '\x7d'] := by decide
  rw [interpolation, interpolation, dropLiteral_append_return hopen]
  cases dropLiteral ['\x7b', '\x7b'] s with
  | none => rfl
  | some r => exact enclosed?_append_return (List.cons_ne_nil _ _) hclose s r

theorem boundAttribute_append_return (before : Option Char) (s : List Char) :
    boundAttribute before (s ++ ['\r']) = boundAttribute before s := by
  have hsign : IsWithinLine "=\"".toList := by decide
  have hclose : IsWithinLine ['"'] := by decide
  have hreturn : (isWord '\r' || decide ('\r' = '-')) = false := by decide
  cases s with
  | nil => rfl
  | cons c s =>
    by_cases hc : c = ':'
    · subst hc
      obtain ⟨htake, hdrop⟩ :=
        takeWhile_append_cons (p := fun c => isWord c || decide (c = '-')) hreturn s []
      rw [List.cons_append, boundAttribute, boundAttribute, htake, hdrop,
        dropLiteral_append_return hsign]
      split
      · rfl
      · cases dropLiteral "=\"".toList (s.dropWhile fun c => isWord c || decide (c = '-')) with
        | none => rfl
        | some r => exact enclosed?_append_return (List.cons_ne_nil _ _) hclose (':' :: s) r
    · have hnone : ∀ t, boundAttribute before (c :: t) = none := by
        intro t
        rw [boundAttribute.eq_def]
        split
        · rename_i heq
          exact absurd (List.cons.inj heq).1 hc
        · rfl
      rw [List.cons_append, hnone, hnone]

theorem mention_append_return {m : Recogniser Mention} (hm : m ∈ mentions) (line : List Char) :
    Search.all m (line ++ ['\r']) = Search.all m line := by
  simp only [mentions, List.mem_cons, List.not_mem_nil, or_false] at hm
  rcases hm with rfl | rfl | rfl | rfl
  · exact Search.all_append_singleton (fun _ => rfl) loopDirective_append_return line
  · exact Search.all_append_singleton (fun _ => rfl) modelDirective_append_return line
  · exact Search.all_append_singleton (fun _ => rfl) interpolation_append_return line
  · exact Search.all_append_singleton (fun _ => rfl) boundAttribute_append_return line

theorem templateVariablesFrom_congr {b b' : Block} (h : b.start = b'.start) (filePath : String)
    (n : Nat) (lines : List (List Char)) :
    templateVariablesFrom b filePath n lines = templateVariablesFrom b' filePath n lines := by
  induction lines generalizing n with
  | nil => rfl
  | cons line lines ih =>
    have hline : ∀ found : Found Mention,
        templateVariable b filePath n found = templateVariable b' filePath n found := fun found => by
      rw [templateVariable, templateVariable, Block.toFile, Block.toFile, h]
    rw [templateVariablesFrom, templateVariablesFrom, ih, funext hline]

theorem templateVariables_withReturns (content : List Char) (filePath : String) :
    templateVariables (withReturns content) filePath = templateVariables content filePath := by
  rw [templateVariables, templateVariables, template?, template?, findBlock?_withReturns (by decide)]
  cases findBlock? "template" content with
  | none => rfl
  | some b =>
    let b' : Block := ⟨withReturns b.text, b.start⟩
    have hstart : b'.start = b.start := rfl
    have hsame := templateVariablesFrom_congr hstart filePath 1
    simp only [Option.map_some, splitOn_withReturns]
    refine (hsame _).trans ?_
    refine collect_returnLines (templateVariablesFrom b filePath) (fun _ _ _ => rfl)
      (fun line _ n => ?_) 1
    rw [List.flatMap_def, List.flatMap_def]
    congr 1
    exact List.map_congr_left fun m hm => by rw [mention_append_return hm]

theorem extract_withReturns (content : List Char) (filePath : String) :
    extract (withReturns content) filePath = extract content filePath := by
  rw [extract, extract, scriptVariables_withReturns, templateVariables_withReturns]

end Vue

theorem Yaml.extract_withReturns (content : List Char) (filePath : String) :
    extract (withReturns content) filePath = extract content filePath := by
  rw [extract, extract, splitOn_withReturns]
  refine collect_returnLines (variablesFrom filePath) (fun _ _ _ => rfl) (fun line _ n => ?_) 1
  rw [entryOfLine?_append_return]

namespace Extractor

/-- A text that was saved has the variables that it had before, but for the assignments of a Python
source on lines that a line end follows. -/
theorem extract_withReturns_iff {e : Extractor} (he : e ∈ positional) {content : List Char}
    (h : '\r' ∉ content) (filePath : String) :
    Utf8.normalizeNewlines (withReturns content) = content ∧
      (e.extract (withReturns content) filePath = e.extract content filePath ↔
        (e.language = python.language →
          ∀ line ∈ (splitOn '\n' content).dropLast, ¬ Python.Assigns line)) := by
  have hquiet : ∀ vars : List Char → String → List Variable,
      quiet vars (withReturns content) filePath = quiet vars content filePath ↔
        vars (withReturns content) filePath = vars content filePath := by
    simp [quiet]
  have hsame : ∀ (vars : List Char → String → List Variable) {language : String},
      vars (withReturns content) filePath = vars content filePath → language ≠ python.language →
        (quiet vars (withReturns content) filePath = quiet vars content filePath ↔
          (language = python.language →
            ∀ line ∈ (splitOn '\n' content).dropLast, ¬ Python.Assigns line)) :=
    fun vars _ hvars hlanguage =>
      ⟨fun _ hpython => absurd hpython hlanguage, fun _ => (hquiet vars).2 hvars⟩
  refine ⟨normalizeNewlines_withReturns h, ?_⟩
  simp only [positional, List.mem_cons, List.not_mem_nil, or_false] at he
  rcases he with rfl | rfl | rfl | rfl
  · exact hsame _ (JavaScript.extract_withReturns content filePath) (by decide)
  · exact (hquiet _).trans ((Python.extract_withReturns_eq_iff h filePath).trans
      ⟨fun hno _ => hno, fun hno => hno rfl⟩)
  · exact hsame _ (Vue.extract_withReturns content filePath) (by decide)
  · exact hsame _ (Yaml.extract_withReturns content filePath) (by decide)

namespace Unsaved

/-- A source that assigns on its last line only. -/
def area : List Char :=
  "def area(width):\n    for side in sides:\n        if side == width: pass\ntotal = 0".toList

/-- A parameter, a loop, a comparison, and an assignment that no line end follows. -/
theorem extract_area :
    python ∈ positional ∧ '\r' ∉ area ∧
      (Python.extract area "a.py").map (·.name) = ["width", "side", "total"] ∧
      python.extract (withReturns area) "a.py" = python.extract area "a.py" ∧
      ∀ line ∈ (splitOn '\n' area).dropLast, ¬ Python.Assigns line := by
  have hpython : python ∈ positional := by simp [positional]
  have hreturn : '\r' ∉ area := by decide +kernel
  have hsame : python.extract (withReturns area) "a.py" = python.extract area "a.py" :=
    congrArg (fun vars => Except.ok (Extraction.mk vars [])) (by decide +kernel)
  exact ⟨hpython, hreturn, by decide +kernel, hsame,
    (extract_withReturns_iff hpython hreturn "a.py").2.1 hsame rfl⟩

/-- The value that is assigned on the first of two lines ends with the carriage return. -/
theorem extract_assignments :
    '\r' ∉ "x = 1\ny = 2".toList ∧
      python.extract (withReturns "x = 1\ny = 2".toList) "a.py" ≠
        python.extract "x = 1\ny = 2".toList "a.py" ∧
      (Python.extract (withReturns "x = 1\ny = 2".toList) "a.py").map (·.value) =
        [some "1\r", some "2"] ∧
      (Python.extract "x = 1\ny = 2".toList "a.py").map (·.value) = [some "1", some "2"] := by
  refine ⟨by decide, fun heq => ?_, by decide +kernel, by decide +kernel⟩
  have hvars := congrArg Extraction.vars (Except.ok.inj heq)
  revert hvars
  decide +kernel

end Unsaved
end Extractor
end DeclScan
