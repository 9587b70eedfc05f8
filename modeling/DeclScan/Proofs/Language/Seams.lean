import DeclScan.Language.Yaml
import DeclScan.Language.Python
import DeclScan.Proofs.Language.Declarators

/-!
# DeclScan.Proofs.Language.Seams

What is found in two texts, one below the other. A newline sets them apart: names do not cross it, and
neither do lines and statements. So what is found is what is found in each, with the lines of the second
counted from the end of the first. Only a keyword at the end of the first text can reach over, for the
identifier that it declares.

* `Reference.moved`, `Variable.moved`: the same some lines further down.
* `Occurrence.references_append`, `Python.extract_append`, `Yaml.extract_append`,
  `JavaScript.scanKeyword_append`: references and declarations.
* `extraction_append`: all of them.
-/

namespace DeclScan

open Text

/-- The reference some lines further down. -/
def Reference.moved (r : Reference) (lines : Int) : Reference := { r with line := r.line + lines }

/-- The variable some lines further down. -/
def Variable.moved (v : Variable) (lines : Int) : Variable := { v with line := v.line + lines }

/-- How many lines a text has. -/
def lineCount (text : List Char) : Nat := (Document.ofText text "").lineCount

/-- The variables that a keyword declares. -/
def JavaScript.declaredBy (keyword : Keyword) (content : List Char) (filePath : String) :
    List Variable :=
  (extract content filePath).filter (·.declaredAs = keyword.text)

/-- The text ends in the keyword, but for blanks. -/
def JavaScript.EndsIn (text keyword : List Char) : Prop :=
  ∃ pre pad, text = pre ++ keyword ++ pad ∧ IsPad pad

/-! ## Lines -/

theorem Text.length_splitFrom (sep : Char) (piece s : List Char) :
    (splitFrom sep piece s).length = s.count sep + 1 := by
  induction s generalizing piece with
  | nil => rfl
  | cons c s ih =>
    rw [splitFrom]
    split
    · rename_i hc
      rw [List.length_cons, ih, hc, List.count_cons_self]
    · rename_i hc
      rw [ih, List.count_cons_of_ne hc]

theorem Text.length_splitOn (sep : Char) (s : List Char) :
    (splitOn sep s).length = s.count sep + 1 :=
  length_splitFrom sep [] s

theorem Line.length_split (start offset : Nat) (piece s : List Char) :
    (Line.split start offset piece s).length = s.count '\n' + 1 := by
  induction s generalizing start offset piece with
  | nil => rfl
  | cons c s ih =>
    rw [Line.split]
    split
    · rename_i hc
      rw [List.length_cons, ih, hc, List.count_cons_self]
    · rename_i hc
      rw [ih, List.count_cons_of_ne hc]

theorem lineCount_eq (text : List Char) : lineCount text = text.count '\n' + 1 :=
  Line.length_split 0 0 [] text

theorem Text.getLast?_append_cons (a : List Char) (c : Char) (s : List Char) :
    (a ++ c :: s).getLast? = some (s.getLast?.getD c) := by
  rw [List.getLast?_append, List.getLast?_cons, Option.some_or]

theorem Position.after_concat_newline (a : List Char) :
    after (a ++ ['\n']) = ⟨a.count '\n' + 1, 0⟩ := by
  rw [after, List.foldl_append, ← line_after]
  rfl

section Lines

variable {β : Type} (collect : Nat → List (List Char) → List β) {ofLine : Nat → List Char → List β}

theorem collect_append (hnil : ∀ n, collect n [] = [])
    (hcons : ∀ n line lines, collect n (line :: lines) = ofLine n line ++ collect (n + 1) lines)
    (n : Nat) (lines more : List (List Char)) :
    collect n (lines ++ more) = collect n lines ++ collect (n + lines.length) more := by
  induction lines generalizing n with
  | nil => simp [hnil]
  | cons line lines ih =>
    rw [List.cons_append, hcons, hcons, ih, List.append_assoc, List.length_cons, Nat.add_right_comm,
      Nat.add_assoc]

theorem collect_add {k : Nat} {move : β → β} (hnil : ∀ n, collect n [] = [])
    (hcons : ∀ n line lines, collect n (line :: lines) = ofLine n line ++ collect (n + 1) lines)
    (hmove : ∀ n line, ofLine (n + k) line = (ofLine n line).map move)
    (n : Nat) (lines : List (List Char)) :
    collect (n + k) lines = (collect n lines).map move := by
  induction lines generalizing n with
  | nil => simp [hnil]
  | cons line lines ih =>
    rw [hcons, hcons, List.map_append, hmove, Nat.add_right_comm, ih]

end Lines

/-! ## References -/

namespace Occurrence

variable {name : List Char} {w : WordClass}

theorem recogniser_append_newline (hname : '\n' ∉ name) (hw : w.mem '\n' = false)
    (before : Option Char) (s t : List Char) :
    recogniser w name before (s ++ '\n' :: t) = recogniser w name before s := by
  rw [recogniser, recogniser, dropLiteral_append_cons hname]
  cases dropLiteral name s with
  | none => rfl
  | some rest =>
    cases rest with
    | nil => simp [isBoundary, hw]
    | cons c rest => rfl

theorem bounded_recogniser (hne : name ≠ []) : Search.Bounded (recogniser w name) := by
  intro before s length h
  obtain ⟨⟨a, length'⟩, hfound, rfl⟩ := Option.map_eq_some_iff.1 h
  obtain ⟨-, rest, rfl, -, rfl⟩ := recogniser_eq_some_iff.1 hfound
  have hpos := List.length_pos_of_ne_nil hne
  simp only [List.length_append]
  omega

/-- The reference to an occurrence at a place, if there is one. -/
def referenceAt (w : WordClass) (name : List Char) (lineOffset : Int)
    (place : List Char × List Char) : Option Reference :=
  (recogniser w name place.1.getLast? place.2).map fun _ =>
    entryAt (place.1 ++ place.2) name.length lineOffset place.1.length

theorem references_eq_places (content : List Char) (hne : name ≠ []) (w : WordClass)
    (lineOffset : Int) :
    references content name w lineOffset =
      (Search.places (recogniser w name) content).filterMap (referenceAt w name lineOffset) := by
  simp only [references, hne, if_false]
  rw [← List.filterMap_eq_map, Search.filterMap_all_eq_places]
  refine List.filterMap_congr fun place hplace => ?_
  have hcontent := Search.append_of_mem_places hplace
  have hle : place.1.length ≤ content.length := by
    rw [← hcontent, List.length_append]
    exact Nat.le_add_right _ _
  rw [Search.resultAt, referenceAt, hcontent, ← reference_eq_entryAt hle]
  cases recogniser w name place.1.getLast? place.2 <;> rfl

theorem entryAt_append_newline (u v b : List Char) (length : Nat) (lineOffset : Int) :
    entryAt (u ++ (v ++ '\n' :: b)) length lineOffset u.length =
      entryAt (u ++ v) length lineOffset u.length := by
  have hnewline : decide ('\n' ≠ '\n') = false := rfl
  rw [entryAt, entryAt, lineBefore, lineBefore, lineBehind, lineBehind, List.take_left, List.take_left,
    List.drop_left, List.drop_left, (takeWhile_append_cons hnewline v b).1]

theorem entryAt_newline_append (a u v : List Char) (length : Nat) (lineOffset : Int) :
    entryAt (a ++ '\n' :: u ++ v) length lineOffset (a ++ '\n' :: u).length =
      (entryAt (u ++ v) length lineOffset u.length).moved (a.count '\n' + 1 : Nat) := by
  have hnewline : decide ('\n' ≠ '\n') = false := rfl
  have hbefore : (a ++ '\n' :: u).reverse = u.reverse ++ '\n' :: a.reverse := by simp
  rw [entryAt, entryAt, lineBefore, lineBefore, lineBehind, lineBehind, List.take_left, List.take_left,
    List.drop_left, List.drop_left, hbefore, (takeWhile_append_cons hnewline _ _).1, Reference.moved]
  congr 1
  simp only [List.count_append, List.count_cons_self]
  omega

theorem references_append (a b : List Char) (hname : '\n' ∉ name) (hw : w.mem '\n' = false)
    (lineOffset : Int) :
    references (a ++ '\n' :: b) name w lineOffset =
      references a name w lineOffset ++
        (references b name w lineOffset).map (·.moved (a.count '\n' + 1 : Nat)) := by
  by_cases hne : name = []
  · simp [references, hne]
  have hbefore : ∀ u, isBoundary w (a ++ '\n' :: u).getLast? = isBoundary w u.getLast? := fun u => by
    rw [getLast?_append_cons]
    cases u.getLast? <;> simp [isBoundary, hw]
  rw [references_eq_places _ hne, references_eq_places _ hne, references_eq_places _ hne]
  refine Search.filterMap_places_append (bounded_recogniser hne) (fun u v _ => ?_) ?_ (fun u v _ => ?_)
    fun u v _ => ?_
  · rw [Search.extent, Search.extent, recogniser_append_newline hname hw]
  · simp [Search.extent, recogniser, isBoundary, hw]
  · rw [referenceAt, referenceAt, recogniser_append_newline hname hw, entryAt_append_newline]
  · have hsame : recogniser w name (a ++ '\n' :: u).getLast? v = recogniser w name u.getLast? v := by
      rw [recogniser, recogniser, hbefore]
    simp only [referenceAt, hsame, entryAt_newline_append, Option.map_map]
    rfl

end Occurrence

/-! ## Lines of Python and keys of YAML -/

theorem Python.extract_append (a b : List Char) (filePath : String) :
    extract (a ++ '\n' :: b) filePath =
      extract a filePath ++ (extract b filePath).map (·.moved (a.count '\n' + 1 : Nat)) := by
  have hmove : ∀ n line, (lineBindings line).map (·.toVariable filePath (n + (a.count '\n' + 1))) =
      ((lineBindings line).map (·.toVariable filePath n)).map (·.moved (a.count '\n' + 1 : Nat)) := by
    intro n line
    simp [Binding.toVariable, Variable.moved]
  rw [extract, splitOn_append, collect_append (variablesFrom filePath) (fun _ => rfl) (fun _ _ _ => rfl),
    length_splitOn]
  congr 1
  exact collect_add (variablesFrom filePath) (fun _ => rfl) (fun _ _ _ => rfl) hmove 1 _

theorem Yaml.extract_append (a b : List Char) (filePath : String) :
    extract (a ++ '\n' :: b) filePath =
      extract a filePath ++ (extract b filePath).map (·.moved (a.count '\n' + 1 : Nat)) := by
  have hmove : ∀ n line,
      ((entryOfLine? line).map (·.toVariable filePath (n + (a.count '\n' + 1)))).toList =
        (((entryOfLine? line).map (·.toVariable filePath n)).toList).map
          (·.moved (a.count '\n' + 1 : Nat)) := by
    intro n line
    cases entryOfLine? line with
    | none => rfl
    | some e => simp [Entry.toVariable, Variable.moved]
  rw [extract, splitOn_append, collect_append (variablesFrom filePath) (fun _ => rfl) (fun _ _ _ => rfl),
    length_splitOn]
  congr 1
  exact collect_add (variablesFrom filePath) (fun _ => rfl) (fun _ _ _ => rfl) hmove 1 _

/-! ## Declarations of JavaScript -/

namespace JavaScript

variable {keyword : List Char}

theorem inferType_append_newline (tail t : List Char) :
    inferType (tail ++ '\n' :: t) = inferType tail := by
  have hnewline : (!endsStatement '\n') = false := by decide
  have hcut := (takeWhile_append_cons (p := fun c => !endsStatement c) hnewline tail t).1
  rw [← inferType_takeWhile (tail ++ '\n' :: t), hcut, inferType_takeWhile]

theorem declarator_append_newline (hkeyword : IsKeyword keyword) {s : List Char}
    (h : ∀ pad, s = keyword ++ pad → ¬ IsPad pad) (before : Option Char) (t : List Char) :
    declarator keyword before (s ++ '\n' :: t) =
      (declarator keyword before s).map fun (d, length) =>
        (⟨d.before, d.name, d.lead, d.tail ++ '\n' :: t⟩, length) := by
  have hnewline : isIdentRest '\n' = false := by decide
  exact declarator_append_cons hkeyword hnewline h before t

/-- The declaration some lines further down. -/
def Scanned.moved (s : Scanned) (lines : Nat) : Scanned :=
  { s with position := ⟨s.position.line + lines, s.position.character⟩ }

theorem extent_declarator_newline (s : List Char) :
    Search.extent (declarator keyword) (some '\n') s = Search.extent (declarator keyword) none s := by
  have hword : (some '\n').any isWord = none.any isWord := by decide
  rw [Search.extent, declarator_congr hword, Option.map_map]
  rfl

theorem scannedAt_append_newline (k : Keyword) {u v : List Char}
    (h : ∀ pad, v = k.text.toList ++ pad → ¬ IsPad pad) (b : List Char) :
    scannedAt k (u, v ++ '\n' :: b) = scannedAt k (u, v) :=
  scannedAt_append k (declarator_append_newline (isKeyword_text k) h u.getLast? b) fun tail =>
    inferType_append_newline tail b

theorem scannedAt_newline_append (k : Keyword) (a u v : List Char) :
    scannedAt k (a ++ '\n' :: u, v) = (scannedAt k (u, v)).map (·.moved (a.count '\n' + 1)) := by
  have hstarts : startsStatement (a ++ ['\n']).getLast? = true := by
    rw [List.getLast?_concat]
    rfl
  have hmoved : Scanned.behind ⟨a.count '\n' + 1, 0⟩ = (·.moved (a.count '\n' + 1)) := by
    funext s
    simp [Scanned.behind, Scanned.moved, Nat.add_comm]
  rw [List.append_cons, scannedAt_append_left k hstarts,
    Position.after_concat_newline, hmoved]

/-- The declarations of a keyword in two texts, one below the other. -/
theorem scanKeyword_append (k : Keyword) {a : List Char} (h : ¬ EndsIn a k.text.toList)
    (b : List Char) (fileName : String) :
    scanKeyword (Document.ofText (a ++ '\n' :: b) fileName) k =
      scanKeyword (Document.ofText a fileName) k ++
        (scanKeyword (Document.ofText b fileName) k).map (·.moved (a.count '\n' + 1)) := by
  have hinside : ∀ u v, a = u ++ v → ∀ pad, v = k.text.toList ++ pad → ¬ IsPad pad := by
    rintro u v rfl pad rfl hpad
    exact h ⟨u, pad, (List.append_assoc _ _ _).symm, hpad⟩
  rw [scanKeyword_eq_places, scanKeyword_eq_places, scanKeyword_eq_places]
  refine Search.filterMap_places_append (bounded_declarator (isKeyword_text k).ne_nil)
    (fun u v huv => ?_) (extent_declarator_newline b)
    (fun u v huv => scannedAt_append_newline k (hinside u v huv) b)
    fun u v _ => scannedAt_newline_append k a u v
  rw [Search.extent, Search.extent, declarator_append_newline (isKeyword_text k) (hinside u v huv),
    Option.map_map]
  rfl

/-- What the extraction says of a declaration. -/
def Scanned.toVariable (filePath : String) (s : Scanned) : Variable where
  name := s.name
  type := s.type
  declaredAs := s.keyword.text
  line := s.position.line + 1
  character := s.position.character
  filePath := filePath
  scope := "unknown"
  value := none
  references := []

theorem Keyword.text_inj {k k' : Keyword} : k.text = k'.text ↔ k = k' := by
  cases k <;> cases k' <;> decide

theorem declaredBy_eq (k : Keyword) (content : List Char) (filePath : String) :
    declaredBy k content filePath =
      (scanKeyword (Document.ofText content filePath) k).map (·.toVariable filePath) := by
  have hextract : extract content filePath =
      (scan (Document.ofText content filePath)).map (·.toVariable filePath) := rfl
  rw [declaredBy, hextract, List.filter_map, ← filter_scan]
  refine congrArg _ (List.filter_congr fun s _ => ?_)
  simp [Scanned.toVariable, Keyword.text_inj]

theorem declaredBy_append (k : Keyword) {a : List Char} (h : ¬ EndsIn a k.text.toList)
    (b : List Char) (filePath : String) :
    declaredBy k (a ++ '\n' :: b) filePath =
      declaredBy k a filePath ++
        (declaredBy k b filePath).map (·.moved (a.count '\n' + 1 : Nat)) := by
  rw [declaredBy_eq, declaredBy_eq, declaredBy_eq, scanKeyword_append k h, List.map_append,
    List.map_map, List.map_map]
  congr 1
  refine List.map_congr_left fun s _ => ?_
  simp only [Function.comp, Scanned.toVariable, Scanned.moved, Variable.moved]
  congr 1
  push_cast
  omega

theorem endsIn_iff (hkeyword : IsKeyword keyword) {text : List Char} :
    EndsIn text keyword ↔ keyword <:+ trimEnd text := by
  constructor
  · rintro ⟨pre, pad, rfl, hpad⟩
    obtain ⟨first, last, rfl⟩ := (List.eq_nil_or_concat' keyword).resolve_left hkeyword.ne_nil
    have hlast := isBlank_eq_false_of_isNameRest (hkeyword.all last (by simp))
    have hsolid : IsSolid (pre ++ (first ++ [last])).reverse := by
      simpa using isSolid_cons hlast (first.reverse ++ pre.reverse)
    rw [trimEnd_append hpad, trimEnd_of_isSolid hsolid]
    exact List.suffix_append pre _
  · rintro ⟨pre, hpre⟩
    obtain ⟨blanks, htext, hblanks⟩ := eq_trimEnd_append text
    exact ⟨pre, blanks, by rw [hpre, ← htext], hblanks⟩

end JavaScript

/-! ## Two texts -/

/-- What is found in two texts with a newline between them is what is found in the first, followed by
what is found in the second with its lines counted from the end of the first. For the declarations with
a keyword the first text must not end in the keyword, since an identifier in the second would then be
declared by it. -/
theorem extraction_append (a b : List Char) (filePath : String) :
    (∀ (name : List Char) (w : WordClass) (lineOffset : Int), '\n' ∉ name → w.mem '\n' = false →
      Occurrence.references (a ++ '\n' :: b) name w lineOffset =
        Occurrence.references a name w lineOffset ++
          (Occurrence.references b name w lineOffset).map (·.moved (lineCount a))) ∧
    Python.extract (a ++ '\n' :: b) filePath =
      Python.extract a filePath ++ (Python.extract b filePath).map (·.moved (lineCount a)) ∧
    Yaml.extract (a ++ '\n' :: b) filePath =
      Yaml.extract a filePath ++ (Yaml.extract b filePath).map (·.moved (lineCount a)) ∧
    ∀ keyword : JavaScript.Keyword, ¬ JavaScript.EndsIn a keyword.text.toList →
      JavaScript.declaredBy keyword (a ++ '\n' :: b) filePath =
        JavaScript.declaredBy keyword a filePath ++
          (JavaScript.declaredBy keyword b filePath).map (·.moved (lineCount a)) := by
  rw [lineCount_eq]
  refine ⟨fun name w lineOffset hname hw => ?_, ?_, ?_, fun keyword h => ?_⟩
  · exact Occurrence.references_append a b hname hw lineOffset
  · exact Python.extract_append a b filePath
  · exact Yaml.extract_append a b filePath
  · exact JavaScript.declaredBy_append keyword h b filePath

namespace Joined

def first : List Char := "let x = 1\nvar let$".toList

def second : List Char := "x = y; let\n  y = x".toList

/-- A statement that ends with its text, and one over two lines of the second. -/
theorem extraction_of_first :
    ¬ JavaScript.EndsIn first JavaScript.Keyword.let_.text.toList ∧ '\n' ∉ ['x'] ∧
      WordClass.dollar.mem '\n' = false ∧
      (JavaScript.declaredBy .let_ (first ++ '\n' :: second) "a.js").map
          (fun v => (v.name, v.line, v.character)) = [("x", 1, 4), ("y", 4, 2)] ∧
      JavaScript.declaredBy .let_ (first ++ '\n' :: second) "a.js" =
        JavaScript.declaredBy .let_ first "a.js" ++
          (JavaScript.declaredBy .let_ second "a.js").map (·.moved 2) ∧
      Occurrence.references (first ++ '\n' :: second) ['x'] .dollar 0 =
        Occurrence.references first ['x'] .dollar 0 ++
          (Occurrence.references second ['x'] .dollar 0).map (·.moved 2) := by
  have hends : ¬ JavaScript.EndsIn first JavaScript.Keyword.let_.text.toList := by
    rw [JavaScript.endsIn_iff (JavaScript.isKeyword_text .let_)]
    decide +kernel
  have hname : '\n' ∉ ['x'] := by decide
  have hword : WordClass.dollar.mem '\n' = false := by decide
  obtain ⟨hreferences, -, -, hdeclared⟩ := extraction_append first second "a.js"
  exact ⟨hends, hname, hword, by decide +kernel, hdeclared .let_ hends,
    hreferences ['x'] .dollar 0 hname hword⟩

end Joined

/-- At the end of a text, a keyword declares what the next text begins with. -/
example : (JavaScript.extract "let\nx".toList "a.js").map (·.name) = ["x"] ∧
    JavaScript.extract "let".toList "a.js" = [] ∧ JavaScript.extract "x".toList "a.js" = [] := by
  decide +kernel

end DeclScan
