import DeclScan.Language.Yaml
import DeclScan.Proofs.Text.Blanks

/-!
# DeclScan.Proofs.Language.KeyLines

Key lines as they are written, and what is read out of them. A line holds a key behind its indentation,
a colon and, behind spaces, a value, if it is not empty. Nothing of the value belongs to the key, since a
key has no colon, and nothing of the spaces to the value, since it neither begins nor ends with one. Other
lines may stand between: blank ones, comments and items of lists.

* `KeyLine`, `OtherLine`, `Source`: lines, and sources made of them with line ends of both kinds.
* `entryOfLine?_append_return`: a carriage return at the end of a line does not count.
* `KeyLine.entryOfLine?_text`, `OtherLine.entryOfLine?_text`: what is read of a line.
* `Source.extract_text`: what is read of a source.
-/

namespace DeclScan
namespace Yaml

open Text

/-! ## Sources as they are written -/

/-- A key and its value, without white space around it. -/
structure KeyLine where
  indent : Nat
  key : List Char
  spaces : Nat
  value : List Char
  starts : key.head?.any isNameStart = true
  rests : ∀ c ∈ key, isKeyRest c = true
  spaces_pos : 0 < spaces
  inLine : '\n' ∉ value
  solid : IsSolid value
  solid' : IsSolid value.reverse

/-- What stands behind the colon. -/
def KeyLine.rest (l : KeyLine) : List Char :=
  if l.value = [] then [] else List.replicate l.spaces ' ' ++ l.value

def KeyLine.text (l : KeyLine) : List Char :=
  List.replicate l.indent ' ' ++ (l.key ++ ':' :: l.rest)

/-- The variable that a key is, on a line with a number. -/
def KeyLine.variable (filePath : String) (n : Nat) (l : KeyLine) : Variable where
  name := String.ofList l.key
  type := inferType l.value
  declaredAs := "property"
  line := n
  character := l.indent
  filePath := filePath
  scope := s!"level-{l.indent / 2}"
  value := some (String.ofList l.value)
  references := []

/-- A line with nothing but white space, or with a comment or an item behind it. -/
structure OtherLine where
  indent : List Char
  rest : List Char
  isPad : IsPad indent
  opens : ∀ c ∈ rest.head?, c = '#' ∨ c = '-'
  inLine : '\n' ∉ indent ++ rest

def OtherLine.text (l : OtherLine) : List Char := l.indent ++ l.rest

inductive SourceLine where
  | key (l : KeyLine)
  | other (l : OtherLine)

namespace SourceLine

def text : SourceLine → List Char
  | .key l => l.text
  | .other l => l.text

def keyLine? : SourceLine → Option KeyLine
  | .key l => some l
  | .other _ => none

end SourceLine

/-- How a line ends: with a newline, or with a carriage return before it. -/
inductive LineEnd where
  | newline
  | returnNewline

/-- What stands before the newline. -/
def LineEnd.returns : LineEnd → List Char
  | .newline => []
  | .returnNewline => ['\r']

/-- Lines with their ends, and the last line, which has none. -/
structure Source where
  ended : List (SourceLine × LineEnd)
  last : SourceLine

namespace Source

def text (s : Source) : List Char :=
  (s.ended.flatMap fun (line, e) => line.text ++ (e.returns ++ ['\n'])) ++ s.last.text

def lines (s : Source) : List SourceLine := s.ended.map Prod.fst ++ [s.last]

end Source

/-! ## Carriage returns at the end of a line -/

/-- A line without the carriage returns at its end. -/
def withoutReturns (line : List Char) : List Char := (line.reverse.dropWhile (· = '\r')).reverse

theorem withoutReturns_append_return (line : List Char) :
    withoutReturns (line ++ ['\r']) = withoutReturns line := by
  simp [withoutReturns]

theorem withoutReturns_append_cons {c : Char} (hc : c ≠ '\r') (s t : List Char) :
    withoutReturns (s ++ c :: t) = s ++ c :: withoutReturns t := by
  rw [withoutReturns, withoutReturns, List.reverse_append, List.reverse_cons, List.append_assoc,
    List.singleton_append, List.dropWhile_append]
  split
  · rename_i hall
    rw [List.isEmpty_iff] at hall
    rw [List.dropWhile_cons_of_neg (by simpa using hc), hall]
    simp
  · simp

theorem withoutReturns_isPrefix (line : List Char) : withoutReturns line <+: line := by
  have h := List.dropWhile_suffix (· = '\r') (l := line.reverse)
  simpa [withoutReturns] using List.reverse_prefix.2 h

theorem withoutReturns_of_isSolid {line : List Char} (h : IsSolid line.reverse) :
    withoutReturns line = line := by
  have hkeep : line.reverse.dropWhile (· = '\r') = line.reverse := by
    cases hline : line.reverse with
    | nil => rfl
    | cons c more =>
      rw [hline] at h
      have hc : c ≠ '\r' := by
        rintro rfl
        exact Bool.noConfusion h
      rw [List.dropWhile_cons_of_neg (by simpa using hc)]
  rw [withoutReturns, hkeep, List.reverse_reverse]

theorem entryOfLine?_append_return (line : List Char) :
    entryOfLine? (line ++ ['\r']) = entryOfLine? line := by
  have h := withoutReturns_append_return line
  unfold withoutReturns at h
  simp only [entryOfLine?, h]

theorem entryOfLine?_append_returns (line : List Char) (e : LineEnd) :
    entryOfLine? (line ++ e.returns) = entryOfLine? line := by
  cases e with
  | newline => rw [LineEnd.returns, List.append_nil]
  | returnNewline => exact entryOfLine?_append_return line

/-! ## What is read of a line -/

theorem isPad_replicate (n : Nat) : IsPad (List.replicate n ' ') := by
  intro c hc
  rw [List.eq_of_mem_replicate hc]
  decide

theorem isBlank_eq_false_of_isNameStart {c : Char} (h : isNameStart c = true) : isBlank c = false :=
  isBlank_eq_false_of_isNameRest (isNameRest_of_isNameStart h)

namespace KeyLine

variable (l : KeyLine)

theorem exists_key : ∃ c more, l.key = c :: more ∧ isNameStart c = true ∧
    ∀ d ∈ more, isKeyRest d = true := by
  have hstarts := l.starts
  have hrests := l.rests
  cases hkey : l.key with
  | nil => simp [hkey] at hstarts
  | cons c more =>
    rw [hkey] at hstarts hrests
    exact ⟨c, more, rfl, by simpa using hstarts, fun d hd => hrests d (List.mem_cons_of_mem c hd)⟩

theorem isSolid_reverse_text : IsSolid l.text.reverse := by
  rw [text, rest]
  split
  · have hcolon : isBlank ':' = false := by decide
    simp [IsSolid, hcolon]
  · rename_i hvalue
    have hsolid := l.solid'
    obtain ⟨c, more, hreverse⟩ := List.exists_cons_of_ne_nil (List.reverse_ne_nil_iff.2 hvalue)
    rw [hreverse] at hsolid
    simpa [hreverse, IsSolid] using hsolid

theorem entryOfLine?_text : entryOfLine? l.text = some ⟨l.indent, l.key, l.value⟩ := by
  obtain ⟨c, more, hkey, hc, hmore⟩ := l.exists_key
  have hkept := withoutReturns_of_isSolid l.isSolid_reverse_text
  unfold withoutReturns at hkept
  have hbody : trimStart l.text = c :: (more ++ ':' :: l.rest) := by
    rw [text, hkey, List.cons_append, trimStart_padded (isPad_replicate _)]
    exact isSolid_cons (isBlank_eq_false_of_isNameStart hc) _
  have hindent : l.text.length - (c :: (more ++ ':' :: l.rest)).length = l.indent := by
    rw [text, hkey, List.cons_append, List.length_append, Nat.add_sub_cancel, List.length_replicate]
  obtain ⟨htake, hdrop⟩ := span_append (t := ':' :: l.rest) hmore (by
    intro d hd
    obtain rfl : ':' = d := by simpa using hd
    rfl)
  have hcolon : trimStart (':' :: l.rest) = ':' :: l.rest :=
    trimStart_of_isSolid (isSolid_cons (by decide) _)
  simp only [entryOfLine?, hkept, hbody, hindent, hc, htake, hdrop, hcolon, if_true, ← hkey]
  rw [rest]
  by_cases hvalue : l.value = []
  · simp [hvalue]
  · obtain ⟨n, hn⟩ : ∃ n, l.spaces = n + 1 := ⟨l.spaces - 1, by have := l.spaces_pos; omega⟩
    have htrim := trim_padded (isPad_replicate n) isPad_nil l.solid l.solid'
    have hspace : isBlank ' ' = true := by decide
    rw [List.append_nil] at htrim
    simp only [if_neg hvalue, hn, List.replicate_succ, List.cons_append, hspace, if_true, htrim]

theorem newline_not_mem_text : '\n' ∉ l.text := by
  have hkey : '\n' ∉ l.key := fun h => absurd (l.rests _ h) (by decide)
  have hvalue := l.inLine
  rw [text, rest]
  split <;> simp [hkey, hvalue]

end KeyLine

namespace OtherLine

variable (l : OtherLine)

theorem entryOfLine?_text : entryOfLine? l.text = none := by
  have hopens := l.opens
  cases hrest : l.rest with
  | nil =>
    have hline : l.text = l.indent := by rw [text, hrest, List.append_nil]
    have hblank : IsPad (withoutReturns l.text) := fun c hc =>
      l.isPad c (hline ▸ (withoutReturns_isPrefix l.text).mem hc)
    have hbody : trimStart (withoutReturns l.text) = [] := List.dropWhile_eq_nil_iff.2 hblank
    unfold withoutReturns at hbody
    simp only [entryOfLine?, hbody]
  | cons c more =>
    rw [hrest] at hopens
    obtain ⟨hne, hsolid, hname⟩ : c ≠ '\r' ∧ isBlank c = false ∧ isNameStart c = false := by
      rcases hopens c rfl with rfl | rfl <;> decide
    have hbody : trimStart (withoutReturns l.text) = c :: withoutReturns more := by
      rw [text, hrest, withoutReturns_append_cons hne,
        trimStart_padded l.isPad (isSolid_cons hsolid _)]
    unfold withoutReturns at hbody
    simp only [entryOfLine?, hbody, hname, Bool.false_eq_true, if_false]

end OtherLine

/-! ## What is read of a source -/

theorem SourceLine.entryOfLine?_text (l : SourceLine) :
    entryOfLine? l.text = l.keyLine?.map fun k => ⟨k.indent, k.key, k.value⟩ := by
  cases l with
  | key k => exact k.entryOfLine?_text
  | other o => exact o.entryOfLine?_text

theorem SourceLine.newline_not_mem_text (l : SourceLine) : '\n' ∉ l.text := by
  cases l with
  | key k => exact k.newline_not_mem_text
  | other o => exact o.inLine

theorem Source.splitOn_text (s : Source) :
    splitOn '\n' s.text = (s.ended.map fun (line, e) => line.text ++ e.returns) ++ [s.last.text] := by
  obtain ⟨ended, last⟩ := s
  induction ended with
  | nil => exact splitOn_of_not_mem last.newline_not_mem_text
  | cons first ended ih =>
    obtain ⟨line, e⟩ := first
    have hline : '\n' ∉ line.text ++ e.returns := by
      rw [List.mem_append, not_or]
      refine ⟨line.newline_not_mem_text, ?_⟩
      cases e <;> decide
    have htext : Source.text ⟨(line, e) :: ended, last⟩ =
        (line.text ++ e.returns) ++ '\n' :: Source.text ⟨ended, last⟩ := by
      simp [Source.text]
    rw [htext, splitOn_append, splitOn_of_not_mem hline, ih]
    rfl

theorem SourceLine.map_toVariable (filePath : String) (n : Nat) (l : SourceLine) (e : LineEnd) :
    (entryOfLine? (l.text ++ e.returns)).map (·.toVariable filePath n) =
      l.keyLine?.map (·.variable filePath n) := by
  rw [entryOfLine?_append_returns, l.entryOfLine?_text, Option.map_map]
  rfl

/-- A source is read as its keys: one variable for each key line, in their order, and no other. -/
theorem Source.extract_text (s : Source) (filePath : String) :
    extract s.text filePath =
      (s.lines.zipIdx 1).filterMap fun (line, n) => line.keyLine?.map (·.variable filePath n) := by
  rw [extract, s.splitOn_text, lines]
  generalize 1 = n
  induction s.ended generalizing n with
  | nil =>
    have hlast := s.last.map_toVariable filePath n .newline
    rw [LineEnd.returns, List.append_nil] at hlast
    simp only [List.map_nil, List.nil_append, variablesFrom, hlast, List.append_nil, List.zipIdx_cons,
      List.zipIdx_nil, List.filterMap_cons, List.filterMap_nil]
    cases s.last.keyLine? <;> rfl
  | cons first ended ih =>
    obtain ⟨line, e⟩ := first
    simp only [List.map_cons, List.cons_append, variablesFrom, line.map_toVariable, List.zipIdx_cons,
      List.filterMap_cons, ih]
    cases line.keyLine? <;> rfl

/-- A key without a value, a comment that looks like a key, and a value with a colon and a bracket. -/
example :
    let top : KeyLine := ⟨0, ['t', 'o', 'p'], 1, [], rfl, List.all_eq_true.1 rfl, by decide, by decide,
      rfl, rfl⟩
    let comment : OtherLine := ⟨[' ', '\t'], "# a: 1".toList, by decide, by simp, by decide⟩
    let url : KeyLine := ⟨2, ['u', 'r', 'l'], 2, "x: [".toList, rfl, List.all_eq_true.1 rfl, by decide,
      by decide, rfl, rfl⟩
    let source : Source := ⟨[(.key top, .returnNewline), (.other comment, .newline)], .key url⟩
    source.text = "top:\r\n \t# a: 1\n  url:  x: [".toList :=
  rfl

end Yaml
end DeclScan
