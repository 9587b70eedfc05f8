import DeclScan.Language.Python
import DeclScan.Proofs.Text.Blanks
import DeclScan.Proofs.Text.Place

/-!
# DeclScan.Proofs.Language.Comparisons

Sources whose equals signs all belong to comparisons, and that have none of the words by which
parameters, loop variables and scopes are recognised. An assignment to a name is told from a comparison
by the second equals sign, an assignment to an attribute of `self` is not: `self.x == y` is taken for
one, with `= y` as the value. Nothing else is.

* `Deletes`: a text with some of its comparison operators deleted; `OnlyCompares`: these sources.
* `IsCompared`: what deleting says of the equals signs of a line.
* `ComparesAttribute`: an attribute of `self` before two equals signs.
* `extract_eq_nil_iff`: which of the sources have no variables.
-/

namespace DeclScan
namespace Python

open Text

/-- The operators that compare with the help of an equals sign. -/
def comparisons : List (List Char) := ["==".toList, "!=".toList, "<=".toList, ">=".toList]

/-- The words by which bindings are recognised that need no equals sign. -/
def bindingWords : List (List Char) :=
  ["def".toList, "for".toList, "global".toList, "nonlocal".toList]

/-- The second text is what is left of the first when comparison operators in it are deleted. -/
inductive Deletes : List Char → List Char → Prop where
  | nil : Deletes [] []
  | keep {s t : List Char} (c : Char) (h : Deletes s t) : Deletes (c :: s) (c :: t)
  | delete {s t operator : List Char} (hop : operator ∈ comparisons) (h : Deletes s t) :
      Deletes (operator ++ s) t

/-- A text without its comparison operators, as they are met from left to right. -/
def withoutComparisons : List Char → List Char
  | [] => []
  | [c] => [c]
  | c :: d :: s =>
    if [c, d] ∈ comparisons then withoutComparisons s else c :: withoutComparisons (d :: s)

/-- Without comparison operators there is no equals sign left, and the words of other bindings are not
in the text. -/
structure OnlyCompares (content : List Char) : Prop where
  signs : ∃ rest, Deletes content rest ∧ '=' ∉ rest
  words : ∀ word ∈ bindingWords, ¬ word <:+: content

structure IsIdentifier (name : List Char) : Prop where
  starts : name.head?.any isNameStart = true
  rests : ∀ c ∈ name, isNameRest c = true

/-- An attribute of `self` is compared for equality: it is followed by two equals signs. -/
def ComparesAttribute (line : List Char) : Prop :=
  ∃ pre name gap rest,
    line = pre ++ ("self.".toList ++ (name ++ (gap ++ ("==".toList ++ rest)))) ∧
      IsIdentifier name ∧ IsPad gap

/-! ## Equals signs -/

theorem deletes_withoutComparisons (s : List Char) : Deletes s (withoutComparisons s) := by
  induction s using withoutComparisons.induct with
  | case1 => exact .nil
  | case2 c => exact .keep c .nil
  | case3 c d s hop ih =>
    rw [withoutComparisons, if_pos hop]
    exact .delete hop ih
  | case4 c d s hop ih =>
    rw [withoutComparisons, if_neg hop]
    exact .keep c ih

/-- Behind a text that does not end with a character of an operator, each equals sign is followed by
another one. -/
def IsCompared (line : List Char) : Prop :=
  ∀ pre rest, line = pre ++ '=' :: rest → pre ≠ [] →
    (∃ c ∈ pre.getLast?, c ∈ ['=', '!', '<', '>']) ∨ rest.head? = some '='

theorem head?_of_deletes {content rest : List Char} (h : Deletes content rest) (hrest : '=' ∉ rest)
    {pre tail : List Char} (heq : content = pre ++ '=' :: tail) :
    (∃ c ∈ pre.getLast?, c ∈ ['=', '!', '<', '>']) ∨ tail.head? = some '=' := by
  induction h generalizing pre with
  | nil => simp at heq
  | @keep s t c h ih =>
    rw [List.mem_cons, not_or] at hrest
    cases pre with
    | nil => exact absurd (List.cons.inj heq).1.symm hrest.1
    | cons d pre =>
      refine (ih hrest.2 (List.cons.inj heq).2).imp_left ?_
      rintro ⟨e, he, hop⟩
      refine ⟨e, ?_, hop⟩
      rw [List.getLast?_cons, Option.mem_def.1 he]
      rfl
  | @delete s t operator hop h ih =>
    obtain ⟨a, rfl, ha⟩ : ∃ a, operator = [a, '='] ∧ a ∈ ['=', '!', '<', '>'] := by
      simp only [comparisons, List.mem_cons, List.not_mem_nil, or_false] at hop
      rcases hop with rfl | rfl | rfl | rfl
      · exact ⟨'=', rfl, by decide⟩
      · exact ⟨'!', rfl, by decide⟩
      · exact ⟨'<', rfl, by decide⟩
      · exact ⟨'>', rfl, by decide⟩
    match pre, heq with
    | [], heq =>
      obtain ⟨-, rfl⟩ := List.cons.inj heq
      exact Or.inr rfl
    | [b], heq =>
      obtain ⟨rfl, -⟩ := List.cons.inj heq
      exact Or.inl ⟨a, rfl, ha⟩
    | b :: d :: pre, heq =>
      have hs : s = pre ++ '=' :: tail := (List.cons.inj (List.cons.inj heq).2).2
      refine (ih hrest hs).imp_left ?_
      rintro ⟨e, he, hop⟩
      refine ⟨e, ?_, hop⟩
      rw [List.getLast?_cons, List.getLast?_cons, Option.mem_def.1 he]
      rfl

variable {content line : List Char}

theorem OnlyCompares.isCompared (h : OnlyCompares content) (hline : line ∈ splitOn '\n' content) :
    IsCompared line := by
  intro pre rest heq hne
  obtain ⟨left, hdeletes, hleft⟩ := h.signs
  obtain ⟨n, hn⟩ := List.mem_iff_getElem?.1 hline
  obtain ⟨before, behind, hcontent, -, hend⟩ := placed_of_splitFrom List.not_mem_nil hn
  rw [List.reverse_nil, List.nil_append, heq] at hcontent
  have hsplit : content = (before ++ pre) ++ '=' :: (rest ++ behind) := by simp [hcontent]
  refine (head?_of_deletes hdeletes hleft hsplit).imp (fun hop => ?_) fun hhead => ?_
  · rwa [List.getLast?_append_of_ne_nil before hne] at hop
  · cases rest with
    | nil =>
      rw [List.nil_append] at hhead
      rw [hhead] at hend
      exact absurd hend (by decide)
    | cons c rest => exact hhead

theorem OnlyCompares.not_infix (h : OnlyCompares content) (hline : line ∈ splitOn '\n' content)
    {word : List Char} (hword : word ∈ bindingWords) : ¬ word <:+: line := by
  obtain ⟨n, hn⟩ := List.mem_iff_getElem?.1 hline
  obtain ⟨before, behind, hcontent, -, -⟩ := placed_of_splitFrom List.not_mem_nil hn
  rw [List.reverse_nil, List.nil_append] at hcontent
  intro hwithin
  exact h.words word hword (hwithin.trans ⟨before, behind, hcontent.symm⟩)

theorem IsCompared.head?_eq {pre name gap rest : List Char} (h : IsCompared line)
    (heq : line = pre ++ (name ++ (gap ++ '=' :: rest))) (hname : IsRun isNameRest name)
    (hgap : IsPad gap) : rest.head? = some '=' := by
  have hsplit : line = (pre ++ (name ++ gap)) ++ '=' :: rest := by simp [heq]
  have hne : name ++ gap ≠ [] := by simp [hname.ne_nil]
  refine (h _ _ hsplit (by simp [hname.ne_nil])).resolve_left ?_
  rintro ⟨c, hc, hop⟩
  rw [List.getLast?_append_of_ne_nil pre hne] at hc
  have hplain : isBlank c = false ∧ isNameRest c = false := by
    simp only [List.mem_cons, List.not_mem_nil, or_false] at hop
    rcases hop with rfl | rfl | rfl | rfl <;> decide
  rcases List.mem_append.1 (List.mem_of_mem_getLast? hc) with hmem | hmem
  · exact Bool.noConfusion ((hname.all c hmem).symm.trans hplain.2)
  · exact Bool.noConfusion ((hgap c hmem).symm.trans hplain.1)

/-! ## Names -/

theorem takeName?_eq_some_iff {s name rest : List Char} :
    takeName? s = some (name, rest) ↔
      s = name ++ rest ∧ IsIdentifier name ∧ rest.head?.all (fun c => !isNameRest c) = true := by
  constructor
  · intro h
    obtain ⟨hs, hrun, hrest⟩ := takeName?_eq_some h
    refine ⟨hs, ⟨?_, hrun.all⟩, hrest⟩
    cases s with
    | nil => cases h
    | cons c s =>
      rw [takeName?] at h
      split at h
      · rename_i hc
        cases h
        simpa using hc
      · cases h
  · rintro ⟨rfl, hname, hrest⟩
    cases name with
    | nil => cases hname.starts
    | cons c more =>
      have hc : isNameStart c = true := by simpa using hname.starts
      have hmore : ∀ d ∈ more, isNameRest d = true := fun d hd =>
        hname.rests d (List.mem_cons_of_mem _ hd)
      have hstop : ∀ d ∈ rest.head?, isNameRest d = false := fun d hd => by
        rw [Option.mem_def.1 hd] at hrest
        simpa using hrest
      obtain ⟨htake, hdrop⟩ := span_append hmore hstop
      rw [List.cons_append, takeName?, if_pos hc, htake, hdrop]

theorem IsIdentifier.isRun {name : List Char} (h : IsIdentifier name) : IsRun isNameRest name where
  ne_nil := by
    rintro rfl
    cases h.starts
  all := h.rests

/-! ## Lines -/

theorem assignment?_eq_none (h : IsCompared line) : assignment? line = none := by
  rw [assignment?]
  split
  · rfl
  · rename_i name r hname
    obtain ⟨hstart, hident, -⟩ := takeName?_eq_some_iff.1 hname
    obtain ⟨indent, hline, -⟩ := eq_append_trimStart line
    obtain ⟨gap, hr, hgap⟩ := eq_append_trimStart r
    split
    · rfl
    · rename_i value hsingle heq
      rw [heq] at hr
      rw [hstart, hr] at hline
      have hhead := h.head?_eq hline hident.isRun hgap
      obtain ⟨tail, rfl⟩ := List.head?_eq_some_iff.1 hhead
      exact (hsingle tail rfl).elim
    · rfl

theorem isPrefix_of_bind {α : Type} {word s : List Char} {f : List Char → Option α} {a : α}
    (h : (dropLiteral word s).bind f = some a) : word <+: s := by
  obtain ⟨r, hr, -⟩ := Option.bind_eq_some_iff.1 h
  exact ⟨r, (eq_append_of_dropLiteral hr).symm⟩

theorem isPrefix_of_signature {before : Option Char} {s : List Char} {a : Signature × Nat}
    (h : signature before s = some a) : "def".toList <+: s := by
  rw [signature] at h
  simp only at h
  split at h
  · cases h
  · rename_i r hopened
    rw [Option.bind_assoc, Option.bind_assoc] at hopened
    exact isPrefix_of_bind hopened

theorem isPrefix_of_loopHead {before : Option Char} {s : List Char} {a : Introduced × Nat}
    (h : loopHead before s = some a) : "for".toList <+: s := by
  rw [loopHead] at h
  simp only at h
  split at h
  · cases h
  · rename_i name lead after hnamed
    rw [Option.bind_assoc] at hnamed
    exact isPrefix_of_bind hnamed

theorem isPrefix_of_keywordName {keyword value : String} {before : Option Char} {s : List Char}
    {a : Introduced × Nat} (h : keywordName keyword value before s = some a) :
    keyword.toList <+: s := by
  rw [keywordName] at h
  split at h
  · cases h
  · split at h
    · cases h
    · rename_i r hr
      exact isPrefix_of_bind hr

theorem parametersOf_eq_nil (h : ¬ "def".toList <:+: line) : parametersOf line = [] := by
  rw [parametersOf]
  split
  · rfl
  · rename_i found hfound
    obtain ⟨pre, rest, length, rfl, -, heq⟩ := Search.of_first? hfound
    exact absurd ((isPrefix_of_signature heq).isInfix.trans (List.suffix_append pre rest).isInfix) h

theorem bindingsOf_eq_nil {m : Recogniser Introduced} {word : List Char}
    (hm : ∀ before s a, m before s = some a → word <+: s) (h : ¬ word <:+: line) :
    bindingsOf m line = [] := by
  rw [bindingsOf, List.map_eq_nil_iff]
  refine List.eq_nil_iff_forall_not_mem.2 fun found hfound => ?_
  obtain ⟨pre, rest, length, rfl, -, heq⟩ := Search.mem_all hfound
  exact h ((hm _ _ _ heq).isInfix.trans (List.suffix_append pre rest).isInfix)

theorem isSome_restOfLine? {s : List Char} (h : s ≠ []) : (restOfLine? s).isSome = true := by
  rw [restOfLine?]
  split
  · rfl
  · rw [Option.isSome_map, List.getLast?_isSome]
    exact h

theorem isSome_selfAttribute_iff {before : Option Char} {s : List Char} :
    (selfAttribute before s).isSome = true ↔
      ∃ name gap rest, s = "self.".toList ++ (name ++ (gap ++ '=' :: rest)) ∧
        IsIdentifier name ∧ IsPad gap ∧ rest ≠ [] := by
  constructor
  · intro h
    rw [selfAttribute] at h
    split at h
    · cases h
    rename_i name r hname
    obtain ⟨afterSelf, hself, htake⟩ := Option.bind_eq_some_iff.1 hname
    obtain ⟨hafter, hident, -⟩ := takeName?_eq_some_iff.1 htake
    obtain ⟨gap, hr, hgap⟩ := eq_append_trimStart r
    split at h
    · rename_i rest heq
      rw [heq] at hr
      refine ⟨name, gap, rest, ?_, hident, hgap, ?_⟩
      · rw [eq_append_of_dropLiteral hself, hafter, hr]
      · rintro rfl
        cases h
    · cases h
  · rintro ⟨name, gap, rest, rfl, hident, hgap, hne⟩
    have hstop : (gap ++ '=' :: rest).head?.all (fun c => !isNameRest c) = true := by
      cases gap with
      | nil => rfl
      | cons b gap =>
        simpa using isNameRest_eq_false_of_isBlank (hgap b List.mem_cons_self)
    have hsolid : IsSolid ('=' :: rest) := isSolid_cons (by decide) rest
    rw [selfAttribute, dropLiteral_append, Option.bind_some,
      takeName?_eq_some_iff.2 ⟨rfl, hident, hstop⟩]
    simp only [trimStart_padded hgap hsolid, Option.isSome_map]
    exact isSome_restOfLine? hne

theorem bindingsOf_selfAttribute_eq_nil_iff (h : IsCompared line) :
    bindingsOf selfAttribute line = [] ↔ ¬ ComparesAttribute line := by
  rw [bindingsOf, List.map_eq_nil_iff]
  constructor
  · rintro hnone ⟨pre, name, gap, rest, rfl, hident, hgap⟩
    have hsome : (selfAttribute pre.getLast?
        ("self.".toList ++ (name ++ (gap ++ ("==".toList ++ rest))))).isSome = true :=
      isSome_selfAttribute_iff.2 ⟨name, gap, '=' :: rest, rfl, hident, hgap, List.cons_ne_nil _ _⟩
    obtain ⟨found, hfound, -⟩ := Search.exists_mem_all hsome
    rw [hnone] at hfound
    cases hfound
  · intro hcompares
    refine List.eq_nil_iff_forall_not_mem.2 fun found hfound => hcompares ?_
    obtain ⟨pre, s, length, rfl, -, heq⟩ := Search.mem_all hfound
    have hsome : (selfAttribute pre.getLast? s).isSome = true := by rw [heq]; rfl
    obtain ⟨name, gap, rest, rfl, hident, hgap, -⟩ := isSome_selfAttribute_iff.1 hsome
    have hhead := h.head?_eq (List.append_assoc pre _ _).symm hident.isRun hgap
    obtain ⟨tail, rfl⟩ := List.head?_eq_some_iff.1 hhead
    exact ⟨pre, name, gap, tail, rfl, hident, hgap⟩

theorem lineBindings_eq_nil_iff (h : IsCompared line)
    (hwords : ∀ word ∈ bindingWords, ¬ word <:+: line) :
    lineBindings line = [] ↔ ¬ ComparesAttribute line := by
  have hparameters := parametersOf_eq_nil (hwords _ (by decide))
  have hloops : bindingsOf loopHead line = [] :=
    bindingsOf_eq_nil (fun _ _ _ => isPrefix_of_loopHead) (hwords _ (by decide))
  have hglobals : bindingsOf (keywordName "global" "global") line = [] :=
    bindingsOf_eq_nil (fun _ _ _ => isPrefix_of_keywordName) (hwords _ (by decide))
  have hnonlocals : bindingsOf (keywordName "nonlocal" "nonlocal") line = [] :=
    bindingsOf_eq_nil (fun _ _ _ => isPrefix_of_keywordName) (hwords _ (by decide))
  rw [lineBindings, assignment?_eq_none h, hparameters, hloops, hglobals, hnonlocals]
  simpa using bindingsOf_selfAttribute_eq_nil_iff h

theorem variablesFrom_eq_nil_iff {filePath : String} {n : Nat} {lines : List (List Char)} :
    variablesFrom filePath n lines = [] ↔ ∀ line ∈ lines, lineBindings line = [] := by
  induction lines generalizing n with
  | nil => simp [variablesFrom]
  | cons first lines ih =>
    rw [variablesFrom, List.append_eq_nil_iff, List.map_eq_nil_iff, ih, List.forall_mem_cons]

/-- A source whose equals signs all belong to comparisons has no variables, unless it compares an
attribute of `self` for equality. -/
theorem extract_eq_nil_iff (h : OnlyCompares content) (filePath : String) :
    extract content filePath = [] ↔
      ∀ line ∈ splitOn '\n' content, ¬ ComparesAttribute line := by
  rw [extract, variablesFrom_eq_nil_iff]
  refine forall_congr' fun line => forall_congr' fun hline => ?_
  exact lineBindings_eq_nil_iff (h.isCompared hline) fun _ => h.not_infix hline

namespace Compared

def limits : List Char := "while self.low <= high != other:\n\treturn self.count >= 1 and x == y\n".toList

/-- All four operators, and attributes on either side of them. -/
theorem extract_limits : OnlyCompares limits ∧ extract limits "a.py" = [] ∧
    ∀ line ∈ splitOn '\n' limits, ¬ ComparesAttribute line := by
  have honly : OnlyCompares limits :=
    ⟨⟨_, deletes_withoutComparisons limits, by decide +kernel⟩, by decide +kernel⟩
  have hnone : extract limits "a.py" = [] := by decide +kernel
  exact ⟨honly, hnone, (extract_eq_nil_iff honly "a.py").1 hnone⟩

/-- The second equals sign is read as the start of a value. -/
theorem extract_attribute : OnlyCompares "self.x == 1".toList ∧
    (extract "self.x == 1".toList "a.py").map (fun v => (v.name, v.value, v.line, v.character)) =
      [("x", some "= 1", 1, 5)] := by
  exact ⟨⟨⟨_, deletes_withoutComparisons _, by decide +kernel⟩, by decide +kernel⟩, by decide +kernel⟩

end Compared

end Python
end DeclScan
