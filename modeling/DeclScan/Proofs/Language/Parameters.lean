import DeclScan.Proofs.Language.Brackets
import DeclScan.Proofs.Language.Comparisons
import DeclScan.Proofs.Text.Places

/-!
# DeclScan.Proofs.Language.Parameters

Parameter lists as they are written, and what is read out of them. Annotations and defaults may have
commas of their own, but only within brackets, so the list is cut between its parameters. Each name is then
looked for from the start of its part on, and nothing but white space and stars stands before it there.

* `Parameter`, `FunctionLine`: parameters, and lines with a list of them.
* `Parameter.parameterName?_text`, `Parameter.isNested_text`: what is read of a parameter.
* `parameterBindings_eq`, `FunctionLine.first?_signature`: what is read of a list and of a line.
* `parameters_read_back`: the parameters of a line, each at its column.
-/

namespace DeclScan
namespace Python

open Text

/-! ## Parameters and lines as they are written -/

instance (name : List Char) : Decidable (IsIdentifier name) :=
  decidable_of_iff (name.head?.any isNameStart = true ∧ name.all isNameRest = true)
    ⟨fun h => ⟨h.1, List.all_eq_true.1 h.2⟩, fun h => ⟨h.starts, List.all_eq_true.2 h.rests⟩⟩

/-- An annotation or a default: what stands behind its mark, and the white space before the mark. -/
structure Clause where
  pad : List Char
  body : List Char
  isPad : IsPad pad
  isNested : IsNested false body

def Clause.text (mark : Char) (c : Clause) : List Char := c.pad ++ mark :: c.body

/-- A parameter: a name, with up to two stars before it and an annotation and a default behind it, and
white space between these. -/
structure Parameter where
  before : List Char
  stars : List Char
  gap : List Char
  name : List Char
  annotation? : Option Clause
  default? : Option Clause
  behind : List Char
  isPad : IsPad before
  areStars : stars ∈ [[], ['*'], ['*', '*']]
  isPad' : IsPad gap
  isIdentifier : IsIdentifier name
  isPad'' : IsPad behind

namespace Parameter

/-- What stands before the name. -/
def lead (p : Parameter) : List Char := p.before ++ (p.stars ++ p.gap)

/-- What stands behind the name. -/
def tail (p : Parameter) : List Char :=
  p.annotation?.elim [] (Clause.text ':') ++ (p.default?.elim [] (Clause.text '=') ++ p.behind)

def text (p : Parameter) : List Char := p.lead ++ (p.name ++ p.tail)

theorem eq_of_mem_stars {p : Parameter} {c : Char} (h : c ∈ p.stars) : c = '*' := by
  have hstars := p.areStars
  simp only [List.mem_cons, List.not_mem_nil, or_false] at hstars
  rcases hstars with heq | heq | heq <;> rw [heq] at h <;> simp_all

/-- The parameter is the object or the class that a method is called on. -/
def IsReceiver (p : Parameter) : Prop := p.name = "self".toList ∨ p.name = "cls".toList

instance (p : Parameter) : Decidable p.IsReceiver := inferInstanceAs (Decidable (_ ∨ _))

end Parameter

/-- A line that begins the definition of a function. White space may stand behind a comma that follows the
last parameter, and alone in a list without parameters. -/
structure FunctionLine where
  indent : List Char
  gap : List Char
  name : List Char
  space : List Char
  parameters : List Parameter
  trailing? : Option (List Char)
  isPad : IsPad indent
  isGap : IsGap gap
  isIdentifier : IsIdentifier name
  isPad' : IsPad space
  trailing : ∀ pad ∈ trailing?, IsPad pad
  inLine : '\n' ∉ indent ++ gap ++ space ++ parameters.flatMap Parameter.text ++ trailing?.getD []

namespace FunctionLine

variable (f : FunctionLine)

/-- The line up to the list and its parenthesis. -/
def head : List Char :=
  f.indent ++ ("def".toList ++ (f.gap ++ (f.name ++ (f.space ++ ['(']))))

/-- What stands between the commas. -/
def pieces : List (List Char) := f.parameters.map Parameter.text ++ f.trailing?.toList

def list : List Char := joinWith ',' f.pieces

def text : List Char := f.head ++ (f.list ++ [')', ':'])

end FunctionLine

section Placed

variable (written : List Char) (parameters : List Parameter) (k : Fin parameters.length)

/-- The column that the name of a parameter starts at. -/
def columnOf : Nat :=
  (written ++ ((parameters.take k).flatMap fun p => p.text ++ [',']) ++ parameters[k].lead).length

/-- What a parameter binds: its name, at its column, unless it is a receiver. -/
def bindingOf? : Option Binding :=
  if parameters[k].IsReceiver then none
  else some ⟨parameters[k].name, "function".toList, columnOf written parameters k⟩

end Placed

/-! ## What is read of a parameter -/

theorem isSolid_of_isIdentifier {name : List Char} (h : IsIdentifier name) (s : List Char) :
    IsSolid (name ++ s) := by
  obtain ⟨c, more, rfl⟩ := List.exists_cons_of_ne_nil h.isRun.ne_nil
  exact isSolid_cons (isBlank_eq_false_of_isNameRest (h.rests c List.mem_cons_self)) _

theorem head?_pad_append {pad s : List Char} (hpad : IsPad pad)
    (hs : s.head?.all (fun c => !isNameRest c) = true) :
    (pad ++ s).head?.all (fun c => !isNameRest c) = true := by
  cases pad with
  | nil => exact hs
  | cons b pad => simp [isNameRest_eq_false_of_isBlank (hpad b List.mem_cons_self)]

theorem parameterName?_of_trim {part stars gap name rest : List Char}
    (htrim : trim part = stars ++ (gap ++ (name ++ rest)))
    (hstars : stars ∈ [[], ['*'], ['*', '*']]) (hgap : IsPad gap) (hname : IsIdentifier name)
    (hrest : rest.head?.all (fun c => !isNameRest c) = true) : parameterName? part = some name := by
  have hread : (takeName? (trimStart (gap ++ (name ++ rest)))).map Prod.fst = some name := by
    rw [trimStart_padded hgap (isSolid_of_isIdentifier hname rest),
      takeName?_eq_some_iff.2 ⟨rfl, hname, hrest⟩]
    rfl
  obtain ⟨c, more, hcons, hc⟩ : ∃ c more, gap ++ (name ++ rest) = c :: more ∧ c ≠ '*' := by
    cases gap with
    | nil =>
      obtain ⟨c, name, rfl⟩ := List.exists_cons_of_ne_nil hname.isRun.ne_nil
      refine ⟨c, name ++ rest, rfl, ?_⟩
      rintro rfl
      exact Bool.noConfusion (hname.rests '*' List.mem_cons_self)
    | cons b gap =>
      refine ⟨b, gap ++ (name ++ rest), rfl, ?_⟩
      rintro rfl
      exact Bool.noConfusion (hgap '*' List.mem_cons_self)
  rw [hcons] at htrim hread
  simp only [List.mem_cons, List.not_mem_nil, or_false] at hstars
  rw [parameterName?, htrim]
  rcases hstars with rfl | rfl | rfl
  · simpa [hc] using hread
  · simpa [hc] using hread
  · exact hread

namespace Parameter

variable (p : Parameter)

theorem head?_tail : p.tail.head?.all (fun c => !isNameRest c) = true := by
  have hclause : ∀ {mark : Char} {clause? : Option Clause} {s : List Char},
      isNameRest mark = false → s.head?.all (fun c => !isNameRest c) = true →
      (clause?.elim [] (Clause.text mark) ++ s).head?.all (fun c => !isNameRest c) = true := by
    intro mark clause? s hmark hs
    cases clause? with
    | none => exact hs
    | some clause =>
      rw [Option.elim_some, Clause.text, List.append_assoc]
      exact head?_pad_append clause.isPad (by simp [hmark])
  have hbehind : p.behind.head?.all (fun c => !isNameRest c) = true := by
    have := @head?_pad_append p.behind [] p.isPad'' rfl
    rwa [List.append_nil] at this
  exact hclause (by decide) (hclause (by decide) hbehind)

theorem head?_trimEnd {s : List Char} (h : s.head?.all (fun c => !isNameRest c) = true) :
    (trimEnd s).head?.all (fun c => !isNameRest c) = true := by
  obtain ⟨blanks, hs, -⟩ := eq_trimEnd_append s
  cases hcons : trimEnd s with
  | nil => rfl
  | cons c more =>
    rw [hs, hcons] at h
    simpa using h

/-- Trimming takes white space before the stars, or before the name where there are none, and white space
at the end. -/
theorem trim_text : ∃ gap, IsPad gap ∧
    trim p.text = p.stars ++ (gap ++ (p.name ++ trimEnd p.tail)) := by
  obtain ⟨first, last, hname⟩ :=
    (List.eq_nil_or_concat' p.name).resolve_left p.isIdentifier.isRun.ne_nil
  have hlast : isBlank last = false :=
    isBlank_eq_false_of_isNameRest (p.isIdentifier.rests last (by simp [hname]))
  have hend : ∀ s, trimEnd (s ++ (p.name ++ p.tail)) = s ++ (p.name ++ trimEnd p.tail) := by
    intro s
    have hcons := trimEnd_append_cons hlast (s ++ first) p.tail
    rw [hname]
    simpa using hcons
  rw [text, lead, trim]
  by_cases hnone : p.stars = []
  · refine ⟨[], isPad_nil, ?_⟩
    have hpad : IsPad (p.before ++ p.gap) := p.isPad.append p.isPad'
    have hsolid := isSolid_of_isIdentifier p.isIdentifier p.tail
    rw [hnone, List.nil_append, trimStart_padded hpad hsolid]
    exact hend []
  · refine ⟨p.gap, p.isPad', ?_⟩
    have hsolid : IsSolid (p.stars ++ (p.gap ++ (p.name ++ p.tail))) := by
      obtain ⟨c, stars, hstars⟩ := List.exists_cons_of_ne_nil hnone
      obtain rfl : c = '*' := eq_of_mem_stars (by rw [hstars]; exact List.mem_cons_self)
      rw [hstars]
      exact isSolid_cons (by decide) _
    have hassoc : p.before ++ (p.stars ++ p.gap) ++ (p.name ++ p.tail) =
        p.before ++ (p.stars ++ (p.gap ++ (p.name ++ p.tail))) := by
      simp only [List.append_assoc]
    rw [hassoc, trimStart_padded p.isPad hsolid, ← List.append_assoc, hend, List.append_assoc]

theorem parameterName?_text : parameterName? p.text = some p.name := by
  obtain ⟨gap, hgap, htrim⟩ := p.trim_text
  exact parameterName?_of_trim htrim p.areStars hgap p.isIdentifier (head?_trimEnd p.head?_tail)

theorem head?_ne_of_mem_lead {c : Char} (h : c ∈ p.lead) : p.name.head? ≠ some c := by
  have hplain : isNameRest c = false := by
    refine not_isNameRest_of_lead ?_
    simp only [lead, List.mem_append] at h
    rcases h with h | h | h
    · exact Or.inl (p.isPad c h)
    · exact Or.inr (eq_of_mem_stars h)
    · exact Or.inl (p.isPad' c h)
  intro hhead
  rw [p.isIdentifier.rests c (List.mem_of_head? hhead)] at hplain
  cases hplain

theorem findFrom?_name (written rest : List Char) :
    findFrom? p.name (written ++ (p.text ++ rest)) written.length =
      some (written ++ p.lead).length := by
  have hne : p.name ≠ [] := p.isIdentifier.isRun.ne_nil
  have hline : written ++ (p.text ++ rest) = written ++ (p.lead ++ (p.name ++ (p.tail ++ rest))) := by
    simp only [text, List.append_assoc]
  rw [hline, findFrom?_append hne (fun c hc => p.head?_ne_of_mem_lead hc), List.length_append]

/-- A parameter is not cut within. -/
theorem isNested_text : IsNested false p.text := by
  have hpad : ∀ {pad : List Char}, IsPad pad → IsNested false pad := fun hpad =>
    isNested_of_plain fun c hc => Or.inl (hpad c hc)
  have hname : IsNested false p.name :=
    isNested_of_plain fun c hc => Or.inr (Or.inl (p.isIdentifier.rests c hc))
  have hstars : IsNested false p.stars := by
    refine isNested_of_plain fun c hc => Or.inr (Or.inr ?_)
    rw [eq_of_mem_stars hc]
    exact List.mem_cons_self
  have hclause : ∀ {mark : Char} {clause? : Option Clause}, mark ∈ ['*', ':', '='] →
      IsNested false (clause?.elim [] (Clause.text mark)) := by
    intro mark clause? hmark
    cases clause? with
    | none => exact .nil
    | some clause =>
      have hmarked : IsNested false [mark] := isNested_of_plain fun c hc => by
        rw [List.mem_singleton.1 hc]
        exact Or.inr (Or.inr hmark)
      exact (hpad clause.isPad).append (hmarked.append clause.isNested)
  have hlead : IsNested false p.lead := (hpad p.isPad).append (hstars.append (hpad p.isPad'))
  have htype : IsNested false (p.annotation?.elim [] (Clause.text ':')) := hclause (by simp)
  have hdefault : IsNested false (p.default?.elim [] (Clause.text '=')) := hclause (by simp)
  exact hlead.append (hname.append (htype.append (hdefault.append (hpad p.isPad''))))

end Parameter

/-! ## What is read of a list -/

theorem parameterName?_of_isPad {pad : List Char} (h : IsPad pad) : parameterName? pad = none := by
  have htrim : trim pad = [] := by
    rw [trim, trimStart_of_isPad h]
    rfl
  rw [parameterName?, htrim]
  rfl

theorem bindingOf?_succ (written : List Char) (p : Parameter) {parameters : List Parameter}
    (k : Fin parameters.length) :
    bindingOf? written (p :: parameters) k.succ =
      bindingOf? (written ++ (p.text ++ [','])) parameters k := by
  have hcolumn : columnOf written (p :: parameters) k.succ =
      columnOf (written ++ (p.text ++ [','])) parameters k := by
    simp [columnOf, Nat.add_assoc]
  rw [bindingOf?, bindingOf?, hcolumn]
  rfl

theorem parameterBindings_cons (p : Parameter) (parameters : List Parameter)
    (written rest : List Char) (pieces : List (List Char)) :
    parameterBindings (written ++ (p.text ++ rest)) written.length (p.text :: pieces) =
      (bindingOf? written (p :: parameters) 0).toList ++
        parameterBindings (written ++ (p.text ++ rest)) (written ++ (p.text ++ [','])).length
          pieces := by
  have hnext : written.length + p.text.length + 1 = (written ++ (p.text ++ [','])).length := by
    simp only [List.length_append, List.length_singleton, Nat.add_assoc]
  have hcolumn : columnOf written (p :: parameters) 0 = (written ++ p.lead).length := by
    simp [columnOf]
  simp only [parameterBindings, p.parameterName?_text, p.findFrom?_name, hnext]
  rw [bindingOf?, hcolumn]
  by_cases hreceiver : p.IsReceiver
  · have hskip : (decide (p.name = "self".toList) || decide (p.name = "cls".toList)) = true := by
      rw [Bool.or_eq_true, decide_eq_true_eq, decide_eq_true_eq]
      exact hreceiver
    rw [if_pos hskip]
    simp [hreceiver]
  · have hkeep : ¬ (decide (p.name = "self".toList) || decide (p.name = "cls".toList)) = true := by
      rw [Bool.or_eq_true, decide_eq_true_eq, decide_eq_true_eq]
      exact hreceiver
    rw [if_neg hkeep]
    simp [hreceiver]

theorem filterMap_bindingOf?_cons (p : Parameter) (parameters : List Parameter)
    (written : List Char) :
    (List.finRange (p :: parameters).length).filterMap (bindingOf? written (p :: parameters)) =
      (bindingOf? written (p :: parameters) 0).toList ++
        (List.finRange parameters.length).filterMap
          (bindingOf? (written ++ (p.text ++ [','])) parameters) := by
  have hlater : bindingOf? written (p :: parameters) ∘ Fin.succ =
      bindingOf? (written ++ (p.text ++ [','])) parameters :=
    funext (bindingOf?_succ written p)
  simp only [List.length_cons, List.finRange_succ, List.filterMap_cons, List.filterMap_map, hlater]
  cases bindingOf? written (p :: parameters) 0 <;> rfl

/-- The parameters are read one after the other, each at its column. -/
theorem parameterBindings_eq {trailing? : Option (List Char)}
    (htrailing : ∀ pad ∈ trailing?, IsPad pad) (parameters : List Parameter)
    (written rest : List Char) :
    parameterBindings
        (written ++ (joinWith ',' (parameters.map Parameter.text ++ trailing?.toList) ++ rest))
        written.length (parameters.map Parameter.text ++ trailing?.toList) =
      (List.finRange parameters.length).filterMap (bindingOf? written parameters) := by
  induction parameters generalizing written with
  | nil =>
    cases trailing? with
    | none => rfl
    | some pad =>
      have hpad := htrailing pad rfl
      simp [parameterBindings, parameterName?_of_isPad hpad]
  | cons p parameters ih =>
    let pieces := parameters.map Parameter.text ++ trailing?.toList
    obtain ⟨tail, hjoin, htail⟩ : ∃ tail, joinWith ',' (p.text :: pieces) = p.text ++ tail ∧
        (pieces ≠ [] → tail = ',' :: joinWith ',' pieces) := by
      cases pieces with
      | nil => exact ⟨[], by simp [joinWith], fun hne => absurd rfl hne⟩
      | cons next more => exact ⟨_, joinWith.eq_3 _ _ _ (by simp), fun _ => rfl⟩
    have hlater : parameterBindings (written ++ (p.text ++ (tail ++ rest)))
        (written ++ (p.text ++ [','])).length pieces =
          (List.finRange parameters.length).filterMap
            (bindingOf? (written ++ (p.text ++ [','])) parameters) := by
      rw [← ih]
      by_cases hnone : pieces = []
      · have hparameters : parameters.map Parameter.text ++ trailing?.toList = [] := hnone
        rw [hnone, hparameters]
        rfl
      · rw [htail hnone]
        simp [pieces]
    change parameterBindings (written ++ (joinWith ',' (p.text :: pieces) ++ rest)) written.length
      (p.text :: pieces) = _
    rw [hjoin, List.append_assoc, parameterBindings_cons p parameters, hlater,
      filterMap_bindingOf?_cons]

/-! ## What is read of a line -/

theorem exists_joinWith_eq (sep : Char) (before : List (List Char)) (piece : List Char)
    (behind : List (List Char)) :
    ∃ tail, joinWith sep (before ++ piece :: behind) =
      before.flatMap (· ++ [sep]) ++ (piece ++ tail) := by
  induction before with
  | nil =>
    cases behind with
    | nil => exact ⟨[], by simp [joinWith]⟩
    | cons next more => exact ⟨_, joinWith.eq_3 _ _ _ (by simp)⟩
  | cons first before ih =>
    obtain ⟨tail, htail⟩ := ih
    refine ⟨tail, ?_⟩
    rw [List.cons_append, joinWith.eq_3 _ _ _ (by simp), htail]
    simp

theorem parametersUpTo?_append_end (seen list : List Char) :
    parametersUpTo? seen (list ++ [')', ':']) = some (seen.reverse ++ list) := by
  induction list generalizing seen with
  | nil =>
    have hend : endsSignature [':'] = true := by decide
    simp [parametersUpTo?, hend]
  | cons c list ih =>
    rw [List.cons_append, parametersUpTo?, ih]
    simp

namespace FunctionLine

variable (f : FunctionLine)

theorem signature_eq_none {u v : List Char} (huv : f.indent = u ++ v) (hv : v ≠ [])
    (before : Option Char) (rest : List Char) : signature before (v ++ rest) = none := by
  obtain ⟨b, v, rfl⟩ := List.exists_cons_of_ne_nil hv
  have hblank : isBlank b = true := f.isPad b (by rw [huv]; simp)
  have hne : 'd' ≠ b := by
    rintro rfl
    exact Bool.noConfusion hblank
  have hliteral : dropLiteral "def".toList (b :: v ++ rest) = none := by
    simp [dropLiteral, hne]
  rw [signature, hliteral]
  rfl

/-- The signature of the line is found, with the whole list. -/
theorem first?_signature : ∃ found, Search.first? signature f.text = some found ∧
    found.offset + found.value.lead = f.head.length ∧ found.value.parameters = f.list := by
  let opening := "def".toList ++ (f.gap ++ (f.name ++ (f.space ++ ['('])))
  let behind := f.list ++ [')', ':']
  have hname : (((dropLiteral "def".toList (opening ++ behind)).bind dropBlanks?).bind takeName?) =
      some (f.name, f.space ++ '(' :: behind) := by
    have hsolid := isSolid_of_isIdentifier f.isIdentifier (f.space ++ '(' :: behind)
    simp only [opening, List.append_assoc, List.singleton_append, dropLiteral_append,
      Option.bind_some, dropBlanks?_padded f.isGap hsolid]
    exact takeName?_eq_some_iff.2 ⟨rfl, f.isIdentifier, head?_pad_append f.isPad' rfl⟩
  have hparen : dropLiteral ['('] (trimStart (f.space ++ '(' :: behind)) = some behind := by
    have hsolid : IsSolid ('(' :: behind) := isSolid_cons (by decide) behind
    rw [trimStart_padded f.isPad' hsolid]
    exact dropLiteral_append ['('] behind
  have hfound : ∃ length, signature f.indent.getLast? (opening ++ behind) =
      some (⟨f.list, opening.length⟩, length) := by
    refine ⟨opening.length + f.list.length, ?_⟩
    have hlead : (opening ++ behind).length - behind.length = opening.length := by
      rw [List.length_append, Nat.add_sub_cancel]
    have hlist : parametersUpTo? [] behind = some f.list := parametersUpTo?_append_end [] f.list
    simp only [signature, hname, Option.bind_some, hparen, hlist, Option.map_some, hlead]
  obtain ⟨length, hfound⟩ := hfound
  have htext : f.text = f.indent ++ (opening ++ behind) := by
    simp only [text, head, opening, behind, List.append_assoc]
  refine ⟨⟨f.indent.length, ⟨f.list, opening.length⟩⟩, ?_, ?_, rfl⟩
  · refine Search.first?_eq_some_iff.2 ⟨f.indent, opening ++ behind, length, htext, rfl, hfound, ?_⟩
    intro u v huv hv
    exact f.signature_eq_none huv hv u.getLast? (opening ++ behind)
  · exact (List.length_append).symm

theorem splitParameters_list (hne : f.pieces ≠ []) : splitParameters f.list = f.pieces := by
  refine splitParameters_joinWith hne ?_
  intro piece hpiece
  rcases List.mem_append.1 hpiece with hpiece | hpiece
  · obtain ⟨p, -, rfl⟩ := List.mem_map.1 hpiece
    exact p.isNested_text
  · have hpad := f.trailing piece (Option.mem_toList.1 hpiece)
    exact isNested_of_plain fun c hc => Or.inl (hpad c hc)

theorem parametersOf_text : parametersOf f.text =
    (List.finRange f.parameters.length).filterMap (bindingOf? f.head f.parameters) := by
  obtain ⟨found, hfound, hstart, hlist⟩ := f.first?_signature
  have hpieces : parameterBindings f.text f.head.length (splitParameters f.list) =
      parameterBindings f.text f.head.length f.pieces := by
    by_cases hnone : f.pieces = []
    · have hempty : f.list = [] := by rw [list, hnone]; rfl
      have hpad := parameterName?_of_isPad isPad_nil
      simp [hnone, hempty, splitParameters, splitParametersFrom, parameterBindings, hpad]
    · rw [f.splitParameters_list hnone]
  rw [parametersOf, hfound, ← parameterBindings_eq f.trailing f.parameters f.head [')', ':']]
  simp only [hstart, hlist]
  exact hpieces

theorem name_prefix_drop (k : Fin f.parameters.length) :
    f.parameters[k].name <+: f.text.drop (columnOf f.head f.parameters k) := by
  let p := f.parameters[k]
  let earlier := (f.parameters.take k).flatMap fun p => p.text ++ [',']
  have hparameters : f.parameters = f.parameters.take k ++ p :: f.parameters.drop (k + 1) := by
    have hdrop : f.parameters.drop k = p :: f.parameters.drop (k + 1) :=
      List.drop_eq_getElem_cons k.isLt
    rw [← hdrop, List.take_append_drop]
  have hpieces : f.pieces = (f.parameters.take k).map Parameter.text ++
      p.text :: ((f.parameters.drop (k + 1)).map Parameter.text ++ f.trailing?.toList) := by
    rw [pieces]
    nth_rewrite 1 [hparameters]
    simp
  obtain ⟨later, hlist⟩ := exists_joinWith_eq ',' ((f.parameters.take k).map Parameter.text) p.text
    ((f.parameters.drop (k + 1)).map Parameter.text ++ f.trailing?.toList)
  rw [← hpieces, List.flatMap_map] at hlist
  have htext : f.text = f.head ++ earlier ++ p.lead ++ (p.name ++ (p.tail ++ later ++ [')', ':'])) := by
    rw [text, list, hlist, Parameter.text]
    simp [earlier]
  rw [htext, columnOf, List.drop_left]
  exact List.prefix_append _ _

end FunctionLine

/-- Nothing of a list is lost when it is cut, and it is cut at exactly the commas before which as many
brackets are opened as are closed. So the parameters of a line are those that were written, without
receivers and in their order, each at the column where its name starts. -/
theorem parameters_read_back :
    (∀ s, joinWith ',' (splitParameters s) = s) ∧
    (∀ u v, IsCut (splitParameters (u ++ ',' :: v)) u v ↔
      u.countP isOpening = u.countP isClosing) ∧
    ∀ f : FunctionLine,
      parametersOf f.text =
          (List.finRange f.parameters.length).filterMap (bindingOf? f.head f.parameters) ∧
        ∀ k, f.parameters[k].name <+: f.text.drop (columnOf f.head f.parameters k) := by
  refine ⟨joinWith_splitParameters, isCut_splitParameters_iff, ?_⟩
  intro f
  exact ⟨f.parametersOf_text, f.name_prefix_drop⟩

/-- An annotation with a comma within brackets. -/
def annotation : Clause where
  pad := []
  body := ['A', '[', 'b', ',', 'c', ']']
  isPad := isPad_nil
  isNested :=
    have hbody : IsNested true ['b', ',', 'c'] := by
      refine .char ?_ ?_ ?_ (.char ?_ ?_ ?_ (.char ?_ ?_ ?_ .nil)) <;> decide
    .char (by decide) (by decide) (by decide) (.group (by simp [Closes]) hbody .nil)

/-- A method with the object it is called on, an annotated parameter and a comma behind it. -/
def methodLine : FunctionLine where
  indent := [' ']
  gap := [' ']
  name := ['r', 'u', 'n']
  space := []
  parameters :=
    [⟨[], [], [], ['s', 'e', 'l', 'f'], none, none, [], isPad_nil, by simp, isPad_nil, by decide,
        isPad_nil⟩,
      ⟨[' '], ['*'], [], ['a'], some annotation, none, [], isPad_space, by simp, isPad_nil,
        by decide, isPad_nil⟩]
  trailing? := some [' ']
  isPad := isPad_space
  isGap := isGap_space
  isIdentifier := by decide
  isPad' := isPad_nil
  trailing := by simp [isPad_space]
  inLine := by simp [Parameter.text, Parameter.lead, Parameter.tail, Clause.text, annotation]

theorem parameters_read_back_methodLine :
    methodLine.text = " def run(self, *a:A[b,c], ):".toList ∧
      parametersOf methodLine.text = [⟨['a'], "function".toList, 16⟩] := by
  obtain ⟨-, -, hlines⟩ := parameters_read_back
  refine ⟨by decide, ?_⟩
  rw [(hlines methodLine).1]
  decide

end Python
end DeclScan
