import DeclScan.Proofs.Language.Comparisons
import DeclScan.Proofs.Text.LineEnds

/-!
# DeclScan.Proofs.Language.Assignments

Lines of Python with a carriage return at the end. Of parameters, loops and `global` declarations a
line says the same without it. An assignment takes its value from the rest of the line, and with it the
carriage return; where nothing stands behind the equals sign, the carriage return is the value.

* `AssignsName`, `AssignsAttribute`: assignments with the equals sign, to the name that begins a line and
  to an attribute of `self`.
* `lineBindings_append_return`: a line without assignments.
* `exists_binding_of_assigns`: a line with one.
* `extract_withReturns_eq_iff`: when a source with such line ends has the same variables.
-/

namespace DeclScan
namespace Python

open Text

/-- The line begins with a name and a single equals sign. -/
def AssignsName (line : List Char) : Prop :=
  ∃ indent name gap rest, line = indent ++ (name ++ (gap ++ '=' :: rest)) ∧ IsPad indent ∧
    IsIdentifier name ∧ IsPad gap ∧ rest.head? ≠ some '='

/-- The line has an attribute of `self` with an equals sign behind it. -/
def AssignsAttribute (line : List Char) : Prop :=
  ∃ pre name gap rest, line = pre ++ ("self.".toList ++ (name ++ (gap ++ '=' :: rest))) ∧
    IsIdentifier name ∧ IsPad gap

/-- The line gives a value to something, by an equals sign. -/
def Assigns (line : List Char) : Prop := AssignsName line ∨ AssignsAttribute line

variable {line s r value : List Char}

/-! ## Values -/

theorem of_restOfLine? (h : restOfLine? r = some value) (hr : r <:+ line) :
    value.getLast? = line.getLast? ∧ ∀ c ∈ value, c ∈ line := by
  have hne : r ≠ [] := by
    rintro rfl
    cases h
  have hlast : r.getLast? = line.getLast? := by
    obtain ⟨pre, rfl⟩ := hr
    rw [List.getLast?_append_of_ne_nil pre hne]
  rw [restOfLine?] at h
  split at h
  · rename_i c more heq
    cases h
    have hsuffix : c :: more <:+ r := heq ▸ trimStart_suffix r
    refine ⟨?_, fun d hd => (hsuffix.trans hr).mem hd⟩
    obtain ⟨blanks, rfl⟩ := hsuffix
    rw [← hlast, List.getLast?_append_of_ne_nil blanks (List.cons_ne_nil c more)]
  · obtain ⟨c, hc, rfl⟩ := Option.map_eq_some_iff.1 h
    refine ⟨by rw [← hlast, hc]; rfl, fun d hd => ?_⟩
    rw [List.mem_singleton.1 hd]
    exact hr.mem (List.mem_of_getLast? hc)

theorem value_of_assignment? {b : Binding} (h : assignment? line = some b) :
    b.value.getLast? = line.getLast? ∧ ∀ c ∈ b.value, c ∈ line := by
  rw [assignment?] at h
  split at h
  · cases h
  · rename_i name rest hname
    split at h
    · cases h
    · rename_i r _ heq
      obtain ⟨value, hvalue, rfl⟩ := Option.map_eq_some_iff.1 h
      have hsuffix : r <:+ rest :=
        (List.suffix_cons '=' r).trans (heq ▸ trimStart_suffix rest)
      exact of_restOfLine? hvalue
        ((hsuffix.trans (suffix_of_takeName? hname)).trans (trimStart_suffix line))
    · cases h

theorem value_of_selfAttribute {before : Option Char} {i : Introduced} {length : Nat}
    (h : selfAttribute before s = some (i, length)) :
    i.value.getLast? = s.getLast? ∧ ∀ c ∈ i.value, c ∈ s := by
  rw [selfAttribute] at h
  split at h
  · cases h
  · rename_i name rest hname
    obtain ⟨after, hself, htake⟩ := Option.bind_eq_some_iff.1 hname
    split at h
    · rename_i r heq
      obtain ⟨value, hvalue, hi⟩ := Option.map_eq_some_iff.1 h
      cases hi
      have hsuffix : r <:+ rest :=
        (List.suffix_cons '=' r).trans (heq ▸ trimStart_suffix rest)
      exact of_restOfLine? hvalue
        ((hsuffix.trans (suffix_of_takeName? htake)).trans (suffix_of_dropLiteral hself))
    · cases h

theorem value_of_mem_parametersOf {b : Binding} (h : b ∈ parametersOf line) :
    b.value = "function".toList := by
  have hparts : ∀ parts offset, b ∈ parameterBindings line offset parts →
      b.value = "function".toList := by
    intro parts
    induction parts with
    | nil => exact fun _ h => nomatch h
    | cons part parts ih =>
      intro offset h
      rw [parameterBindings] at h
      split at h
      · exact ih _ h
      · split at h
        · exact ih _ h
        · rcases List.mem_cons.1 h with rfl | h
          · rfl
          · exact ih _ h
  rw [parametersOf] at h
  split at h
  · cases h
  · exact hparts _ _ h

theorem value_of_loopHead {before : Option Char} {i : Introduced} {length : Nat}
    (h : loopHead before s = some (i, length)) : i.value = "loop variable".toList := by
  simp only [loopHead] at h
  split at h
  · cases h
  · split at h
    · cases h
    · split at h
      · cases h
        rfl
      · cases h

theorem value_of_keywordName {keyword value : String} {before : Option Char} {i : Introduced}
    {length : Nat} (h : keywordName keyword value before s = some (i, length)) :
    i.value = value.toList := by
  simp only [keywordName] at h
  split at h
  · cases h
  · split at h
    · cases h
    · obtain ⟨found, -, hi⟩ := Option.map_eq_some_iff.1 h
      cases hi
      rfl

theorem return_mem_of_value {b : Binding} (h : b ∈ lineBindings line) (hreturn : '\r' ∈ b.value) :
    '\r' ∈ line := by
  have hfound : ∀ m : Recogniser Introduced, b ∈ bindingsOf m line →
      ∃ before s i length, s <:+ line ∧ m before s = some (i, length) ∧ b.value = i.value := by
    intro m hb
    obtain ⟨found, hfound, rfl⟩ := List.mem_map.1 hb
    obtain ⟨pre, rest, length, rfl, -, heq⟩ := Search.mem_all hfound
    exact ⟨_, rest, _, length, List.suffix_append pre rest, heq, rfl⟩
  simp only [lineBindings, List.mem_append, Option.mem_toList] at h
  rcases h with ((((h | h) | h) | h) | h) | h
  · exact (value_of_assignment? h).2 _ hreturn
  · rw [value_of_mem_parametersOf h] at hreturn
    exact absurd hreturn (by decide)
  · obtain ⟨before, s, i, length, hs, heq, hvalue⟩ := hfound _ h
    exact hs.mem ((value_of_selfAttribute heq).2 _ (hvalue ▸ hreturn))
  · obtain ⟨before, s, i, length, -, heq, hvalue⟩ := hfound _ h
    rw [hvalue, value_of_loopHead heq] at hreturn
    exact absurd hreturn (by decide)
  · obtain ⟨before, s, i, length, -, heq, hvalue⟩ := hfound _ h
    rw [hvalue, value_of_keywordName heq] at hreturn
    exact absurd hreturn (by decide)
  · obtain ⟨before, s, i, length, -, heq, hvalue⟩ := hfound _ h
    rw [hvalue, value_of_keywordName heq] at hreturn
    exact absurd hreturn (by decide)

/-! ## Assignments -/

theorem exists_of_isSome_assignment? (h : (assignment? line).isSome = true) :
    ∃ indent name gap rest, line = indent ++ (name ++ (gap ++ '=' :: rest)) ∧ IsPad indent ∧
      IsIdentifier name ∧ IsPad gap ∧ rest.head? ≠ some '=' ∧ rest ≠ [] := by
  rw [assignment?] at h
  split at h
  · cases h
  rename_i name r hname
  obtain ⟨hstart, hident, -⟩ := takeName?_eq_some_iff.1 hname
  obtain ⟨indent, hline, hindent⟩ := eq_append_trimStart line
  obtain ⟨gap, hr, hgap⟩ := eq_append_trimStart r
  split at h
  · cases h
  · rename_i rest hsingle heq
    rw [heq] at hr
    refine ⟨indent, name, gap, rest, by rw [← hr, ← hstart, ← hline], hindent, hident, hgap, ?_, ?_⟩
    · intro hhead
      obtain ⟨tail, rfl⟩ := List.head?_eq_some_iff.1 hhead
      exact hsingle tail rfl
    · rintro rfl
      cases h
  · cases h

theorem isSome_assignment?_of {indent name gap rest : List Char} (hindent : IsPad indent)
    (hident : IsIdentifier name) (hgap : IsPad gap) (hhead : rest.head? ≠ some '=') (hne : rest ≠ []) :
    (assignment? (indent ++ (name ++ (gap ++ '=' :: rest)))).isSome = true := by
  have hstop : (gap ++ '=' :: rest).head?.all (fun c => !isNameRest c) = true := by
    cases gap with
    | nil => rfl
    | cons b gap => simpa using isNameRest_eq_false_of_isBlank (hgap b List.mem_cons_self)
  have hname := takeName?_eq_some_iff.2 ⟨rfl, hident, hstop⟩
  have hsolid : IsSolid (name ++ (gap ++ '=' :: rest)) := by
    obtain ⟨c, more, rfl⟩ := List.exists_cons_of_ne_nil hident.isRun.ne_nil
    exact isSolid_cons (isBlank_eq_false_of_isNameRest (hident.rests c List.mem_cons_self)) _
  have hsign : IsSolid ('=' :: rest) := isSolid_cons (by decide) rest
  rw [assignment?, trimStart_padded hindent hsolid, hname]
  simp only [trimStart_padded hgap hsign]
  split
  · rename_i heq
    rw [(List.cons.inj heq).2] at hhead
    exact absurd rfl hhead
  · rename_i r _ heq
    obtain rfl : rest = r := (List.cons.inj heq).2
    rw [Option.isSome_map]
    exact isSome_restOfLine? hne
  · rename_i hno
    exact absurd rfl (hno rest)

theorem isSome_assignment?_append_return :
    (assignment? (line ++ ['\r'])).isSome = true ↔ AssignsName line := by
  constructor
  · intro h
    obtain ⟨indent, name, gap, rest, hline, hindent, hident, hgap, hhead, hne⟩ :=
      exists_of_isSome_assignment? h
    have hcut : line ++ ['\r'] = (indent ++ (name ++ (gap ++ ['=']))) ++ rest := by simp [hline]
    obtain ⟨more, rfl, rfl⟩ := exists_of_append_return hcut hne
    refine ⟨indent, name, gap, more, by simp, hindent, hident, hgap, fun h => hhead ?_⟩
    rw [List.head?_append, h, Option.some_or]
  · rintro ⟨indent, name, gap, rest, rfl, hindent, hident, hgap, hhead⟩
    have hhead' : (rest ++ ['\r']).head? ≠ some '=' := by
      cases rest with
      | nil => decide
      | cons c rest => exact hhead
    simpa using isSome_assignment?_of hindent hident hgap hhead' (by simp)

theorem assignsName_of_isSome (h : (assignment? line).isSome = true) : AssignsName line := by
  obtain ⟨indent, name, gap, rest, hline, hindent, hident, hgap, hhead, -⟩ :=
    exists_of_isSome_assignment? h
  exact ⟨indent, name, gap, rest, hline, hindent, hident, hgap, hhead⟩

theorem bindingsOf_selfAttribute_of_not (h : ¬ AssignsAttribute line) :
    bindingsOf selfAttribute line = [] ∧ bindingsOf selfAttribute (line ++ ['\r']) = [] := by
  have hnone : ∀ t, (∀ pre name gap rest,
      t = pre ++ ("self.".toList ++ (name ++ (gap ++ '=' :: rest))) → IsIdentifier name →
        IsPad gap → rest = []) → bindingsOf selfAttribute t = [] := by
    intro t ht
    rw [bindingsOf, List.map_eq_nil_iff]
    refine List.eq_nil_iff_forall_not_mem.2 fun found hfound => ?_
    obtain ⟨pre, s, length, rfl, -, heq⟩ := Search.mem_all hfound
    have hsome : (selfAttribute pre.getLast? s).isSome = true := by rw [heq]; rfl
    obtain ⟨name, gap, rest, rfl, hident, hgap, hne⟩ := isSome_selfAttribute_iff.1 hsome
    exact hne (ht pre name gap rest rfl hident hgap)
  refine ⟨hnone line fun pre name gap rest hline hident hgap => ?_,
    hnone _ fun pre name gap rest hline hident hgap => ?_⟩
  · exact absurd ⟨pre, name, gap, rest, hline, hident, hgap⟩ h
  · by_contra hne
    have hcut : line ++ ['\r'] = (pre ++ ("self.".toList ++ (name ++ (gap ++ ['='])))) ++ rest := by
      simp [hline]
    obtain ⟨more, rfl, rfl⟩ := exists_of_append_return hcut hne
    exact h ⟨pre, name, gap, more, by simp, hident, hgap⟩

/-- An assignment takes the carriage return at the end of the line for a part of its value. -/
theorem exists_binding_of_assigns (h : Assigns line) :
    ∃ b ∈ lineBindings (line ++ ['\r']), '\r' ∈ b.value := by
  have hlast : (line ++ ['\r']).getLast? = some '\r' := List.getLast?_concat
  rcases h with h | ⟨pre, name, gap, rest, rfl, hident, hgap⟩
  · obtain ⟨b, hb⟩ := Option.isSome_iff_exists.1 (isSome_assignment?_append_return.2 h)
    refine ⟨b, by simp [lineBindings, hb], List.mem_of_getLast? ?_⟩
    rw [(value_of_assignment? hb).1, hlast]
  · have hsome : (selfAttribute pre.getLast?
        ("self.".toList ++ (name ++ (gap ++ '=' :: (rest ++ ['\r']))))).isSome = true :=
      isSome_selfAttribute_iff.2 ⟨name, gap, rest ++ ['\r'], rfl, hident, hgap, by simp⟩
    obtain ⟨found, hfound, -⟩ := Search.exists_mem_all hsome
    have hline : pre ++ ("self.".toList ++ (name ++ (gap ++ '=' :: (rest ++ ['\r'])))) =
        pre ++ ("self.".toList ++ (name ++ (gap ++ '=' :: rest))) ++ ['\r'] := by simp
    rw [hline] at hfound
    obtain ⟨pre', s, length, hsplit, -, heq⟩ := Search.mem_all hfound
    have hs : s ≠ [] := by
      rintro rfl
      cases heq
    have hvalue : found.value.value.getLast? = some '\r' := by
      rw [(value_of_selfAttribute heq).1, ← hlast, hsplit, List.getLast?_append_of_ne_nil pre' hs]
    refine ⟨⟨found.value.name, found.value.value, found.offset + found.value.lead⟩, ?_,
      List.mem_of_getLast? hvalue⟩
    simp only [lineBindings, List.mem_append]
    exact Or.inl (Or.inl (Or.inl (Or.inr (List.mem_map.2 ⟨found, hfound, rfl⟩))))

/-! ## Everything else -/

/-- What ends a signature, behind optional blanks. -/
def isSignatureEnd (s : List Char) : Bool :=
  match s with
  | ':' :: _ => true
  | '-' :: '>' :: r => r.takeWhile (· ≠ ':') ≠ [] && (r.dropWhile (· ≠ ':')) ≠ []
  | _ => false

theorem isSignatureEnd_arrow (r : List Char) : isSignatureEnd ("->".toList ++ r) =
    (decide (r.takeWhile (· ≠ ':') ≠ []) && decide (r.dropWhile (· ≠ ':') ≠ [])) := rfl

theorem isSignatureEnd_eq_false (hcolon : s.head? ≠ some ':') (harrow : ¬ "->".toList <+: s) :
    isSignatureEnd s = false := by
  rw [isSignatureEnd.eq_def]
  split
  · exact absurd rfl hcolon
  · exact absurd (List.prefix_append "->".toList _) harrow
  · rfl

theorem isSignatureEnd_append_return (s : List Char) :
    isSignatureEnd (s ++ ['\r']) = isSignatureEnd s := by
  by_cases hcolon : s.head? = some ':'
  · obtain ⟨r, rfl⟩ := List.head?_eq_some_iff.1 hcolon
    rfl
  by_cases harrow : "->".toList <+: s
  · obtain ⟨r, rfl⟩ := harrow
    rw [List.append_assoc, isSignatureEnd_arrow, isSignatureEnd_arrow]
    rcases span_append_return (by decide : ':' ≠ '\r') r with
      ⟨value, rest, hv, hr, hv', hr'⟩ | ⟨hr, hr'⟩
    · rw [hv, hr, hv', hr']
      rfl
    · rw [hr, hr', decide_eq_false (not_not_intro rfl), Bool.and_false, Bool.and_false]
  · rw [isSignatureEnd_eq_false hcolon harrow, isSignatureEnd_eq_false]
    · cases s with
      | nil => decide
      | cons c s => exact hcolon
    · rintro ⟨r, hr⟩
      have hne : r ≠ [] := by
        rintro rfl
        exact absurd (congrArg List.getLast? hr) (by simp)
      obtain ⟨more, -, rfl⟩ := exists_of_append_return hr.symm hne
      exact harrow (List.prefix_append _ _)

theorem endsSignature_append_return (s : List Char) :
    endsSignature (s ++ ['\r']) = endsSignature s :=
  @trimStart_append_return _ isSignatureEnd isSignatureEnd rfl isSignatureEnd_append_return s

theorem parametersUpTo?_append_return (seen s : List Char) :
    parametersUpTo? seen (s ++ ['\r']) = parametersUpTo? seen s := by
  induction s generalizing seen with
  | nil => rfl
  | cons c s ih => rw [List.cons_append, parametersUpTo?, parametersUpTo?, ih, endsSignature_append_return]

theorem opened_append_return (s : List Char) :
    ((dropBlanks? (s ++ ['\r'])).bind takeName?).bind
        (fun (_, r) => dropLiteral ['('] (trimStart r)) =
      (((dropBlanks? s).bind takeName?).bind fun (_, r) => dropLiteral ['('] (trimStart r)).map
        (· ++ ['\r']) := by
  have hreturn : isNameRest '\r' = false := by decide
  have hparen : IsWithinLine ['('] := by decide
  rw [Option.bind_assoc, Option.bind_assoc, Option.map_bind]
  refine bind_dropBlanks?_append_return rfl rfl (fun t => ?_) s
  rw [takeName?_append_cons hreturn t [], Option.bind_map, Function.comp_apply, Option.map_bind]
  refine congrArg _ (funext fun found => ?_)
  exact dropLiteral_trimStart_append_return (List.cons_ne_nil _ _) hparen found.2

theorem signature_append_return (before : Option Char) (s : List Char) :
    signature before (s ++ ['\r']) = signature before s := by
  have hdef : IsWithinLine "def".toList := by decide
  simp only [signature]
  rw [dropLiteral_append_return hdef]
  cases dropLiteral "def".toList s with
  | none => rfl
  | some r =>
    simp only [Option.map_some, Option.bind_some, opened_append_return]
    cases ((dropBlanks? r).bind takeName?).bind fun (_, r) => dropLiteral ['('] (trimStart r) with
    | none => rfl
    | some r =>
      simp only [Option.map_some, parametersUpTo?_append_return, length_append_return_sub]

theorem parameterBindings_append_return (line : List Char) (offset : Nat) (parts : List (List Char)) :
    parameterBindings (line ++ ['\r']) offset parts = parameterBindings line offset parts := by
  induction parts generalizing offset with
  | nil => rfl
  | cons part parts ih =>
    rw [parameterBindings, parameterBindings, ih]
    cases hname : parameterName? part with
    | none => rfl
    | some name =>
      obtain ⟨⟨name, rest⟩, htake, rfl⟩ := Option.map_eq_some_iff.1 hname
      obtain ⟨-, hident, -⟩ := takeName?_eq_some_iff.1 htake
      have hreturn : '\r' ∉ name := fun h => absurd (hident.rests _ h) (by decide)
      simp only [findFrom?_append_return hident.isRun.ne_nil hreturn]

theorem parametersOf_append_return (line : List Char) :
    parametersOf (line ++ ['\r']) = parametersOf line := by
  rw [parametersOf, parametersOf, Search.first?_eq_head?, Search.first?_eq_head?,
    Search.all_append_singleton (fun _ => rfl) signature_append_return]
  split
  · rfl
  · exact parameterBindings_append_return _ _ _

theorem lengthToLastColon_append_return (s : List Char) :
    lengthToLastColon (s ++ ['\r']) = lengthToLastColon s := by
  rw [lengthToLastColon, List.reverse_append]
  rfl

theorem named_append_return (s r : List Char) :
    ((dropBlanks? (r ++ ['\r'])).bind fun r => (takeName? r).map fun (name, after) =>
        (name, (s ++ ['\r']).length - r.length, after)) =
      ((dropBlanks? r).bind fun r => (takeName? r).map fun (name, after) =>
        (name, s.length - r.length, after)).map
          fun (name, lead, after) => (name, lead, after ++ ['\r']) := by
  have hreturn : isNameRest '\r' = false := by decide
  rw [Option.map_bind]
  refine bind_dropBlanks?_append_return rfl rfl (fun t => ?_) r
  rw [takeName?_append_cons hreturn t [], length_append_return_sub, Option.map_map,
    Function.comp_apply, Option.map_map]
  rfl

theorem loopHead_append_return (before : Option Char) (s : List Char) :
    loopHead before (s ++ ['\r']) = loopHead before s := by
  have hfor : IsWithinLine "for".toList := by decide
  have hin : IsWithinLine "in".toList := by decide
  simp only [loopHead]
  rw [dropLiteral_append_return hfor]
  cases dropLiteral "for".toList s with
  | none => rfl
  | some r =>
    simp only [Option.map_some, Option.bind_some, named_append_return]
    cases (dropBlanks? r).bind fun r =>
      (takeName? r).map fun (name, after) => (name, s.length - r.length, after) with
    | none => rfl
    | some named =>
      obtain ⟨name, lead, after⟩ := named
      simp only [Option.map_some, bind_dropLiteral_append_return (by decide) hin]
      cases (dropBlanks? after).bind (dropLiteral "in".toList) with
      | none => rfl
      | some r =>
        simp only [Option.map_some, lengthToLastColon_append_return, length_append_return_sub]
        cases r with
        | nil => rfl
        | cons c r => rfl

theorem keywordName_eq (keyword value : String) (before : Option Char) (s : List Char) :
    keywordName keyword value before s =
      if before.any isWord then none
      else (dropLiteral keyword.toList s).bind fun r => (dropBlanks? r).bind fun r =>
        (takeName? r).map fun (name, _) =>
          (⟨name, value.toList, s.length - r.length⟩, s.length - r.length + name.length) := by
  rw [keywordName]
  cases dropLiteral keyword.toList s with
  | none => rfl
  | some r => cases hr : dropBlanks? r <;> simp [hr]

theorem keywordName_append_return {keyword : String} (h : IsWithinLine keyword.toList) (value : String)
    (before : Option Char) (s : List Char) :
    keywordName keyword value before (s ++ ['\r']) = keywordName keyword value before s := by
  have hreturn : isNameRest '\r' = false := by decide
  rw [keywordName_eq, keywordName_eq, dropLiteral_append_return h, Option.bind_map]
  split
  · rfl
  · refine congrArg _ (funext fun r => ?_)
    refine bind_dropBlanks?_append_return rfl rfl (fun t => ?_) r
    rw [takeName?_append_cons hreturn t [], length_append_return_sub, Option.map_map]
    rfl

/-! ## Lines -/

/-- A line without assignments says the same with a carriage return at its end. -/
theorem lineBindings_append_return (h : ¬ Assigns line) :
    lineBindings (line ++ ['\r']) = lineBindings line := by
  rw [Assigns, not_or] at h
  have hname : assignment? (line ++ ['\r']) = assignment? line := by
    rw [Option.not_isSome_iff_eq_none.1 (mt isSome_assignment?_append_return.1 h.1),
      Option.not_isSome_iff_eq_none.1 (mt assignsName_of_isSome h.1)]
  obtain ⟨hattribute, hattribute'⟩ := bindingsOf_selfAttribute_of_not h.2
  have hsame : ∀ m : Recogniser Introduced, (∀ before, m before [] = none) →
      (∀ before t, m before (t ++ ['\r']) = m before t) →
        bindingsOf m (line ++ ['\r']) = bindingsOf m line := fun m hnil hm => by
    rw [bindingsOf, bindingsOf, Search.all_append_singleton hnil hm]
  have hkeyword : ∀ keyword value : String, keyword.toList ≠ [] → ∀ before,
      keywordName keyword value before [] = none := by
    intro keyword value hne before
    obtain ⟨c, more, hword⟩ := List.exists_cons_of_ne_nil hne
    rw [keywordName, hword, dropLiteral]
    split <;> rfl
  rw [lineBindings, lineBindings, hname, parametersOf_append_return, hattribute, hattribute',
    hsame _ (fun _ => rfl) loopHead_append_return,
    hsame _ (hkeyword _ _ (by decide)) (keywordName_append_return (by decide) _),
    hsame _ (hkeyword _ _ (by decide)) (keywordName_append_return (by decide) _)]

theorem exists_return_iff (filePath : String) {n : Nat} {lines : List (List Char)} :
    (∃ v ∈ variablesFrom filePath n lines, '\r' ∈ (v.value.getD "").toList) ↔
      ∃ line ∈ lines, ∃ b ∈ lineBindings line, '\r' ∈ b.value := by
  induction lines generalizing n with
  | nil => simp [variablesFrom]
  | cons first lines ih =>
    simp only [variablesFrom, List.mem_append, or_and_right, exists_or, ih, List.mem_cons,
      exists_eq_left]
    simp [Binding.toVariable]

/-- With carriage returns, a source has the same variables exactly if no line that a newline ends is an
assignment. -/
theorem extract_withReturns_eq_iff {content : List Char} (h : '\r' ∉ content) (filePath : String) :
    extract (withReturns content) filePath = extract content filePath ↔
      ∀ line ∈ (splitOn '\n' content).dropLast, ¬ Assigns line := by
  rw [extract, extract, splitOn_withReturns]
  constructor
  · intro heq line hline hassigns
    obtain ⟨b, hb, hreturn⟩ := exists_binding_of_assigns hassigns
    have hsome := (exists_return_iff filePath (n := 1)).2 ⟨_, mem_returnLines hline, b, hb, hreturn⟩
    rw [heq] at hsome
    obtain ⟨other, hother, b, hb, hreturn⟩ := (exists_return_iff filePath).1 hsome
    obtain ⟨n, hn⟩ := List.mem_iff_getElem?.1 hother
    obtain ⟨before, behind, hcontent, -, -⟩ := placed_of_splitFrom List.not_mem_nil hn
    rw [List.reverse_nil, List.nil_append] at hcontent
    have hmem : '\r' ∈ other := return_mem_of_value hb hreturn
    exact h (by simp [hcontent, hmem])
  · intro hno
    refine collect_returnLines (variablesFrom filePath) (fun _ _ _ => rfl) (fun line hline n => ?_) 1
    rw [lineBindings_append_return (hno line hline)]

/-- With nothing behind the equals sign, the carriage return is the value. -/
example : (extract "x =\r\n".toList "a.py").map (·.value) = [some "\r"] ∧
    extract "x =\n".toList "a.py" = [] := by
  decide +kernel

end Python
end DeclScan
