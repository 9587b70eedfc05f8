import DeclScan.Language.JavaScript
import DeclScan.Language.Python
import DeclScan.Language.Vue
import DeclScan.Language.Yaml
import DeclScan.Proofs.Text.Found

/-!
# DeclScan.Proofs.Language.Columns

A name stands where its recogniser says: so far behind the place that was looked at, or at a column
of the line. What stands beside it is told as well. Names go on as long as they can, so that no
character of a name comes behind one.

* `JavaScript.framedAt_of_declarator`: declared names.
* `Python.inLine_of_mem_lineBindings`: names bound on a line. A parameter is looked for from the
  start of its part on, and nothing before it can be its beginning.
* `Yaml.framedAt_of_entryOfLine?`: keys.
* `Vue.framedAt_of_mentions`: names in a template.
-/

namespace DeclScan

open Text

/-! ## JavaScript -/

namespace JavaScript

/-- No character of an identifier. -/
def endsIdent (o : Option Char) : Bool := o.all fun c => !isIdentRest c

theorem takeIdent?_eq_some {s name r : List Char} (h : takeIdent? s = some (name, r)) :
    s = name ++ r ∧ IsRun isIdentRest name ∧ endsIdent r.head? = true := by
  cases s with
  | nil => cases h
  | cons c s =>
    rw [takeIdent?] at h
    split at h
    · rename_i hc
      cases h
      have hc : isIdentRest c = true := by
        simp only [isIdentStart, Bool.or_eq_true] at hc
        simp only [isIdentRest, Bool.or_eq_true]
        exact hc.imp_left isNameRest_of_isNameStart
      exact ⟨by simp, isRun_takeWhile hc s, head?_dropWhile isIdentRest s⟩
    · cases h

theorem framedAt_of_declarator {keyword : List Char} {before : Option Char} {s : List Char}
    {d : Declarator} {length : Nat} (h : declarator keyword before s = some (d, length)) :
    FramedAt (·.any isBlank) endsIdent s d.lead d.name ∧ IsRun isIdentRest d.name := by
  simp only [declarator] at h
  split at h
  · cases h
  · split at h
    · cases h
    · rename_i rest hrest
      split at h
      · cases h
      · rename_i name tail hname
        cases h
        obtain ⟨afterKeyword, hkeyword, hblanks⟩ := Option.bind_eq_some_iff.1 hrest
        obtain ⟨heq, hrun, hends⟩ := takeIdent?_eq_some hname
        have hbehind := (endsBehind_of_dropBlanks? hblanks).of_suffix
          (suffix_of_dropLiteral hkeyword) rfl
        exact ⟨hbehind.framedAt heq hends, hrun⟩

end JavaScript

/-! ## Python -/

namespace Python

/-- No character of a name. -/
def endsName (o : Option Char) : Bool := o.all fun c => !isNameRest c

/-- What may stand before a name that is bound. -/
def isIntroducer (c : Char) : Bool := isBlank c || c = '(' || c = ',' || c = '*' || c = '.'

/-- A name that is bound stands at its column, at the start of the line or behind an introducer. -/
def Binding.InLine (line : List Char) (b : Binding) : Prop :=
  FramedAt (·.all isIntroducer) endsName line b.column b.name ∧ IsRun isNameRest b.name

theorem isIntroducer_of_isBlank {c : Char} (h : isBlank c = true) : isIntroducer c = true := by
  simp [isIntroducer, h]

theorem inLine_of_assignment? {line : List Char} {b : Binding} (h : assignment? line = some b) :
    b.InLine line := by
  rw [assignment?] at h
  split at h
  · cases h
  · rename_i name r hname
    split at h
    · cases h
    · obtain ⟨value, -, rfl⟩ := Option.map_eq_some_iff.1 h
      obtain ⟨heq, hrun, hends⟩ := takeName?_eq_some hname
      have hframed := (endsBehind_trimStart line).framedAt heq hends
      exact ⟨hframed.mono (all_imp fun _ => isIntroducer_of_isBlank) fun _ => id, hrun⟩
    · cases h

/-! ### Parameters -/

theorem joinWith_splitParametersFrom (depth : Int) (part s : List Char) :
    splitParametersFrom depth part s ≠ [] ∧
      joinWith ',' (splitParametersFrom depth part s) = part.reverse ++ s := by
  induction s generalizing depth part with
  | nil => simp [splitParametersFrom, joinWith]
  | cons c s ih =>
    obtain ⟨next, heq⟩ : ∃ next : Int, splitParametersFrom depth part (c :: s) =
        if c = ',' && next = 0 then part.reverse :: splitParametersFrom next [] s
        else splitParametersFrom next (c :: part) s := ⟨_, rfl⟩
    rw [heq]
    split
    · rename_i hc
      obtain ⟨hne, hjoin⟩ := ih next []
      refine ⟨List.cons_ne_nil _ _, ?_⟩
      obtain ⟨first, rest, hcons⟩ := List.exists_cons_of_ne_nil hne
      rw [hcons] at hjoin ⊢
      simp only [Bool.and_eq_true, decide_eq_true_eq] at hc
      rw [joinWith, hjoin, hc.1]
      · rfl
      · simp
    · obtain ⟨hne, hjoin⟩ := ih next (c :: part)
      exact ⟨hne, by simpa using hjoin⟩

theorem joinWith_splitParameters (s : List Char) : joinWith ',' (splitParameters s) = s :=
  (joinWith_splitParametersFrom 0 [] s).2

theorem eq_of_parametersUpTo? {seen s parameters : List Char}
    (h : parametersUpTo? seen s = some parameters) :
    ∃ rest, seen.reverse ++ s = parameters ++ ')' :: rest := by
  induction s generalizing seen with
  | nil => cases h
  | cons c s ih =>
    rw [parametersUpTo?] at h
    split at h
    · rename_i found hfound
      cases h
      obtain ⟨rest, hrest⟩ := ih hfound
      exact ⟨rest, by simpa using hrest⟩
    · split at h
      · rename_i hc
        cases h
        simp only [Bool.and_eq_true, decide_eq_true_eq] at hc
        exact ⟨s, by rw [hc.1]⟩
      · cases h

/-- What stands before a parameter or a list of them, and what stands behind. -/
def opensParameter (o : Option Char) : Bool := o.any fun c => c = '(' || c = ','

def closesParameter (o : Option Char) : Bool := o.any fun c => c = ',' || c = ')'

theorem framedAt_of_signature {before : Option Char} {s : List Char} {g : Signature} {length : Nat}
    (h : signature before s = some (g, length)) :
    FramedAt opensParameter closesParameter s g.lead g.parameters := by
  simp only [signature] at h
  split at h
  · cases h
  · rename_i r hopened
    obtain ⟨parameters, hparameters, heq⟩ := Option.map_eq_some_iff.1 h
    cases heq
    obtain ⟨⟨name, afterName⟩, hname, hparen⟩ := Option.bind_eq_some_iff.1 hopened
    obtain ⟨afterBlanks, hblanks, htake⟩ := Option.bind_eq_some_iff.1 hname
    obtain ⟨afterDef, hdef, hdrop⟩ := Option.bind_eq_some_iff.1 hblanks
    have hsuffix : trimStart afterName <:+ s :=
      ((trimStart_suffix _).trans (suffix_of_takeName? htake)).trans
        ((suffix_of_dropBlanks? hdrop).trans (suffix_of_dropLiteral hdef))
    obtain ⟨rest, hrest⟩ := eq_of_parametersUpTo? hparameters
    have hbehind := (endsBehind_of_dropLiteral hparen).of_suffix hsuffix rfl
    have hframed : FramedAt _ closesParameter s _ parameters := hbehind.framedAt hrest rfl
    refine hframed.mono (fun o ho => ?_) fun _ => id
    rw [of_decide_eq_true ho]
    rfl

theorem eq_of_parameterName? {part name : List Char} (h : parameterName? part = some name) :
    ∃ lead last, part = lead ++ (name ++ last) ∧ (∀ c ∈ lead, isBlank c = true ∨ c = '*') ∧
      IsRun isNameRest name ∧ endsName last.head? = true := by
  simp only [parameterName?] at h
  obtain ⟨⟨found, r⟩, hname, rfl⟩ := Option.map_eq_some_iff.1 h
  obtain ⟨stars, starless, htrim, hstars, hread⟩ : ∃ stars starless, trim part = stars ++ starless ∧
      (∀ c ∈ stars, c = '*') ∧ takeName? (trimStart starless) = some (found, r) := by
    split at hname
    · rename_i starless heq
      exact ⟨['*', '*'], starless, heq, by simp, hname⟩
    · rename_i starless _ heq
      exact ⟨['*'], starless, heq, by simp, hname⟩
    · exact ⟨[], _, rfl, by simp, hname⟩
  obtain ⟨heq, hrun, hends⟩ := takeName?_eq_some hread
  obtain ⟨first, hfirst, hfirstBlank⟩ := eq_append_trimStart part
  obtain ⟨last, hlast, hlastBlank⟩ := eq_trimEnd_append (trimStart part)
  obtain ⟨inner, hinner, hinnerBlank⟩ := eq_append_trimStart starless
  refine ⟨first ++ stars ++ inner, r ++ last, ?_, fun c hc => ?_, hrun, ?_⟩
  · have htrimmed : trimEnd (trimStart part) = stars ++ (inner ++ (found ++ r)) := by
      rw [← heq, ← hinner]
      exact htrim
    rw [hfirst, hlast, htrimmed]
    simp
  · rcases List.mem_append.1 hc with hc | hc
    · rcases List.mem_append.1 hc with hc | hc
      · exact Or.inl (hfirstBlank c hc)
      · exact Or.inr (hstars c hc)
    · exact Or.inl (hinnerBlank c hc)
  · refine test_head?_append hends fun _ => ?_
    cases hc : last.head? with
    | none => rfl
    | some c =>
      have hblank := isNameRest_eq_false_of_isBlank (hlastBlank c (List.mem_of_head? hc))
      simp [endsName, hblank]

theorem framedAt_of_joinWith {line part : List Char} {offset : Nat} {parts : List (List Char)}
    (h : FramedAt opensParameter closesParameter line offset (joinWith ',' (part :: parts))) :
    FramedAt opensParameter closesParameter line offset part ∧
      (parts ≠ [] → FramedAt opensParameter closesParameter line (offset + part.length + 1)
        (joinWith ',' parts)) := by
  cases parts with
  | nil => exact ⟨h, fun hne => absurd rfl hne⟩
  | cons next parts =>
    obtain ⟨pre, rest, rfl, rfl, hpre, hrest⟩ := h
    rw [joinWith.eq_3 _ _ _ (by simp)]
    refine ⟨⟨pre, ',' :: joinWith ',' (next :: parts) ++ rest, by simp, rfl, hpre, rfl⟩, fun _ => ?_⟩
    refine ⟨pre ++ part ++ [','], rest, by simp, by simp [Nat.add_assoc], ?_, hrest⟩
    rw [List.getLast?_concat]
    rfl

theorem not_isNameRest_of_lead {c : Char} (h : isBlank c = true ∨ c = '*') :
    isNameRest c = false := by
  rcases h with h | rfl
  · exact isNameRest_eq_false_of_isBlank h
  · decide

theorem inLine_of_parameterName? {line part name : List Char} {offset : Nat}
    (hpart : FramedAt opensParameter closesParameter line offset part)
    (hname : parameterName? part = some name) (value : List Char) :
    Binding.InLine line ⟨name, value, (findFrom? name line offset).getD 0⟩ := by
  obtain ⟨lead, last, rfl, hlead, hrun, hends⟩ := eq_of_parameterName? hname
  obtain ⟨pre, rest, rfl, rfl, hpre, hrest⟩ := hpart
  have hfirst : ∀ c ∈ lead, name.head? ≠ some c := by
    intro c hc hhead
    have hinner := hrun.all c (List.mem_of_head? hhead)
    rw [not_isNameRest_of_lead (hlead c hc)] at hinner
    cases hinner
  have hline : pre ++ (lead ++ (name ++ last)) ++ rest = pre ++ (lead ++ (name ++ (last ++ rest))) := by
    simp
  rw [hline, findFrom?_append hrun.ne_nil hfirst]
  refine ⟨⟨pre ++ lead, last ++ rest, by simp, by simp, ?_, ?_⟩, hrun⟩
  · refine @test_getLast?_append (·.all isIntroducer) _ _ ?_ fun _ => ?_
    · cases hc : lead.getLast? with
      | none => rfl
      | some c =>
        rcases hlead c (List.mem_of_getLast? hc) with hblank | rfl
        · exact isIntroducer_of_isBlank hblank
        · rfl
    · refine all_of_any ?_ _ hpre
      simp only [isIntroducer, Bool.or_eq_true, decide_eq_true_eq]
      tauto
  · refine @test_head?_append endsName _ _ hends fun _ => all_of_any ?_ _ hrest
    simp only [Bool.or_eq_true, decide_eq_true_eq]
    rintro c (rfl | rfl) <;> decide

theorem inLine_of_mem_parameterBindings {line : List Char} {offset : Nat}
    {parts : List (List Char)} {b : Binding}
    (hparts : FramedAt opensParameter closesParameter line offset (joinWith ',' parts))
    (h : b ∈ parameterBindings line offset parts) : b.InLine line := by
  induction parts generalizing offset with
  | nil => cases h
  | cons part parts ih =>
    obtain ⟨hpart, hrest⟩ := framedAt_of_joinWith hparts
    have hlater : b ∈ parameterBindings line (offset + part.length + 1) parts → b.InLine line := by
      intro hb
      refine ih (hrest ?_) hb
      rintro rfl
      cases hb
    simp only [parameterBindings] at h
    split at h
    · exact hlater h
    · rename_i name hname
      split at h
      · exact hlater h
      · rcases List.mem_cons.1 h with rfl | hb
        · exact inLine_of_parameterName? hpart hname _
        · exact hlater hb

theorem inLine_of_mem_parametersOf {line : List Char} {b : Binding} (h : b ∈ parametersOf line) :
    b.InLine line := by
  rw [parametersOf] at h
  split at h
  · cases h
  · rename_i found hfound
    obtain ⟨pre, rest, length, rfl, hoffset, heq⟩ := Search.of_first? hfound
    have hparameters := (framedAt_of_signature heq).of_suffix (List.suffix_append pre rest) rfl
    refine inLine_of_mem_parameterBindings ?_ h
    rw [joinWith_splitParameters, hoffset]
    simpa using hparameters

/-! ### Names that something introduces -/

/-- The name that a recogniser finds stands behind an introducer, so far behind the place as it
says. -/
def Leads (m : Recogniser Introduced) : Prop :=
  ∀ before s i length, m before s = some (i, length) →
    FramedAt (·.any isIntroducer) endsName s i.lead i.name ∧ IsRun isNameRest i.name

theorem leads_selfAttribute : Leads selfAttribute := by
  intro before s i length h
  simp only [selfAttribute] at h
  split at h
  · cases h
  · rename_i name r hname
    split at h
    · obtain ⟨value, -, heq⟩ := Option.map_eq_some_iff.1 h
      cases heq
      obtain ⟨afterDot, hself, htake⟩ := Option.bind_eq_some_iff.1 hname
      obtain ⟨heq, hrun, hends⟩ := takeName?_eq_some htake
      have hs := eq_append_of_dropLiteral hself
      exact ⟨⟨"self.".toList, r, by rw [hs, heq, List.append_assoc], rfl, rfl, hends⟩, hrun⟩
    · cases h

theorem framedAt_of_dropBlanks? {literal s afterLiteral r name tail : List Char}
    (hliteral : dropLiteral literal s = some afterLiteral)
    (hblanks : dropBlanks? afterLiteral = some r) (hname : takeName? r = some (name, tail)) :
    FramedAt (·.any isIntroducer) endsName s (s.length - r.length) name ∧ IsRun isNameRest name := by
  obtain ⟨heq, hrun, hends⟩ := takeName?_eq_some hname
  have hbehind := (endsBehind_of_dropBlanks? hblanks).of_suffix (suffix_of_dropLiteral hliteral) rfl
  exact ⟨(hbehind.framedAt heq hends).mono (any_imp fun _ => isIntroducer_of_isBlank) fun _ => id, hrun⟩

theorem leads_loopHead : Leads loopHead := by
  intro before s i length h
  simp only [loopHead] at h
  split at h
  · cases h
  · rename_i name lead after hnamed
    split at h
    · cases h
    · split at h
      · cases h
        obtain ⟨r, hblanks, hmap⟩ := Option.bind_eq_some_iff.1 hnamed
        obtain ⟨⟨found, tail⟩, htake, heq⟩ := Option.map_eq_some_iff.1 hmap
        cases heq
        obtain ⟨afterFor, hfor, hdrop⟩ := Option.bind_eq_some_iff.1 hblanks
        exact framedAt_of_dropBlanks? hfor hdrop htake
      · cases h

theorem leads_keywordName (keyword value : String) : Leads (keywordName keyword value) := by
  intro before s i length h
  simp only [keywordName] at h
  split at h
  · cases h
  · split at h
    · cases h
    · rename_i r hblanks
      obtain ⟨⟨name, tail⟩, htake, heq⟩ := Option.map_eq_some_iff.1 h
      cases heq
      obtain ⟨afterKeyword, hkeyword, hdrop⟩ := Option.bind_eq_some_iff.1 hblanks
      exact framedAt_of_dropBlanks? hkeyword hdrop htake

theorem inLine_of_mem_bindingsOf {m : Recogniser Introduced} (hm : Leads m) {line : List Char}
    {b : Binding} (h : b ∈ bindingsOf m line) : b.InLine line := by
  obtain ⟨found, hfound, rfl⟩ := List.mem_map.1 h
  obtain ⟨_, _, _, _, _, heq⟩ := Search.mem_all hfound
  have hframed := Search.framedAt_of_mem_all hfound (fun _ => rfl) fun _ _ _ _ h => (hm _ _ _ _ h).1
  exact ⟨hframed.mono (all_of_any fun _ => id) fun _ => id, (hm _ _ _ _ heq).2⟩

/-- Every name that a line binds stands at its column. -/
theorem inLine_of_mem_lineBindings {line : List Char} {b : Binding} (h : b ∈ lineBindings line) :
    b.InLine line := by
  simp only [lineBindings, List.mem_append, Option.mem_toList] at h
  rcases h with ((((h | h) | h) | h) | h) | h
  · exact inLine_of_assignment? h
  · exact inLine_of_mem_parametersOf h
  · exact inLine_of_mem_bindingsOf leads_selfAttribute h
  · exact inLine_of_mem_bindingsOf leads_loopHead h
  · exact inLine_of_mem_bindingsOf (leads_keywordName "global" "global") h
  · exact inLine_of_mem_bindingsOf (leads_keywordName "nonlocal" "nonlocal") h

end Python

/-! ## YAML -/

namespace Yaml

/-- A colon, or a blank before it. -/
def endsKey (o : Option Char) : Bool := o.any fun c => isBlank c || c = ':'

theorem endsKey_of_trimStart {s r : List Char} (h : trimStart s = ':' :: r) :
    endsKey s.head? = true := by
  cases s with
  | nil => cases h
  | cons c s =>
    rw [trimStart, List.dropWhile_cons] at h
    split at h
    · rename_i hc
      simp [endsKey, hc]
    · obtain rfl := List.head_eq_of_cons_eq h
      rfl

theorem framedAt_of_entryOfLine? {line : List Char} {e : Entry} (h : entryOfLine? line = some e) :
    FramedAt (·.all isBlank) endsKey line e.indent e.key ∧ IsRun isKeyRest e.key := by
  let stripped := (line.reverse.dropWhile (· = '\r')).reverse
  have hpre : stripped <+: line := by
    have := List.dropWhile_suffix (· = '\r') (l := line.reverse)
    simpa [stripped] using List.reverse_prefix.2 this
  have hkey : ∀ c r rest, trimStart stripped = c :: r → isNameStart c = true →
      trimStart (r.dropWhile isKeyRest) = ':' :: rest →
      FramedAt (·.all isBlank) endsKey line (stripped.length - (trimStart stripped).length)
          (c :: r.takeWhile isKeyRest) ∧ IsRun isKeyRest (c :: r.takeWhile isKeyRest) := by
    intro c r rest heq hc hrest
    have hc : isKeyRest c = true := by
      simp [isKeyRest, isNameRest_of_isNameStart hc]
    have hbody : trimStart stripped = (c :: r.takeWhile isKeyRest) ++ r.dropWhile isKeyRest := by
      rw [heq, List.cons_append, List.takeWhile_append_dropWhile]
    have hframed := (endsBehind_trimStart stripped).framedAt hbody (endsKey_of_trimStart hrest)
    exact ⟨hframed.of_isPrefix hpre rfl, isRun_takeWhile hc r⟩
  simp only [entryOfLine?] at h
  split at h
  · cases h
  · rename_i c r heq
    split at h
    · rename_i hc
      split at h
      · rename_i hcolon
        cases h
        exact hkey c r [] heq hc hcolon
      · rename_i b value hcolon
        split at h
        · cases h
          exact hkey c r (b :: value) heq hc hcolon
        · cases h
      · cases h
    · cases h

end Yaml

/-! ## Vue -/

namespace Vue

def isOpener (c : Char) : Bool := isBlank c || c = '"' || c = '\x7b'

/-- What stands before a name in a template, and is not part of it, and what stands behind. -/
def opensMention (name : List Char) (o : Option Char) : Bool :=
  o.any fun c => isOpener c && !name.contains c

def closesMention (o : Option Char) : Bool := o.any fun c => isBlank c || c = '"' || c = '\x7d'

theorem takePath?_eq_some {s name r : List Char} (h : takePath? s = some (name, r)) :
    s = name ++ r ∧ IsRun isPathRest name := by
  cases s with
  | nil => cases h
  | cons c s =>
    rw [takePath?] at h
    split at h
    · rename_i hc
      cases h
      have hc : isPathRest c = true := by simp [isPathRest, isNameRest_of_isNameStart hc]
      exact ⟨by simp, isRun_takeWhile hc s⟩
    · cases h

theorem opensMention_of_isRun {name : List Char} (h : IsRun isPathRest name) {o : Option Char}
    (ho : o.any isOpener = true) : opensMention name o = true := by
  refine any_imp (fun c hc => ?_) o ho
  have hinner : isPathRest c = false := by
    simp only [isOpener, Bool.or_eq_true, decide_eq_true_eq] at hc
    rcases hc with (hc | rfl) | rfl
    · have hdot : c ≠ '.' := by
        rintro rfl
        exact absurd hc (by decide)
      simp [isPathRest, isNameRest_eq_false_of_isBlank hc, hdot]
    · decide
    · decide
  have hmem : c ∉ name := by
    intro hmem
    rw [h.all c hmem] at hinner
    cases hinner
  simp only [Bool.and_eq_true, hc, true_and]
  simpa using hmem

/-- The name that a recogniser finds stands so far behind the place as it says, set apart on both
sides. -/
def Leads (m : Recogniser Mention) : Prop :=
  ∀ before s i length, m before s = some (i, length) →
    FramedAt (opensMention i.name) closesMention s i.lead i.name ∧ i.name ≠ []

theorem closesMention_of_dropBlanks? {s r : List Char} (h : dropBlanks? s = some r) :
    closesMention s.head? = true := by
  cases s with
  | nil => cases h
  | cons c s =>
    rw [dropBlanks?] at h
    split at h
    · rename_i hc
      simp [closesMention, hc]
    · cases h

theorem closesMention_of_dropLiteral {first : Char} {literal s r : List Char}
    (hfirst : closesMention (some first) = true)
    (h : dropLiteral (first :: literal) (trimStart s) = some r) : closesMention s.head? = true := by
  cases s with
  | nil => cases h
  | cons c s =>
    rw [trimStart, List.dropWhile_cons] at h
    split at h
    · rename_i hc
      simp [closesMention, hc]
    · rw [dropLiteral] at h
      split at h
      · rename_i hc
        exact hc ▸ hfirst
      · cases h

theorem leads_loopDirective : Leads loopDirective := by
  intro before s i length h
  simp only [loopDirective] at h
  split at h
  · cases h
  · rename_i name after hname
    split at h
    · cases h
    · rename_i source hsource
      split at h
      · split at h
        · cases h
          obtain ⟨r, hquote, htake⟩ := Option.bind_eq_some_iff.1 hname
          obtain ⟨inside, hblanks, -⟩ := Option.bind_eq_some_iff.1 hsource
          obtain ⟨heq, hrun, -⟩ := takeName?_eq_some htake
          have hpath : IsRun isPathRest name :=
            ⟨hrun.ne_nil, fun c hc => by simp [isPathRest, hrun.all c hc]⟩
          have hs := eq_append_of_dropLiteral hquote
          refine ⟨⟨"v-for=\"".toList, after, by rw [hs, heq, List.append_assoc], rfl, ?_,
            closesMention_of_dropBlanks? hblanks⟩, hrun.ne_nil⟩
          exact opensMention_of_isRun hpath rfl
        · cases h
      · cases h

theorem leads_modelDirective : Leads modelDirective := by
  intro before s i length h
  simp only [modelDirective] at h
  split at h
  · cases h
  · rename_i r hquote
    split at h
    · rename_i c name d rest hname hrest
      cases h
      have hs := eq_append_of_dropLiteral hquote
      have hr : r = (c :: name) ++ d :: rest := by
        rw [← hname, ← hrest, List.takeWhile_append_dropWhile]
      have hd : d = '"' := by
        have := head?_dropWhile (· ≠ '"') r
        rw [hrest] at this
        simpa using this
      have hquoteFree : '"' ∉ c :: name := by
        intro hmem
        rw [← hname] at hmem
        exact absurd (List.mem_takeWhile_imp hmem) (by simp)
      refine ⟨⟨"v-model=\"".toList, d :: rest, by rw [hs, hr, List.append_assoc], rfl, ?_, ?_⟩,
        List.cons_ne_nil _ _⟩
      · have hlast : "v-model=\"".toList.getLast? = some '"' := rfl
        rw [hlast]
        simpa [opensMention, isOpener] using hquoteFree
      · simp [closesMention, hd]
    · cases h

theorem framedAt_of_takePath? {literal close s t r name after rest : List Char} {first : Char}
    (ht : t <:+ s) (hopen : dropLiteral literal t = some r)
    (hliteral : literal.getLast?.any isOpener = true)
    (hname : takePath? (trimStart r) = some (name, after))
    (hfirst : closesMention (some first) = true)
    (hclose : dropLiteral (first :: close) (trimStart after) = some rest) :
    FramedAt (opensMention name) closesMention s (s.length - (trimStart r).length) name ∧
      name ≠ [] := by
  obtain ⟨heq, hrun⟩ := takePath?_eq_some hname
  have hbehind : EndsBehind (·.any isOpener) t r := by
    refine (endsBehind_of_dropLiteral hopen).mono fun o ho => ?_
    rw [of_decide_eq_true ho]
    exact hliteral
  have hinner := (hbehind.of_suffix ht rfl).trimStart fun c hc => by simp [isOpener, hc]
  refine ⟨?_, hrun.ne_nil⟩
  exact (hinner.mono fun _ => opensMention_of_isRun hrun).framedAt heq
    (closesMention_of_dropLiteral hfirst hclose)

theorem leads_interpolation : Leads interpolation := by
  intro before s i length h
  simp only [interpolation] at h
  split at h
  · cases h
  · rename_i r hopen
    split at h
    · cases h
    · rename_i name after hname
      obtain ⟨rest, hclose, heq⟩ := Option.map_eq_some_iff.1 h
      cases heq
      exact framedAt_of_takePath? List.suffix_rfl hopen rfl hname rfl hclose

theorem leads_boundAttribute : Leads boundAttribute := by
  intro before s i length h
  simp only [boundAttribute] at h
  split at h
  · rename_i body
    split at h
    · cases h
    · split at h
      · cases h
      · rename_i r hopen
        split at h
        · cases h
        · rename_i name after hname
          obtain ⟨rest, hclose, heq⟩ := Option.map_eq_some_iff.1 h
          cases heq
          have hsuffix := (List.dropWhile_suffix (fun c => isWord c || c = '-')).trans
            (List.suffix_cons ':' body)
          exact framedAt_of_takePath? hsuffix hopen rfl hname rfl hclose
  · cases h

theorem leads_of_mem_mentions {m : Recogniser Mention} (h : m ∈ mentions) : Leads m := by
  simp only [mentions, List.mem_cons, List.not_mem_nil, or_false] at h
  rcases h with rfl | rfl | rfl | rfl
  · exact leads_loopDirective
  · exact leads_modelDirective
  · exact leads_interpolation
  · exact leads_boundAttribute

/-- Every name that a line of a template mentions stands at its column. -/
theorem framedAt_of_mentions {m : Recogniser Mention} (hm : m ∈ mentions) {line : List Char}
    {found : Found Mention} (h : found ∈ Search.all m line) :
    FramedAt (opensMention found.value.name) closesMention line
        (found.offset + found.value.lead) found.value.name ∧ found.value.name ≠ [] := by
  have hleads := leads_of_mem_mentions hm
  obtain ⟨_, _, _, _, _, heq⟩ := Search.mem_all h
  exact ⟨Search.framedAt_of_mem_all h (fun _ => rfl) fun _ _ _ _ h => (hleads _ _ _ _ h).1,
    (hleads _ _ _ _ heq).2⟩

end Vue
end DeclScan
