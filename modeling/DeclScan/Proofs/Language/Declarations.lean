import DeclScan.Proofs.Language.Positions
import DeclScan.Usage

/-!
# DeclScan.Proofs.Language.Declarations

Whether a declaration is among the references of its own name. Declared names are ASCII, and a name
goes on up to the first character that is not part of one. References are delimited by the word
characters of all scripts. Where such a character comes behind a declared name, the declaration is
none of the references of the name, and this is the only case.

* `Variable.ContinuedBy`: a word character comes behind the name.
* `Variable.Stands.referenced_iff`: a variable with a reference at its place.
* `Extractor.declarations_referenced`: for every language, which declarations have one; a name that is
  not counted at all is continued.
* `Accented.declaration_unreferenced`: a declaration without one.
-/

namespace DeclScan

open Text Occurrence

/-! ## Variables in a text -/

/-- Where the variable stands, the word character `c` comes directly behind its name. -/
def Variable.ContinuedBy (w : WordClass) (content : List Char) (v : Variable) (c : Char) : Prop :=
  w.mem c = true ∧ Framed (fun _ => true) (· = some c) content v.line v.character v.name.toList

namespace Variable

variable {w : WordClass} {content : List Char} {v : Variable} {c : Char}
  {before behind : Option Char → Bool} {inner : Char → Bool}

theorem Stands.framed_or_continued (h : v.Stands before behind inner content) (w : WordClass) :
    Framed before (isBoundary w) content v.line v.character v.name.toList ∨
      ∃ c, v.ContinuedBy w content c := by
  obtain ⟨pre, rest, hcontent, hline, hcharacter, hpre, -⟩ := h.framed
  cases hrest : rest.head? with
  | none => exact Or.inl ⟨pre, rest, hcontent, hline, hcharacter, hpre, by simp [hrest, isBoundary]⟩
  | some c =>
    cases hc : w.mem c with
    | false =>
      exact Or.inl ⟨pre, rest, hcontent, hline, hcharacter, hpre, by simp [hrest, isBoundary, hc]⟩
    | true =>
      exact Or.inr ⟨c, hc, pre, rest, hcontent, hline, hcharacter, rfl, by simpa using hrest⟩

theorem ContinuedBy.of_framed (h : v.ContinuedBy w content c)
    (hframed : Framed before behind content v.line v.character v.name.toList) :
    behind (some c) = true := by
  obtain ⟨-, pre, rest, hcontent, hline, hcharacter, -, hrest⟩ := h
  rw [List.append_assoc] at hcontent
  obtain ⟨last, hsame, -, hlast⟩ := hframed.split hcontent hline hcharacter
  rw [← List.append_cancel_left hsame, of_decide_eq_true hrest] at hlast
  exact hlast

theorem ContinuedBy.not_framed (h : v.ContinuedBy w content c) :
    ¬ Framed before (isBoundary w) content v.line v.character v.name.toList := by
  intro hframed
  have := h.of_framed hframed
  simp [isBoundary, h.1] at this

/-- A variable behind a delimiter that is not part of its name has a reference, unless its name is
continued. -/
theorem Stands.referenced_iff (h : v.Stands before behind inner content)
    (hbefore : ∀ o, before o = true → isBoundary w o = true)
    (hapart : ∀ c ∈ v.name.toList, before (some c) = false) :
    (∃ r ∈ Occurrence.references content v.name.toList w 0,
      r.line = v.line ∧ r.character = v.character) ↔ ∀ c, ¬ v.ContinuedBy w content c := by
  constructor
  · rintro ⟨r, hr, hline, hcharacter⟩ c hc
    have hframed := (framed_of_mem_references hr).2
    rw [hline, hcharacter] at hframed
    exact hc.not_framed hframed
  · intro hnone
    rcases h.framed_or_continued w with hframed | ⟨c, hc⟩
    · exact exists_reference h.run.ne_nil hframed hbefore hapart
    · exact absurd hc (hnone c)

theorem Stands.counted (h : v.Stands before behind inner content)
    (hbefore : ∀ o, before o = true → isBoundary w o = true) :
    0 < count content v.name.toList w ∨ ∃ c, v.ContinuedBy w content c :=
  (h.framed_or_continued w).imp_left fun hframed => count_pos hframed hbefore

end Variable

/-! ## Variables of a language -/

/-- A reference to the name of the variable is at the place of the variable. -/
def Extractor.Refers (e : Extractor) (content : List Char) (v : Variable) : Prop :=
  ∃ r ∈ e.references content v.name.toList, r.line = v.line ∧ r.character = v.character

instance (e : Extractor) (content : List Char) (v : Variable) : Decidable (e.Refers content v) :=
  inferInstanceAs (Decidable (∃ r ∈ e.references content v.name.toList, _))

/-- What is true of every declaration that an extractor finds: it is a reference unless its name is
continued; so its name is counted, or continued; and it is continued by characters beyond ASCII only,
and never if it is a key or a name in a template. -/
structure Extractor.Accounts (e : Extractor) (content : List Char) (v : Variable) : Prop where
  refers_iff : e.Refers content v ↔ ∀ c, ¬ v.ContinuedBy e.wordClass content c
  counted : 0 < count content v.name.toList e.wordClass ∨ ∃ c, v.ContinuedBy e.wordClass content c
  beyond : ∀ c, v.ContinuedBy e.wordClass content c →
    128 ≤ c.toNat ∧ e.language ≠ "yaml" ∧ v.scope ≠ "template"

open Extractor

theorem isBoundary_of_any_isBlank {w : WordClass} [w.IsUsual] {o : Option Char}
    (h : o.any isBlank = true) : isBoundary w o = true := by
  cases o with
  | none => rfl
  | some c => simp [isBoundary, w.mem_eq_false_of_isBlank h]

namespace JavaScript

theorem mem_of_isIdentRest {c : Char} (h : isIdentRest c = true) : WordClass.dollar.mem c = true := by
  simp only [isIdentRest, Bool.or_eq_true] at h
  rcases h with h | h
  · exact WordClass.dollar.mem_of_isNameRest h
  · simp [WordClass.dollar, h]

theorem isBlank_eq_false_of_isIdentRest {c : Char} (h : isIdentRest c = true) :
    isBlank c = false := by
  refine Bool.eq_false_iff.2 fun hblank => ?_
  have hmem := mem_of_isIdentRest h
  rw [WordClass.dollar.mem_eq_false_of_isBlank hblank] at hmem
  cases hmem

theorem le_toNat_of_endsIdent {c : Char} (h : endsIdent (some c) = true)
    (hmem : WordClass.dollar.mem c = true) : 128 ≤ c.toNat := by
  simp only [endsIdent, Option.all_some, isIdentRest, Bool.not_eq_true', Bool.or_eq_false_iff] at h
  have hword : isWord c = true := by simpa only [WordClass.dollar, h.2, Bool.or_false] using hmem
  exact WordClass.le_toNat_of_mem_plain hword h.1

theorem apart {content : List Char} {v : Variable} {before behind : Option Char → Bool}
    (h : v.Stands before behind isIdentRest content) :
    ∀ c ∈ v.name.toList, (some c).any isBlank = false :=
  fun c hc => isBlank_eq_false_of_isIdentRest (h.run.all c hc)

theorem accounts_of_mem_extract {content : List Char} {filePath : String} {v : Variable}
    (h : v ∈ JavaScript.extract content filePath) : javaScript.Accounts content v := by
  have hstands := stands_of_mem_extract h
  refine ⟨hstands.referenced_iff (fun _ => isBoundary_of_any_isBlank (w := .dollar)) (apart hstands),
    hstands.counted fun _ => isBoundary_of_any_isBlank (w := .dollar),
    fun c hc => ⟨?_, by decide, ?_⟩⟩
  · exact le_toNat_of_endsIdent (hc.of_framed hstands.framed) hc.1
  · obtain ⟨s, -, rfl⟩ := List.mem_map.1 h
    simp

end JavaScript

namespace Python

theorem isBoundary_of_isIntroducer {o : Option Char} (h : o.all isIntroducer = true) :
    isBoundary .plain o = true := by
  cases o with
  | none => rfl
  | some c =>
    simp only [Option.all_some, isIntroducer, Bool.or_eq_true, decide_eq_true_eq] at h
    rcases h with (((h | rfl) | rfl) | rfl) | rfl
    · simp [isBoundary, WordClass.plain.mem_eq_false_of_isBlank h]
    all_goals decide

theorem isIntroducer_eq_false_of_isNameRest {c : Char} (h : isNameRest c = true) :
    isIntroducer c = false := by
  refine Bool.eq_false_iff.2 fun hc => ?_
  have hboundary := isBoundary_of_isIntroducer (o := some c) hc
  simp [isBoundary, WordClass.plain.mem_of_isNameRest h] at hboundary

theorem accounts_of_mem_extract {content : List Char} {filePath : String} {v : Variable}
    (h : v ∈ Python.extract content filePath) : python.Accounts content v := by
  have hstands := stands_of_mem_extract h
  refine ⟨hstands.referenced_iff (fun _ => isBoundary_of_isIntroducer) fun c hc => ?_,
    hstands.counted fun _ => isBoundary_of_isIntroducer, fun c hc => ⟨?_, by decide, ?_⟩⟩
  · exact isIntroducer_eq_false_of_isNameRest (hstands.run.all c hc)
  · have hends : endsName (some c) = true := hc.of_framed hstands.framed
    exact WordClass.le_toNat_of_mem_plain hc.1 (by simpa [endsName] using hends)
  · obtain ⟨i, line, -, hv⟩ := mem_of_line_by_line (variablesFrom filePath)
      (fun _ => rfl) (fun _ _ _ => rfl) h
    obtain ⟨b, -, rfl⟩ := List.mem_map.1 hv
    simp [Binding.toVariable]

end Python

namespace Yaml

theorem isBoundary_of_all_isBlank {o : Option Char} (h : o.all isBlank = true) :
    isBoundary .plain o = true := by
  cases o with
  | none => rfl
  | some c => exact isBoundary_of_any_isBlank h

theorem mem_eq_false_of_endsKey {c : Char} (h : endsKey (some c) = true) :
    WordClass.plain.mem c = false := by
  simp only [endsKey, Option.any_some, Bool.or_eq_true, decide_eq_true_eq] at h
  rcases h with h | rfl
  · exact WordClass.plain.mem_eq_false_of_isBlank h
  · decide

theorem isBlank_eq_false_of_isKeyRest {c : Char} (h : isKeyRest c = true) : isBlank c = false := by
  simp only [isKeyRest, Bool.or_eq_true, decide_eq_true_eq] at h
  rcases h with h | rfl
  · exact isBlank_eq_false_of_isNameRest h
  · decide

theorem accounts_of_mem_extract {content : List Char} {filePath : String} {v : Variable}
    (h : v ∈ Yaml.extract content filePath) : yaml.Accounts content v := by
  have hstands := stands_of_mem_extract h
  refine ⟨hstands.referenced_iff (fun _ => isBoundary_of_all_isBlank) fun c hc => ?_,
    hstands.counted fun _ => isBoundary_of_all_isBlank, fun c hc => ?_⟩
  · exact isBlank_eq_false_of_isKeyRest (hstands.run.all c hc)
  · have hmem := mem_eq_false_of_endsKey (hc.of_framed hstands.framed)
    exact absurd hc.1 (by simp [yaml, hmem])

end Yaml

/-! ## Components -/

namespace Vue

section

variable {content : List Char} {b : Block} {u : Variable} {before behind : Option Char → Bool}
  {inner : Char → Bool}

theorem continuedBy_variableToFile (hb : HasBlock content b) {c : Char}
    (h : u.ContinuedBy .dollar b.text c) : (b.variableToFile u).ContinuedBy .dollar content c :=
  ⟨h.1, framed_toFile hb h.2 (fun _ => rfl) fun hnone => by cases hnone⟩

theorem refers_iff (hb : HasBlock content b) (h : u.Stands before behind inner b.text)
    (hbefore : ∀ o, before o = true → isBoundary .dollar o = true)
    (hapart : ∀ c ∈ u.name.toList, before (some c) = false) :
    vue.Refers content (b.variableToFile u) ↔
      ∀ c, ¬ (b.variableToFile u).ContinuedBy .dollar content c := by
  constructor
  · rintro ⟨r, hr, hline, hcharacter⟩ c hc
    have hframed := (framed_of_mem_references hr).2
    rw [hline, hcharacter] at hframed
    exact hc.not_framed hframed
  · intro hnone
    have hblock : ∀ c, ¬ u.ContinuedBy .dollar b.text c := fun c hc =>
      hnone c (continuedBy_variableToFile hb hc)
    obtain ⟨s, hs, hline, hcharacter⟩ := (h.referenced_iff hbefore hapart).2 hblock
    refine ⟨b.referenceToFile s, mem_references.2 ⟨b, s, hb, hs, rfl⟩, ?_, ?_⟩ <;>
      simp only [Block.referenceToFile, Block.variableToFile, hline, hcharacter]

theorem isBoundary_of_opensMention {name : List Char} {o : Option Char}
    (h : opensMention name o = true) : isBoundary .dollar o = true := by
  cases o with
  | none => cases h
  | some c =>
    simp only [opensMention, Option.any_some, Bool.and_eq_true, isOpener, Bool.or_eq_true,
      decide_eq_true_eq] at h
    rcases h.1 with (hc | rfl) | rfl
    · exact isBoundary_of_any_isBlank hc
    all_goals decide

theorem mem_eq_false_of_closesMention {c : Char} (h : closesMention (some c) = true) :
    WordClass.dollar.mem c = false := by
  simp only [closesMention, Option.any_some, Bool.or_eq_true, decide_eq_true_eq] at h
  rcases h with (h | rfl) | rfl
  · exact WordClass.dollar.mem_eq_false_of_isBlank h
  all_goals decide

end

theorem accounts_of_mem_extract {content : List Char} {filePath : String} {v : Variable}
    (h : v ∈ Vue.extract content filePath) : vue.Accounts content v := by
  rcases mem_extract h with ⟨b, u, hb, hu, rfl⟩ | ⟨b, u, hb, ⟨hu, -⟩, rfl⟩
  · have hstands := JavaScript.stands_of_mem_extract hu
    have hfile := stands_variableToFile (Or.inl hb) hstands (fun hnone => by cases hnone)
      fun _ => by decide
    refine ⟨refers_iff (Or.inl hb) hstands (fun _ => isBoundary_of_any_isBlank)
      (JavaScript.apart hstands), hfile.counted fun _ => isBoundary_of_any_isBlank (w := .dollar),
      fun c hc => ⟨?_, by decide, ?_⟩⟩
    · exact JavaScript.le_toNat_of_endsIdent (hc.of_framed hfile.framed) hc.1
    · obtain ⟨s, -, rfl⟩ := List.mem_map.1 hu
      simp [Block.variableToFile]
  · have hfile := stands_variableToFile (Or.inr hb) hu (fun hnone => by cases hnone)
      fun hnone => by cases hnone
    refine ⟨refers_iff (Or.inr hb) hu (fun _ => isBoundary_of_opensMention) fun c hc => ?_,
      hfile.counted fun _ => isBoundary_of_opensMention, fun c hc => ?_⟩
    · simp [opensMention, hc]
    · have hmem := mem_eq_false_of_closesMention (hc.of_framed hfile.framed)
      exact absurd hc.1 (by simp [vue, hmem])

end Vue

/-! ## Extractors -/

namespace Extractor

/-- A declaration is among the references of its name exactly if no word character comes directly
behind the name. If one does, it is beyond ASCII, and the declaration is no key and no name in a
template. So a name that the analysis of unused variables does not count is continued where it is
declared. -/
theorem declarations_referenced {e : Extractor} (he : e ∈ positional) (content : List Char)
    (filePath : String) :
    ∃ found, e.extract content filePath = .ok found ∧
      (∀ v ∈ found.vars,
        (e.Refers content v ↔ ∀ c, ¬ v.ContinuedBy e.wordClass content c) ∧
        ∀ c, v.ContinuedBy e.wordClass content c →
          128 ≤ c.toNat ∧ e.language ≠ "yaml" ∧ v.scope ≠ "template") ∧
      ∀ u ∈ Usage.unusedIn content found.vars e.wordClass, u.usageCount = 0 →
        ∃ c, u.declaration.ContinuedBy e.wordClass content c := by
  have htold : ∃ found, e.extract content filePath = .ok found ∧
      ∀ v ∈ found.vars, e.Accounts content v := by
    simp only [positional, List.mem_cons, List.not_mem_nil, or_false] at he
    rcases he with rfl | rfl | rfl | rfl
    · exact ⟨_, rfl, fun _ => JavaScript.accounts_of_mem_extract⟩
    · exact ⟨_, rfl, fun _ => Python.accounts_of_mem_extract⟩
    · exact ⟨_, rfl, fun _ => Vue.accounts_of_mem_extract⟩
    · exact ⟨_, rfl, fun _ => Yaml.accounts_of_mem_extract⟩
  obtain ⟨found, hfound, haccounts⟩ := htold
  refine ⟨found, hfound, fun v hv => ⟨(haccounts v hv).refers_iff, (haccounts v hv).beyond⟩,
    fun u hu hzero => ?_⟩
  obtain ⟨v, hv, hsome⟩ := List.mem_filterMap.1 hu
  split at hsome
  · cases hsome
  · simp only at hsome
    split at hsome
    · cases hsome
      refine (haccounts v hv).counted.resolve_left fun hpos => ?_
      simp only at hzero
      omega
    · cases hsome

end Extractor

/-! A script that declares a name with an accent. The accent is not part of what is declared. -/

namespace Accented

open Extractor

def script : List Char := "let a\u00E9 = 1\nlet b = 2".toList

def declared : List Variable := JavaScript.extract script "a.js"

/-- `a` is declared, but does not occur. -/
theorem declaration_unreferenced :
    declared.map (fun v => (v.name, v.line, v.character)) = [("a", 1, 4), ("b", 2, 4)] ∧
      (∃ v ∈ declared, v.name = "a" ∧ ¬ javaScript.Refers script v) ∧
      ∃ u ∈ Usage.unusedIn script declared javaScript.wordClass,
        u.declaration.name = "a" ∧ u.usageCount = 0 := by
  refine ⟨?_, ?_, ?_⟩ <;> decide +kernel

/-- The accent continues `a`, and nothing continues `b`. -/
theorem continued_by_accent :
    javaScript ∈ positional ∧
      (∃ u ∈ Usage.unusedIn script declared javaScript.wordClass, u.declaration.name = "a" ∧
        ∃ c, u.declaration.ContinuedBy javaScript.wordClass script c) ∧
      ∃ v ∈ declared, v.name = "b" ∧ javaScript.Refers script v ∧
        ∀ c, ¬ v.ContinuedBy javaScript.wordClass script c := by
  have he : javaScript ∈ positional := by simp [positional]
  obtain ⟨found, hfound, htold, hunused⟩ := declarations_referenced he script "a.js"
  have hdeclared : javaScript.extract script "a.js" = .ok ⟨declared, []⟩ := rfl
  obtain rfl := Except.ok.inj (hdeclared.symm.trans hfound)
  simp only at htold hunused
  have ha : ∃ u ∈ Usage.unusedIn script declared javaScript.wordClass,
      u.declaration.name = "a" ∧ u.usageCount = 0 := by decide +kernel
  have hb : ∃ v ∈ declared, v.name = "b" ∧ javaScript.Refers script v := by decide +kernel
  obtain ⟨u, hu, hname, hcount⟩ := ha
  obtain ⟨v, hv, hnamed, hrefers⟩ := hb
  exact ⟨he, ⟨u, hu, hname, hunused u hu hcount⟩, v, hv, hnamed, hrefers, (htold v hv).1.1 hrefers⟩

end Accented
end DeclScan
