import DeclScan.Proofs.Language.Declarations

/-!
# DeclScan.Proofs.Language.Renaming

Where the references of one declared name meet the declaration of another. This is what a renaming
would change by mistake. In JavaScript and Python all characters of a name are word characters, so
that a name stands delimited within another only if it is the same. A key may hold hyphens, which
delimit.

* `Reference.LandsIn`: a reference begins within a declared name.
* `IsPart`: a name stands delimited within another.
* `Variable.Stands.isPart_of_landsIn`: a reference lands in names that the name is part of.
* `Extractor.references_land`: for each language, which names references land in.
* `Hyphenated.reference_lands`: a reference within another key.
-/

namespace DeclScan

open Text Occurrence

/-- The reference begins within the declared name. -/
def Reference.LandsIn (r : Reference) (w : Variable) : Prop :=
  r.line = w.line ∧ w.character ≤ r.character ∧ r.character < w.character + w.name.length

instance (r : Reference) (w : Variable) : Decidable (r.LandsIn w) :=
  inferInstanceAs (Decidable (_ ∧ _ ∧ _))

/-- The name has this part, which stands delimited in it. -/
def IsPart (w : WordClass) (part name : List Char) : Prop :=
  ∃ left right, name = left ++ part ++ right ∧ isBoundary w left.getLast? = true ∧
    isBoundary w right.head? = true

section

variable {k : WordClass} {content name part : List Char} {w : Variable} {r : Reference}
  {before behind : Option Char → Bool} {inner : Char → Bool}

theorem isBoundary_getLast?_of_append {pre : List Char}
    (h : isBoundary k (pre ++ part).getLast? = true) : isBoundary k part.getLast? = true := by
  cases hlast : part.getLast? with
  | none => rfl
  | some c => simpa [List.getLast?_append, hlast] using h

theorem isBoundary_head?_of_append {rest : List Char}
    (h : isBoundary k (part ++ rest).head? = true) : isBoundary k part.head? = true := by
  cases hhead : part.head? with
  | none => rfl
  | some c => simpa [List.head?_append, hhead] using h

theorem IsPart.eq (h : IsPart k part name) (hname : ∀ c ∈ name, k.mem c = true) : part = name := by
  obtain ⟨left, right, rfl, hleft, hright⟩ := h
  have hinside : ∀ c ∈ left ++ part ++ right, isBoundary k (some c) = false := fun c hc => by
    simp [isBoundary, hname c hc]
  obtain rfl : left = [] := by
    rcases List.eq_nil_or_concat' left with hnil | ⟨left, c, rfl⟩
    · exact hnil
    · rw [List.getLast?_concat, hinside c (by simp)] at hleft
      cases hleft
  obtain rfl : right = [] := by
    cases right with
    | nil => rfl
    | cons c right =>
      rw [List.head?_cons, hinside c (by simp)] at hright
      cases hright
  simp

theorem Reference.LandsIn.exists_split {pre rest first last : List Char} (h : r.LandsIn w)
    (hnewline : '\n' ∉ w.name.toList) (hw : content = pre ++ w.name.toList ++ rest)
    (hline : w.line = (Position.after pre).line + 1)
    (hcharacter : w.character = (Position.after pre).character) (hr : content = first ++ last)
    (hrline : r.line = (Position.after first).line + 1)
    (hrcharacter : r.character = (Position.after first).character) :
    ∃ part more, first = pre ++ part ∧ w.name.toList = part ++ more := by
  obtain ⟨hsame, hle, hlt⟩ := h
  obtain ⟨n, hn⟩ := Int.le.dest hle
  have hpart : '\n' ∉ w.name.toList.take n := fun hmem => hnewline (List.mem_of_mem_take hmem)
  have hafter : Position.after first = Position.after (pre ++ w.name.toList.take n) := by
    rw [Position.after_append_of_not_mem pre hpart, List.length_take, String.length_toList]
    cases hp : Position.after first
    simp only [hp] at hrline hrcharacter
    simp only [Position.mk.injEq]
    omega
  have hcontent : first ++ last = pre ++ w.name.toList.take n ++ (w.name.toList.drop n ++ rest) := by
    rw [← hr, hw]
    nth_rewrite 1 [← List.take_append_drop n w.name.toList]
    simp only [List.append_assoc]
  exact ⟨_, _, Position.after_inj hcontent hafter, (List.take_append_drop n _).symm⟩

theorem Reference.landsIn_of_split {pre first part more : List Char} (hfirst : first = pre ++ part)
    (hname : w.name.toList = part ++ more) (hmore : more ≠ []) (hnewline : '\n' ∉ w.name.toList)
    (hline : w.line = (Position.after pre).line + 1)
    (hcharacter : w.character = (Position.after pre).character)
    (hrline : r.line = (Position.after first).line + 1)
    (hrcharacter : r.character = (Position.after first).character) : r.LandsIn w := by
  have hpart : '\n' ∉ part := fun hmem => hnewline (by simp [hname, hmem])
  have hlength : part.length < w.name.length := by
    have := List.length_pos_of_ne_nil hmore
    rw [← String.length_toList, hname, List.length_append]
    omega
  rw [hfirst, Position.after_append_of_not_mem pre hpart] at hrline hrcharacter
  simp only at hrline hrcharacter
  refine ⟨?_, ?_, ?_⟩ <;> omega

/-- A reference lands only in names that its own name is part of: those names go on as long as their
characters do, so that it ends within them as well. -/
theorem Variable.Stands.isPart_of_landsIn (hw : w.Stands before behind inner content)
    (hnewline : inner '\n' = false) (hends : ∀ c, inner c = true → behind (some c) = false)
    (hname : ∀ c ∈ name, inner c = true) (hr : r ∈ Occurrence.references content name k 0)
    (h : r.LandsIn w) : IsPart k name w.name.toList := by
  obtain ⟨-, first, last, hcontent, hrline, hrcharacter, hfirst, hlast⟩ := framed_of_mem_references hr
  obtain ⟨pre, rest, hplace, hline, hcharacter, -, hrest⟩ := hw.framed
  have hrun : '\n' ∉ w.name.toList := (hw.placed hnewline).within
  rw [List.append_assoc] at hcontent
  obtain ⟨part, more, rfl, hpart⟩ :=
    h.exists_split hrun hplace hline hcharacter hcontent hrline hrcharacter
  have hbehind : more ++ rest = name ++ last := by
    have hsame : pre ++ (part ++ (more ++ rest)) = pre ++ (part ++ (name ++ last)) := by
      rw [← List.append_assoc part more, ← hpart, ← List.append_assoc pre, ← hplace, hcontent,
        List.append_assoc]
    exact List.append_cancel_left (List.append_cancel_left hsame)
  obtain ⟨right, rfl, rfl⟩ : ∃ right, more = name ++ right ∧ last = right ++ rest := by
    rcases List.append_eq_append_iff.1 hbehind with ⟨tail, rfl, rfl⟩ | ⟨right, rfl, rfl⟩
    · cases tail with
      | nil => exact ⟨[], by simp, rfl⟩
      | cons c tail =>
        have hc := hends c (hname c (by simp))
        rw [List.cons_append, List.head?_cons, hc] at hrest
        cases hrest
    · exact ⟨right, rfl, rfl⟩
  refine ⟨part, right, by rw [hpart, List.append_assoc], isBoundary_getLast?_of_append hfirst,
    isBoundary_head?_of_append hlast⟩

/-- A name lands in the names that it is part of. What is before the names delimits, and is in none
of them. -/
theorem Variable.Stands.exists_landsIn (hw : w.Stands before behind inner content)
    (hnewline : inner '\n' = false) (hbefore : ∀ o, before o = true → isBoundary k o = true)
    (hapart : ∀ c, inner c = true → before (some c) = false)
    (hbehind : ∀ o, behind o = true → isBoundary k o = true)
    (hname : IsRun inner name) (h : IsPart k name w.name.toList) :
    ∃ r ∈ Occurrence.references content name k 0, r.LandsIn w := by
  obtain ⟨left, right, hparts, hleft, hright⟩ := h
  obtain ⟨pre, rest, hplace, hline, hcharacter, hpre, hrest⟩ := hw.framed
  obtain ⟨r, hr, first, last, hsplit, hrline, hrcharacter, hle, hcovers⟩ :=
    exists_reference_covering hname.ne_nil (test_getLast?_append hleft fun _ => hbefore _ hpre)
      (test_head?_append hright fun _ => hbehind _ hrest)
  have hcontent : pre ++ left ++ name ++ (right ++ rest) = content := by
    rw [hplace, hparts]
    simp only [List.append_assoc]
  have hpos := List.length_pos_of_ne_nil hname.ne_nil
  have hwithin : pre.length < first.length + name.length := by
    rw [List.length_append] at hcovers
    rcases hcovers with rfl | hcovers
    · rw [List.length_append]
      omega
    · omega
  rw [hcontent] at hsplit hr
  have hle' : pre.length ≤ first.length := by
    rw [hplace, List.append_assoc] at hsplit
    exact length_le_of_covers hsplit hwithin hpre fun c hc => hapart c (hname.all c hc)
  have hlt : first.length < pre.length + w.name.toList.length := by
    rw [List.length_append] at hle
    rw [hparts, List.length_append, List.length_append]
    omega
  rw [hplace, List.append_assoc first] at hsplit
  obtain ⟨part, more, hfirst, hpart, hmore, -⟩ := exists_split_within hsplit.symm hle' hlt
  exact ⟨r, hr, Reference.landsIn_of_split hfirst hpart hmore (hw.placed hnewline).within hline
    hcharacter hrline hrcharacter⟩

end

/-! ## Languages -/

theorem JavaScript.eq_of_landsIn {content : List Char} {filePath : String} {v w : Variable}
    {r : Reference} (hv : v ∈ JavaScript.extract content filePath)
    (hw : w ∈ JavaScript.extract content filePath)
    (hr : r ∈ Occurrence.references content v.name.toList .dollar 0) (h : r.LandsIn w) :
    v.name = w.name := by
  have hpart := (stands_of_mem_extract hw).isPart_of_landsIn (by decide)
    (fun c hc => by simp [endsIdent, hc]) (stands_of_mem_extract hv).run.all hr h
  exact String.toList_inj.1
    (hpart.eq fun c hc => mem_of_isIdentRest ((stands_of_mem_extract hw).run.all c hc))

theorem Python.eq_of_landsIn {content : List Char} {filePath : String} {v w : Variable}
    {r : Reference} (hv : v ∈ Python.extract content filePath)
    (hw : w ∈ Python.extract content filePath)
    (hr : r ∈ Occurrence.references content v.name.toList .plain 0) (h : r.LandsIn w) :
    v.name = w.name := by
  have hpart := (stands_of_mem_extract hw).isPart_of_landsIn (by decide)
    (fun c hc => by simp [endsName, hc]) (stands_of_mem_extract hv).run.all hr h
  exact String.toList_inj.1
    (hpart.eq fun c hc => WordClass.plain.mem_of_isNameRest ((stands_of_mem_extract hw).run.all c hc))

theorem Yaml.landsIn_iff {content : List Char} {filePath : String} {v w : Variable}
    (hv : v ∈ Yaml.extract content filePath) (hw : w ∈ Yaml.extract content filePath) :
    (∃ r ∈ Occurrence.references content v.name.toList .plain 0, r.LandsIn w) ↔
      IsPart .plain v.name.toList w.name.toList := by
  have hstands := stands_of_mem_extract hw
  have hrun := (stands_of_mem_extract hv).run
  constructor
  · rintro ⟨r, hr, h⟩
    refine hstands.isPart_of_landsIn (by decide) (fun c hc => ?_) hrun.all hr h
    have hcolon : c ≠ ':' := by
      rintro rfl
      exact absurd hc (by decide)
    simp [endsKey, isBlank_eq_false_of_isKeyRest hc, hcolon]
  · refine hstands.exists_landsIn (by decide) (fun _ => isBoundary_of_all_isBlank)
      (fun c => isBlank_eq_false_of_isKeyRest) (fun o ho => ?_) hrun
    cases o with
    | none => rfl
    | some c => simp [isBoundary, mem_eq_false_of_endsKey ho]

namespace Extractor

/-- Where the references of declared names land. In JavaScript and Python, a reference to a declared
name begins within no other declared name. The references to a key land in just those keys that it is
part of. -/
theorem references_land (content : List Char) (filePath : String) :
    (∀ e ∈ [javaScript, python], ∃ found, e.extract content filePath = .ok found ∧
      ∀ v ∈ found.vars, ∀ w ∈ found.vars, ∀ r ∈ e.references content v.name.toList,
        r.LandsIn w → v.name = w.name) ∧
    ∃ found, yaml.extract content filePath = .ok found ∧
      ∀ v ∈ found.vars, ∀ w ∈ found.vars,
        (∃ r ∈ yaml.references content v.name.toList, r.LandsIn w) ↔
          IsPart yaml.wordClass v.name.toList w.name.toList := by
  refine ⟨fun e he => ?_, _, rfl, fun v hv w hw => Yaml.landsIn_iff hv hw⟩
  simp only [List.mem_cons, List.not_mem_nil, or_false] at he
  rcases he with rfl | rfl
  · exact ⟨_, rfl, fun v hv w hw r hr => JavaScript.eq_of_landsIn hv hw hr⟩
  · exact ⟨_, rfl, fun v hv w hw r hr => Python.eq_of_landsIn hv hw hr⟩

end Extractor

/-! Two keys, one of which begins with the other. -/

namespace Hyphenated

open Extractor

def mapping : List Char := "a: 1\na-b: 2\n".toList

/-- `a` is part of `a-b`, so a reference to `a` lands there. -/
theorem reference_lands :
    ∃ v ∈ Yaml.extract mapping "m.yml", ∃ w ∈ Yaml.extract mapping "m.yml",
      ∃ r ∈ yaml.references mapping v.name.toList, r.LandsIn w ∧ v.name = "a" ∧ w.name = "a-b" := by
  decide +kernel

end Hyphenated
end DeclScan
