import DeclScan.Proofs.Language.ImportEnds
import DeclScan.Proofs.References
import DeclScan.Proofs.Text.Found

/-!
# DeclScan.Proofs.Language.Imports

All imports of a text in which each import has a path without quotes. An import of a path that is no
script's has no end of its own: it is read on, over quotes and statements, up to a script on the same
line.

* `Layout.RunsOn`, `Layout.Omits`, `Layout.Hides`: what keeps an import from being found as it is
  written.
* `Layout.all_eq_iff`: the search finds the imports of one form exactly where nothing does.
* `imports_eq_iff`: the imports of the text are its scripts exactly where nothing does.
-/

namespace DeclScan
namespace JavaScript

open Text

/-! ## The imports of scripts -/

/-- The import of a path at an offset. -/
def importAt (text : List Char) (kind : ImportKind) (found : Found (List Char)) : Import where
  name := String.ofList found.value
  path := String.ofList found.value
  line := (text.take found.offset).count '\n' + 1
  character := (lineBefore text found.offset).length
  kind := kind

/-- The scripts that are imported in one form, with the offsets of the keywords. `seen` characters come
before. -/
def scriptsFrom (f : ImportForm) : Nat → List Statement → List (Found (List Char))
  | _, [] => []
  | seen, s :: more =>
    let later := scriptsFrom f (seen + s.text.length) more
    if s.form = f ∧ s.IsScript then ⟨seen + s.before.length, s.path⟩ :: later else later

namespace Layout

def scripts (l : Layout) (f : ImportForm) : List (Found (List Char)) := scriptsFrom f 0 l.statements

/-- The scripts of import statements, then those of calls, each at its own keyword. -/
def expected (l : Layout) : List Import :=
  (l.scripts .statement).map (importAt l.text .importStatement) ++
    (l.scripts .call).map (importAt l.text .requireCall)

/-- A script is imported by a name with a dollar sign, which is no word. -/
def Omits (l : Layout) (f : ImportForm) : Prop :=
  ∃ s ∈ l.statements, s.form = f ∧ s.IsScript ∧ ¬ f.Opens s.opening

/-- An import of what is no script is read on into a later one. -/
def RunsOn (l : Layout) (f : ImportForm) : Prop :=
  ∃ before s after, l.statements = before ++ s :: after ∧ s.form = f ∧ f.Opens s.opening ∧
    ¬ s.IsScript ∧ s.RunsInto after

/-- In a path, other than that of a script that is imported in this form, an import can be read. -/
def Hides (l : Layout) (f : ImportForm) : Prop :=
  ∃ before s after, l.statements = before ++ s :: after ∧ ¬ (s.form = f ∧ s.IsScript) ∧
    ∃ p p', s.path = p ++ p' ∧ f.Reads (p' ++ s.quote :: (s.ending ++ (textOf after ++ l.last)))

end Layout

variable {f : ImportForm} {statements : List Statement} {last : List Char}

theorem mem_scriptsFrom_cons {seen : Nat} {s : Statement} {p : Found (List Char)} :
    p ∈ scriptsFrom f seen (s :: statements) ↔
      (s.form = f ∧ s.IsScript ∧ p = ⟨seen + s.before.length, s.path⟩) ∨
        p ∈ scriptsFrom f (seen + s.text.length) statements := by
  rw [scriptsFrom]
  split
  · rename_i hs
    rw [List.mem_cons]
    simp [hs]
  · rename_i hs
    constructor
    · exact Or.inr
    · rintro (⟨hform, hscript, -⟩ | hp)
      · exact absurd ⟨hform, hscript⟩ hs
      · exact hp

theorem mem_scriptsFrom {seen : Nat} {p : Found (List Char)} :
    p ∈ scriptsFrom f seen statements ↔ ∃ before s after, statements = before ++ s :: after ∧
      s.form = f ∧ s.IsScript ∧ p = ⟨seen + (textOf before ++ s.before).length, s.path⟩ := by
  induction statements generalizing seen with
  | nil => simp [scriptsFrom]
  | cons t more ih =>
    rw [mem_scriptsFrom_cons, ih]
    constructor
    · rintro (⟨hform, hscript, rfl⟩ | ⟨before, s, after, rfl, hform, hscript, rfl⟩)
      · exact ⟨[], t, more, rfl, hform, hscript, rfl⟩
      · refine ⟨t :: before, s, after, rfl, hform, hscript, ?_⟩
        simp only [textOf_cons, List.length_append, Nat.add_assoc]
    · rintro ⟨before, s, after, heq, hform, hscript, rfl⟩
      cases before with
      | nil =>
        obtain ⟨rfl, rfl⟩ := List.cons.inj heq
        exact Or.inl ⟨hform, hscript, rfl⟩
      | cons u before =>
        obtain ⟨rfl, rfl⟩ := List.cons.inj heq
        refine Or.inr ⟨before, s, after, rfl, hform, hscript, ?_⟩
        simp only [textOf_cons, List.length_append, Nat.add_assoc]

/-! ## Scripts are found -/

/-- A script with an opening that is read is found as it stands; behind its path, only what closes it
is read. -/
theorem Statement.recogniser_body (s : Statement) (hopens : s.form.Opens s.opening)
    (hscript : s.IsScript) (before : Option Char) (more : List Char) :
    ∃ length, s.form.recogniser before (s.body ++ more) = some (s.path, length) ∧
      s.body.length ≤ length + s.ending.length ∧ length ≤ s.body.length := by
  obtain ⟨tail, htail, hcloses⟩ := s.written.closes s.quoted
  have hbody : s.body ++ more = s.form.keyword ++ s.opening ++ s.quote ::
      (s.path ++ s.quote :: (s.ending ++ more)) := by
    simp [body]
  have hread := ImportForm.recogniser_of_opens before hopens s.quoted s.plain hscript (hcloses more)
  rw [← hbody] at hread
  refine ⟨_, hread, ?_⟩
  have hle := htail.length_le
  have hending : s.ending.length ≤ s.body.length := by
    simp only [body, List.length_append, List.length_cons]
    omega
  simp only [List.length_append]
  omega

theorem areInOrder_scriptsFrom
    (hopens : ∀ s ∈ statements, s.form = f → s.IsScript → f.Opens s.opening) (seen last : List Char) :
    Search.AreInOrder f.recogniser (seen ++ (textOf statements ++ last))
        (scriptsFrom f seen.length statements) ∧
      ∀ p ∈ scriptsFrom f seen.length statements, seen.length ≤ p.offset := by
  induction statements generalizing seen with
  | nil =>
    have hnone : ∀ p, p ∉ scriptsFrom f seen.length [] := fun p => List.not_mem_nil
    refine ⟨⟨?_, ?_, ?_, List.Pairwise.nil⟩, ?_⟩ <;> intro p hp <;> exact absurd hp (hnone p)
  | cons s more ih =>
    obtain ⟨hmore, hle⟩ := ih (fun t ht => hopens t (List.mem_cons_of_mem _ ht)) (seen ++ s.text)
    have htext : seen ++ s.text ++ (textOf more ++ last) = seen ++ (textOf (s :: more) ++ last) := by
      simp [textOf_cons]
    rw [htext, List.length_append] at hmore
    rw [List.length_append] at hle
    rw [scriptsFrom]
    split
    · rename_i hs
      obtain ⟨rfl, hscript⟩ := hs
      obtain ⟨length, hread, hlong, hshort⟩ := s.recogniser_body
        (hopens s List.mem_cons_self rfl hscript) hscript (seen ++ s.before).getLast?
        (textOf more ++ last)
      have hplace : seen ++ (textOf (s :: more) ++ last) =
          seen ++ s.before ++ (s.body ++ (textOf more ++ last)) := by
        simp [textOf_cons, Statement.text]
      have hoffset : seen.length + s.before.length = (seen ++ s.before).length := by
        rw [List.length_append]
      have hfound := Search.at?_append s.form.recogniser (seen ++ s.before)
        (s.body ++ (textOf more ++ last))
      have hend := Search.endAt_append hread
      rw [hread, ← hplace, ← hoffset] at hfound
      rw [← hplace, ← hoffset] at hend
      have hlength : s.text.length = s.before.length + s.body.length := by
        rw [Statement.text, List.length_append]
      have hbody : s.ending.length < s.body.length := by
        simp only [Statement.body, List.length_append, List.length_cons]
        omega
      have hwhole := congrArg List.length htext
      simp only [List.length_append] at hwhole
      refine ⟨⟨?_, ?_, ?_, ?_⟩, ?_⟩
      · exact List.forall_mem_cons.2 ⟨hfound, hmore.found⟩
      · refine List.forall_mem_cons.2 ⟨?_, hmore.pos⟩
        simp only [hend]
        omega
      · refine List.forall_mem_cons.2 ⟨?_, hmore.le⟩
        simp only [hend, List.length_append]
        omega
      · refine List.pairwise_cons.2 ⟨fun q hq => ?_, hmore.apart⟩
        have := hle q hq
        simp only [hend]
        omega
      · refine List.forall_mem_cons.2 ⟨Nat.le_add_right _ _, fun q hq => ?_⟩
        have := hle q hq
        omega
    · refine ⟨hmore, fun q hq => ?_⟩
      have := hle q hq
      omega

theorem eq_of_place {before after before' after' : List Statement} {s t : Statement} {i : Nat}
    (h : before ++ s :: after = before' ++ t :: after') (hs : (textOf before).length ≤ i)
    (hs' : i < (textOf before).length + s.text.length) (ht : (textOf before').length ≤ i)
    (ht' : i < (textOf before').length + t.text.length) : s = t := by
  have hlater : ∀ (first : List Statement) (u : Statement) (more : List Statement),
      (textOf first).length + u.text.length ≤ (textOf (first ++ u :: more)).length := by
    intro first u more
    rw [textOf_append, textOf_cons, List.length_append, List.length_append]
    omega
  rcases append_eq_append_cases h with ⟨a, rfl, hrest⟩ | ⟨a, ha, rfl, hrest⟩
  · cases a with
    | nil => exact (List.cons.inj hrest).1
    | cons u a =>
      obtain ⟨rfl, -⟩ := List.cons.inj hrest
      have := hlater before s a
      omega
  · obtain ⟨u, a, rfl⟩ := List.exists_cons_of_ne_nil ha
    obtain ⟨rfl, -⟩ := List.cons.inj hrest
    have := hlater before' t a
    omega

namespace Layout

variable {l : Layout} {before after : List Statement} {s : Statement}

theorem text_eq (h : l.statements = before ++ s :: after) :
    l.text = textOf before ++ s.before ++ (s.body ++ (textOf after ++ l.last)) := by
  rw [text, h, textOf_append, textOf_cons, Statement.text]
  simp only [List.append_assoc]

theorem text_eq_of_path (h : l.statements = before ++ s :: after) {p p' : List Char}
    (hpath : s.path = p ++ p') :
    l.text = textOf before ++ (s.lead ++ s.quote :: p) ++
      (p' ++ s.quote :: (s.ending ++ (textOf after ++ l.last))) := by
  rw [text_eq h, Statement.body, hpath, Statement.lead]
  simp

theorem opens_of_mem_all (hall : Search.all f.recogniser l.text = l.scripts f)
    (h : l.statements = before ++ s :: after) (hform : s.form = f) (hscript : s.IsScript) :
    f.Opens s.opening := by
  have hmem : ⟨(textOf before ++ s.before).length, s.path⟩ ∈ l.scripts f := by
    refine mem_scriptsFrom.2 ⟨before, s, after, h, hform, hscript, ?_⟩
    rw [Nat.zero_add]
  rw [← hall] at hmem
  obtain ⟨pre, rest, length, hsplit, hoffset, hread⟩ := Search.mem_all hmem
  rw [text_eq h] at hsplit
  obtain ⟨-, rfl⟩ := List.append_inj hsplit hoffset
  subst hform
  have hsome : (s.form.recogniser pre.getLast? (s.body ++ (textOf after ++ l.last))).isSome := by
    rw [hread]
    rfl
  exact ((s.reads_body_iff l.blank).1 (ImportForm.isSome_recogniser_iff.1 hsome)).1

theorem isScript_of_all_eq (hall : Search.all f.recogniser l.text = l.scripts f)
    (h : l.statements = before ++ s :: after) {u v : List Char} (htext : l.text = u ++ v)
    (hu : (textOf before).length ≤ u.length) (hu' : u.length < (textOf before ++ s.text).length)
    (hreads : f.Reads v) : s.form = f ∧ s.IsScript := by
  have hsome : (Search.at? f.recogniser l.text u.length).isSome := by
    rw [htext, Search.at?_append, Option.isSome_map]
    exact ImportForm.isSome_recogniser_iff.2 hreads
  have hle : u.length ≤ l.text.length := by
    rw [htext, List.length_append]
    omega
  obtain ⟨found, hfound, -, hwithin⟩ := Search.exists_within_of_all hle hsome
  rw [hall] at hfound
  obtain ⟨before', t, after', h', rfl, hscript, rfl⟩ := mem_scriptsFrom.1 hfound
  have hopens := opens_of_mem_all hall h' rfl hscript
  obtain ⟨length, hread, -, hshort⟩ := t.recogniser_body hopens hscript
    (textOf before' ++ t.before).getLast? (textOf after' ++ l.last)
  have hend := Search.endAt_append hread
  rw [← text_eq h'] at hend
  have hbody : 0 < t.body.length := by
    simp only [Statement.body, List.length_append, List.length_cons]
    omega
  have hlength : t.text.length = t.before.length + t.body.length := by
    rw [Statement.text, List.length_append]
  rw [Nat.zero_add, List.length_append] at hwithin
  rw [List.length_append] at hend hu'
  have hplace : (textOf before').length ≤ u.length ∧
      u.length < (textOf before').length + t.text.length := by
    rcases hwithin with heq | ⟨hge, hlt⟩
    · simp only at heq
      omega
    · rw [hend] at hlt
      simp only at hge
      omega
  rw [h] at h'
  rw [eq_of_place h' hu hu' hplace.1 hplace.2]
  exact ⟨rfl, hscript⟩

theorem exists_within_of_script (h : l.statements = before ++ s :: after)
    (hopens : s.form.Opens s.opening) (hscript : s.IsScript) {n : Nat}
    (hn : n + s.ending.length < s.body.length) :
    ∃ p ∈ l.scripts s.form,
      Search.Within s.form.recogniser l.text p ((textOf before ++ s.before).length + n) := by
  have hmem : ⟨0 + (textOf before ++ s.before).length, s.path⟩ ∈ l.scripts s.form :=
    mem_scriptsFrom.2 ⟨before, s, after, h, rfl, hscript, rfl⟩
  obtain ⟨length, hread, hlong, -⟩ := s.recogniser_body hopens hscript
    (textOf before ++ s.before).getLast? (textOf after ++ l.last)
  have hend := Search.endAt_append hread
  rw [← text_eq h] at hend
  rw [Nat.zero_add] at hmem
  refine ⟨_, hmem, Nat.le_add_right _ _, ?_⟩
  rw [hend]
  omega

/-- The search for one form finds the scripts that are imported in it, exactly if the opening of each
is read, no import is read on, and none is read in a path. -/
theorem all_eq_iff (l : Layout) (f : ImportForm) :
    Search.all f.recogniser l.text = l.scripts f ↔ ¬ l.Omits f ∧ ¬ l.RunsOn f ∧ ¬ l.Hides f := by
  constructor
  · intro hall
    refine ⟨?_, ?_, ?_⟩
    · rintro ⟨s, hs, hform, hscript, hnot⟩
      obtain ⟨before, after, h⟩ := List.append_of_mem hs
      exact hnot (opens_of_mem_all hall h hform hscript)
    · rintro ⟨before, s, after, h, rfl, hopens, hnot, hruns⟩
      have hreads := (s.reads_body_iff l.blank).2 ⟨hopens, Or.inr hruns⟩
      refine hnot (isScript_of_all_eq hall h (text_eq h) ?_ ?_ hreads).2
      · rw [List.length_append]
        omega
      · simp only [Statement.text, Statement.body, List.length_append, List.length_cons]
        omega
    · rintro ⟨before, s, after, h, hnot, p, p', hpath, hreads⟩
      refine hnot (isScript_of_all_eq hall h (text_eq_of_path h hpath) ?_ ?_ hreads)
      · rw [List.length_append]
        omega
      · simp only [Statement.text_eq, hpath, List.length_append, List.length_cons]
        omega
  · rintro ⟨homits, hruns, hhides⟩
    have hopens : ∀ s ∈ l.statements, s.form = f → s.IsScript → f.Opens s.opening := by
      intro s hs hform hscript
      by_contra hnot
      exact homits ⟨s, hs, hform, hscript, hnot⟩
    have horder : Search.AreInOrder f.recogniser l.text (l.scripts f) :=
      (areInOrder_scriptsFrom hopens [] l.last).1
    refine Search.all_eq_of_within horder fun i hsome => ?_
    have hreads : f.Reads (l.text.drop i) := by
      rw [Search.at?, Option.isSome_map] at hsome
      exact ImportForm.isSome_recogniser_iff.1 hsome
    have hi : (l.text.take i).length = i := by
      refine List.length_take_of_le (Nat.le_of_lt (Nat.lt_of_not_le fun hge => ?_))
      rw [List.drop_eq_nil_of_le hge] at hreads
      exact hreads.ne_nil rfl
    obtain ⟨before, s, after, h, hplace⟩ :=
      place_of_reads l.blank (List.take_append_drop i l.text).symm hreads
    rcases hplace with ⟨hu, rfl, hv⟩ | ⟨p, p', hpath, hu, hv⟩
    · rw [hv] at hreads
      obtain ⟨hopens', hends⟩ := (s.reads_body_iff l.blank).1 hreads
      by_cases hscript : s.IsScript
      · have hstart : 0 + s.ending.length < s.body.length := by
          simp only [Statement.body, List.length_append, List.length_cons]
          omega
        rw [← hi, hu]
        exact exists_within_of_script h hopens' hscript hstart
      · have hinto := hends.resolve_left hscript
        exact absurd ⟨before, s, after, h, rfl, hopens', hscript, hinto⟩ hruns
    · by_cases hown : s.form = f ∧ s.IsScript
      · obtain ⟨rfl, hscript⟩ := hown
        have hs : s ∈ l.statements := by
          rw [h]
          simp
        let read := s.form.keyword ++ s.opening ++ s.quote :: p
        have hinside : read.length + s.ending.length < s.body.length := by
          simp only [read, Statement.body, hpath, List.length_append, List.length_cons]
          omega
        have hplace : i = (textOf before ++ s.before).length + read.length := by
          rw [← hi, hu, Statement.lead]
          simp only [read, List.length_append, List.length_cons]
          omega
        rw [hplace]
        exact exists_within_of_script h (hopens s hs rfl hscript) hscript hinside
      · rw [hv] at hreads
        exact absurd ⟨before, s, after, h, hown, p, p', hpath, hreads⟩ hhides

end Layout

/-! ## All imports -/

theorem offset_le_of_mem_all {m : Recogniser (List Char)} {text : List Char} {p : Found (List Char)}
    (h : p ∈ Search.all m text) : p.offset ≤ text.length := by
  obtain ⟨pre, rest, -, rfl, hoffset, -⟩ := Search.mem_all h
  rw [hoffset, List.length_append]
  omega

theorem importsOf_eq_map (text : List Char) (f : ImportForm) :
    importsOf (Document.ofText text "") f.recogniser f.kind =
      (Search.all f.recogniser text).map (importAt text f.kind) := by
  refine List.map_congr_left fun found hfound => ?_
  have hle : found.offset ≤ text.length := offset_le_of_mem_all hfound
  simp only [importAt, Document.positionAt_eq hle ""]

theorem imports_eq_map (text : List Char) :
    imports text =
      (Search.all importStatement text).map (importAt text .importStatement) ++
        (Search.all requireCall text).map (importAt text .requireCall) := by
  have hstatement := importsOf_eq_map text .statement
  have hcall := importsOf_eq_map text .call
  rw [imports]
  exact congrArg₂ (· ++ ·) hstatement hcall

theorem importAt_inj {text : List Char} {kind : ImportKind} {p q : Found (List Char)}
    (hp : p.offset ≤ text.length) (hq : q.offset ≤ text.length)
    (h : importAt text kind p = importAt text kind q) : p = q := by
  have hafter : Position.after (text.take p.offset) = Position.after (text.take q.offset) := by
    have hp' := Document.positionAt_length (text.take p.offset) (text.drop p.offset) ""
    have hq' := Document.positionAt_length (text.take q.offset) (text.drop q.offset) ""
    rw [List.take_append_drop, List.length_take_of_le hp, Document.positionAt_eq hp] at hp'
    rw [List.take_append_drop, List.length_take_of_le hq, Document.positionAt_eq hq] at hq'
    have hline := congrArg Import.line h
    have hcharacter := congrArg Import.character h
    simp only [importAt] at hline hcharacter
    rw [← hp', ← hq']
    congr 1
    · omega
    · omega
  have htake : text.take p.offset = text.take q.offset := by
    have hsame : text.take p.offset ++ text.drop p.offset =
        text.take q.offset ++ text.drop q.offset := by
      rw [List.take_append_drop, List.take_append_drop]
    exact Position.after_inj hsame hafter
  have hoffset : p.offset = q.offset := by
    rw [← List.length_take_of_le hp, htake, List.length_take_of_le hq]
  have hvalue : p.value = q.value := String.ofList_inj.1 (congrArg Import.name h)
  cases p
  cases q
  simp only at hoffset hvalue
  rw [hoffset, hvalue]

theorem eq_of_map_importAt {text : List Char} {kind : ImportKind} {ps qs : List (Found (List Char))}
    (hps : ∀ p ∈ ps, p.offset ≤ text.length) (hqs : ∀ q ∈ qs, q.offset ≤ text.length)
    (h : ps.map (importAt text kind) = qs.map (importAt text kind)) : ps = qs := by
  induction ps generalizing qs with
  | nil => exact (List.map_eq_nil_iff.1 h.symm).symm
  | cons p ps ih =>
    cases qs with
    | nil => cases h
    | cons q qs =>
      obtain ⟨hpq, hrest⟩ := List.cons.inj h
      rw [List.forall_mem_cons] at hps hqs
      rw [importAt_inj hps.1 hqs.1 hpq, ih hps.2 hqs.2 hrest]

theorem append_map_importAt_inj {text : List Char} {ps qs ps' qs' : List (Found (List Char))}
    (h : ps.map (importAt text .importStatement) ++ qs.map (importAt text .requireCall) =
      ps'.map (importAt text .importStatement) ++ qs'.map (importAt text .requireCall)) :
    ps.map (importAt text .importStatement) = ps'.map (importAt text .importStatement) ∧
      qs.map (importAt text .requireCall) = qs'.map (importAt text .requireCall) := by
  have hkind : ∀ (kind kind' : ImportKind) (ps : List (Found (List Char))),
      (ps.map (importAt text kind)).filter (·.kind = kind') =
        if kind = kind' then ps.map (importAt text kind) else [] := by
    intro kind kind' ps
    split
    · rename_i heq
      exact List.filter_eq_self.2 (by simp [importAt, heq])
    · rename_i hne
      exact List.filter_eq_nil_iff.2 (by simp [importAt, hne])
  constructor
  · have hstatements := congrArg (List.filter (·.kind = .importStatement)) h
    simpa [List.filter_append, hkind] using hstatements
  · have hcalls := congrArg (List.filter (·.kind = .requireCall)) h
    simpa [List.filter_append, hkind] using hcalls

theorem Layout.offset_le_of_mem_scripts {l : Layout} {p : Found (List Char)} (h : p ∈ l.scripts f) :
    p.offset ≤ l.text.length := by
  obtain ⟨before, s, after, hsplit, -, -, rfl⟩ := mem_scriptsFrom.1 h
  have hprefix : textOf before ++ s.before <+: l.text := by
    rw [text_eq hsplit]
    exact List.prefix_append _ _
  rw [Nat.zero_add]
  exact hprefix.length_le

theorem imports_eq_iff_all_eq (l : Layout) :
    imports l.text = l.expected ↔
      ∀ f : ImportForm, Search.all f.recogniser l.text = l.scripts f := by
  rw [imports_eq_map, Layout.expected]
  constructor
  · intro h
    obtain ⟨hstatements, hcalls⟩ := append_map_importAt_inj h
    intro f
    cases f with
    | statement =>
      refine eq_of_map_importAt ?_ ?_ hstatements
      · exact fun p => offset_le_of_mem_all
      · exact fun p => l.offset_le_of_mem_scripts
    | call =>
      refine eq_of_map_importAt ?_ ?_ hcalls
      · exact fun p => offset_le_of_mem_all
      · exact fun p => l.offset_le_of_mem_scripts
  · intro hall
    have hstatements : Search.all importStatement l.text = l.scripts .statement := hall .statement
    have hcalls : Search.all requireCall l.text = l.scripts .call := hall .call
    rw [hstatements, hcalls]

/-- The imports of a text in which each path has no quotes are its scripts, each with its own path at
its own keyword, exactly if no form omits a script, runs on into a later import, or finds one that is
hidden in a path. -/
theorem imports_eq_iff (l : Layout) :
    imports l.text = l.expected ↔ ∀ f, ¬ l.Omits f ∧ ¬ l.RunsOn f ∧ ¬ l.Hides f := by
  rw [imports_eq_iff_all_eq]
  exact forall_congr' l.all_eq_iff

/-- An import of a path alone, with one blank behind `import`. -/
def bareImport (before path : List Char) (hbefore : IsPad before)
    (hpath : path.all (fun c => !isQuote c && c ≠ '\n') = true) : Statement where
  form := .statement
  before := before
  opening := [' ']
  quote := '"'
  path := path
  ending := [';']
  written := .bare hbefore ⟨List.cons_ne_nil _ _, by decide⟩ isPad_nil
  quoted := rfl
  plain := by simpa using hpath

/-- Behind an import of what is no script, the next one on the line is taken for a part of its path. -/
theorem imports_swallowed :
    let first := bareImport [] ['a'] isPad_nil rfl
    let second := bareImport [' '] "b.js".toList (by decide) rfl
    let l : Layout := ⟨[first, second], [], isPad_nil⟩
    l.text = "import \"a\"; import \"b.js\";".toList ∧
      imports l.text = [⟨"a\"; import \"b.js", "a\"; import \"b.js", 1, 0, .importStatement⟩] ∧
      l.expected = [⟨"b.js", "b.js", 1, 12, .importStatement⟩] ∧ imports l.text ≠ l.expected := by
  decide +kernel

/-- Where no name has a dollar sign and no path a keyword, the imports are the scripts exactly if none
is read on into a later one. -/
theorem imports_eq_iff_not_runsOn (l : Layout) (hnames : ∀ s ∈ l.statements, '$' ∉ s.opening)
    (hpaths : ∀ s ∈ l.statements, ∀ f : ImportForm, ¬ f.keyword <:+: s.path) :
    imports l.text = l.expected ↔ ∀ f, ¬ l.RunsOn f := by
  rw [imports_eq_iff_all_eq]
  refine forall_congr' fun f => (l.all_eq_iff f).trans ⟨fun h => h.2.1, fun h => ⟨?_, h, ?_⟩⟩
  · rintro ⟨s, hs, rfl, -, hnot⟩
    exact hnames s hs (s.written.opens_or.resolve_left hnot).1
  · rintro ⟨before, s, after, heq, -, p, p', hpath, hreads⟩
    have hs : s ∈ l.statements := by
      rw [heq]
      simp
    have hbehind : ¬ f.Reads (s.quote :: (s.ending ++ (textOf after ++ l.last))) :=
      ImportForm.free_of_not_mem (dollar_mem_of_isQuote s.quoted) _ [] _ rfl (List.cons_ne_nil _ _)
    by_cases hne : p' = []
    · rw [hne] at hreads
      exact hbehind hreads
    · exact ImportForm.free_of_not_infix (hpaths s hs f) s.quoted p p' hpath hne hreads

end JavaScript
end DeclScan
