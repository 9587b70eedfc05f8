import DeclScan.Proofs.Language.ImportLayout

/-!
# DeclScan.Proofs.Language.ImportEnds

Where an import that is read at its own keyword ends. Its opening has no quote, so it is read up to its
own quote or not at all. The path then goes on to the first quote behind `.js` that may close it: its
own, if it is that of a script, or else that of a later import on the same line.

* `IsWritten.opens_or`: an opening is read, or nothing else is read in its place.
* `IsWritten.exists_closes_iff`: what closes an import is what stands behind the path of another.
* `exists_script_of_closes`: a path that goes on beyond its quote ends with that of a later script.
* `Statement.reads_body_iff`: at which keywords an import can be read.
-/

namespace DeclScan
namespace JavaScript

open Text

/-! ## Texts without quotes -/

def IsUnquoted (s : List Char) : Prop := ∀ c ∈ s, isQuote c = false

section Unquoted

variable {s t : List Char} {c : Char}

theorem isUnquoted_append : IsUnquoted (s ++ t) ↔ IsUnquoted s ∧ IsUnquoted t :=
  List.forall_mem_append

theorem isUnquoted_cons : IsUnquoted (c :: s) ↔ isQuote c = false ∧ IsUnquoted s :=
  List.forall_mem_cons

theorem isUnquoted_nil : IsUnquoted [] := List.forall_mem_nil _

theorem isUnquoted_of_isPad (h : IsPad s) : IsUnquoted s := by
  intro c hc
  cases hquote : isQuote c with
  | false => rfl
  | true =>
    have hblank := h c hc
    rw [isBlank_of_isQuote hquote] at hblank
    cases hblank

theorem isUnquoted_of_word (h : ∀ c ∈ s, WordClass.dollar.mem c = true) : IsUnquoted s := by
  intro c hc
  cases hquote : isQuote c with
  | false => rfl
  | true =>
    have hword := h c hc
    rw [dollar_mem_of_isQuote hquote] at hword
    cases hword

theorem quote_cases {y rest : List Char} {d : Char} (hs : IsUnquoted s) (hd : isQuote d = true)
    (h : s ++ c :: rest = t ++ d :: y) :
    (t = s ∧ d = c ∧ y = rest) ∨ ∃ t', t = s ++ c :: t' ∧ rest = t' ++ d :: y := by
  rcases append_eq_append_cases h with ⟨a, rfl, hrest⟩ | ⟨a, ha, rfl, hrest⟩
  · cases a with
    | nil =>
      obtain ⟨rfl, rfl⟩ := List.cons.inj hrest
      exact Or.inl ⟨List.append_nil s, rfl, rfl⟩
    | cons e a =>
      obtain ⟨rfl, rfl⟩ := List.cons.inj hrest
      exact Or.inr ⟨a, rfl, rfl⟩
  · obtain ⟨e, a, rfl⟩ := List.exists_cons_of_ne_nil ha
    obtain ⟨rfl, -⟩ := List.cons.inj hrest
    have hnot := hs d (by simp)
    rw [hd] at hnot
    cases hnot

theorem script_suffix_of_quote (hc : isQuote c = true) (h : ".js".toList <:+ t ++ c :: s) :
    ".js".toList <:+ s := by
  have hunquoted : c ∉ ".js".toList := by
    intro hmem
    have hall : ".js".toList.all (fun d => !isQuote d) = true := rfl
    have := List.all_eq_true.1 hall c hmem
    simp [hc] at this
  rcases List.suffix_or_suffix_of_suffix h (List.suffix_append t (c :: s)) with hshort | hlong
  · rcases List.suffix_cons_iff.1 hshort with heq | hsuffix
    · exact absurd (heq ▸ List.mem_cons_self) hunquoted
    · exact hsuffix
  · exact absurd (hlong.mem List.mem_cons_self) hunquoted

theorem mem_of_script_suffix (h : ".js".toList <:+ t ++ s) (hs : s ≠ []) : 's' ∈ s := by
  obtain ⟨u, heq⟩ := h
  have hlast : (u ++ ".js".toList).getLast? = some 's' := by
    rw [List.getLast?_append]
    rfl
  rw [heq, List.getLast?_append, List.getLast?_eq_some_getLast hs, Option.some_or,
    Option.some.injEq] at hlast
  rw [← hlast]
  exact List.getLast_mem hs

end Unquoted

/-! ## Imports as they are written -/

section Written

variable {form f : ImportForm} {before opening ending : List Char}

theorem IsWritten.isUnquoted (h : IsWritten form before opening ending) :
    IsUnquoted before ∧ IsUnquoted opening ∧ IsUnquoted ending := by
  have hname : ∀ {s : List Char}, s.all isNameRest = true → IsUnquoted s := by
    intro s hs
    exact isUnquoted_of_word fun c hc => WordClass.mem_of_isNameRest _ (List.all_eq_true.1 hs c hc)
  have hfrom : IsUnquoted "from".toList := hname rfl
  have hconst : IsUnquoted "const".toList := hname rfl
  have hsigns : isQuote ';' = false ∧ isQuote '\x7b' = false ∧ isQuote '\x7d' = false ∧
      isQuote '=' = false ∧ isQuote '(' = false ∧ isQuote ')' = false := by decide
  cases h with
  | bare hpad hgap hpad' =>
    simp only [isUnquoted_append, isUnquoted_cons, isUnquoted_nil, isUnquoted_of_isPad hpad,
      isUnquoted_of_isPad hgap.pad, isUnquoted_of_isPad hpad', hsigns, and_self]
  | named hpad hgap hx hgap' hgap'' hpad' =>
    simp only [isUnquoted_append, isUnquoted_cons, isUnquoted_nil, isUnquoted_of_isPad hpad,
      isUnquoted_of_isPad hgap.pad, isUnquoted_of_word hx.all, isUnquoted_of_isPad hgap'.pad, hfrom,
      isUnquoted_of_isPad hgap''.pad, isUnquoted_of_isPad hpad', hsigns, and_self]
  | braced hpad hgap hleft hx hright hgap' hgap'' hpad' =>
    simp only [isUnquoted_append, isUnquoted_cons, isUnquoted_nil, isUnquoted_of_isPad hpad,
      isUnquoted_of_isPad hgap.pad, isUnquoted_of_isPad hleft, isUnquoted_of_word hx.all,
      isUnquoted_of_isPad hright, isUnquoted_of_isPad hgap'.pad, hfrom,
      isUnquoted_of_isPad hgap''.pad, isUnquoted_of_isPad hpad', hsigns, and_self]
  | called hpad hgap hx hleft hright hleft' hright' hlast hlast' =>
    simp only [isUnquoted_append, isUnquoted_cons, isUnquoted_nil, isUnquoted_of_isPad hpad, hconst,
      isUnquoted_of_isPad hgap.pad, isUnquoted_of_word hx.all, isUnquoted_of_isPad hleft,
      isUnquoted_of_isPad hright, isUnquoted_of_isPad hleft', isUnquoted_of_isPad hright',
      isUnquoted_of_isPad hlast, isUnquoted_of_isPad hlast', hsigns, and_self]

theorem IsWritten.not_script_suffix (h : IsWritten form before opening ending) (s : List Char) :
    ¬ ".js".toList <:+ s ++ opening := by
  have hpad : ∀ {pad : List Char}, IsPad pad → 's' ∉ pad := by
    intro pad hpad hmem
    exact absurd (hpad 's' hmem) (by decide)
  have hgap : ∀ {t gap : List Char}, IsGap gap → ¬ ".js".toList <:+ t ++ gap := by
    intro t gap hgap hsuffix
    exact hpad hgap.pad (mem_of_script_suffix hsuffix hgap.ne_nil)
  cases h with
  | bare _ hlast => exact hgap hlast
  | named _ _ _ _ hlast =>
    rw [← List.append_assoc]
    exact hgap hlast
  | braced _ _ _ _ _ _ hlast =>
    rw [← List.append_assoc]
    exact hgap hlast
  | called _ _ _ _ _ _ hright =>
    intro hsuffix
    rw [← List.append_assoc] at hsuffix
    rcases List.mem_cons.1 (mem_of_script_suffix hsuffix (List.cons_ne_nil _ _)) with heq | hmem
    · exact absurd heq (by decide)
    · exact hpad hright hmem

theorem afterQuote?_of_not_word {gap x : List Char} (hgap : IsGap gap) (hx : IsIdentifier x)
    (hnot : ¬ ∀ c ∈ x, isWord c = true) (rest : List Char) :
    ImportForm.statement.afterQuote? (gap ++ (x ++ rest)) = none := by
  have hsolid : ∀ {s : List Char}, s ≠ [] → s <:+ x → IsSolid (s ++ rest) := by
    intro s hne hsuffix
    obtain ⟨c, more, rfl⟩ := List.exists_cons_of_ne_nil hne
    refine isSolid_cons (Bool.eq_false_iff.2 fun hblank => ?_) _
    have hword := hx.all c (hsuffix.mem List.mem_cons_self)
    rw [dollar_mem_of_isBlank hblank] at hword
    cases hword
  have hstop : x.dropWhile isWord ≠ [] := by
    intro hnil
    exact hnot (List.dropWhile_eq_nil_iff.1 hnil)
  have hdrop : (x ++ rest).dropWhile isWord = x.dropWhile isWord ++ rest := by
    rw [List.dropWhile_append, if_neg (by simpa using hstop)]
  have hclause : dropImportClause? (x ++ rest) = none := by
    have hbehind := dropBlanks?_of_isSolid (hsolid hstop (List.dropWhile_suffix isWord))
    have hnames : (afterNames? (x ++ rest)).bind dropBlanks? = none := by
      obtain ⟨c, more, rfl⟩ := List.exists_cons_of_ne_nil hx.ne_nil
      have hbrace : c ≠ '\x7b' := by
        rintro rfl
        exact absurd (hx.all _ List.mem_cons_self) (by decide)
      rw [List.cons_append] at hdrop ⊢
      rw [afterNames?, hdrop]
      · split
        · rfl
        · exact hbehind
      · intro r heq
        exact hbrace (List.cons.inj heq).1
    rw [dropImportClause?_eq, hnames]
    rfl
  have hquote : dropQuote? (x ++ rest) = none := by
    obtain ⟨c, more, rfl⟩ := List.exists_cons_of_ne_nil hx.ne_nil
    have hc : ¬ isQuote c = true := by
      intro hc
      have hword := hx.all c List.mem_cons_self
      rw [dollar_mem_of_isQuote hc] at hword
      cases hword
    rw [List.cons_append, dropQuote?, if_neg hc]
  rw [ImportForm.afterQuote?, dropBlanks?_padded hgap (hsolid hx.ne_nil (List.suffix_refl x)),
    Option.bind_some, hclause]
  exact hquote

/-- An opening is read, unless it has a name with a dollar sign; nothing else is read in its place. -/
theorem IsWritten.opens_or (h : IsWritten form before opening ending) :
    form.Opens opening ∨
      '$' ∈ opening ∧ ∀ rest, form.afterQuote? (opening ++ rest) = none := by
  cases h with
  | bare _ hgap => exact Or.inl (.bare hgap)
  | @named _ gap x gap' gap'' _ _ hgap hx hgap' hgap'' =>
    by_cases hall : ∀ c ∈ x, isWord c = true
    · exact Or.inl (.clause hgap (.word hx.ne_nil hall) hgap' hgap'')
    · refine Or.inr ⟨?_, fun rest => ?_⟩
      · obtain ⟨c, hc, hnot⟩ : ∃ c ∈ x, ¬ isWord c = true := by simpa using hall
        have hdollar : isWord c = true ∨ c = '$' := by simpa [WordClass.dollar] using hx.all c hc
        obtain rfl := hdollar.resolve_left hnot
        simp only [List.mem_append]
        exact Or.inl (Or.inl (Or.inl (Or.inr hc)))
      · simp only [List.append_assoc]
        exact afterQuote?_of_not_word hgap hx hall _
  | braced _ hgap hleft hx hright hgap' hgap'' =>
    refine Or.inl (.clause hgap (.braced ?_ ?_) hgap' hgap'')
    · simp [hx.ne_nil]
    · have hpad : ∀ {pad : List Char}, IsPad pad → '\x7d' ∉ pad := by
        intro pad hpad hmem
        exact absurd (hpad _ hmem) (by decide)
      rw [List.mem_append, List.mem_append, not_or, not_or]
      exact ⟨⟨hpad hleft, fun hmem => absurd (hx.all _ hmem) (by decide)⟩, hpad hright⟩
  | called _ _ _ _ _ hleft hright => exact Or.inl ⟨_, _, hleft, hright, rfl⟩

/-- Behind its path an import is closed. -/
theorem IsWritten.closes (h : IsWritten form before opening ending) {q : Char}
    (hq : isQuote q = true) :
    ∃ tail, tail <:+ ending ∧ ∀ more, form.Closes (q :: (ending ++ more)) (tail ++ more) := by
  cases h with
  | bare | named | braced => exact ⟨_, List.suffix_refl _, fun more => ⟨q, hq, rfl⟩⟩
  | @called _ _ _ _ _ _ _ last last' _ _ _ _ _ _ _ hlast =>
    refine ⟨last' ++ [';'], ⟨last ++ [')'], ?_⟩, fun more => ⟨q, last, hq, hlast, ?_⟩⟩
    · rw [List.append_assoc, List.singleton_append]
    · simp

theorem IsWritten.closes_call (h : IsWritten form before opening ending) {q : Char}
    {more rest : List Char} (hcloses : ImportForm.call.Closes (q :: (ending ++ more)) rest) :
    form = .call := by
  have hsemicolon : ∀ {pad : List Char}, IsPad pad →
      ¬ ImportForm.call.Closes (q :: (pad ++ [';'] ++ more)) rest := by
    rintro pad hpad ⟨q', pad', -, hpad', heq⟩
    have htrim := congrArg trimStart (List.cons.inj heq).2
    rw [List.append_assoc, List.singleton_append,
      trimStart_padded hpad (isSolid_cons (by decide) more),
      trimStart_padded hpad' (isSolid_cons (by decide) rest)] at htrim
    exact absurd (List.cons.inj htrim).1 (by decide)
  cases h with
  | bare _ _ hpad => exact absurd hcloses (hsemicolon hpad)
  | named _ _ _ _ _ hpad => exact absurd hcloses (hsemicolon hpad)
  | braced _ _ _ _ _ _ _ hpad => exact absurd hcloses (hsemicolon hpad)
  | called => rfl

/-- What closes an import stands behind the path of another, if a call is not closed behind that of a
statement. -/
theorem IsWritten.exists_closes_iff (h : IsWritten form before opening ending) {q : Char}
    (hq : isQuote q = true) (more : List Char) :
    (∃ rest, f.Closes (q :: (ending ++ more)) rest) ↔ (f = .call → form = .call) := by
  constructor
  · rintro ⟨rest, hcloses⟩ rfl
    exact h.closes_call hcloses
  · intro hcall
    cases f with
    | statement => exact ⟨_, q, hq, rfl⟩
    | call =>
      obtain rfl := hcall rfl
      obtain ⟨tail, -, hcloses⟩ := h.closes hq
      exact ⟨_, hcloses more⟩

end Written

/-! ## The end of a path -/

variable {f : ImportForm} {last rest : List Char}

theorem Statement.isUnquoted_lead (s : Statement) : IsUnquoted s.lead := by
  obtain ⟨hbefore, hopening, -⟩ := s.written.isUnquoted
  rw [lead, isUnquoted_append, isUnquoted_append]
  exact ⟨⟨hbefore, isUnquoted_of_word (ImportForm.keyword_all s.form)⟩, hopening⟩

theorem Statement.text_eq (s : Statement) :
    s.text = s.lead ++ s.quote :: (s.path ++ s.quote :: s.ending) := by
  simp [text, body, lead]

theorem Statement.newline_not_mem_path (s : Statement) : '\n' ∉ s.path :=
  fun hmem => (s.plain _ hmem).2 rfl

theorem Statement.newline_ne_quote (s : Statement) : '\n' ≠ s.quote := by
  intro heq
  have hquote := s.quoted
  rw [← heq] at hquote
  exact absurd hquote (by decide)

/-- A path that goes on over imports, behind a part without quotes, ends with that of a script on the
same line. `seen` is what comes before. -/
theorem exists_script_of_closes {statements : List Statement} (hlast : IsPad last)
    {seen part path after : List Char} (hpart : IsUnquoted part)
    (h : part ++ (textOf statements ++ last) = path ++ after) (hline : '\n' ∉ path)
    (hends : ".js".toList <:+ seen ++ path) (hcloses : f.Closes after rest) :
    ∃ between t later, statements = between ++ t :: later ∧ t.IsScript ∧
      (f = .call → t.form = .call) ∧ '\n' ∉ part ++ textOf between ++ t.lead := by
  obtain ⟨q, behind, hq, rfl⟩ := hcloses.exists_cons
  induction statements generalizing seen part path with
  | nil =>
    have hnot : IsUnquoted (part ++ last) := isUnquoted_append.2 ⟨hpart, isUnquoted_of_isPad hlast⟩
    have hquote := hnot q (by rw [show part ++ last = path ++ q :: behind from h]; simp)
    rw [hq] at hquote
    cases hquote
  | cons s statements ih =>
    have hlead : IsUnquoted (part ++ s.lead) := isUnquoted_append.2 ⟨hpart, s.isUnquoted_lead⟩
    have hpath : IsUnquoted s.path := fun c hc => (s.plain c hc).1
    have hsplit : part ++ s.lead ++ s.quote :: (s.path ++ s.quote ::
        (s.ending ++ (textOf statements ++ last))) = path ++ q :: behind := by
      rw [← h, textOf_cons, s.text_eq]
      simp
    rcases quote_cases hlead hq hsplit with ⟨rfl, -, -⟩ | ⟨path', rfl, hsplit'⟩
    · simp only [Statement.lead, ← List.append_assoc] at hends
      exact absurd hends (s.written.not_script_suffix _)
    · rw [← List.append_assoc] at hends
      have hends' := script_suffix_of_quote s.quoted hends
      have hlines : '\n' ∉ part ++ s.lead ∧ '\n' ∉ path' := by
        rw [List.mem_append, not_or, List.mem_cons, not_or] at hline
        exact ⟨hline.1, hline.2.2⟩
      rcases quote_cases hpath hq hsplit' with ⟨rfl, rfl, rfl⟩ | ⟨path'', rfl, hsplit''⟩
      · refine ⟨[], s, statements, rfl, hends', ?_, ?_⟩
        · exact (s.written.exists_closes_iff s.quoted _).1 ⟨rest, hcloses⟩
        · simpa [textOf] using hlines.1
      · have hbehind : '\n' ∉ s.path ∧ '\n' ≠ s.quote ∧ '\n' ∉ path'' := by
          simpa only [List.mem_append, List.mem_cons, not_or] using hlines.2
        have hends'' : ".js".toList <:+ s.path ++ [s.quote] ++ path'' := by
          rw [List.append_assoc]
          exact hends'
        obtain ⟨between, t, later, rfl, hscript, hcall, hline'⟩ :=
          ih s.written.isUnquoted.2.2 hbehind.2.2 hends'' hsplit''
        refine ⟨s :: between, t, later, rfl, hscript, hcall, ?_⟩
        simp only [textOf_cons, s.text_eq, List.mem_append, List.mem_cons, not_or] at hline' hlines ⊢
        exact ⟨⟨hlines.1.1, ⟨hlines.1.2, hbehind.2.1, hbehind.1, hbehind.2.1, hline'.1.1⟩, hline'.1.2⟩,
          hline'.2⟩

/-- Behind an import, on its line, there is a script; behind a call, one that is imported by a call. -/
def Statement.RunsInto (s : Statement) (after : List Statement) : Prop :=
  ∃ between t later, after = between ++ t :: later ∧ t.IsScript ∧ (s.form = .call → t.form = .call) ∧
    '\n' ∉ s.ending ++ textOf between ++ t.lead

/-- At a keyword an import can be read that has an opening which is read, and a path that ends: its own,
or that of a later script on the line. -/
theorem Statement.reads_body_iff (s : Statement) {after : List Statement} (hlast : IsPad last) :
    s.form.Reads (s.body ++ (textOf after ++ last)) ↔
      s.form.Opens s.opening ∧ (s.IsScript ∨ s.RunsInto after) := by
  have hpath : IsUnquoted s.path := fun c hc => (s.plain c hc).1
  have hbody : s.body ++ (textOf after ++ last) = s.form.keyword ++ (s.opening ++ s.quote ::
      (s.path ++ s.quote :: (s.ending ++ (textOf after ++ last)))) := by
    simp [body]
  constructor
  · intro hreads
    have hopens : s.form.Opens s.opening := by
      rw [hbody] at hreads
      obtain ⟨-, hsome⟩ := hreads.eq_keyword (ImportForm.keyword_all s.form) (s.written.head? _)
      refine s.written.opens_or.resolve_right fun hnone => ?_
      rw [hnone.2] at hsome
      cases hsome
    refine ⟨hopens, ?_⟩
    obtain ⟨opening, q, path, close, rest, heq, hopens', hq, hline, hcloses⟩ := hreads
    rw [hbody, List.append_assoc] at heq
    obtain ⟨-, hsplit⟩ := hopens.unique s.quoted hopens' hq (List.append_cancel_left heq)
    obtain ⟨q', behind, hq', rfl⟩ := hcloses.exists_cons
    rcases quote_cases hpath hq' hsplit with ⟨heq', -, -⟩ | ⟨path', heq', hbehind⟩
    · exact Or.inl ⟨path, heq'⟩
    · have hends : ".js".toList <:+ s.path ++ s.quote :: path' := ⟨path, heq'⟩
      have hends' := script_suffix_of_quote s.quoted hends
      have hline' : '\n' ∉ path' := by
        have hjs : '\n' ∉ ".js".toList := by decide
        have hall : '\n' ∉ path ++ ".js".toList := by
          rw [List.mem_append, not_or]
          exact ⟨hline, hjs⟩
        rw [heq', List.mem_append, not_or, List.mem_cons, not_or] at hall
        exact hall.2.2
      rw [← List.nil_append path'] at hends'
      exact Or.inr (exists_script_of_closes hlast s.written.isUnquoted.2.2 hbehind hline' hends'
        hcloses)
  · rintro ⟨hopens, hscript | ⟨between, t, later, rfl, hscript, hcall, hline⟩⟩
    · obtain ⟨path, heq⟩ := hscript
      obtain ⟨rest, hcloses⟩ := (s.written.exists_closes_iff s.quoted (textOf after ++ last)).2 id
      refine ⟨s.opening, s.quote, path, _, rest, ?_, hopens, s.quoted, ?_, hcloses⟩
      · rw [hbody, ← heq, List.append_assoc s.form.keyword]
      · intro hmem
        exact s.newline_not_mem_path (heq ▸ List.mem_append_left _ hmem)
    · obtain ⟨path, heq⟩ := hscript
      obtain ⟨rest, hcloses⟩ :=
        (t.written.exists_closes_iff t.quoted (textOf later ++ last)).2 hcall
      refine ⟨s.opening, s.quote, s.path ++ s.quote :: (s.ending ++ textOf between ++ t.lead ++
        t.quote :: path), _, rest, ?_, hopens, s.quoted, ?_, hcloses⟩
      · rw [hbody, textOf_append, textOf_cons, t.text_eq, ← heq]
        simp only [List.append_assoc, List.cons_append]
      · have hpath' : '\n' ∉ path := fun hmem =>
          t.newline_not_mem_path (heq ▸ List.mem_append_left _ hmem)
        simp only [List.mem_append, List.mem_cons, not_or] at hline ⊢
        exact ⟨s.newline_not_mem_path, s.newline_ne_quote, hline, t.newline_ne_quote, hpath'⟩

end JavaScript
end DeclScan
