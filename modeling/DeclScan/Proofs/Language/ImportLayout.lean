import DeclScan.Proofs.Language.Scripts

/-!
# DeclScan.Proofs.Language.ImportLayout

Imports as they are written: statements and calls of `require`, in any number and with any white space
between them and in them. In such a text an import can be read at its keyword, and else only within a
path: no other part of it holds the keyword with an opening behind it.

* `Statement`, `Layout`: imports and the text that they make.
* `ImportForm.Free`: no import can be read in a part of a text.
* `Statement.place_of_reads`, `Layout.place_of_reads`: where an import can be read.
-/

namespace DeclScan
namespace JavaScript

open Text

/-! ## Imports as they are written -/

/-- A word of letters, numbers, underscores and dollar signs. -/
structure IsIdentifier (x : List Char) : Prop where
  ne_nil : x ≠ []
  all : ∀ c ∈ x, WordClass.dollar.mem c = true

/-- What stands before the keyword of an import, between it and the path, and behind the path. An import
statement names a path, a default and a path, or a name in braces and a path; a call of `require`
initialises a constant. -/
inductive IsWritten : ImportForm → List Char → List Char → List Char → Prop where
  | bare {pad gap pad' : List Char} : IsPad pad → IsGap gap → IsPad pad' →
      IsWritten .statement pad gap (pad' ++ [';'])
  | named {pad gap x gap' gap'' pad' : List Char} : IsPad pad → IsGap gap → IsIdentifier x →
      IsGap gap' → IsGap gap'' → IsPad pad' →
      IsWritten .statement pad (gap ++ x ++ gap' ++ "from".toList ++ gap'') (pad' ++ [';'])
  | braced {pad gap left x right gap' gap'' pad' : List Char} : IsPad pad → IsGap gap →
      IsPad left → IsIdentifier x → IsPad right → IsGap gap' → IsGap gap'' → IsPad pad' →
      IsWritten .statement pad
        (gap ++ ('\x7b' :: (left ++ x ++ right) ++ ['\x7d']) ++ gap' ++ "from".toList ++ gap'')
        (pad' ++ [';'])
  | called {pad gap x left right left' right' last last' : List Char} : IsPad pad → IsGap gap →
      IsIdentifier x → IsPad left → IsPad right → IsPad left' → IsPad right' → IsPad last →
      IsPad last' →
      IsWritten .call (pad ++ "const".toList ++ gap ++ x ++ left ++ '=' :: right)
        (left' ++ '(' :: right') (last ++ ')' :: (last' ++ [';']))

/-- An import with the blanks before it. Its path has no quotes and lies on one line. -/
structure Statement where
  form : ImportForm
  before : List Char
  opening : List Char
  quote : Char
  path : List Char
  ending : List Char
  written : IsWritten form before opening ending
  quoted : isQuote quote = true
  plain : ∀ c ∈ path, isQuote c = false ∧ c ≠ '\n'

namespace Statement

/-- All that stands before the quote. -/
def lead (s : Statement) : List Char := s.before ++ s.form.keyword ++ s.opening

/-- The import from its keyword on. -/
def body (s : Statement) : List Char :=
  s.form.keyword ++ s.opening ++ s.quote :: (s.path ++ s.quote :: s.ending)

def text (s : Statement) : List Char := s.before ++ s.body

def IsScript (s : Statement) : Prop := ".js".toList <:+ s.path

instance (s : Statement) : Decidable s.IsScript := inferInstanceAs (Decidable (_ <:+ _))

end Statement

/-- The text of imports, one behind the other. -/
def textOf (statements : List Statement) : List Char := statements.flatMap Statement.text

theorem textOf_cons (s : Statement) (statements : List Statement) :
    textOf (s :: statements) = s.text ++ textOf statements := rfl

theorem textOf_append (statements more : List Statement) :
    textOf (statements ++ more) = textOf statements ++ textOf more := List.flatMap_append

/-- Imports, and the blanks behind the last of them. -/
structure Layout where
  statements : List Statement
  last : List Char
  blank : IsPad last

def Layout.text (l : Layout) : List Char := textOf l.statements ++ l.last

/-! ## Parts of a text -/

theorem append_eq_append_cases {α : Type} {s t u v : List α} (h : s ++ t = u ++ v) :
    (∃ a, u = s ++ a ∧ t = a ++ v) ∨ ∃ a, a ≠ [] ∧ s = u ++ a ∧ v = a ++ t := by
  rcases List.append_eq_append_iff.1 h with ⟨a, hu, ht⟩ | ⟨a, hs, hv⟩
  · exact Or.inl ⟨a, hu, ht⟩
  · cases a with
    | nil => exact Or.inl ⟨[], by simpa using hs.symm, by simpa using hv.symm⟩
    | cons c a => exact Or.inr ⟨c :: a, List.cons_ne_nil _ _, hs, hv⟩

theorem dollar_mem_of_isBlank {c : Char} (h : isBlank c = true) : WordClass.dollar.mem c = false :=
  WordClass.mem_eq_false_of_isBlank _ h

theorem head?_gap_append {gap : List Char} (h : IsGap gap) (s : List Char) :
    (gap ++ s).head?.any WordClass.dollar.mem = false := by
  obtain ⟨b, rest, rfl, hb⟩ := h.exists_cons
  exact dollar_mem_of_isBlank hb

theorem head?_pad_append {pad : List Char} (h : IsPad pad) {c : Char}
    (hc : WordClass.dollar.mem c = false) (s : List Char) :
    (pad ++ c :: s).head?.any WordClass.dollar.mem = false := by
  cases pad with
  | nil => exact hc
  | cons b rest => exact dollar_mem_of_isBlank (h b List.mem_cons_self)

theorem dollar_mem_of_isQuote {c : Char} (h : isQuote c = true) : WordClass.dollar.mem c = false := by
  simp only [isQuote, Bool.or_eq_true, decide_eq_true_eq] at h
  rcases h with rfl | rfl <;> decide

theorem IsWritten.head? {form : ImportForm} {before opening ending : List Char}
    (h : IsWritten form before opening ending) (s : List Char) :
    (opening ++ s).head?.any WordClass.dollar.mem = false := by
  cases h with
  | bare _ hgap => exact head?_gap_append hgap s
  | named _ hgap =>
    simp only [List.append_assoc]
    exact head?_gap_append hgap _
  | braced _ hgap =>
    simp only [List.append_assoc]
    exact head?_gap_append hgap _
  | called _ _ _ _ _ hleft =>
    rw [List.append_assoc, List.cons_append]
    exact head?_pad_append hleft (by decide) _

namespace ImportForm

variable {f : ImportForm} {s t rest opening : List Char}

theorem keyword_all (f : ImportForm) : ∀ c ∈ f.keyword, WordClass.dollar.mem c = true := by
  have hall : f.keyword.all isNameRest = true := by cases f <;> rfl
  intro c hc
  exact WordClass.mem_of_isNameRest _ (List.all_eq_true.1 hall c hc)

theorem Opens.head? (h : f.Opens opening) (s : List Char) :
    (opening ++ s).head?.any WordClass.dollar.mem = false := by
  cases f with
  | statement =>
    cases h with
    | bare hgap => exact head?_gap_append hgap s
    | clause hgap =>
      simp only [List.append_assoc]
      exact head?_gap_append hgap _
  | call =>
    obtain ⟨pad, pad', hpad, -, rfl⟩ := h
    rw [List.append_assoc, List.cons_append]
    exact head?_pad_append hpad (by decide) _

theorem Reads.ne_nil (h : f.Reads s) : s ≠ [] := by
  rintro rfl
  obtain ⟨opening, q, path, after, rest, heq, -⟩ := h
  simp at heq

theorem Reads.eq_keyword (h : f.Reads (s ++ rest)) (hs : ∀ c ∈ s, WordClass.dollar.mem c = true)
    (hrest : rest.head?.any WordClass.dollar.mem = false) :
    s = f.keyword ∧ (f.afterQuote? rest).isSome := by
  obtain ⟨opening, q, path, after, rest', heq, hopens, hq, -, -⟩ := h
  rw [List.append_assoc] at heq
  have hbehind := hopens.head? (q :: (path ++ ".js".toList ++ after))
  rcases List.append_eq_append_iff.1 heq with ⟨a, hkeyword, hrest'⟩ | ⟨a, hs', hopening⟩
  · cases a with
    | nil =>
      refine ⟨by simpa using hkeyword.symm, ?_⟩
      rw [hrest', List.nil_append, afterQuote?_append hopens hq]
      rfl
    | cons c a =>
      have hc := keyword_all f c (by simp [hkeyword])
      rw [hrest', List.cons_append, List.head?_cons, Option.any_some, hc] at hrest
      cases hrest
  · cases a with
    | nil =>
      rw [List.nil_append] at hopening
      refine ⟨by simpa using hs', ?_⟩
      rw [← hopening, afterQuote?_append hopens hq]
      rfl
    | cons c a =>
      have hc := hs c (by simp [hs'])
      rw [hopening, List.cons_append, List.head?_cons, Option.any_some, hc] at hbehind
      cases hbehind

/-! ## Where no import can be read -/

/-- In this part of a text, with the rest behind it, no import can be read. -/
def Free (f : ImportForm) (s rest : List Char) : Prop :=
  ∀ u v, s = u ++ v → v ≠ [] → ¬ f.Reads (v ++ rest)

theorem Free.append (hs : f.Free s (t ++ rest)) (ht : f.Free t rest) : f.Free (s ++ t) rest := by
  intro u v huv hv
  rcases append_eq_append_cases huv with ⟨a, -, rfl⟩ | ⟨a, ha, rfl, rfl⟩
  · exact ht a v rfl hv
  · rw [List.append_assoc]
    exact hs u a rfl ha

theorem free_of_head (h : ∀ c ∈ s, f.keyword.head? ≠ some c) (rest : List Char) :
    f.Free s rest := by
  rintro u v rfl hv ⟨opening, q, path, after, rest', heq, -⟩
  obtain ⟨c, v, rfl⟩ := List.exists_cons_of_ne_nil hv
  refine h c (by simp) ?_
  obtain ⟨first, more, hkeyword⟩ : ∃ first more, f.keyword = first :: more := by
    cases f <;> exact ⟨_, _, rfl⟩
  rw [hkeyword] at heq ⊢
  exact congrArg some (List.cons.inj heq).1.symm

theorem free_of_isPad (h : IsPad s) (rest : List Char) : f.Free s rest := by
  refine free_of_head (fun c hc hhead => ?_) rest
  have hblank := h c hc
  have hword := keyword_all f c (List.mem_of_head? hhead)
  rw [dollar_mem_of_isBlank hblank] at hword
  cases hword

theorem free_of_not_mem {c : Char} (h : WordClass.dollar.mem c = false) (rest : List Char) :
    f.Free [c] rest := by
  refine free_of_head (fun d hd hhead => ?_) rest
  obtain rfl := List.mem_singleton.1 hd
  rw [keyword_all f d (List.mem_of_head? hhead)] at h
  cases h

theorem free_of_word (hs : ∀ c ∈ s, WordClass.dollar.mem c = true)
    (hrest : rest.head?.any WordClass.dollar.mem = false)
    (hnone : f.keyword <:+ s → f.afterQuote? rest = none) : f.Free s rest := by
  rintro u v rfl hv hreads
  have hv' : ∀ c ∈ v, WordClass.dollar.mem c = true := fun c hc => hs c (List.mem_append_right _ hc)
  obtain ⟨rfl, hsome⟩ := hreads.eq_keyword hv' hrest
  rw [hnone (List.suffix_append u _)] at hsome
  cases hsome

theorem free_of_not_infix (h : ¬ f.keyword <:+: s) {q : Char} (hq : isQuote q = true) :
    f.Free s (q :: rest) := by
  rintro u v rfl - ⟨opening, q', path, after, rest', heq, -⟩
  rw [List.append_assoc] at heq
  rcases List.append_eq_append_iff.1 heq with ⟨a, hkeyword, hrest⟩ | ⟨a, hv, -⟩
  · cases a with
    | nil =>
      rw [List.append_nil] at hkeyword
      exact h ⟨u, [], by simp [hkeyword]⟩
    | cons c a =>
      obtain ⟨rfl, -⟩ := List.cons.inj hrest
      have hword := keyword_all f q (by simp [hkeyword])
      rw [dollar_mem_of_isQuote hq] at hword
      cases hword
  · exact h ⟨u, a, by rw [hv, List.append_assoc]⟩

theorem Free.cons {c : Char} (hc : WordClass.dollar.mem c = false) (hs : f.Free s rest) :
    f.Free (c :: s) rest :=
  Free.append (free_of_not_mem hc _) hs

theorem afterQuote?_of_sign {pad : List Char} (hpad : IsPad pad) {c : Char}
    (hc : c = '=' ∨ c = '\x7d') (rest : List Char) : f.afterQuote? (pad ++ c :: rest) = none := by
  have hsolid : IsSolid (c :: rest) := by
    rcases hc with rfl | rfl <;> exact isSolid_cons (by decide) rest
  cases f with
  | statement =>
    have hnames : afterNames? (c :: rest) = none := by
      rcases hc with rfl | rfl <;> rfl
    have hquote : dropQuote? (c :: rest) = none := by
      rcases hc with rfl | rfl <;> rfl
    cases hblanks : dropBlanks? (pad ++ c :: rest) with
    | none => rw [afterQuote?, hblanks, Option.bind_none]
    | some r =>
      obtain ⟨gap, hgap, heq⟩ := exists_gap_of_dropBlanks? hblanks
      have hr : r = c :: rest := by
        have htrim := congrArg trimStart heq
        have hsome := dropBlanks?_append hgap r
        rw [← heq, hblanks, Option.some.injEq] at hsome
        rw [trimStart_padded hpad hsolid, trimStart_append hgap.pad, ← hsome] at htrim
        exact htrim.symm
      rw [afterQuote?, hblanks, Option.bind_some, hr, dropImportClause?_eq, hnames]
      exact hquote
  | call =>
    have hparen : dropLiteral ['('] (c :: rest) = none := by
      rcases hc with rfl | rfl <;> rfl
    rw [afterQuote?, trimStart_padded hpad hsolid, hparen, Option.bind_none]

theorem afterQuote?_of_from {gap gap' : List Char} (hgap : IsGap gap) (hgap' : IsGap gap') {q : Char}
    (hq : isQuote q = true) (rest : List Char) :
    f.afterQuote? (gap ++ ("from".toList ++ (gap' ++ q :: rest))) = none := by
  have hsolid : IsSolid ("from".toList ++ (gap' ++ q :: rest)) := isSolid_cons (by decide) _
  cases f with
  | statement =>
    have hfrom : IsNames "from".toList := by
      have hall : "from".toList.all isWord = true := rfl
      exact .word (by simp) (List.all_eq_true.1 hall)
    have hnames := afterNames?_append hfrom hgap' (q :: rest)
    have hliteral : dropLiteral "from".toList (q :: rest) = none := by
      have hne : 'f' ≠ q := by
        rintro rfl
        revert hq
        decide
      exact if_neg hne
    have hquote : dropQuote? ("from".toList ++ (gap' ++ q :: rest)) = none := rfl
    rw [afterQuote?, dropBlanks?_padded hgap hsolid, Option.bind_some, dropImportClause?_eq, hnames,
      Option.bind_some, dropBlanks?_padded hgap' (isSolid_cons (isBlank_of_isQuote hq) rest),
      Option.bind_some, hliteral]
    exact hquote
  | call =>
    have hparen : dropLiteral ['('] ("from".toList ++ (gap' ++ q :: rest)) = none := rfl
    rw [afterQuote?, trimStart_padded hgap.pad hsolid, hparen, Option.bind_none]

/-! ## Where an import can be read -/

variable {form : ImportForm} {before ending : List Char}

theorem free_before (h : IsWritten form before opening ending) (f : ImportForm) (rest : List Char) :
    f.Free before rest := by
  cases h with
  | bare hpad => exact free_of_isPad hpad rest
  | named hpad => exact free_of_isPad hpad rest
  | braced hpad => exact free_of_isPad hpad rest
  | @called pad gap x left right _ _ _ _ hpad hgap hx hleft hright =>
    have hconst : ∀ c ∈ "const".toList, f.keyword.head? ≠ some c := by
      have hall : "const".toList.all (fun c => f.keyword.head? ≠ some c) = true := by
        cases f <;> rfl
      intro c hc
      simpa using List.all_eq_true.1 hall c hc
    refine Free.append (Free.append (Free.append (Free.append (Free.append ?_ ?_) ?_) ?_) ?_) ?_
    · exact free_of_isPad hpad _
    · exact free_of_head hconst _
    · exact free_of_isPad hgap.pad _
    · refine free_of_word hx.all (head?_pad_append hleft (by decide) _) fun _ => ?_
      exact afterQuote?_of_sign hleft (Or.inl rfl) _
    · exact free_of_isPad hleft _
    · exact Free.cons (by decide) (free_of_isPad hright rest)

theorem free_from (f : ImportForm) {gap : List Char} (hgap : IsGap gap) (rest : List Char) :
    f.Free "from".toList (gap ++ rest) := by
  have hword : "from".toList.all isNameRest = true := rfl
  refine free_of_word (fun c hc => ?_) (head?_gap_append hgap rest) fun hsuffix => ?_
  · exact WordClass.mem_of_isNameRest _ (List.all_eq_true.1 hword c hc)
  · have hlonger : ¬ f.keyword.length ≤ "from".toList.length := by cases f <;> decide
    exact absurd hsuffix.length_le hlonger

theorem free_opening (h : IsWritten form before opening ending) (f : ImportForm) {q : Char}
    (hq : isQuote q = true) (rest : List Char) : f.Free opening (q :: rest) := by
  cases h with
  | bare _ hgap => exact free_of_isPad hgap.pad _
  | @named _ gap x gap' gap'' _ _ hgap hx hgap' hgap'' =>
    refine Free.append (Free.append (Free.append (Free.append ?_ ?_) ?_) ?_) ?_
    · exact free_of_isPad hgap.pad _
    · refine free_of_word hx.all (head?_gap_append hgap' _) fun _ => ?_
      exact afterQuote?_of_from hgap' hgap'' hq rest
    · exact free_of_isPad hgap'.pad _
    · exact free_from f hgap'' _
    · exact free_of_isPad hgap''.pad _
  | @braced _ gap left x right gap' gap'' _ _ hgap hleft hx hright hgap' hgap'' =>
    refine Free.append (Free.append (Free.append (Free.append ?_ (Free.append (Free.cons (by decide)
      (Free.append (Free.append ?_ ?_) ?_)) ?_)) ?_) ?_) ?_
    · exact free_of_isPad hgap.pad _
    · exact free_of_isPad hleft _
    · refine free_of_word hx.all (head?_pad_append hright (by decide) _) fun _ => ?_
      exact afterQuote?_of_sign hright (Or.inr rfl) _
    · exact free_of_isPad hright _
    · exact free_of_not_mem (by decide) _
    · exact free_of_isPad hgap'.pad _
    · exact free_from f hgap'' _
    · exact free_of_isPad hgap''.pad _
  | called _ _ _ _ _ hleft hright =>
    exact Free.append (free_of_isPad hleft _) (Free.cons (by decide) (free_of_isPad hright _))

theorem free_ending (h : IsWritten form before opening ending) (f : ImportForm) (rest : List Char) :
    f.Free ending rest := by
  cases h with
  | bare _ _ hpad => exact Free.append (free_of_isPad hpad _) (free_of_not_mem (by decide) _)
  | named _ _ _ _ _ hpad =>
    exact Free.append (free_of_isPad hpad _) (free_of_not_mem (by decide) _)
  | braced _ _ _ _ _ _ _ hpad =>
    exact Free.append (free_of_isPad hpad _) (free_of_not_mem (by decide) _)
  | called _ _ _ _ _ _ _ hlast hlast' =>
    exact Free.append (free_of_isPad hlast _) (Free.cons (by decide)
      (Free.append (free_of_isPad hlast' _) (free_of_not_mem (by decide) _)))

theorem eq_of_reads_keyword {u v : List Char} (h : form.keyword = u ++ v) (hv : v ≠ [])
    (hrest : rest.head?.any WordClass.dollar.mem = false) (hreads : f.Reads (v ++ rest)) :
    u = [] ∧ form = f := by
  have hword : ∀ c ∈ v, WordClass.dollar.mem c = true := by
    intro c hc
    exact keyword_all form c (by simp [h, hc])
  obtain ⟨rfl, -⟩ := hreads.eq_keyword hword hrest
  have hform : form = f := by
    have hsuffix : f.keyword <:+ form.keyword := ⟨u, h.symm⟩
    cases form <;> cases f <;> first | rfl | exact absurd hsuffix (by decide)
  subst hform
  exact ⟨List.append_left_eq_self.1 h.symm, rfl⟩

end ImportForm

variable {f : ImportForm} {u v rest : List Char}

/-- In an import another can be read only at its keyword, in its path, or behind it. -/
theorem Statement.place_of_reads {s : Statement} (h : s.text ++ rest = u ++ v) (hreads : f.Reads v) :
    (u = s.before ∧ s.form = f ∧ v = s.body ++ rest) ∨
      (∃ p p', s.path = p ++ p' ∧ u = s.lead ++ s.quote :: p ∧
        v = p' ++ s.quote :: (s.ending ++ rest)) ∨
      ∃ a, u = s.text ++ a ∧ rest = a ++ v := by
  have hfree : ∀ {part more a b : List Char}, f.Free part more → b ≠ [] → part = a ++ b →
      v = b ++ more → False := by
    rintro part more a b hpart hb heq rfl
    exact hpart a b heq hb hreads
  have hquote := dollar_mem_of_isQuote s.quoted
  have hparts : s.before ++ (s.form.keyword ++ (s.opening ++ ([s.quote] ++ (s.path ++
      ([s.quote] ++ (s.ending ++ rest)))))) = u ++ v := by
    rw [← h]
    simp [text, body]
  rcases append_eq_append_cases hparts with ⟨a, rfl, h1⟩ | ⟨a, ha, hpart, hv⟩
  swap
  · exact (hfree (ImportForm.free_before s.written f _) ha hpart hv).elim
  rcases append_eq_append_cases h1 with ⟨b, rfl, h2⟩ | ⟨b, hb, hpart, rfl⟩
  swap
  · have hhead : (s.opening ++ ([s.quote] ++ (s.path ++
        ([s.quote] ++ (s.ending ++ rest))))).head?.any WordClass.dollar.mem = false :=
      s.written.head? _
    obtain ⟨rfl, hform⟩ := ImportForm.eq_of_reads_keyword hpart hb hhead hreads
    refine Or.inl ⟨by simp, hform, ?_⟩
    rw [List.nil_append] at hpart
    simp [body, hpart]
  rcases append_eq_append_cases h2 with ⟨c, rfl, h3⟩ | ⟨c, hc, hpart, hv⟩
  swap
  · exact (hfree (ImportForm.free_opening s.written f s.quoted _) hc hpart hv).elim
  rcases append_eq_append_cases h3 with ⟨d, rfl, h4⟩ | ⟨d, hd, hpart, hv⟩
  swap
  · exact (hfree (ImportForm.free_of_not_mem hquote _) hd hpart hv).elim
  rcases append_eq_append_cases h4 with ⟨e, rfl, h5⟩ | ⟨e, he, hpart, rfl⟩
  swap
  · exact Or.inr (Or.inl ⟨d, e, hpart, by simp [lead], by simp⟩)
  rcases append_eq_append_cases h5 with ⟨g, rfl, h6⟩ | ⟨g, hg, hpart, hv⟩
  swap
  · exact (hfree (ImportForm.free_of_not_mem hquote _) hg hpart hv).elim
  rcases append_eq_append_cases h6 with ⟨k, rfl, h7⟩ | ⟨k, hk, hpart, hv⟩
  swap
  · exact (hfree (ImportForm.free_ending s.written f rest) hk hpart hv).elim
  exact Or.inr (Or.inr ⟨k, by simp [text, body], h7⟩)

/-- In a text of imports one can be read only at a keyword of its form or in a path. -/
theorem place_of_reads {statements : List Statement} {last : List Char} (hlast : IsPad last)
    (h : textOf statements ++ last = u ++ v) (hreads : f.Reads v) :
    ∃ before s after, statements = before ++ s :: after ∧
      ((u = textOf before ++ s.before ∧ s.form = f ∧ v = s.body ++ (textOf after ++ last)) ∨
        ∃ p p', s.path = p ++ p' ∧ u = textOf before ++ (s.lead ++ s.quote :: p) ∧
          v = p' ++ s.quote :: (s.ending ++ (textOf after ++ last))) := by
  induction statements generalizing u with
  | nil =>
    have hfree : f.Free last [] := ImportForm.free_of_isPad hlast []
    have hne := hreads.ne_nil
    rw [← List.append_nil v] at hreads
    exact absurd hreads (hfree u v h hne)
  | cons s statements ih =>
    have htext : s.text ++ (textOf statements ++ last) = u ++ v := by
      rw [← h, textOf_cons, List.append_assoc]
    rcases s.place_of_reads htext hreads with hown | hpath | ⟨a, rfl, hrest⟩
    · exact ⟨[], s, statements, rfl, Or.inl hown⟩
    · exact ⟨[], s, statements, rfl, Or.inr hpath⟩
    · obtain ⟨before, t, after, rfl, hplace⟩ := ih hrest
      refine ⟨s :: before, t, after, rfl, ?_⟩
      simpa only [textOf_cons, List.append_assoc, List.append_cancel_left_eq] using hplace

end JavaScript
end DeclScan
