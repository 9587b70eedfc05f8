import DeclScan.Language.JavaScript
import DeclScan.Proofs.Occurrence
import DeclScan.Proofs.Text.Blanks

/-!
# DeclScan.Proofs.Language.Scripts

How the path of a script is read. An import statement and a call of `require` have the same parts: a
keyword, what stands between it and a quote, a path that ends in `.js`, and what closes it. The path is
the shortest one, but it may hold anything that is no newline, and so another quote.

* `ImportForm.Opens`, `ImportForm.Closes`: what may stand before the quote, and behind the path.
* `ImportForm.Reads`: an import can be read at the front of a text.
* `ImportForm.isSome_recogniser_iff`: the recogniser finds an import where one can be read.
* `ImportForm.recogniser_of_opens`: a path without quotes is read as it stands.
-/

namespace DeclScan
namespace JavaScript

open Text

/-! ## Forms -/

/-- The forms in which a script is imported. -/
inductive ImportForm where
  | statement
  | call
  deriving DecidableEq

/-- What an import statement names: one word, or names in braces. -/
inductive IsNames : List Char → Prop where
  | word {word : List Char} : word ≠ [] → (∀ c ∈ word, isWord c = true) → IsNames word
  | braced {names : List Char} : names ≠ [] → '\x7d' ∉ names →
      IsNames ('\x7b' :: names ++ ['\x7d'])

/-- What stands between `import` and the quote: white space alone, or names and `from` in it. -/
inductive OpensStatement : List Char → Prop where
  | bare {gap : List Char} : IsGap gap → OpensStatement gap
  | clause {gap names gap' gap'' : List Char} : IsGap gap → IsNames names → IsGap gap' →
      IsGap gap'' → OpensStatement (gap ++ names ++ gap' ++ "from".toList ++ gap'')

namespace ImportForm

def recogniser : ImportForm → Recogniser (List Char)
  | statement => importStatement
  | call => requireCall

def keyword : ImportForm → List Char
  | statement => "import".toList
  | call => "require".toList

def kind : ImportForm → ImportKind
  | statement => .importStatement
  | call => .requireCall

/-- What may stand between the keyword and the quote. -/
def Opens : ImportForm → List Char → Prop
  | statement, opening => OpensStatement opening
  | call, opening => ∃ pad pad', IsPad pad ∧ IsPad pad' ∧ opening = pad ++ '(' :: pad'

/-- What stands behind a path: a quote, and in a call a closing parenthesis. -/
def Closes : ImportForm → List Char → List Char → Prop
  | statement, s, rest => ∃ q, isQuote q = true ∧ s = q :: rest
  | call, s, rest => ∃ q pad, isQuote q = true ∧ IsPad pad ∧ s = q :: (pad ++ ')' :: rest)

/-- At the front of the text an import can be read. -/
def Reads (f : ImportForm) (s : List Char) : Prop :=
  ∃ opening q path after rest, s = f.keyword ++ opening ++ q :: (path ++ ".js".toList ++ after) ∧
    f.Opens opening ∧ isQuote q = true ∧ '\n' ∉ path ∧ f.Closes after rest

/-- The text behind the keyword, from behind the quote on. -/
def afterQuote? : ImportForm → List Char → Option (List Char)
  | statement, s => (dropBlanks? s).bind fun r => dropQuote? ((dropImportClause? r).getD r)
  | call, s => (dropLiteral ['('] (trimStart s)).bind fun r => dropQuote? (trimStart r)

def close? : ImportForm → List Char → Option (List Char)
  | statement => dropQuote?
  | call => dropCallEnd?

theorem recogniser_eq (f : ImportForm) (before : Option Char) (s : List Char) :
    f.recogniser before s =
      (((dropLiteral f.keyword s).bind f.afterQuote?).bind (scriptPath? f.close? [])).map
        fun (path, rest) => (path, s.length - rest.length) := by
  cases f with
  | statement =>
    have hassoc : (dropLiteral "import".toList s).bind statement.afterQuote? =
        ((dropLiteral "import".toList s).bind dropBlanks?).bind
          fun r => dropQuote? ((dropImportClause? r).getD r) := by
      rw [Option.bind_assoc]
      rfl
    have hkeyword : statement.keyword = "import".toList := by rfl
    rw [recogniser, importStatement, hkeyword, hassoc]
    cases (dropLiteral "import".toList s).bind dropBlanks? with
    | none => rfl
    | some r => rfl
  | call => rfl

end ImportForm

/-! ## Up to the quote -/

theorem dropQuote?_eq_some_iff {s rest : List Char} :
    dropQuote? s = some rest ↔ ∃ q, isQuote q = true ∧ s = q :: rest := by
  cases s with
  | nil => simp [dropQuote?]
  | cons c s =>
    rw [dropQuote?]
    constructor
    · intro h
      split at h
      · rename_i hc
        cases h
        exact ⟨c, hc, rfl⟩
      · cases h
    · rintro ⟨q, hq, heq⟩
      cases heq
      rw [if_pos hq]

theorem isBlank_of_isQuote {c : Char} (h : isQuote c = true) : isBlank c = false := by
  simp only [isQuote, Bool.or_eq_true, decide_eq_true_eq] at h
  rcases h with rfl | rfl <;> decide

theorem isWord_of_isQuote {c : Char} (h : isQuote c = true) : isWord c = false := by
  simp only [isQuote, Bool.or_eq_true, decide_eq_true_eq] at h
  rcases h with rfl | rfl <;> decide

theorem trimStart_eq_cons_iff {s rest : List Char} {c : Char} (hc : isBlank c = false) :
    trimStart s = c :: rest ↔ ∃ pad, IsPad pad ∧ s = pad ++ c :: rest := by
  constructor
  · intro h
    obtain ⟨pad, hs, hpad⟩ := eq_append_trimStart s
    exact ⟨pad, hpad, by rw [← h, ← hs]⟩
  · rintro ⟨pad, hpad, rfl⟩
    exact trimStart_padded hpad (isSolid_cons hc rest)

theorem dropLiteral_trimStart_eq_some_iff {s rest : List Char} {c : Char} (hc : isBlank c = false) :
    dropLiteral [c] (trimStart s) = some rest ↔ ∃ pad, IsPad pad ∧ s = pad ++ c :: rest := by
  rw [dropLiteral_eq_some_iff, List.singleton_append, trimStart_eq_cons_iff hc]

theorem from_eq_some_iff {s t : List Char} :
    ((dropBlanks? s).bind (dropLiteral "from".toList)).bind dropBlanks? = some t ↔
      IsSolid t ∧ ∃ gap gap', IsGap gap ∧ IsGap gap' ∧ s = gap ++ "from".toList ++ gap' ++ t := by
  constructor
  · intro h
    obtain ⟨r, hr, ht⟩ := Option.bind_eq_some_iff.1 h
    obtain ⟨r', hr', hfrom⟩ := Option.bind_eq_some_iff.1 hr
    obtain ⟨gap, hgap, rfl⟩ := exists_gap_of_dropBlanks? hr'
    obtain ⟨gap', hgap', rfl⟩ := exists_gap_of_dropBlanks? ht
    have hsolid : IsSolid t := by
      rw [dropBlanks?_append hgap', Option.some.injEq] at ht
      rw [← ht]
      exact isSolid_trimStart t
    refine ⟨hsolid, gap, gap', hgap, hgap', ?_⟩
    rw [eq_append_of_dropLiteral hfrom]
    simp only [List.append_assoc]
  · rintro ⟨hsolid, gap, gap', hgap, hgap', rfl⟩
    have hfrom : IsSolid ("from".toList ++ (gap' ++ t)) := isSolid_cons (by decide) _
    rw [List.append_assoc, List.append_assoc, dropBlanks?_padded hgap hfrom, Option.bind_some,
      dropLiteral_append, Option.bind_some, dropBlanks?_padded hgap' hsolid]

/-- The text behind the names of a clause. -/
def afterNames? : List Char → Option (List Char)
  | '\x7b' :: r =>
    match r.takeWhile (· ≠ '\x7d'), r.dropWhile (· ≠ '\x7d') with
    | _ :: _, _ :: rest => some rest
    | _, _ => none
  | r => if r.takeWhile isWord = [] then none else some (r.dropWhile isWord)

theorem dropImportClause?_eq (r : List Char) :
    dropImportClause? r =
      (((afterNames? r).bind dropBlanks?).bind (dropLiteral "from".toList)).bind dropBlanks? := by
  rfl

theorem isNames_of_afterNames? {r rest : List Char} (h : afterNames? r = some rest) :
    ∃ names, IsNames names ∧ r = names ++ rest := by
  unfold afterNames? at h
  split at h
  · rename_i r'
    split at h
    · rename_i c inner d rest' hinner hrest
      cases h
      have hsplit := List.takeWhile_append_dropWhile (p := (· ≠ '\x7d')) (l := r')
      have hend := head?_dropWhile (· ≠ '\x7d') r'
      rw [hrest] at hend
      obtain rfl : d = '\x7d' := by simpa using hend
      refine ⟨'\x7b' :: (c :: inner) ++ ['\x7d'], .braced (List.cons_ne_nil _ _) ?_, ?_⟩
      · intro hmem
        rw [← hinner] at hmem
        have := List.mem_takeWhile_imp hmem
        simp at this
      · rw [← hsplit, hinner, hrest]
        simp
    · cases h
  · split at h
    · cases h
    · rename_i hne
      cases h
      exact ⟨r.takeWhile isWord, .word hne fun c hc => List.mem_takeWhile_imp hc,
        List.takeWhile_append_dropWhile.symm⟩

theorem afterNames?_append {names gap : List Char} (hnames : IsNames names) (hgap : IsGap gap)
    (s : List Char) : afterNames? (names ++ (gap ++ s)) = some (gap ++ s) := by
  cases hnames with
  | @word word hne hall =>
    obtain ⟨b, blanks, rfl, hb⟩ := hgap.exists_cons
    have hstop : isWord b = false := isWord_eq_false_of_isBlank hb
    obtain ⟨c, rest, rfl⟩ := List.exists_cons_of_ne_nil hne
    have hbrace : c ≠ '\x7b' := by
      rintro rfl
      have := hall '\x7b' List.mem_cons_self
      revert this
      decide
    have htake : (c :: rest ++ (b :: blanks ++ s)).takeWhile isWord = c :: rest := by
      rw [List.takeWhile_append_of_pos hall]
      simp [hstop]
    have hdrop : (c :: rest ++ (b :: blanks ++ s)).dropWhile isWord = b :: blanks ++ s := by
      rw [List.dropWhile_append_of_pos hall]
      simp [hstop]
    rw [List.cons_append] at htake hdrop ⊢
    rw [afterNames?, htake, hdrop, if_neg (List.cons_ne_nil _ _)]
    intro r heq
    exact hbrace (List.cons.inj heq).1
  | @braced inner hne hbrace =>
    obtain ⟨c, more, rfl⟩ := List.exists_cons_of_ne_nil hne
    have hall : ∀ d ∈ c :: more, decide (d ≠ '\x7d') = true := by
      intro d hd
      exact decide_eq_true fun heq => hbrace (heq ▸ hd)
    have hassoc : '\x7b' :: (c :: more) ++ ['\x7d'] ++ (gap ++ s) =
        '\x7b' :: (c :: more ++ '\x7d' :: (gap ++ s)) := by
      simp
    have htake : (c :: more ++ '\x7d' :: (gap ++ s)).takeWhile (· ≠ '\x7d') = c :: more := by
      rw [List.takeWhile_append_of_pos hall]
      simp
    have hdrop : (c :: more ++ '\x7d' :: (gap ++ s)).dropWhile (· ≠ '\x7d') =
        '\x7d' :: (gap ++ s) := by
      rw [List.dropWhile_append_of_pos hall]
      simp
    rw [hassoc, afterNames?, htake, hdrop]

theorem dropImportClause?_eq_some_iff {r t : List Char} :
    dropImportClause? r = some t ↔ IsSolid t ∧ ∃ names gap gap', IsNames names ∧ IsGap gap ∧
      IsGap gap' ∧ r = names ++ gap ++ "from".toList ++ gap' ++ t := by
  rw [dropImportClause?_eq]
  constructor
  · intro h
    cases hrest : afterNames? r with
    | none =>
      rw [hrest] at h
      cases h
    | some rest =>
      rw [hrest, Option.bind_some, from_eq_some_iff] at h
      obtain ⟨hsolid, gap, gap', hgap, hgap', rfl⟩ := h
      obtain ⟨names, hnames, rfl⟩ := isNames_of_afterNames? hrest
      exact ⟨hsolid, names, gap, gap', hnames, hgap, hgap', by simp only [List.append_assoc]⟩
  · rintro ⟨hsolid, names, gap, gap', hnames, hgap, hgap', rfl⟩
    have hrest := afterNames?_append hnames hgap ("from".toList ++ (gap' ++ t))
    simp only [List.append_assoc]
    rw [hrest, Option.bind_some, from_eq_some_iff]
    exact ⟨hsolid, gap, gap', hgap, hgap', by simp only [List.append_assoc]⟩

theorem dropImportClause?_of_isQuote {q : Char} (hq : isQuote q = true) (rest : List Char) :
    dropImportClause? (q :: rest) = none := by
  have hbrace : q ≠ '\x7b' := by
    rintro rfl
    revert hq
    decide
  have hword : (q :: rest).takeWhile isWord = [] := by
    simp [isWord_of_isQuote hq]
  rw [dropImportClause?_eq, afterNames?, if_pos hword]
  · rfl
  · intro r heq
    exact hbrace (List.cons.inj heq).1

theorem isSolid_of_isNames {names : List Char} (h : IsNames names) (s : List Char) :
    IsSolid (names ++ s) := by
  cases h with
  | word hne hall =>
    obtain ⟨c, rest, rfl⟩ := List.exists_cons_of_ne_nil hne
    refine isSolid_cons (Bool.eq_false_iff.2 fun hblank => ?_) _
    have hword := hall c List.mem_cons_self
    rw [isWord_eq_false_of_isBlank hblank] at hword
    cases hword
  | braced => exact isSolid_cons (by decide) _

namespace ImportForm

theorem close?_eq_some_iff {f : ImportForm} {s rest : List Char} :
    f.close? s = some rest ↔ f.Closes s rest := by
  cases f with
  | statement => exact dropQuote?_eq_some_iff
  | call =>
    have hparen : isBlank ')' = false := by decide
    rw [close?, dropCallEnd?, Option.bind_eq_some_iff, Closes]
    constructor
    · rintro ⟨r, hr, hrest⟩
      obtain ⟨q, hq, rfl⟩ := dropQuote?_eq_some_iff.1 hr
      obtain ⟨pad, hpad, rfl⟩ := (dropLiteral_trimStart_eq_some_iff hparen).1 hrest
      exact ⟨q, pad, hq, hpad, rfl⟩
    · rintro ⟨q, pad, hq, hpad, rfl⟩
      exact ⟨_, dropQuote?_eq_some_iff.2 ⟨q, hq, rfl⟩,
        (dropLiteral_trimStart_eq_some_iff hparen).2 ⟨pad, hpad, rfl⟩⟩

theorem afterQuote?_eq_some_iff {f : ImportForm} {s rest : List Char} :
    f.afterQuote? s = some rest ↔
      ∃ opening q, f.Opens opening ∧ isQuote q = true ∧ s = opening ++ q :: rest := by
  cases f with
  | statement =>
    rw [afterQuote?, Option.bind_eq_some_iff]
    constructor
    · rintro ⟨r, hr, hrest⟩
      obtain ⟨gap, hgap, rfl⟩ := exists_gap_of_dropBlanks? hr
      cases hclause : dropImportClause? r with
      | none =>
        rw [hclause, Option.getD_none] at hrest
        obtain ⟨q, hq, rfl⟩ := dropQuote?_eq_some_iff.1 hrest
        exact ⟨gap, q, .bare hgap, hq, rfl⟩
      | some t =>
        rw [hclause, Option.getD_some] at hrest
        obtain ⟨q, hq, rfl⟩ := dropQuote?_eq_some_iff.1 hrest
        obtain ⟨-, names, gap', gap'', hnames, hgap', hgap'', rfl⟩ :=
          dropImportClause?_eq_some_iff.1 hclause
        exact ⟨_, q, .clause hgap hnames hgap' hgap'', hq, by simp only [List.append_assoc]⟩
    · rintro ⟨opening, q, hopening, hq, rfl⟩
      have hsolid : IsSolid (q :: rest) := isSolid_cons (isBlank_of_isQuote hq) rest
      cases hopening with
      | bare hgap =>
        refine ⟨q :: rest, dropBlanks?_padded hgap hsolid, ?_⟩
        rw [dropImportClause?_of_isQuote hq, Option.getD_none]
        exact dropQuote?_eq_some_iff.2 ⟨q, hq, rfl⟩
      | @clause gap names gap' gap'' hgap hnames hgap' hgap'' =>
        have hclause := dropImportClause?_eq_some_iff.2
          ⟨hsolid, names, gap', gap'', hnames, hgap', hgap'', rfl⟩
        refine ⟨names ++ gap' ++ "from".toList ++ gap'' ++ q :: rest, ?_, ?_⟩
        · simp only [List.append_assoc]
          exact dropBlanks?_padded hgap (isSolid_of_isNames hnames _)
        · rw [hclause, Option.getD_some]
          exact dropQuote?_eq_some_iff.2 ⟨q, hq, rfl⟩
  | call =>
    have hparen : isBlank '(' = false := by decide
    rw [afterQuote?, Option.bind_eq_some_iff]
    constructor
    · rintro ⟨r, hr, hrest⟩
      obtain ⟨pad, hpad, rfl⟩ := (dropLiteral_trimStart_eq_some_iff hparen).1 hr
      obtain ⟨q, hq, htrim⟩ := dropQuote?_eq_some_iff.1 hrest
      obtain ⟨pad', hpad', rfl⟩ := (trimStart_eq_cons_iff (isBlank_of_isQuote hq)).1 htrim
      exact ⟨pad ++ '(' :: pad', q, ⟨pad, pad', hpad, hpad', rfl⟩, hq, by simp⟩
    · rintro ⟨opening, q, ⟨pad, pad', hpad, hpad', rfl⟩, hq, rfl⟩
      refine ⟨pad' ++ q :: rest, ?_, ?_⟩
      · rw [dropLiteral_trimStart_eq_some_iff hparen]
        exact ⟨pad, hpad, by simp⟩
      · rw [trimStart_padded hpad' (isSolid_cons (isBlank_of_isQuote hq) rest)]
        exact dropQuote?_eq_some_iff.2 ⟨q, hq, rfl⟩

theorem afterQuote?_append {f : ImportForm} {opening : List Char} {q : Char}
    (hopens : f.Opens opening) (hq : isQuote q = true) (rest : List Char) :
    f.afterQuote? (opening ++ q :: rest) = some rest :=
  afterQuote?_eq_some_iff.2 ⟨opening, q, hopens, hq, rfl⟩

theorem Opens.unique {f : ImportForm} {a b s t : List Char} {q q' : Char} (ha : f.Opens a)
    (hq : isQuote q = true) (hb : f.Opens b) (hq' : isQuote q' = true)
    (h : a ++ q :: s = b ++ q' :: t) : a = b ∧ s = t := by
  have hs := afterQuote?_append ha hq s
  have ht := afterQuote?_append hb hq' t
  rw [← h, hs, Option.some.injEq] at ht
  have hlength := congrArg List.length h
  rw [List.length_append, List.length_append, List.length_cons, List.length_cons, ht] at hlength
  exact ⟨List.append_inj_left h (by omega), ht⟩

end ImportForm

/-! ## The path -/

variable {close : List Char → Option (List Char)} {seen s : List Char}

theorem isSome_scriptPath?_iff :
    (scriptPath? close seen s).isSome ↔
      ∃ path after, s = path ++ ".js".toList ++ after ∧ '\n' ∉ path ∧ (close after).isSome := by
  induction s generalizing seen with
  | nil => simp [scriptPath?]
  | cons c s ih =>
    rw [scriptPath?]
    cases hhere : (dropLiteral ['.', 'j', 's'] (c :: s)).bind close with
    | some rest =>
      obtain ⟨after, hafter, hclose⟩ := Option.bind_eq_some_iff.1 hhere
      simp only [Option.isSome_some, true_iff]
      exact ⟨[], after, eq_append_of_dropLiteral hafter, List.not_mem_nil, by simp [hclose]⟩
    | none =>
      simp only
      have hshorter : (∃ path after, c :: s = path ++ ".js".toList ++ after ∧ '\n' ∉ path ∧
          (close after).isSome) → c ≠ '\n' ∧ ∃ path after, s = path ++ ".js".toList ++ after ∧
          '\n' ∉ path ∧ (close after).isSome := by
        rintro ⟨path, after, hs, hpath, hclose⟩
        cases path with
        | nil =>
          have hdrop := dropLiteral_eq_some_iff.2 hs
          rw [List.nil_append] at hdrop
          have hsome : ['.', 'j', 's'] = ".js".toList := rfl
          rw [hsome, hdrop, Option.bind_some] at hhere
          rw [hhere] at hclose
          cases hclose
        | cons d path =>
          obtain ⟨rfl, rfl⟩ := List.cons.inj hs
          rw [List.mem_cons, not_or] at hpath
          exact ⟨Ne.symm hpath.1, path, after, rfl, hpath.2, hclose⟩
      by_cases hc : c = '\n'
      · rw [if_pos hc]
        constructor
        · intro h
          cases h
        · intro h
          exact absurd hc (hshorter h).1
      · rw [if_neg hc, ih]
        constructor
        · rintro ⟨path, after, rfl, hpath, hclose⟩
          refine ⟨c :: path, after, by simp, ?_, hclose⟩
          rw [List.mem_cons, not_or]
          exact ⟨Ne.symm hc, hpath⟩
        · intro h
          exact (hshorter h).2

theorem scriptPath?_append {path after rest : List Char}
    (hclose : ∀ s r, close s = some r → ∃ q t, isQuote q = true ∧ s = q :: t)
    (hpath : ∀ c ∈ path, isQuote c = false ∧ c ≠ '\n') (hends : ".js".toList <:+ path)
    (hafter : close after = some rest) :
    scriptPath? close seen (path ++ after) = some (seen.reverse ++ path, rest) := by
  induction path generalizing seen with
  | nil =>
    have := hends.length_le
    simp at this
  | cons c path ih =>
    rw [List.cons_append, scriptPath?]
    cases hhere : (dropLiteral ['.', 'j', 's'] (c :: (path ++ after))).bind close with
    | some rest' =>
      obtain ⟨t, ht, htclose⟩ := Option.bind_eq_some_iff.1 hhere
      obtain ⟨q, more, hq, rfl⟩ := hclose t rest' htclose
      have hsplit : c :: path ++ after = ['.', 'j', 's'] ++ q :: more := eq_append_of_dropLiteral ht
      have hlength : path.length = 2 := by
        have hge := hends.length_le
        have hthree : ".js".toList.length = 3 := rfl
        rw [hthree, List.length_cons] at hge
        by_contra hne
        obtain ⟨d, hd⟩ : ∃ d, (c :: path)[3]? = some d :=
          ⟨_, List.getElem?_eq_getElem (by rw [List.length_cons]; omega)⟩
        have hget : (c :: path ++ after)[3]? = some q := by
          rw [hsplit]
          rfl
        rw [List.getElem?_append_left (by rw [List.length_cons]; omega), hd] at hget
        have hplain := (hpath d (List.mem_of_getElem? hd)).1
        rw [Option.some.inj hget, hq] at hplain
        cases hplain
      obtain ⟨hpath', rfl⟩ := List.append_inj hsplit (by simp [hlength])
      rw [hafter, Option.some.injEq] at htclose
      rw [hpath', htclose]
    | none =>
      have hnewline := (hpath c List.mem_cons_self).2
      have hshorter : ".js".toList <:+ path := by
        refine (List.suffix_cons_iff.1 hends).resolve_left fun heq => ?_
        have hdrop : dropLiteral ['.', 'j', 's'] (c :: (path ++ after)) = some after := by
          rw [← List.cons_append, ← heq]
          exact dropLiteral_append _ after
        rw [hdrop, Option.bind_some, hafter] at hhere
        cases hhere
      simp only
      rw [if_neg hnewline, ih (fun d hd => hpath d (List.mem_cons_of_mem _ hd)) hshorter]
      simp

namespace ImportForm

theorem Closes.exists_cons {f : ImportForm} {s rest : List Char} (h : f.Closes s rest) :
    ∃ q t, isQuote q = true ∧ s = q :: t := by
  cases f with
  | statement =>
    obtain ⟨q, hq, rfl⟩ := h
    exact ⟨q, rest, hq, rfl⟩
  | call =>
    obtain ⟨q, pad, hq, -, rfl⟩ := h
    exact ⟨q, _, hq, rfl⟩

/-- The recogniser finds an import exactly where one can be read. -/
theorem isSome_recogniser_iff {f : ImportForm} {before : Option Char} {s : List Char} :
    (f.recogniser before s).isSome ↔ f.Reads s := by
  rw [recogniser_eq, Option.isSome_map, Reads]
  constructor
  · intro h
    obtain ⟨found, hfound⟩ := Option.isSome_iff_exists.1 h
    obtain ⟨r, hr, hpath⟩ := Option.bind_eq_some_iff.1 hfound
    obtain ⟨t, ht, hquote⟩ := Option.bind_eq_some_iff.1 hr
    obtain ⟨opening, q, hopens, hq, rfl⟩ := afterQuote?_eq_some_iff.1 hquote
    have hsome : (scriptPath? f.close? [] r).isSome := by rw [hpath]; rfl
    obtain ⟨path, after, rfl, hline, hclose⟩ := isSome_scriptPath?_iff.1 hsome
    obtain ⟨rest, hrest⟩ := Option.isSome_iff_exists.1 hclose
    refine ⟨opening, q, path, after, rest, ?_, hopens, hq, hline, close?_eq_some_iff.1 hrest⟩
    rw [eq_append_of_dropLiteral ht, List.append_assoc f.keyword]
  · rintro ⟨opening, q, path, after, rest, rfl, hopens, hq, hline, hcloses⟩
    rw [List.append_assoc f.keyword, dropLiteral_append, Option.bind_some,
      afterQuote?_append hopens hq, Option.bind_some, isSome_scriptPath?_iff]
    exact ⟨path, after, rfl, hline, by rw [close?_eq_some_iff.2 hcloses]; rfl⟩

/-- A path without quotes is found as it stands, and the import goes on up to what closes it. -/
theorem recogniser_of_opens {f : ImportForm} (before : Option Char)
    {opening path after rest : List Char} {q : Char} (hopens : f.Opens opening)
    (hq : isQuote q = true) (hpath : ∀ c ∈ path, isQuote c = false ∧ c ≠ '\n')
    (hends : ".js".toList <:+ path) (hcloses : f.Closes after rest) :
    f.recogniser before (f.keyword ++ opening ++ q :: (path ++ after)) =
      some (path, (f.keyword ++ opening ++ q :: (path ++ after)).length - rest.length) := by
  have hclose : ∀ s r, f.close? s = some r → ∃ q t, isQuote q = true ∧ s = q :: t :=
    fun s r h => (close?_eq_some_iff.1 h).exists_cons
  have hread := @scriptPath?_append f.close? [] path after rest hclose hpath hends
    (close?_eq_some_iff.2 hcloses)
  rw [recogniser_eq, List.append_assoc f.keyword, dropLiteral_append, Option.bind_some,
    afterQuote?_append hopens hq, Option.bind_some, hread]
  rfl

end ImportForm

end JavaScript
end DeclScan
