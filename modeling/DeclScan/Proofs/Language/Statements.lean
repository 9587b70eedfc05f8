import DeclScan.Proofs.Language.Columns
import DeclScan.Proofs.Language.Initialisers
import DeclScan.Proofs.References
import DeclScan.Proofs.Text.Blanks

/-!
# DeclScan.Proofs.Language.Statements

The declarations of a keyword are those that start a statement. A keyword in the middle of one is
found as well, and with it the identifier behind it; such an occurrence is dropped, but what it takes
up is not looked at again. It takes up an identifier, and no statement starts within one. So nothing is
lost, unless the identifier is the keyword itself.

* `DeclaresAt`: an identifier stands behind a keyword that starts a statement.
* `Repeats`: the keyword stands twice in a row.
* `declarator_eq_some_iff`: what the recogniser finds.
* `scanKeyword_eq_map`: the declarations of one keyword, as they stand in the text.
* `scan_eq_declarations`: all declarations, keyword by keyword.
-/

namespace DeclScan
namespace JavaScript

open Text

/-! ## Declarations in a text -/

/-- Whether a statement may start behind this character, or at the start of the text. -/
def opensStatement (o : Option Char) : Prop := ∀ c ∈ o, c ∈ [' ', '\n', '\t', '\r', ';', '\x7b']

/-- At an offset begins an identifier, behind white space and a keyword that starts a statement. -/
def DeclaresAt (text keyword : List Char) (i : Nat) : Prop :=
  ∃ before gap rest, text = before ++ keyword ++ gap ++ rest ∧
    i = (before ++ keyword ++ gap).length ∧ opensStatement before.getLast? ∧ IsGap gap ∧
    rest.head?.any isIdentStart = true

/-- The identifier from an offset on, as long as it goes. -/
def identAt (text : List Char) (i : Nat) : List Char := (text.drop i).takeWhile isIdentRest

/-- What is to be said of the identifier at an offset: it has the label of what comes behind it. -/
def declaredAt (k : Keyword) (text : List Char) (i : Nat) : Scanned where
  name := String.ofList (identAt text i)
  keyword := k
  type := inferTypeAt text (i + (identAt text i).length : Nat)
  position := ⟨(text.take i).count '\n', (lineBefore text i).length⟩

/-- The keyword stands in the text, as a word, and again behind white space. -/
def Repeats (text keyword : List Char) : Prop :=
  ∃ i j, Occurrence.StandsAt .plain text keyword i ∧ Occurrence.StandsAt .plain text keyword j ∧
    i + keyword.length < j ∧ IsPad ((text.take j).drop (i + keyword.length))

/-! ## Keywords and identifiers -/

theorem isIdentRest_of_isIdentStart {c : Char} (h : isIdentStart c = true) :
    isIdentRest c = true := by
  simp only [isIdentStart, Bool.or_eq_true] at h
  simp only [isIdentRest, Bool.or_eq_true]
  exact h.imp_left isNameRest_of_isNameStart

theorem isBlank_eq_false_of_isIdent {c : Char} (h : isIdentRest c = true) : isBlank c = false := by
  simp only [isIdentRest, Bool.or_eq_true, decide_eq_true_eq] at h
  rcases h with h | rfl
  · exact isBlank_eq_false_of_isNameRest h
  · decide

theorem isSolid_of_isIdentStart {s : List Char} (h : s.head?.any isIdentStart = true) :
    IsSolid s := by
  refine all_of_any ?_ _ h
  intro c hc
  simp [isBlank_eq_false_of_isIdent (isIdentRest_of_isIdentStart hc)]

theorem startsStatement_of_isIdent {c : Char} (h : isIdentRest c = true) :
    startsStatement (some c) = false := by
  refine Bool.eq_false_iff.2 ?_
  intro hstarts
  simp only [startsStatement, Bool.or_eq_true, decide_eq_true_eq] at hstarts
  rcases hstarts with ((((rfl | rfl) | rfl) | rfl) | rfl) | rfl <;> revert h <;> decide

theorem startsStatement_iff {o : Option Char} :
    startsStatement o = true ↔ opensStatement o := by
  cases o with
  | none => simp [startsStatement, opensStatement]
  | some c =>
    simp only [startsStatement, opensStatement, Option.mem_def, Option.some.injEq, forall_eq',
      Bool.or_eq_true, decide_eq_true_eq, List.mem_cons, List.not_mem_nil, or_false, or_assoc]

theorem any_isWord_of_opensStatement {o : Option Char} (h : opensStatement o) :
    o.any isWord = false := by
  cases o with
  | none => rfl
  | some c =>
    have hc := h c rfl
    simp only [List.mem_cons, List.not_mem_nil, or_false] at hc
    rcases hc with rfl | rfl | rfl | rfl | rfl | rfl <;> decide

/-- A word that an identifier might be. -/
structure IsKeyword (keyword : List Char) : Prop where
  ne_nil : keyword ≠ []
  all : ∀ c ∈ keyword, isNameRest c = true

theorem isKeyword_text (k : Keyword) : IsKeyword k.text.toList where
  ne_nil := by cases k <;> simp [Keyword.text]
  all := by
    have hall : k.text.toList.all isNameRest = true := by cases k <;> rfl
    exact List.all_eq_true.1 hall

theorem takeIdent?_eq_some_iff {s name tail : List Char} :
    takeIdent? s = some (name, tail) ↔
      s.head?.any isIdentStart = true ∧ name = s.takeWhile isIdentRest ∧
        tail = s.dropWhile isIdentRest := by
  cases s with
  | nil => simp [takeIdent?]
  | cons c s =>
    rw [takeIdent?]
    by_cases hc : isIdentStart c = true
    · simp only [hc, if_true, Option.some.injEq, Prod.mk.injEq, List.head?_cons, Option.any_some,
        isIdentRest_of_isIdentStart hc, List.takeWhile_cons_of_pos, List.dropWhile_cons_of_pos,
        true_and, eq_comm]
    · simp [hc]

/-! ## What the recogniser finds -/

variable {keyword text : List Char} {k : Keyword}

theorem declarator_eq_some_iff {before : Option Char} {s : List Char} {d : Declarator}
    {length : Nat} :
    declarator keyword before s = some (d, length) ↔
      before.any isWord = false ∧ ∃ gap rest, s = keyword ++ gap ++ rest ∧ IsGap gap ∧
        rest.head?.any isIdentStart = true ∧
        d = ⟨before, rest.takeWhile isIdentRest, (keyword ++ gap).length,
          rest.dropWhile isIdentRest⟩ ∧
        length = (keyword ++ gap).length + (rest.takeWhile isIdentRest).length := by
  rw [declarator]
  constructor
  · intro h
    split at h
    · cases h
    · rename_i hword
      split at h
      · cases h
      · rename_i rest hrest
        split at h
        · cases h
        · rename_i name tail hname
          cases h
          obtain ⟨after, hkeyword, hblanks⟩ := Option.bind_eq_some_iff.1 hrest
          obtain ⟨gap, hgap, hafter⟩ := exists_gap_of_dropBlanks? hblanks
          obtain ⟨hhead, rfl, rfl⟩ := takeIdent?_eq_some_iff.1 hname
          have hs : s = keyword ++ gap ++ rest := by
            rw [List.append_assoc, ← hafter]
            exact eq_append_of_dropLiteral hkeyword
          have hlead : s.length - rest.length = (keyword ++ gap).length := by
            rw [hs, List.length_append, Nat.add_sub_cancel]
          simp only [Bool.not_eq_true] at hword
          exact ⟨hword, gap, rest, hs, hgap, hhead, by rw [hlead], by rw [hlead]⟩
  · rintro ⟨hword, gap, rest, rfl, hgap, hhead, rfl, rfl⟩
    have hsolid := isSolid_of_isIdentStart hhead
    have hread : (dropLiteral keyword (keyword ++ gap ++ rest)).bind dropBlanks? = some rest := by
      rw [List.append_assoc, dropLiteral_append, Option.bind_some, dropBlanks?_padded hgap hsolid]
    have hlead : (keyword ++ gap ++ rest).length - rest.length = (keyword ++ gap).length := by
      rw [List.length_append, Nat.add_sub_cancel]
    have hname := takeIdent?_eq_some_iff.2 ⟨hhead, rfl, rfl⟩
    simp only [hword, hread, hname, hlead, Bool.false_eq_true, if_false]

/-- Where a declaration that starts a statement has its identifier. -/
def startOf? (found : Found Declarator) : Option Nat :=
  if startsStatement found.value.before then some (found.offset + found.value.lead) else none

theorem at?_declarator_eq_some_iff {j : Nat} {found : Found Declarator} :
    Search.at? (declarator keyword) text j = some found ↔
      ∃ length, declarator keyword (text.take j).getLast? (text.drop j) = some (found.value, length) ∧
        found.offset = j := by
  rw [Search.at?, Option.map_eq_some_iff]
  constructor
  · rintro ⟨⟨d, length⟩, hd, rfl⟩
    exact ⟨length, hd, rfl⟩
  · rintro ⟨length, hd, rfl⟩
    exact ⟨(found.value, length), hd, rfl⟩

theorem bind_startOf?_eq_some_iff {j i : Nat} :
    (Search.at? (declarator keyword) text j).bind startOf? = some i ↔
      opensStatement (text.take j).getLast? ∧ ∃ gap rest, text.drop j = keyword ++ gap ++ rest ∧
        IsGap gap ∧ rest.head?.any isIdentStart = true ∧ i = j + (keyword ++ gap).length := by
  rw [Option.bind_eq_some_iff]
  constructor
  · rintro ⟨⟨offset, d⟩, hfound, hstart⟩
    obtain ⟨length, hd, hoffset⟩ := at?_declarator_eq_some_iff.1 hfound
    obtain ⟨-, gap, rest, hdrop, hgap, hhead, hvalue, -⟩ := declarator_eq_some_iff.1 hd
    simp only at hoffset hvalue
    subst hoffset hvalue
    rw [startOf?] at hstart
    split at hstart
    · rename_i hopens
      exact ⟨startsStatement_iff.1 hopens, gap, rest, hdrop, hgap, hhead,
        (Option.some.inj hstart).symm⟩
    · cases hstart
  · rintro ⟨hopens, gap, rest, hdrop, hgap, hhead, rfl⟩
    have hword := any_isWord_of_opensStatement hopens
    have hd := declarator_eq_some_iff.2 ⟨hword, gap, rest, hdrop, hgap, hhead, rfl, rfl⟩
    refine ⟨⟨j, _⟩, at?_declarator_eq_some_iff.2 ⟨_, hd, rfl⟩, ?_⟩
    rw [startOf?, if_pos (startsStatement_iff.2 hopens)]

/-- The places where the recogniser finds something behind the start of a statement are those before
the declarations. -/
theorem declaresAt_iff {i : Nat} :
    DeclaresAt text keyword i ↔
      ∃ j, j ≤ text.length ∧ (Search.at? (declarator keyword) text j).bind startOf? = some i := by
  constructor
  · rintro ⟨before, gap, rest, rfl, rfl, hopens, hgap, hhead⟩
    refine ⟨before.length, by simp, bind_startOf?_eq_some_iff.2 ?_⟩
    rw [List.append_assoc before, List.append_assoc before, List.take_left, List.drop_left]
    exact ⟨hopens, gap, rest, by simp, hgap, hhead, by simp⟩
  · rintro ⟨j, hj, hstart⟩
    obtain ⟨hopens, gap, rest, hdrop, hgap, hhead, rfl⟩ := bind_startOf?_eq_some_iff.1 hstart
    refine ⟨text.take j, gap, rest, ?_, ?_, hopens, hgap, hhead⟩
    · rw [List.append_assoc (text.take j), List.append_assoc (text.take j), ← hdrop,
        List.take_append_drop]
    · simp [List.length_take_of_le hj]

/-! ## Nothing that counts is passed over -/

theorem standsAt_of_drop_eq {i : Nat} {gap rest : List Char}
    (hword : (text.take i).getLast?.any isWord = false)
    (hdrop : text.drop i = keyword ++ gap ++ rest) (hgap : IsGap gap) :
    Occurrence.StandsAt .plain text keyword i := by
  obtain ⟨b, more, rfl, hb⟩ := hgap.exists_cons
  have hbehind : text.drop (i + keyword.length) = b :: (more ++ rest) := by
    rw [← List.drop_drop, hdrop, List.append_assoc, List.drop_left, List.cons_append]
  refine ⟨⟨b :: more ++ rest, by rw [hdrop, List.append_assoc]⟩, ?_, ?_⟩
  · intro c hc
    rw [Option.mem_def.1 hc] at hword
    exact hword
  · intro c hc
    rw [hbehind, List.head?_cons, Option.mem_def, Option.some.injEq] at hc
    exact hc ▸ WordClass.mem_eq_false_of_isBlank _ hb

/-- Within an occurrence begins no declaration. Inside of the keyword and of the identifier a character
of an identifier comes before the place; between them are blanks, with which no keyword begins; and the
identifier itself is no keyword with white space behind it. -/
theorem apartFor_declarator {β : Type} {f : Found Declarator → Option β}
    (hf : ∀ found : Found Declarator, startsStatement found.value.before = false → f found = none)
    (hkeyword : IsKeyword keyword) (h : ¬ Repeats text keyword) :
    Search.ApartFor (declarator keyword) f text := by
  intro i j d length hi hij hj
  obtain ⟨hword, gap, rest, hdrop, hgap, hhead, -, rfl⟩ := declarator_eq_some_iff.1 hi
  rw [List.length_append] at hj
  cases hfound : Search.at? (declarator keyword) text j with
  | none => rfl
  | some found =>
    obtain ⟨length', hd, -⟩ := at?_declarator_eq_some_iff.1 hfound
    obtain ⟨hword', gap', rest', hdrop', hgap', hhead', hvalue, -⟩ := declarator_eq_some_iff.1 hd
    have hbefore : found.value.before = (text.take j).getLast? := by rw [hvalue]
    have hinside : ∀ word : List Char, (∀ c ∈ word, isIdentRest c = true) →
        ∀ i', word <+: text.drop i' → i' < j → j < i' + word.length →
          (some found).bind f = none := by
      intro word hall i' hprefix hlt hlt'
      obtain ⟨c, hc, hlast⟩ := Occurrence.getLast?_within hprefix hlt hlt'
      refine hf found ?_
      rw [hbefore, hlast]
      exact startsStatement_of_isIdent (hall c hc)
    have hafter : text.drop (i + keyword.length) = gap ++ rest := by
      rw [← List.drop_drop, hdrop, List.append_assoc, List.drop_left]
    have hrest : text.drop (i + (keyword.length + gap.length)) = rest := by
      rw [← Nat.add_assoc, ← List.drop_drop, hafter, List.drop_left]
    rcases Nat.lt_or_ge j (i + keyword.length) with hlt | hge
    · refine hinside keyword ?_ i ⟨gap ++ rest, by rw [hdrop, List.append_assoc]⟩ hij hlt
      intro c hc
      simp [isIdentRest, hkeyword.all c hc]
    rcases Nat.lt_trichotomy j (i + (keyword.length + gap.length)) with hlt | rfl | hgt
    · obtain ⟨n, rfl⟩ := Nat.exists_eq_add_of_le hge
      have hn : n < gap.length := by omega
      have hhere : text.drop (i + keyword.length + n) = gap[n] :: (gap.drop (n + 1) ++ rest) := by
        rw [← List.drop_drop, hafter, List.drop_append_of_le_length (by omega),
          List.drop_eq_getElem_cons hn, List.cons_append]
      obtain ⟨first, more, rfl⟩ := List.exists_cons_of_ne_nil hkeyword.ne_nil
      rw [hhere] at hdrop'
      have hblank : isBlank first = true := by
        rw [← (List.cons.inj hdrop').1]
        exact hgap.pad _ (List.getElem_mem hn)
      have hname := hkeyword.all first List.mem_cons_self
      rw [isNameRest_eq_false_of_isBlank hblank] at hname
      cases hname
    · refine absurd ⟨i, i + (keyword.length + gap.length), standsAt_of_drop_eq hword hdrop hgap,
        standsAt_of_drop_eq hword' hdrop' hgap', ?_, ?_⟩ h
      · have := List.length_pos_of_ne_nil hgap.ne_nil
        omega
      · rw [List.drop_take, hafter, ← Nat.add_assoc, Nat.add_sub_cancel_left, List.take_left]
        exact hgap.pad
    · refine hinside (rest.takeWhile isIdentRest) (fun c hc => List.mem_takeWhile_imp hc)
        (i + (keyword.length + gap.length)) ?_ hgt (by omega)
      rw [hrest]
      exact List.takeWhile_prefix _

/-! ## All declarations -/

/-- What the scan makes of an occurrence. -/
def scannedOf? (d : Document) (k : Keyword) (found : Found Declarator) : Option Scanned :=
  if startsStatement found.value.before then
    some
      { name := String.ofList found.value.name
        keyword := k
        type := inferType found.value.tail
        position := d.positionAt (found.offset + found.value.lead : Nat) }
  else none

theorem bind_scannedOf? (k : Keyword) {text : List Char} (fileName : String) {j : Nat}
    (hj : j ≤ text.length) :
    (Search.at? (declarator k.text.toList) text j).bind
        (scannedOf? (Document.ofText text fileName) k) =
      ((Search.at? (declarator k.text.toList) text j).bind startOf?).map (declaredAt k text) := by
  cases hfound : Search.at? (declarator k.text.toList) text j with
  | none => rfl
  | some found =>
    obtain ⟨length, hd, rfl⟩ := at?_declarator_eq_some_iff.1 hfound
    obtain ⟨-, gap, rest, hdrop, -, -, hvalue, -⟩ := declarator_eq_some_iff.1 hd
    rw [Option.bind_some, Option.bind_some, scannedOf?, startOf?]
    by_cases hstarts : startsStatement found.value.before = true
    · let i := found.offset + found.value.lead
      have hlead : found.value.lead = (k.text.toList ++ gap).length := by rw [hvalue]
      have hrest : text.drop i = rest := by
        rw [← List.drop_drop, hdrop, hlead, List.drop_left]
      have hname : identAt text i = found.value.name := by rw [identAt, hrest, hvalue]
      have hsplit : found.value.name ++ found.value.tail = rest := by
        rw [hvalue]
        exact List.takeWhile_append_dropWhile
      have htail : text.drop (i + found.value.name.length) = found.value.tail := by
        rw [← List.drop_drop, hrest, ← hsplit, List.drop_left]
      have htype : inferTypeAt text (i + found.value.name.length : Nat) =
          inferType found.value.tail := by
        rw [inferTypeAt, fromOffset_eq_drop, ← htail]
        rfl
      have hi : i ≤ text.length := by
        have hlength := congrArg List.length hdrop
        rw [List.length_drop, List.length_append, ← hlead] at hlength
        omega
      rw [if_pos hstarts, if_pos hstarts, Option.map_some, declaredAt, hname, htype,
        ← Document.positionAt_eq hi fileName]
    · rw [if_neg hstarts, if_neg hstarts, Option.map_none]

/-- The declarations of a keyword that does not stand twice in a row: one for each place where an
identifier is declared by it, in the order of the text. -/
theorem scanKeyword_eq_map (k : Keyword) (text : List Char) (fileName : String)
    (h : ¬ Repeats text k.text.toList) :
    ∃ offsets : List Nat, offsets.Pairwise (· < ·) ∧
      (∀ i, i ∈ offsets ↔ DeclaresAt text k.text.toList i) ∧
      scanKeyword (Document.ofText text fileName) k = offsets.map (declaredAt k text) := by
  let start? := fun j => (Search.at? (declarator k.text.toList) text j).bind startOf?
  have hkeyword := isKeyword_text k
  refine ⟨(List.range (text.length + 1)).filterMap start?, ?_, ?_, ?_⟩
  · refine List.Pairwise.filterMap start? ?_ List.pairwise_lt_range
    intro j j' hjj' i hi i' hi'
    have hapart := apartFor_declarator (f := startOf?)
      (fun found hno => by simp [startOf?, hno]) hkeyword h
    obtain ⟨hopens, gap, rest, hdrop, hgap, hhead, rfl⟩ := bind_startOf?_eq_some_iff.1 hi
    obtain ⟨-, gap', _, -, -, -, rfl⟩ := bind_startOf?_eq_some_iff.1 hi'
    have hd := declarator_eq_some_iff.2
      ⟨any_isWord_of_opensStatement hopens, gap, rest, hdrop, hgap, hhead, rfl, rfl⟩
    have hbeyond : j + (k.text.toList ++ gap).length ≤ j' := by
      by_contra hlt
      have hnone := hapart j j' _ _ hd hjj' (by omega)
      exact Option.some_ne_none _ (hi'.symm.trans hnone)
    have hpos := List.length_pos_of_ne_nil hkeyword.ne_nil
    simp only [List.length_append] at hbeyond ⊢
    omega
  · intro i
    rw [List.mem_filterMap, declaresAt_iff]
    simp only [List.mem_range, Nat.lt_succ_iff, start?]
  · have hapart := apartFor_declarator (f := scannedOf? (Document.ofText text fileName) k)
      (fun found hno => by simp [scannedOf?, hno]) hkeyword h
    refine (Search.filterMap_all hapart).trans ?_
    rw [List.map_filterMap]
    refine List.filterMap_congr ?_
    intro j hj
    exact bind_scannedOf? k fileName (Nat.lt_succ_iff.1 (List.mem_range.1 hj))

theorem filter_scanKeyword (d : Document) (k k' : Keyword) :
    (scanKeyword d k).filter (·.keyword = k') = if k = k' then scanKeyword d k else [] := by
  have hall : ∀ s ∈ scanKeyword d k, s.keyword = k := by
    intro s hs
    obtain ⟨found, -, hsome⟩ := List.mem_filterMap.1 hs
    split at hsome
    · cases hsome
      rfl
    · cases hsome
  split
  · rename_i heq
    exact List.filter_eq_self.2 fun s hs => decide_eq_true ((hall s hs).trans heq)
  · rename_i hne
    refine List.filter_eq_nil_iff.2 fun s hs hkeyword => hne ?_
    rw [← hall s hs]
    exact of_decide_eq_true hkeyword

theorem filter_scan (d : Document) (k : Keyword) :
    (scan d).filter (·.keyword = k) = scanKeyword d k := by
  simp only [scan, List.flatMap_cons, List.flatMap_nil, List.filter_append, filter_scanKeyword,
    List.append_nil]
  cases k <;> simp

/-- The declarations of a text are those with `const`, then those with `let`, then those with `var`. Of
a keyword that does not stand twice in a row, there is one for each place where an identifier follows it
at the start of a statement, in the order of the text, and no other. -/
theorem scan_eq_declarations (text : List Char) (fileName : String) :
    let found := scan (Document.ofText text fileName)
    let declaredBy := fun k => found.filter (·.keyword = k)
    found = declaredBy .const ++ declaredBy .let_ ++ declaredBy .var ∧
      ∀ k : Keyword, ¬ Repeats text k.text.toList →
        ∃ offsets : List Nat, offsets.Pairwise (· < ·) ∧
          (∀ i, i ∈ offsets ↔ DeclaresAt text k.text.toList i) ∧
          declaredBy k = offsets.map (declaredAt k text) := by
  intro found declaredBy
  have hfilter : ∀ k, declaredBy k = scanKeyword (Document.ofText text fileName) k :=
    fun k => filter_scan (Document.ofText text fileName) k
  refine ⟨?_, ?_⟩
  · simp only [hfilter]
    simp [found, scan]
  · intro k hk
    rw [hfilter]
    exact scanKeyword_eq_map k text fileName hk

/-- A keyword that starts no statement, one with white space over two lines behind it, and one behind a
brace. -/
theorem scan_eq_declarations_let :
    let text := "a.let y\nlet\n  $b = [1]; if (c) \x7blet d\u00E9".toList
    let found := scan (Document.ofText text "")
    found.map (fun s => (s.name, s.type)) = [("$b", "array"), ("d", "unknown")] ∧
      ¬ Repeats text "let".toList ∧
      ∃ offsets : List Nat, offsets.Pairwise (· < ·) ∧
        (∀ i, i ∈ offsets ↔ DeclaresAt text "let".toList i) ∧
        found.filter (·.keyword = .let_) = offsets.map (declaredAt .let_ text) := by
  intro text found
  have hfound : found.map (fun s => (s.name, s.type)) = [("$b", "array"), ("d", "unknown")] := by
    decide +kernel
  have hplaces : (List.range text.length).filter (fun i => "let".toList <+: text.drop i) =
      [2, 8, 32] := by
    decide +kernel
  have hplace : ∀ i, "let".toList <+: text.drop i → i = 2 ∨ i = 8 ∨ i = 32 := by
    intro i hi
    have hlength := hi.length_le
    rw [List.length_drop] at hlength
    have hthree : "let".toList.length = 3 := rfl
    have hmem : i ∈ (List.range text.length).filter (fun i => "let".toList <+: text.drop i) :=
      List.mem_filter.2 ⟨List.mem_range.2 (by omega), decide_eq_true hi⟩
    rw [hplaces] at hmem
    simpa using hmem
  have hrepeats : ¬ Repeats text "let".toList := by
    rintro ⟨i, j, hi, hj, hlt, hpad⟩
    have hthree : "let".toList.length = 3 := rfl
    rcases hplace i hi.1 with rfl | rfl | rfl <;> rcases hplace j hj.1 with rfl | rfl | rfl
    all_goals first
      | omega
      | revert hpad; decide +kernel
  exact ⟨hfound, hrepeats, (scan_eq_declarations text "").2 .let_ hrepeats⟩

/-- A keyword twice in a row takes up the next one, which then declares nothing. -/
example :
    (scan (Document.ofText "let let let a".toList "")).map (·.name) = ["let", "a"] := by
  decide +kernel

end JavaScript
end DeclScan
