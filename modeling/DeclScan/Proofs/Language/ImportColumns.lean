import DeclScan.Proofs.Language.ImportLines
import DeclScan.Proofs.Language.Positions
import DeclScan.Proofs.Text.Words

/-!
# DeclScan.Proofs.Language.ImportColumns

The columns of imported names. A name is looked for in its line as a text: on a `from` line from the
first item on, on an `import` line from the start of the line. So it is found at its own place exactly
if no word that the search goes over has it in it: the keyword of an `import` line, and the names and
aliases of the items before.

* `Statement.column`: where the name of an item stands, `Statement.wordsBefore`: what the search goes
  over.
* `Item.infix_text_iff`, `Statement.infix_searched_iff`: where a name can stand.
* `character_eq_column_iff`: which columns are reported.
-/

namespace DeclScan
namespace Python

open Text

/-! ## Where the items of a line stand -/

/-- The words that an item is made of. -/
def Item.words (i : Item) : List (List Char) :=
  i.name :: i.alias?.elim [] fun a => ["as".toList, a.name]

/-- Items in front of another one, with the commas behind them. -/
def itemsText (items : List Item) : List Char := items.flatMap fun i => i.text ++ [',']

namespace Statement

variable (s : Statement)

/-- The line up to the white space behind `import`. -/
def lead : List Char :=
  s.indent ++ (s.source?.elim [] Source.text ++ ("import".toList ++ s.gap))

def opening : List Char := if s.enclosed then ['('] else []

variable (k : Fin s.items.length)

/-- What stands in the list before the name of an item. -/
def before : List Char := s.opening ++ (itemsText (s.items.take k) ++ s.items[k].before)

/-- The column that the name of an item starts at. -/
def column : Nat := (s.lead ++ s.before k).length

/-- The words that stand before the name of an item, from where it is looked for. -/
def wordsBefore : List (List Char) :=
  s.source?.elim ["import".toList] (fun _ => []) ++ (s.items.take k).flatMap Item.words

end Statement

/-! ## Where a name can stand -/

section

variable {name pad : List Char}

theorem IsName.isApart_of_isPad (h : IsName name) (hpad : IsPad pad) : IsApart name pad := by
  intro c hc hname
  exact Bool.noConfusion ((hpad c hc).symm.trans (h.solid c hname))

theorem IsName.comma_not_mem (h : IsName name) : ',' ∉ name := fun hmem => (h.plain ',' hmem).1 rfl

theorem IsName.not_infix_pad (h : IsName name) (hpad : IsPad pad) : ¬ name <:+: pad := by
  have hiff := infix_apart_append_iff (t := []) (h.isApart_of_isPad hpad)
  rw [List.append_nil, List.infix_nil] at hiff
  exact fun hwithin => h.ne_nil (hiff.1 hwithin)

/-- A name that stands in an item and what follows stands in a word of the item, or behind it. -/
theorem Item.infix_text_iff (h : IsName name) (i : Item) (rest : List Char) :
    name <:+: i.text ++ ',' :: rest ↔ (∃ w ∈ i.words, name <:+: w) ∨ name <:+: rest := by
  have hbefore := h.isApart_of_isPad i.isPad
  have hbehind : IsApart name (i.behind ++ [',']) :=
    (h.isApart_of_isPad i.isPad').append (isApart_singleton h.comma_not_mem)
  have hne : i.behind ++ [','] ≠ [] := by simp
  have htext : i.text ++ ',' :: rest =
      i.before ++ (i.name ++ (i.alias?.elim [] Alias.text ++ ((i.behind ++ [',']) ++ rest))) := by
    simp [Item.text, Item.core]
  rw [htext, infix_apart_append_iff hbefore, words]
  cases i.alias? with
  | none =>
    rw [Option.elim_none, List.nil_append, infix_append_gap_iff hne hbehind]
    simp
  | some a =>
    have hgap := h.isApart_of_isPad a.isGap.pad
    have hgap' := h.isApart_of_isPad a.isGap'.pad
    simp only [Option.elim_some, Alias.text, List.append_assoc]
    rw [← List.append_assoc i.behind, infix_append_gap_iff a.isGap.ne_nil hgap,
      infix_append_gap_iff a.isGap'.ne_nil hgap', infix_append_gap_iff hne hbehind]
    simp [or_assoc]

theorem infix_itemsText_iff (h : IsName name) (items : List Item) (hpad : IsPad pad) :
    name <:+: itemsText items ++ pad ↔ ∃ w ∈ items.flatMap Item.words, name <:+: w := by
  induction items with
  | nil => simp [itemsText, h.not_infix_pad hpad]
  | cons i items ih =>
    have hcons : itemsText (i :: items) ++ pad = i.text ++ ',' :: (itemsText items ++ pad) := by
      simp [itemsText]
    rw [hcons, i.infix_text_iff h, ih]
    simp [or_and_right, exists_or]

theorem mem_getLast?_append {s t : List Char} {c : Char} (h : c ∈ (s ++ t).getLast?) :
    c ∈ t.getLast? ∨ c ∈ s.getLast? := by
  rw [List.getLast?_append] at h
  cases ht : t.getLast? with
  | none =>
    rw [ht, Option.none_or] at h
    exact Or.inr h
  | some d =>
    rw [ht, Option.some_or] at h
    exact Or.inl h

theorem eq_comma_of_mem_getLast? {items : List Item} {c : Char}
    (h : c ∈ (itemsText items).getLast?) : c = ',' := by
  induction items with
  | nil => cases h
  | cons i items ih =>
    have hcons : itemsText (i :: items) = (i.text ++ [',']) ++ itemsText items := rfl
    rw [hcons] at h
    rcases mem_getLast?_append h with h | h
    · exact ih h
    · simpa using h.symm

end

namespace Statement

variable (s : Statement) (k : Fin s.items.length)

theorem text_eq_lead : s.text = s.lead ++ s.targets := by
  simp only [text, lead, List.append_assoc]

theorem items_eq : s.items = s.items.take k ++ s.items[k] :: s.items.drop (k + 1) := by
  conv_lhs => rw [← List.take_append_drop k.val s.items, List.drop_eq_getElem_cons k.isLt]
  rfl

theorem joinWith_map_text (items : List Item) (i : Item) (pieces : List (List Char)) :
    ∃ rest, joinWith ',' (items.map Item.text ++ i.text :: pieces) =
      itemsText items ++ (i.before ++ (i.name ++ rest)) := by
  induction items with
  | nil =>
    have htext : i.text = i.before ++ (i.name ++ (i.alias?.elim [] Alias.text ++ i.behind)) := by
      simp [Item.text, Item.core]
    cases pieces with
    | nil => exact ⟨_, htext⟩
    | cons piece pieces =>
      refine ⟨i.alias?.elim [] Alias.text ++ i.behind ++ ',' :: joinWith ',' (piece :: pieces), ?_⟩
      simp [joinWith, itemsText, htext]
  | cons j items ih =>
    obtain ⟨rest, hrest⟩ := ih
    refine ⟨rest, ?_⟩
    obtain ⟨next, more, hnext⟩ :
        ∃ next more, items.map Item.text ++ i.text :: pieces = next :: more :=
      List.exists_cons_of_ne_nil (by simp)
    rw [hnext] at hrest
    rw [List.map_cons, List.cons_append, hnext, joinWith, hrest]
    · simp [itemsText]
    · exact List.cons_ne_nil next more

theorem targets_eq : ∃ rest, s.targets = s.before k ++ (s.items[k].name ++ rest) := by
  have hpieces : s.pieces = (s.items.take k).map Item.text ++ s.items[k].text ::
      ((s.items.drop (k + 1)).map Item.text ++ s.trailing?.toList) := by
    have hitems := congrArg (List.map Item.text) (s.items_eq k)
    rw [List.map_append, List.map_cons] at hitems
    rw [pieces, hitems, List.append_assoc, List.cons_append]
  obtain ⟨rest, hlist⟩ := joinWith_map_text (s.items.take k) s.items[k]
    ((s.items.drop (k + 1)).map Item.text ++ s.trailing?.toList)
  rw [targets, list, hpieces, hlist, before, opening]
  cases s.enclosed with
  | true => exact ⟨rest ++ ')' :: s.last, by simp⟩
  | false => exact ⟨rest ++ s.last, by simp⟩

theorem name_isPrefix_drop_column : s.items[k].name <+: s.text.drop (s.column k) := by
  obtain ⟨rest, htargets⟩ := s.targets_eq k
  rw [text_eq_lead, htargets, ← List.append_assoc, column, List.drop_left]
  exact List.prefix_append _ _

/-! ## What the search goes over -/

/-- What stands between the place that the name of an item is looked for from and the name. -/
def searched : List Char :=
  s.source?.elim (s.lead ++ s.before k) fun _ => trimStart (s.before k)

theorem searched_of_none (h : s.source? = none) : s.searched k = s.lead ++ s.before k := by
  rw [searched, h, Option.elim_none]

theorem searched_of_some {source : Source} (h : s.source? = some source) :
    s.searched k = trimStart (s.before k) := by
  rw [searched, h, Option.elim_some]

theorem drop_searchStart : ∃ rest,
    s.text.drop s.searchStart = s.searched k ++ (s.items[k].name ++ rest) ∧
    s.searchStart + (s.searched k).length = s.column k := by
  obtain ⟨rest, htargets⟩ := s.targets_eq k
  refine ⟨rest, ?_⟩
  cases h : s.source? with
  | none =>
    have hstart : s.searchStart = 0 := by rw [searchStart, h, Option.elim_none]
    rw [s.searched_of_none k h, hstart, List.drop_zero, text_eq_lead, htargets, column]
    exact ⟨by rw [List.append_assoc], Nat.zero_add _⟩
  | some source =>
    obtain ⟨c, more, hname⟩ := List.exists_cons_of_ne_nil s.items[k].isName.ne_nil
    have hc : isBlank c = false := s.items[k].isName.solid c (hname ▸ List.mem_cons_self)
    have htrim : trimStart s.targets = trimStart (s.before k) ++ (s.items[k].name ++ rest) := by
      rw [htargets, hname, List.cons_append, trimStart_append_cons hc]
    have hsuffix : trimStart s.targets <:+ s.text := by
      rw [text_eq_lead]
      exact (trimStart_suffix _).trans (List.suffix_append _ _)
    have hstart : s.searchStart = s.text.length - (trimStart s.targets).length := by
      rw [searchStart, h, Option.elim_some]
    rw [s.searched_of_some k h, hstart, ← List.suffix_iff_eq_drop.1 hsuffix, htrim]
    refine ⟨rfl, ?_⟩
    have hle := (trimStart_suffix (s.before k)).length_le
    rw [column, text_eq_lead, htargets]
    simp only [List.length_append]
    omega

theorem not_mem_of_mem_getLast?_before {c : Char} (h : c ∈ (s.before k).getLast?) :
    c ∉ s.items[k].name := by
  have hname := s.items[k].isName
  rcases mem_getLast?_append h with h | h
  · rcases mem_getLast?_append h with h | h
    · exact hname.isApart_of_isPad s.items[k].isPad c (List.mem_of_mem_getLast? h)
    · rw [eq_comma_of_mem_getLast? h]
      exact hname.comma_not_mem
  · have hc : c = '(' := by
      rw [opening] at h
      split at h
      · simpa using h.symm
      · cases h
    rw [hc]
    intro hmem
    exact absurd (hname.plain '(' hmem).2 (by decide)

theorem not_mem_of_mem_getLast?_searched {c : Char} (h : c ∈ (s.searched k).getLast?) :
    c ∉ s.items[k].name := by
  cases hsource : s.source? with
  | none =>
    rw [s.searched_of_none k hsource] at h
    rcases mem_getLast?_append h with h | h
    · exact s.not_mem_of_mem_getLast?_before k h
    · have hlead : s.lead.getLast? = s.gap.getLast? := by
        rw [lead, ← List.append_assoc, ← List.append_assoc,
          List.getLast?_append_of_ne_nil _ s.isGap.ne_nil]
      rw [hlead] at h
      exact s.items[k].isName.isApart_of_isPad s.isGap.pad c (List.mem_of_mem_getLast? h)
  | some source =>
    rw [s.searched_of_some k hsource] at h
    obtain ⟨blanks, hbefore, -⟩ := eq_append_trimStart (s.before k)
    refine s.not_mem_of_mem_getLast?_before k ?_
    rw [hbefore, List.getLast?_append, Option.mem_def.1 h]
    rfl

/-- A name that stands in what the search goes over stands in one of the words there. -/
theorem infix_searched_iff {name : List Char} (h : IsName name) :
    name <:+: s.searched k ↔ ∃ w ∈ s.wordsBefore k, name <:+: w := by
  have hopening : IsApart name s.opening := by
    intro c hc hname
    rw [opening] at hc
    split at hc
    · rw [List.mem_singleton.1 hc] at hname
      exact absurd (h.plain '(' hname).2 (by decide)
    · cases hc
  have hbefore : name <:+: s.before k ↔
      ∃ w ∈ (s.items.take k).flatMap Item.words, name <:+: w := by
    rw [before, infix_apart_append_iff hopening, infix_itemsText_iff h _ s.items[k].isPad]
  cases hsource : s.source? with
  | none =>
    have hindent := h.isApart_of_isPad s.isPad
    have hgap := h.isApart_of_isPad s.isGap.pad
    have hlead : s.lead ++ s.before k =
        s.indent ++ ("import".toList ++ (s.gap ++ s.before k)) := by
      simp only [lead, hsource, Option.elim_none, List.nil_append, List.append_assoc]
    rw [s.searched_of_none k hsource, hlead, infix_apart_append_iff hindent,
      infix_append_gap_iff s.isGap.ne_nil hgap, hbefore, wordsBefore, hsource]
    simp
  | some source =>
    obtain ⟨blanks, htrim, hblanks⟩ := eq_append_trimStart (s.before k)
    have hstart := infix_apart_append_iff (t := trimStart (s.before k)) (h.isApart_of_isPad hblanks)
    rw [← htrim] at hstart
    rw [s.searched_of_some k hsource, ← hstart, hbefore, wordsBefore, hsource]
    simp

theorem importOf_character (n : Nat) : (s.importOf n s.items[k]).character ≤ s.column k ∧
    ((s.importOf n s.items[k]).character = s.column k ↔
      ∀ w ∈ s.wordsBefore k, ¬ s.items[k].name <:+: w) := by
  obtain ⟨rest, hdrop, hcolumn⟩ := s.drop_searchStart k
  obtain ⟨i, hi, hfound, hfirst⟩ := exists_findFrom?_eq s.items[k].isName.ne_nil
    (fun c => s.not_mem_of_mem_getLast?_searched k) hdrop
  have hcharacter : (s.importOf n s.items[k]).character = ((s.searchStart + i : Nat) : Int) := by
    simp only [importOf, Item.toImport, hfound]
  rw [s.infix_searched_iff k s.items[k].isName] at hfirst
  rw [hcharacter, ← hcolumn]
  refine ⟨by omega, ?_⟩
  rw [Int.natCast_inj, Nat.add_left_cancel_iff, hfirst]
  push Not
  rfl

theorem column_lt_column {j k : Fin s.items.length} (h : j < k) : s.column j < s.column k := by
  have htake : s.items.take k = s.items.take j ++ s.items[j] :: (s.items.take k).drop (j + 1) := by
    conv_lhs => rw [← List.take_append_drop (j.val + 1) (s.items.take k)]
    rw [List.take_take, Nat.min_eq_left h, ← List.take_append_getElem j.isLt, List.append_assoc]
    rfl
  have htext : (s.items[j].before).length ≤ (s.items[j].text).length := by
    simp [Item.text]
  rw [column, column, before, before, htake]
  simp only [itemsText, List.flatMap_append, List.flatMap_cons, List.length_append, List.length_cons,
    List.length_nil]
  omega

theorem length_lead_le_column : s.lead.length ≤ s.column k := by
  rw [column, List.length_append]
  exact Nat.le_add_right _ _

end Statement

/-! ## The imports of a line -/

theorem line_of_mem_lineImports {n : Nat} {line : List Char} {i : Import}
    (h : i ∈ lineImports n line) : i.line = n := by
  have hitem : ∀ {kind path column} {pieces : List (List Char)},
      i ∈ pieces.filterMap (itemImport? kind n path column) → i.line = n := by
    intro kind path column pieces hmem
    obtain ⟨piece, -, hpiece⟩ := List.mem_filterMap.1 hmem
    rw [itemImport?] at hpiece
    simp only at hpiece
    split at hpiece
    · cases hpiece
    · cases hpiece
      rfl
  rcases List.mem_append.1 h with h | h <;> split at h
  · cases h
  · exact hitem h
  · cases h
  · exact hitem h

theorem filter_importsFrom {lines : List (List Char)} {line : List Char} {m n : Nat}
    (h : lines[n]? = some line) :
    (importsFrom m lines).filter (fun i => i.line = (m : Int) + n) = lineImports (m + n) line := by
  induction lines generalizing m n with
  | nil => cases h
  | cons first lines ih =>
    rw [importsFrom, List.filter_append]
    cases n with
    | zero =>
      obtain rfl : first = line := by simpa using h
      have hlater :
          (importsFrom (m + 1) lines).filter (fun i => i.line = (m : Int) + (0 : Nat)) = [] := by
        refine List.filter_eq_nil_iff.2 fun i hi => ?_
        obtain ⟨j, other, -, hmem⟩ := mem_of_line_by_line importsFrom (fun _ => rfl)
          (fun _ _ _ => rfl) hi
        simp only [line_of_mem_lineImports hmem, decide_eq_true_eq]
        omega
      rw [hlater, List.append_nil]
      exact List.filter_eq_self.2 fun i hi => by simp [line_of_mem_lineImports hi]
    | succ n =>
      have hfirst :
          (lineImports m first).filter (fun i => i.line = (m : Int) + (n + 1 : Nat)) = [] := by
        refine List.filter_eq_nil_iff.2 fun i hi => ?_
        simp only [line_of_mem_lineImports hi, decide_eq_true_eq]
        omega
      have hline : (m : Int) + (n + 1 : Nat) = (m + 1 : Nat) + n := by omega
      have hnumber : m + (n + 1) = m + 1 + n := by omega
      rw [hfirst, List.nil_append, hline, hnumber]
      exact ih (by simpa using h)

/-- On a line with an import, wherever in a source, each item is reported in its turn. Its column is never
to the right of its name, and it is that of the name exactly if the name is in none of the words that the
search goes over. The names stand behind the keyword, one behind the other. -/
theorem character_eq_column_iff {content : List Char} {n : Nat} {s : Statement}
    (hline : (splitOn '\n' content)[n]? = some s.text) (k : Fin s.items.length) :
    (s.lead.length ≤ s.column k ∧ (∀ j < k, s.column j < s.column k) ∧
      s.items[k].name <+: s.text.drop (s.column k)) ∧
    ∃ i, ((imports content).filter fun i => i.line = (n : Int) + 1)[k.val]? = some i ∧
      i.character ≤ s.column k ∧
      (i.character = s.column k ↔ ∀ w ∈ s.wordsBefore k, ¬ s.items[k].name <:+: w) := by
  refine ⟨⟨s.length_lead_le_column k, fun j => s.column_lt_column, s.name_isPrefix_drop_column k⟩,
    s.importOf (1 + n) s.items[k], ?_, s.importOf_character k (1 + n)⟩
  have hfilter := filter_importsFrom (m := 1) hline
  rw [Nat.cast_one, Int.add_comm] at hfilter
  rw [imports, hfilter, s.lineImports_eq, List.getElem?_map]
  simp

namespace Listed

def system : Alias := ⟨[' '], [' '], "system".toList, isGap_space, isGap_space, by decide⟩

/-- Two modules, one of them with an alias. -/
def modules : Statement :=
  .short none [.bare [] "os".toList isPad_nil (by decide),
    ⟨[' '], "sys".toList, some system, [], isPad_space, by decide, isPad_nil⟩]
    (List.cons_ne_nil _ _)

def source : List Char := "x = 1\nimport os, sys as system\n".toList

theorem character_of_sys : (splitOn '\n' source)[1]? = some modules.text ∧
    ∃ i, ((imports source).filter fun i => i.line = (1 : Int) + 1)[1]? = some i ∧ i.character = 11 := by
  have hline : (splitOn '\n' source)[1]? = some modules.text := by decide +kernel
  obtain ⟨-, i, hi, -, hiff⟩ := character_eq_column_iff (s := modules) hline ⟨1, by decide⟩
  exact ⟨hline, i, hi, hiff.2 (by decide +kernel)⟩

end Listed

namespace Shadowed

/-- A module whose name is a letter of the keyword. -/
def letter : Statement :=
  .short none [.bare [] ['m'] isPad_nil (by decide)] (List.cons_ne_nil _ _)

/-- Two names of a module, the second of which is in the first. -/
def names : Statement :=
  have hname : IsName ['p'] := by decide
  .short (some ⟨[' '], ['p'], [' '], isGap_space, isGap_space, hname.ne_nil, hname.solid⟩)
    [.bare [] ['a', 'b'] isPad_nil (by decide), .bare [' '] ['b'] isPad_space (by decide)]
    (List.cons_ne_nil _ _)

def source : List Char := "import m\nfrom p import ab, b".toList

/-- The module is found in the keyword, and the second name in the first. -/
theorem character_ne_column :
    (splitOn '\n' source)[0]? = some letter.text ∧ (splitOn '\n' source)[1]? = some names.text ∧
      letter.column ⟨0, by decide⟩ = 7 ∧ names.column ⟨1, by decide⟩ = 18 ∧
      (imports source).map (fun i => (i.line, i.character)) = [(1, 1), (2, 14), (2, 15)] := by
  decide +kernel

end Shadowed

end Python
end DeclScan
