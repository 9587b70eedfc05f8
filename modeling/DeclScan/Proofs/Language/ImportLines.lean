import DeclScan.Language.Python
import DeclScan.Proofs.Text.Blanks

/-!
# DeclScan.Proofs.Language.ImportLines

Import lines as they are written, and what is read out of them. A line names items, each with an
optional alias, between commas; a `from` line names the module they come from, and may have them in
parentheses, with a comma behind the last. White space may stand around every part.

* `Item`, `Statement`, `ImportLine`: items and lines, with the white space in them.
* `Item.itemNames_text`: an item is read as its name and the name that it is known by.
* `Statement.map_trim_splitOn_targets`, `Statement.map_trim_splitOn_trimMatches`: a line is cut into its
  items.
* `Statement.lineImports_eq`, `imports_of_lines`: a source of such lines is read as the items of its
  lines, in order.
-/

namespace DeclScan
namespace Python

open Text

/-! ## Import lines as they are written -/

def isParen (c : Char) : Bool := c = '(' || c = ')'

/-- A name without white space, commas and parentheses. Identifiers are such names, and dotted names. -/
structure IsName (s : List Char) : Prop where
  ne_nil : s ≠ []
  solid : ∀ c ∈ s, isBlank c = false
  plain : ∀ c ∈ s, c ≠ ',' ∧ isParen c = false

theorem isName_iff_all {s : List Char} : IsName s ↔
    s ≠ [] ∧ s.all (fun c => !isBlank c) = true ∧ s.all (fun c => c ≠ ',' && !isParen c) = true := by
  constructor
  · intro h
    refine ⟨h.ne_nil, List.all_eq_true.2 fun c hc => ?_, List.all_eq_true.2 fun c hc => ?_⟩
    · simp [h.solid c hc]
    · simp [h.plain c hc]
  · rintro ⟨hne, hsolid, hplain⟩
    exact ⟨hne, fun c hc => by simpa using List.all_eq_true.1 hsolid c hc,
      fun c hc => by simpa using List.all_eq_true.1 hplain c hc⟩

instance (s : List Char) : Decidable (IsName s) := decidable_of_iff _ isName_iff_all.symm

/-- `as` and a name, with white space on both sides. -/
structure Alias where
  gap : List Char
  gap' : List Char
  name : List Char
  isGap : IsGap gap
  isGap' : IsGap gap'
  isName : IsName name

def Alias.text (a : Alias) : List Char := a.gap ++ ("as".toList ++ (a.gap' ++ a.name))

/-- A name, what it is imported as, and the white space around them. -/
structure Item where
  before : List Char
  name : List Char
  alias? : Option Alias
  behind : List Char
  isPad : IsPad before
  isName : IsName name
  isPad' : IsPad behind

namespace Item

/-- The item without the white space around it. -/
def core (i : Item) : List Char := i.name ++ i.alias?.elim [] Alias.text

def text (i : Item) : List Char := i.before ++ i.core ++ i.behind

/-- The name that the item is known by. -/
def localName (i : Item) : List Char := i.alias?.elim i.name Alias.name

/-- An item without an alias, directly before a comma or the end of its line. -/
def bare (before name : List Char) (hpad : IsPad before) (hname : IsName name) : Item :=
  ⟨before, name, none, [], hpad, hname, isPad_nil⟩

/-- What is read of the item, with the column that its name is found at. -/
def toImport (i : Item) (kind : ImportKind) (n : Nat) (path : List Char → List Char)
    (column : List Char → Option Nat) : Import where
  name := String.ofList i.localName
  path := String.ofList (path i.name)
  line := n
  character := match column i.name with
    | some c => c
    | none => -1
  kind := kind

end Item

/-- `from` and a module, with the white space behind each. -/
structure Source where
  gap : List Char
  module : List Char
  gap' : List Char
  isGap : IsGap gap
  isGap' : IsGap gap'
  ne_nil : module ≠ []
  solid : ∀ c ∈ module, isBlank c = false

def Source.text (s : Source) : List Char := "from".toList ++ (s.gap ++ (s.module ++ s.gap'))

/-- An import: where the items come from, if that is told, whether they are in parentheses, and the
white space behind a comma that follows the last of them, if one does. -/
structure Statement where
  indent : List Char
  source? : Option Source
  gap : List Char
  enclosed : Bool
  items : List Item
  trailing? : Option (List Char)
  last : List Char
  isPad : IsPad indent
  isGap : IsGap gap
  ne_nil : items ≠ []
  isPad' : IsPad last
  trailing : ∀ pad ∈ trailing?, IsPad pad
  plain : source? = none → enclosed = false ∧ trailing? = none

namespace Statement

/-- A line without white space that is not needed, and without parentheses. -/
def short (source? : Option Source) (items : List Item) (h : items ≠ []) : Statement where
  indent := []
  source? := source?
  gap := [' ']
  enclosed := false
  items := items
  trailing? := none
  last := []
  isPad := isPad_nil
  isGap := isGap_space
  ne_nil := h
  isPad' := isPad_nil
  trailing pad h := by cases h
  plain _ := ⟨rfl, rfl⟩

/-- What stands between the commas. -/
def pieces (s : Statement) : List (List Char) := s.items.map Item.text ++ s.trailing?.toList

def list (s : Statement) : List Char := joinWith ',' s.pieces

/-- What stands behind `import` and the white space there. -/
def targets (s : Statement) : List Char :=
  if s.enclosed then '(' :: (s.list ++ ')' :: s.last) else s.list ++ s.last

def text (s : Statement) : List Char :=
  s.indent ++ (s.source?.elim [] Source.text ++ ("import".toList ++ (s.gap ++ s.targets)))

/-- What is imported for an item: its name, behind that of the module it comes from. -/
def pathOf (s : Statement) (i : Item) : List Char :=
  s.source?.elim i.name fun source => source.module ++ '.' :: i.name

def kind (s : Statement) : ImportKind :=
  s.source?.elim .importStatement fun _ => .fromStatement

/-- From where on the names of the items are looked for: from the start of the line, or from the first
item of a `from` line. -/
def searchStart (s : Statement) : Nat :=
  s.source?.elim 0 fun _ => s.text.length - (trimStart s.targets).length

/-- What is read of an item on a line. -/
def importOf (s : Statement) (n : Nat) (i : Item) : Import :=
  i.toImport s.kind n (fun _ => s.pathOf i) fun name => findFrom? name s.text s.searchStart

/-- What is to be said of an item on a line, but for its column: the name it is known by, its path, the
line and the kind. -/
def fact (s : Statement) (n : Nat) (i : Item) : String × String × Int × ImportKind :=
  (String.ofList i.localName, String.ofList (s.pathOf i), n, s.kind)

end Statement

/-- An import without its column. -/
def factOf (i : Import) : String × String × Int × ImportKind := (i.name, i.path, i.line, i.kind)

/-- An import on a line of its own. -/
structure ImportLine extends Statement where
  oneLine : '\n' ∉ toStatement.text

/-! ## Items -/

variable {name seen s t : List Char}

theorem IsName.isSolid (h : IsName name) (s : List Char) : IsSolid (name ++ s) := by
  obtain ⟨c, more, rfl⟩ := List.exists_cons_of_ne_nil h.ne_nil
  exact isSolid_cons (h.solid c List.mem_cons_self) _

theorem IsName.isSolid_reverse (h : IsName name) (s : List Char) : IsSolid (name.reverse ++ s) := by
  obtain ⟨c, more, heq⟩ := List.exists_cons_of_ne_nil (List.reverse_ne_nil_iff.2 h.ne_nil)
  rw [heq]
  exact isSolid_cons (h.solid c (List.mem_reverse.1 (heq ▸ List.mem_cons_self))) _

theorem IsName.trim_eq (h : IsName name) : trim name = name := by
  have hsolid := h.isSolid []
  have hend := h.isSolid_reverse []
  rw [List.append_nil] at hsolid hend
  simpa using trim_padded isPad_nil isPad_nil hsolid hend

theorem dropAs?_of_isSolid (h : IsSolid s) : dropAs? s = none := by
  rw [dropAs?, dropBlanks?_of_isSolid h]
  rfl

theorem dropAs?_text (a : Alias) : dropAs? a.text = some a.name := by
  have hname := a.isName.isSolid []
  rw [List.append_nil] at hname
  have has : IsSolid ("as".toList ++ (a.gap' ++ a.name)) := isSolid_cons (by decide) _
  rw [dropAs?, Alias.text, dropBlanks?_padded a.isGap has, Option.bind_some, dropLiteral_append,
    Option.bind_some, dropBlanks?_padded a.isGap' hname]

theorem splitAs_nil (seen : List Char) : splitAs seen [] = (seen.reverse, none) := by rfl

theorem splitAs_cons (seen : List Char) (c : Char) (s : List Char) :
    splitAs seen (c :: s) =
      match dropAs? (c :: s) with
      | some rest => (seen.reverse, some rest)
      | none => splitAs (c :: seen) s := by
  rfl

theorem splitAs_append (h : ∀ c ∈ name, isBlank c = false) (seen s : List Char) :
    splitAs seen (name ++ s) = splitAs (name.reverse ++ seen) s := by
  induction name generalizing seen with
  | nil => rfl
  | cons c name ih =>
    rw [List.forall_mem_cons] at h
    have hnone := dropAs?_of_isSolid (isSolid_cons h.1 (name ++ s))
    rw [List.cons_append, splitAs_cons, hnone]
    simp only
    rw [ih h.2, List.reverse_cons, List.append_assoc, List.singleton_append]

theorem splitAs_of_solid (h : ∀ c ∈ name, isBlank c = false) : splitAs [] name = (name, none) := by
  have hsplit := splitAs_append h [] []
  rw [List.append_nil, List.append_nil] at hsplit
  rw [hsplit, splitAs_nil, List.reverse_reverse]

theorem splitAs_alias (seen : List Char) (a : Alias) :
    splitAs seen a.text = (seen.reverse, some a.name) := by
  have hdrop := dropAs?_text a
  obtain ⟨b, rest, hgap, -⟩ := a.isGap.exists_cons
  rw [Alias.text, hgap, List.cons_append] at hdrop ⊢
  rw [splitAs_cons, hdrop]

namespace Item

variable (i : Item)

theorem isSolid_core : IsSolid i.core := i.isName.isSolid _

theorem isSolid_core_reverse : IsSolid i.core.reverse := by
  rw [core]
  cases i.alias? with
  | none =>
    have hend := i.isName.isSolid_reverse []
    rw [List.append_nil] at hend
    rw [Option.elim_none, List.append_nil]
    exact hend
  | some a =>
    simp only [Option.elim_some, Alias.text, List.reverse_append, List.append_assoc]
    exact a.isName.isSolid_reverse _

theorem trim_text : trim i.text = i.core :=
  trim_padded i.isPad i.isPad' i.isSolid_core i.isSolid_core_reverse

/-- An item is read as its name and the name that it is known by. -/
theorem itemNames_text : itemNames i.text = (i.name, i.localName) := by
  rw [itemNames, trim_text, core, localName, splitAs_append i.isName.solid]
  cases i.alias? with
  | none => simp [splitAs_nil, i.isName.trim_eq]
  | some a =>
    rw [Option.elim_some, splitAs_alias]
    simp [i.isName.trim_eq, splitAs_of_solid a.isName.solid, a.isName.trim_eq]

end Item

/-! ## Cutting a line into its items -/

theorem mem_joinWith {sep c : Char} {pieces : List (List Char)} (h : c ∈ joinWith sep pieces) :
    c = sep ∨ ∃ piece ∈ pieces, c ∈ piece := by
  fun_induction joinWith sep pieces with
  | case1 => cases h
  | case2 piece => exact Or.inr ⟨piece, List.mem_cons_self, h⟩
  | case3 piece rest hrest ih =>
    rcases List.mem_append.1 h with hpiece | hmore
    · exact Or.inr ⟨piece, List.mem_cons_self, hpiece⟩
    · rcases List.mem_cons.1 hmore with rfl | hmore
      · exact Or.inl rfl
      · obtain heq | ⟨other, hother, hc⟩ := ih hmore
        · exact Or.inl heq
        · exact Or.inr ⟨other, List.mem_cons_of_mem _ hother, hc⟩

theorem mem_joinWith_of_mem {c : Char} {piece : List Char} (sep : Char) (hc : c ∈ piece)
    (rest : List (List Char)) : c ∈ joinWith sep (piece :: rest) := by
  cases rest with
  | nil => exact hc
  | cons next rest => exact List.mem_append_left _ hc

theorem dropWhile_of_forall {p : Char → Bool} (h : ∀ c ∈ s, p c = false) : s.dropWhile p = s := by
  cases s with
  | nil => rfl
  | cons c s => exact List.dropWhile_cons_of_neg (by simp [h c List.mem_cons_self])

theorem trimMatches_of_forall {p : Char → Bool} (h : ∀ c ∈ s, p c = false) :
    trimMatches p s = s := by
  have hreverse : ∀ c ∈ s.reverse, p c = false := fun c hc => h c (List.mem_reverse.1 hc)
  rw [trimMatches, dropWhile_of_forall h, dropWhile_of_forall hreverse, List.reverse_reverse]

theorem trimMatches_enclosed {p : Char → Bool} {first last : Char} (hfirst : p first = true)
    (hlast : p last = true) (hne : s ≠ []) (h : ∀ c ∈ s, p c = false) :
    trimMatches p (first :: (s ++ [last])) = s := by
  have hreverse : ∀ c ∈ s.reverse, p c = false := fun c hc => h c (List.mem_reverse.1 hc)
  have hstop : (s ++ [last]).dropWhile p = s ++ [last] := by
    obtain ⟨c, more, rfl⟩ := List.exists_cons_of_ne_nil hne
    exact List.dropWhile_cons_of_neg (by simp [h c List.mem_cons_self])
  rw [trimMatches, List.dropWhile_cons_of_pos hfirst, hstop, List.reverse_append,
    List.reverse_singleton, List.singleton_append, List.dropWhile_cons_of_pos hlast,
    dropWhile_of_forall hreverse, List.reverse_reverse]

theorem restAfterBlank?_append {gap : List Char} (hgap : IsGap gap) (h : ¬ IsPad s) :
    restAfterBlank? (gap ++ s) = some (trimStart s) := by
  obtain ⟨b, rest, rfl, hb⟩ := hgap.exists_cons
  have hrest : IsPad rest := hgap.pad.suffix (List.suffix_cons b rest)
  rw [List.cons_append, restAfterBlank?, if_pos hb, restOfLine?, trimStart_append hrest]
  cases htrim : trimStart s with
  | nil => exact absurd (List.dropWhile_eq_nil_iff.1 htrim) h
  | cons c r => rfl

theorem itemImport?_congr {kind : ImportKind} {n : Nat} {path : List Char → List Char}
    {column : List Char → Option Nat} (h : trim s = trim t) :
    itemImport? kind n path column s = itemImport? kind n path column t := by
  have hnames : itemNames s = itemNames t := by rw [itemNames, itemNames, h]
  rw [itemImport?, itemImport?, hnames]

theorem filterMap_itemImport?_congr {kind : ImportKind} {n : Nat} {path : List Char → List Char}
    {column : List Char → Option Nat} {xs ys : List (List Char)} (h : xs.map trim = ys.map trim) :
    xs.filterMap (itemImport? kind n path column) =
      ys.filterMap (itemImport? kind n path column) := by
  induction xs generalizing ys with
  | nil =>
    rw [List.map_eq_nil_iff.1 h.symm]
  | cons x xs ih =>
    cases ys with
    | nil => cases h
    | cons y ys =>
      obtain ⟨hxy, hrest⟩ := List.cons.inj h
      rw [List.filterMap_cons, List.filterMap_cons, itemImport?_congr hxy, ih hrest]

theorem plain_of_isBlank {c : Char} (h : isBlank c = true) : c ≠ ',' ∧ isParen c = false := by
  constructor
  · rintro rfl
    exact absurd h (by decide)
  · cases hparen : isParen c with
    | false => rfl
    | true =>
      simp only [isParen, Bool.or_eq_true, decide_eq_true_eq] at hparen
      rcases hparen with rfl | rfl <;> exact absurd h (by decide)

namespace Item

variable (i : Item)

theorem plain_text : ∀ c ∈ i.text, c ≠ ',' ∧ isParen c = false := by
  intro c hc
  rw [text, List.mem_append, List.mem_append, core, List.mem_append] at hc
  rcases hc with (hc | hc | hc) | hc
  · exact plain_of_isBlank (i.isPad c hc)
  · exact i.isName.plain c hc
  · cases halias : i.alias? with
    | none =>
      rw [halias] at hc
      cases hc
    | some a =>
      have has : "as".toList.all (fun c => c ≠ ',' && !isParen c) = true := rfl
      rw [halias, Option.elim_some, Alias.text, List.mem_append, List.mem_append,
        List.mem_append] at hc
      rcases hc with hc | hc | hc | hc
      · exact plain_of_isBlank (a.isGap.pad c hc)
      · simpa using List.all_eq_true.1 has c hc
      · exact plain_of_isBlank (a.isGap'.pad c hc)
      · exact a.isName.plain c hc
  · exact plain_of_isBlank (i.isPad' c hc)

theorem itemImport?_text {kind : ImportKind} {n : Nat} {path : List Char → List Char}
    {column : List Char → Option Nat} :
    itemImport? kind n path column i.text = some (i.toImport kind n path column) := by
  rw [itemImport?, itemNames_text]
  simp only [if_neg i.isName.ne_nil]
  rfl

end Item

namespace Statement

variable (s : Statement)

theorem plain_pieces : ∀ piece ∈ s.pieces, ∀ c ∈ piece, c ≠ ',' ∧ isParen c = false := by
  intro piece hpiece c hc
  rcases List.mem_append.1 hpiece with hitem | hpad
  · obtain ⟨i, -, rfl⟩ := List.mem_map.1 hitem
    exact i.plain_text c hc
  · exact plain_of_isBlank (s.trailing piece (Option.mem_toList.1 hpad) c hc)

theorem splitOn_list : splitOn ',' s.list = s.pieces := by
  have hne : s.pieces ≠ [] := by
    simp [pieces, s.ne_nil]
  exact splitOn_joinWith hne fun piece hpiece hc => (s.plain_pieces piece hpiece ',' hc).1 rfl

theorem isParen_list : ∀ c ∈ s.list, isParen c = false := by
  intro c hc
  rcases mem_joinWith hc with rfl | ⟨piece, hpiece, hc⟩
  · decide
  · exact (s.plain_pieces piece hpiece c hc).2

theorem exists_mem_list : ∃ c ∈ s.list, isBlank c = false := by
  obtain ⟨i, more, heq⟩ := List.exists_cons_of_ne_nil s.ne_nil
  obtain ⟨c, name, hname⟩ := List.exists_cons_of_ne_nil i.isName.ne_nil
  refine ⟨c, ?_, i.isName.solid c (hname ▸ List.mem_cons_self)⟩
  rw [list, pieces, heq, List.map_cons, List.cons_append]
  refine mem_joinWith_of_mem ',' ?_ _
  simp [Item.text, Item.core, hname]

theorem not_isPad_targets : ¬ IsPad s.targets := by
  intro hpad
  obtain ⟨c, hc, hsolid⟩ := s.exists_mem_list
  have hmem : c ∈ s.targets := by
    rw [targets]
    split <;> simp [hc]
  rw [hpad c hmem] at hsolid
  cases hsolid

/-- Without parentheses, a line is cut into its items, but for the white space around them. -/
theorem map_trim_splitOn_targets (h : s.enclosed = false) :
    (splitOn ',' (trimStart s.targets)).map trim = s.pieces.map trim := by
  rw [map_trim_splitOn_trimStart (by decide), targets, h, if_neg Bool.false_ne_true,
    map_trim_splitOn_append (by decide) s.isPad', splitOn_list]

/-- Parentheses around the items are taken off before the line is cut. -/
theorem map_trim_splitOn_trimMatches :
    (splitOn ',' (trimMatches isParen (trim (trimStart s.targets)))).map trim =
      s.pieces.map trim := by
  have htrim : trim (trimStart s.targets) = trim s.targets := by
    rw [trim, trimStart_trimStart, trim]
  rw [htrim, targets]
  cases s.enclosed with
  | true =>
    have hne : s.list ≠ [] := by
      obtain ⟨c, hc, -⟩ := s.exists_mem_list
      exact List.ne_nil_of_mem hc
    have hsolid : IsSolid ('(' :: (s.list ++ [')'])) := isSolid_cons (by decide) _
    have hend : IsSolid ('(' :: (s.list ++ [')'])).reverse := by
      rw [← List.cons_append, List.reverse_append, List.reverse_singleton]
      exact isSolid_cons (by decide) _
    have hpadded := trim_padded isPad_nil s.isPad' hsolid hend
    rw [List.nil_append, List.cons_append, List.append_assoc, List.singleton_append] at hpadded
    rw [if_pos rfl, hpadded, trimMatches_enclosed rfl rfl hne s.isParen_list, splitOn_list]
  | false =>
    have hnone : ∀ c ∈ trim (s.list ++ s.last), isParen c = false := by
      intro c hc
      obtain ⟨blanks, hend, -⟩ := eq_trimEnd_append (trimStart (s.list ++ s.last))
      have hmem : c ∈ s.list ++ s.last :=
        (trimStart_suffix _).mem (hend ▸ List.mem_append_left _ hc)
      rcases List.mem_append.1 hmem with hlist | hlast
      · exact s.isParen_list c hlist
      · exact (plain_of_isBlank (s.isPad' c hlast)).2
    rw [if_neg Bool.false_ne_true, trimMatches_of_forall hnone, map_trim_splitOn_trim (by decide),
      map_trim_splitOn_append (by decide) s.isPad', splitOn_list]

theorem filterMap_pieces {kind : ImportKind} {n : Nat} {path : List Char → List Char}
    {column : List Char → Option Nat} :
    s.pieces.filterMap (itemImport? kind n path column) =
      s.items.map fun i => i.toImport kind n path column := by
  have htrailing : s.trailing?.toList.filterMap (itemImport? kind n path column) = [] := by
    refine List.filterMap_eq_nil_iff.2 fun pad hpad => ?_
    have hempty := trim_append (s.trailing pad (Option.mem_toList.1 hpad)) []
    rw [List.nil_append] at hempty
    rw [itemImport?_congr hempty]
    rfl
  rw [pieces, List.filterMap_append, htrailing, List.append_nil, List.filterMap_map]
  rw [← List.filterMap_eq_map']
  exact List.filterMap_congr fun i _ => i.itemImport?_text

/-! ## Reading a line -/

theorem importTargets?_text (h : s.source? = none) :
    importTargets? s.text = some (trimStart s.targets) := by
  have hsolid : IsSolid ("import".toList ++ (s.gap ++ s.targets)) := isSolid_cons (by decide) _
  rw [importTargets?, text, h, Option.elim_none, List.nil_append, trimStart_padded s.isPad hsolid,
    dropLiteral_append, Option.bind_some, restAfterBlank?_append s.isGap s.not_isPad_targets]

theorem fromTargets?_eq_none (h : s.source? = none) : fromTargets? s.text = none := by
  have hsolid : IsSolid ("import".toList ++ (s.gap ++ s.targets)) := isSolid_cons (by decide) _
  have hfrom : dropLiteral "from".toList ("import".toList ++ (s.gap ++ s.targets)) = none := rfl
  rw [fromTargets?, text, h, Option.elim_none, List.nil_append, trimStart_padded s.isPad hsolid,
    hfrom, Option.bind_none]

theorem text_eq {source : Source} (h : s.source? = some source) :
    trimStart s.text = "from".toList ++ (source.gap ++ (source.module ++
      (source.gap' ++ ("import".toList ++ (s.gap ++ s.targets))))) := by
  rw [text, h, Option.elim_some, Source.text, trimStart_append s.isPad]
  simp only [List.append_assoc]
  exact trimStart_of_isSolid (isSolid_cons (by decide) _)

theorem importTargets?_eq_none {source : Source} (h : s.source? = some source) :
    importTargets? s.text = none := by
  rw [importTargets?, s.text_eq h]
  rfl

theorem fromTargets?_text {source : Source} (h : s.source? = some source) :
    fromTargets? s.text = some (source.module, trimStart s.targets) := by
  let rest := source.gap' ++ ("import".toList ++ (s.gap ++ s.targets))
  have himport : IsSolid ("import".toList ++ (s.gap ++ s.targets)) := isSolid_cons (by decide) _
  have hmodule : IsSolid (source.module ++ rest) := by
    obtain ⟨c, more, heq⟩ := List.exists_cons_of_ne_nil source.ne_nil
    rw [heq]
    exact isSolid_cons (source.solid c (heq ▸ List.mem_cons_self)) _
  have hall : ∀ c ∈ source.module, (!isBlank c) = true := fun c hc => by simp [source.solid c hc]
  obtain ⟨b, blanks, hgap, hb⟩ := source.isGap'.exists_cons
  have hstop : rest = b :: (blanks ++ ("import".toList ++ (s.gap ++ s.targets))) := by
    simp only [rest, hgap, List.cons_append]
  have htake : (source.module ++ rest).takeWhile (fun c => !isBlank c) = source.module := by
    rw [List.takeWhile_append_of_pos hall, hstop, List.takeWhile_cons_of_neg (by simp [hb]),
      List.append_nil]
  have hdrop : (source.module ++ rest).dropWhile (fun c => !isBlank c) = rest := by
    rw [List.dropWhile_append_of_pos hall, hstop, List.dropWhile_cons_of_neg (by simp [hb])]
  rw [fromTargets?, s.text_eq h, dropLiteral_append, Option.bind_some,
    dropBlanks?_padded source.isGap hmodule]
  simp only [htake, hdrop, if_neg source.ne_nil]
  rw [dropBlanks?_padded source.isGap' himport, Option.bind_some, dropLiteral_append,
    Option.bind_some, restAfterBlank?_append s.isGap s.not_isPad_targets]
  rfl

/-- A line is read as its items, in order. -/
theorem lineImports_eq (n : Nat) : lineImports n s.text = s.items.map (s.importOf n) := by
  rw [lineImports]
  cases h : s.source? with
  | none =>
    have hpieces := s.map_trim_splitOn_targets (s.plain h).1
    rw [s.importTargets?_text h, s.fromTargets?_eq_none h]
    simp only [List.append_nil]
    rw [filterMap_itemImport?_congr hpieces, s.filterMap_pieces]
    refine List.map_congr_left fun i _ => ?_
    simp only [importOf, pathOf, kind, searchStart, h, Option.elim_none]
    rfl
  | some source =>
    have hparens : trimMatches (fun c => c = '(' || c = ')') = trimMatches isParen := rfl
    have hpieces := s.map_trim_splitOn_trimMatches
    rw [s.importTargets?_eq_none h, s.fromTargets?_text h]
    simp only [List.nil_append, hparens]
    rw [filterMap_itemImport?_congr hpieces, s.filterMap_pieces]
    refine List.map_congr_left fun i _ => ?_
    simp only [importOf, pathOf, kind, searchStart, h, Option.elim_some]
    rfl

theorem lineImports_text (n : Nat) : (lineImports n s.text).map factOf = s.items.map (s.fact n) := by
  rw [lineImports_eq, List.map_map]
  rfl

end Statement

theorem importsFrom_lines (n : Nat) (lines : List ImportLine) :
    (importsFrom n (lines.map fun l => l.text)).map factOf =
      (lines.zipIdx n).flatMap fun (l, k) => l.items.map (l.fact k) := by
  induction lines generalizing n with
  | nil => rfl
  | cons l lines ih =>
    rw [List.map_cons, importsFrom, List.map_append, l.lineImports_text, ih, List.zipIdx_cons,
      List.flatMap_cons]

/-- A source of import lines is read as the items of its lines, in order, each under the name it is
known by, with its path, its line and its kind. -/
theorem imports_of_lines (lines : List ImportLine) :
    (imports (joinWith '\n' (lines.map fun l => l.text))).map factOf =
      (lines.zipIdx 1).flatMap fun (l, n) => l.items.map (l.fact n) := by
  rw [imports]
  cases lines with
  | nil => rfl
  | cons l more =>
    have hline : ∀ line ∈ (l :: more).map fun l => l.text, '\n' ∉ line := by
      intro line hmem
      obtain ⟨l', -, rfl⟩ := List.mem_map.1 hmem
      exact l'.oneLine
    have hne : (l :: more).map (fun l => l.text) ≠ [] := List.cons_ne_nil _ _
    rw [splitOn_joinWith hne hline]
    exact importsFrom_lines 1 (l :: more)

namespace Relative

def renamed (name : List Char) (h : IsName name) : Alias :=
  ⟨[' '], [' '], name, isGap_space, isGap_space, h⟩

def module : ImportLine where
  toStatement :=
    .short none [⟨[], "a.b".toList, some (renamed ['c'] (by decide)), [], isPad_nil, by decide,
      isPad_nil⟩] (List.cons_ne_nil _ _)
  oneLine := by decide

/-- A relative module, an alias, and a comma behind the last item. -/
def names : ImportLine where
  indent := ['\t']
  source? := some ⟨[' '], ['.'], [' '], isGap_space, isGap_space, List.cons_ne_nil _ _,
    List.forall_mem_singleton.2 (by decide)⟩
  gap := [' ']
  enclosed := true
  items :=
    [⟨[], ['d'], some (renamed ['e'] (by decide)), [' '], isPad_nil, by decide, isPad_space⟩,
      .bare [] ['f'] isPad_nil (by decide)]
  trailing? := some ['\t']
  last := []
  isPad := by decide
  isGap := isGap_space
  ne_nil := List.cons_ne_nil _ _
  isPad' := isPad_nil
  trailing := by decide
  plain := nofun
  oneLine := by decide

theorem imports_of_names :
    joinWith '\n' ([module, names].map fun l => l.text) =
        "import a.b as c\n\tfrom . import (d as e ,f,\t)".toList ∧
      (imports (joinWith '\n' ([module, names].map fun l => l.text))).map factOf =
        [("c", "a.b", 1, .importStatement), ("e", "..d", 2, .fromStatement),
          ("f", "..f", 2, .fromStatement)] :=
  ⟨by decide +kernel, (imports_of_lines [module, names]).trans (by decide +kernel)⟩

end Relative

end Python
end DeclScan
