import DeclScan.Path
import Mathlib.Tactic

/-!
# DeclScan.Proofs.Files.Paths

Paths that are put together from a directory and names. Taken apart again they give these names, so
different names lead to different paths.

* `Path.IsName`: the names that a directory can give to what is in it.
* `Path.below`: the path that leads from a root along a way of names.
* `Path.names_below`, `Path.below_inj`: the way back, from the names.
* `Path.below?_resolve_below`: the way back from resolved paths.
-/

namespace DeclScan

namespace Path

/-! ## Names -/

/-- A name of something in a directory: not empty, without slashes, and no step to the directory
itself or up. -/
structure IsName (name : String) : Prop where
  ne_empty : name ≠ ""
  ne_dot : name ≠ "."
  ne_up : name ≠ ".."
  slash_not_mem : '/' ∉ name.toList

instance (name : String) : Decidable (IsName name) :=
  decidable_of_iff (name ≠ "" ∧ name ≠ "." ∧ name ≠ ".." ∧ '/' ∉ name.toList)
    ⟨fun ⟨h, h', h'', h'''⟩ => ⟨h, h', h'', h'''⟩, fun ⟨h, h', h'', h'''⟩ => ⟨h, h', h'', h'''⟩⟩

theorem IsName.names {name : String} (h : IsName name) : names name = [name] := by
  simp [Path.names, Text.splitOn_of_not_mem h.slash_not_mem, h.ne_empty, h.ne_dot]

theorem IsName.suffix {name : String} (h : IsName name) : suffix name =
    String.ofList (nameSuffix name.toList) := by
  rw [Path.suffix, Path.name, h.names, List.getLast?_singleton, Option.getD_some]

/-! ## A directory and a name -/

theorem endsWith_iff {path literal : String} :
    path.endsWith literal = true ↔ literal.toList <:+ path.toList := by
  have h : path.toSlice.endsWith literal = true ↔ literal.toList <:+ path.toSlice.copy.toList :=
    String.Slice.endsWith_string_iff
  rwa [String.copy_toSlice] at h

theorem toList_join (directory name : String) :
    directory = "" ∧ join directory name = name ∨
      directory ≠ "" ∧ ∃ front, (directory.toList = front ∨ directory.toList = front ++ ['/']) ∧
        (join directory name).toList = front ++ '/' :: name.toList := by
  by_cases hempty : directory = ""
  · exact .inl ⟨hempty, by simp [join, hempty]⟩
  · refine .inr ⟨hempty, ?_⟩
    by_cases hslash : directory.endsWith "/" = true
    · obtain ⟨front, hfront⟩ := endsWith_iff.1 hslash
      have hjoin : join directory name = directory ++ name := by simp [join, hslash]
      exact ⟨front, .inr hfront.symm, by rw [hjoin, String.toList_append, ← hfront]; simp⟩
    · have hjoin : join directory name = directory ++ "/" ++ name := by
        simp [join, hempty, hslash]
      exact ⟨directory.toList, .inl rfl, by rw [hjoin]; simp [String.toList_append]⟩

theorem names_join (directory : String) {name : String} (h : IsName name) :
    names (join directory name) = names directory ++ [name] := by
  have hname := h.names
  rcases toList_join directory name with ⟨rfl, hjoin⟩ | ⟨-, front, hdirectory, hjoin⟩
  · rw [hjoin, hname]
    rfl
  · simp only [names] at hname ⊢
    rw [hjoin, Text.splitOn_append, List.map_append, List.filter_append, hname]
    rcases hdirectory with hdirectory | hdirectory
    · rw [hdirectory]
    · rw [hdirectory, Text.splitOn_append]
      simp [Text.splitOn, Text.splitFrom]

theorem anchor_eq_nil_iff {path : String} :
    anchor path = [] ↔ path.toList.head? ≠ some '/' := by
  simp only [ne_eq, List.head?_eq_some_iff, not_exists]
  unfold anchor
  split <;> simp_all

theorem IsName.anchor {name : String} (h : IsName name) : anchor name = [] :=
  anchor_eq_nil_iff.2 fun hslash => h.slash_not_mem (List.mem_of_head? hslash)

theorem anchor_join_eq_nil_iff (directory : String) {name : String} (h : IsName name) :
    anchor (join directory name) = [] ↔ anchor directory = [] := by
  rcases toList_join directory name with ⟨rfl, hjoin⟩ | ⟨hne, front, hdirectory, hjoin⟩
  · rw [hjoin, h.anchor]
    rfl
  · have hnil : directory.toList ≠ [] := fun h => hne (String.toList_inj.1 h)
    rw [anchor_eq_nil_iff, anchor_eq_nil_iff, hjoin]
    rcases hdirectory with hdirectory | hdirectory <;>
    · rw [hdirectory] at hnil ⊢
      cases front <;> simp at hnil ⊢

theorem endsWith_join (directory : String) {name : String} (h : IsName name) :
    (join directory name).endsWith "/" = false ∧ (join directory name).endsWith "/." = false := by
  have hsuffix : name.toList <:+ (join directory name).toList := by
    rcases toList_join directory name with ⟨-, hjoin⟩ | ⟨-, front, -, hjoin⟩
    · rw [hjoin]
    · rw [hjoin]
      exact (List.suffix_cons _ _).trans (List.suffix_append _ _)
  have hnil : name.toList ≠ [] := fun hnil => h.ne_empty (String.toList_inj.1 hnil)
  constructor
  · refine Bool.eq_false_iff.2 fun hslash => ?_
    have hend : ['/'] <:+ (join directory name).toList := endsWith_iff.1 hslash
    rcases List.suffix_or_suffix_of_suffix hend hsuffix with hpart | hpart
    · exact h.slash_not_mem (hpart.subset (by simp))
    · rcases List.suffix_cons_iff.1 hpart with heq | hnone
      · exact h.slash_not_mem (heq ▸ by simp)
      · exact hnil (List.suffix_nil.1 hnone)
  · refine Bool.eq_false_iff.2 fun hslash => ?_
    have hend : ['/', '.'] <:+ (join directory name).toList := endsWith_iff.1 hslash
    rcases List.suffix_or_suffix_of_suffix hend hsuffix with hpart | hpart
    · exact h.slash_not_mem (hpart.subset (by simp))
    · rcases List.suffix_cons_iff.1 hpart with heq | hrest
      · exact h.slash_not_mem (heq ▸ by simp)
      · rcases List.suffix_cons_iff.1 hrest with heq | hnone
        · exact h.ne_dot (String.toList_inj.1 heq)
        · exact hnil (List.suffix_nil.1 hnone)

theorem suffix_join (directory : String) {name : String} (h : IsName name) :
    suffix (join directory name) = suffix name := by
  rw [h.suffix, suffix, Path.name, names_join directory h, List.getLast?_concat, Option.getD_some]

/-! ## Ways of names -/

/-- The path that leads from a root along a way of names. -/
def below (root : String) (way : List String) : String := way.foldl join root

theorem below_append (root : String) (way : List String) (name : String) :
    below root (way ++ [name]) = join (below root way) name := by
  simp [below]

theorem names_below (root : String) {way : List String} (h : ∀ name ∈ way, IsName name) :
    names (below root way) = names root ++ way := by
  induction way generalizing root with
  | nil => simp [below]
  | cons name way ih =>
    have hrest := ih (join root name) fun name hname => h name (List.mem_cons_of_mem _ hname)
    rw [below, List.foldl_cons, ← below, hrest, names_join root (h name List.mem_cons_self)]
    simp

theorem below_inj {root : String} {way other : List String} (h : ∀ name ∈ way, IsName name)
    (hother : ∀ name ∈ other, IsName name) (heq : below root way = below root other) :
    way = other := by
  have hnames := congrArg names heq
  rw [names_below root h, names_below root hother] at hnames
  exact List.append_cancel_left hnames

theorem join_ne_empty (directory : String) {name : String} (h : IsName name) :
    join directory name ≠ "" := by
  intro hempty
  have hnames := names_join directory h
  rw [hempty] at hnames
  simp [names, Text.splitOn, Text.splitFrom] at hnames

theorem below_ne_empty {root : String} (hne : root ≠ "") {way : List String}
    (h : ∀ name ∈ way, IsName name) : below root way ≠ "" := by
  induction way generalizing root with
  | nil => exact hne
  | cons name way ih =>
    rw [List.forall_mem_cons] at h
    exact ih (join_ne_empty root h.1) h.2

theorem anchor_below_eq_nil_iff (root : String) {way : List String}
    (h : ∀ name ∈ way, IsName name) : anchor (below root way) = [] ↔ anchor root = [] := by
  induction way generalizing root with
  | nil => rfl
  | cons name way ih =>
    rw [List.forall_mem_cons] at h
    rw [below, List.foldl_cons, ← below, ih (join root name) h.2, anchor_join_eq_nil_iff root h.1]

/-! ## Resolved paths -/

theorem foldl_step (r : Resolved) {way : List String} (h : ∀ name ∈ way, IsName name) :
    way.foldl Resolved.step r = { r with names := r.names ++ way } := by
  induction way generalizing r with
  | nil => simp
  | cons name way ih =>
    rw [List.forall_mem_cons] at h
    rw [List.foldl_cons, ih _ h.2, Resolved.step, if_neg h.1.ne_up]
    simp

theorem resolve_below (root : String) {way : List String} (h : ∀ name ∈ way, IsName name) :
    resolve (below root way) = { resolve root with names := (resolve root).names ++ way } := by
  have hanchor : (anchor (below root way) ≠ []) = (anchor root ≠ []) :=
    propext (not_congr (anchor_below_eq_nil_iff root h))
  simp only [resolve, names_below root h, List.foldl_append, hanchor, foldl_step _ h]

/-- From a root the way to a path below it is found again, whatever the root is called. -/
theorem below?_resolve_below (root : String) {way : List String} (h : ∀ name ∈ way, IsName name) :
    (resolve root).below? (resolve (below root way)) = some way := by
  rw [resolve_below root h]
  simp [Resolved.below?]

end Path
end DeclScan
