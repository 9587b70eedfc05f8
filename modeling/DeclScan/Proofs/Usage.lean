import DeclScan.Usage
import Mathlib.Tactic

/-!
# DeclScan.Proofs.Usage

Which declarations are much used. Of all variables with one name the first stands for it, so the order
of the variables decides; whether a name is much used does not depend on it.

* `Usage.firsts`: the first variable of each name.
* `Usage.hotspots_crossReference`: the hotspots are the first ones whose names are met often.
* `Usage.OneSource`: not more than one file has variables. Then the order of the files does not
  matter, and else it does.
-/

namespace DeclScan
namespace Usage

/-- The first variable of each name, in the order in which the names are met. -/
def firsts : List Variable → List Variable
  | [] => []
  | v :: vars => v :: (firsts vars).filter fun other => other.name ≠ v.name

theorem mem_of_mem_firsts {vars : List Variable} {v : Variable} (h : v ∈ firsts vars) :
    v ∈ vars := by
  induction vars with
  | nil => cases h
  | cons first vars ih =>
    rcases List.mem_cons.1 h with rfl | hrest
    · exact List.mem_cons_self
    · exact List.mem_cons_of_mem _ (ih (List.mem_filter.1 hrest).1)

theorem mem_names_firsts {vars : List Variable} {name : String} :
    name ∈ (firsts vars).map Variable.name ↔ name ∈ vars.map Variable.name := by
  constructor
  · intro h
    obtain ⟨v, hv, rfl⟩ := List.mem_map.1 h
    exact List.mem_map_of_mem (mem_of_mem_firsts hv)
  · induction vars with
    | nil => exact id
    | cons first vars ih =>
      intro h
      by_cases hname : name = first.name
      · exact List.mem_cons.2 (.inl hname)
      · obtain ⟨v, hv, rfl⟩ := List.mem_map.1 (ih ((List.mem_cons.1 h).resolve_left hname))
        exact List.mem_map_of_mem (List.mem_cons_of_mem _ (by simp [hv, hname]))

theorem nodup_names_firsts (vars : List Variable) : ((firsts vars).map Variable.name).Nodup := by
  induction vars with
  | nil => exact List.nodup_nil
  | cons first vars ih =>
    rw [firsts, List.map_cons, List.nodup_cons]
    refine ⟨?_, ih.sublist (List.filter_sublist.map _)⟩
    intro h
    obtain ⟨v, hv, heq⟩ := List.mem_map.1 h
    simpa [heq] using (List.mem_filter.1 hv).2

theorem perm_names_firsts {vars vars' : List Variable} (h : vars.Perm vars') :
    ((firsts vars).map Variable.name).Perm ((firsts vars').map Variable.name) := by
  refine (List.perm_ext_iff_of_nodup (nodup_names_firsts _) (nodup_names_firsts _)).2 fun name => ?_
  rw [mem_names_firsts, mem_names_firsts, (h.map Variable.name).mem_iff]

theorem head?_firsts (vars : List Variable) : (firsts vars).head? = vars.head? := by
  cases vars <;> rfl

theorem filter_firsts (p : String → Bool) (vars : List Variable) :
    (firsts vars).filter (fun v => p v.name) = firsts (vars.filter fun v => p v.name) := by
  induction vars with
  | nil => rfl
  | cons first vars ih =>
    by_cases hfirst : p first.name = true
    · rw [List.filter_cons_of_pos (by exact hfirst), firsts, firsts, ← ih,
        List.filter_cons_of_pos (by exact hfirst), List.filter_comm]
    · rw [List.filter_cons_of_neg (by exact hfirst), firsts, ← ih,
        List.filter_cons_of_neg (by exact hfirst), List.filter_filter]
      refine List.filter_congr fun v _ => ?_
      by_cases hv : v.name = first.name
      · simp [hv, hfirst]
      · simp [hv]

theorem find?_firsts (name : String) (vars : List Variable) :
    (firsts vars).find? (fun v => v.name = name) =
      (vars.filter fun v => v.name = name).head? := by
  rw [← List.head?_filter]
  exact (congrArg List.head? (filter_firsts (· = name) vars)).trans (head?_firsts _)

theorem declarations_eq (vars : List Variable) :
    declarations vars = (firsts vars).map fun v => (v.name, v) := by
  have hfold : ∀ (vars : List Variable) (table : Table Variable),
      vars.foldl (fun table v => if table.has v.name then table else table ++ [(v.name, v)]) table =
        table ++ ((firsts vars).filter fun v => !table.has v.name).map fun v => (v.name, v) := by
    intro vars
    induction vars with
    | nil => simp [firsts]
    | cons first vars ih =>
      intro table
      rw [List.foldl_cons, ih, firsts]
      by_cases hfirst : table.has first.name = true
      · rw [if_pos hfirst, List.filter_cons_of_neg (by simp [hfirst]), List.filter_filter]
        refine congrArg _ (congrArg _ (List.filter_congr fun v _ => ?_))
        by_cases hv : v.name = first.name
        · simp [hv, hfirst]
        · simp [hv]
      · rw [if_neg hfirst, List.filter_cons_of_pos (by simpa using hfirst), List.filter_filter,
          List.append_assoc]
        refine congrArg _ (congrArg _ (congrArg _ (List.filter_congr fun v _ => ?_)))
        have hhas : Table.has v.name (table ++ [(first.name, first)]) =
            (Table.has v.name table || decide (v.name = first.name)) := by
          rw [Bool.eq_iff_iff]
          simp [Table.has_iff_mem_keys, Table.keys]
        rw [hhas]
        by_cases hv : v.name = first.name <;> simp [hv]
  rw [declarations, hfold]
  simp [Table.has, Table.get?]

/-- The first variable of each name that is met often enough. -/
theorem hotspots_crossReference (documents : List (String × List Char))
    (variablesByFile : List (String × List Variable)) (w : WordClass) (threshold : Int) :
    hotspots (crossReference documents variablesByFile w) threshold =
      firsts ((variablesByFile.flatMap Prod.snd).filter fun v =>
        decide (threshold ≤ (documents.flatMap (occurrencesIn w v.name)).length)) := by
  have hpick := filter_firsts
    (fun name => decide (threshold ≤ (documents.flatMap (occurrencesIn w name)).length))
    (variablesByFile.flatMap Prod.snd)
  rw [← hpick, hotspots, crossReference, declarations_eq, List.map_map, List.filterMap_map]
  rw [← List.filterMap_eq_filter]
  refine List.filterMap_congr fun v _ => ?_
  simp [Option.guard]

/-! ## The order of files -/

/-- Not more than one of the files has variables. -/
def OneSource (vars : String → List Variable) (files : List String) : Prop :=
  ∀ path ∈ files, ∀ other ∈ files, vars path ≠ [] → vars other ≠ [] → path = other

section Order

variable {vars : String → List Variable} {files order : List String}

theorem OneSource.flatMap_eq (h : OneSource vars files) (hnodup : files.Nodup)
    (horder : order.Perm files) : order.flatMap vars = files.flatMap vars := by
  have hskip : ∀ paths : List String,
      paths.flatMap vars = (paths.filter fun path => vars path ≠ []).flatMap vars := by
    intro paths
    induction paths with
    | nil => rfl
    | cons path paths ih =>
      by_cases hpath : vars path = [] <;> simp [hpath, ih]
  have hfilter := horder.filter fun path => decide (vars path ≠ [])
  rw [hskip order, hskip files]
  cases hsources : files.filter fun path => decide (vars path ≠ []) with
  | nil =>
    rw [hsources, List.perm_nil] at hfilter
    rw [hfilter]
  | cons path rest =>
    have hmem : ∀ other ∈ path :: rest, other ∈ files ∧ vars other ≠ [] := by
      rw [← hsources]
      simp
    have hdistinct : (path :: rest).Nodup := hsources ▸ hnodup.filter _
    obtain rfl : rest = [] := by
      cases rest with
      | nil => rfl
      | cons other rest =>
        obtain ⟨hpath, hvars⟩ := hmem path (by simp)
        obtain ⟨hother, hvars'⟩ := hmem other (by simp)
        have heq := h path hpath other hother hvars hvars'
        simp [heq] at hdistinct
    rw [hsources, List.perm_singleton] at hfilter
    rw [hfilter]

theorem exists_order {path : String} (hpath : path ∈ files) (hvars : vars path ≠ []) :
    ∃ order : List String, order.Perm files ∧
      ∃ v ∈ vars path, (order.flatMap vars).head? = some v := by
  refine ⟨path :: files.erase path, (List.perm_cons_erase hpath).symm, (vars path).head hvars,
    List.head_mem hvars, ?_⟩
  rw [List.flatMap_cons, List.head?_append, List.head?_eq_some_head hvars]
  rfl

theorem head?_flatMap_iff (hnodup : files.Nodup)
    (hsigned : ∀ path ∈ files, ∀ v ∈ vars path, v.filePath = path) {found : Option Variable}
    (hfound : ∃ order : List String, order.Perm files ∧ (order.flatMap vars).head? = found) :
    (∀ order : List String, order.Perm files → (order.flatMap vars).head? = found) ↔
      OneSource vars files := by
  constructor
  · intro hsame path hpath other hother hvars hvars'
    obtain ⟨order, horder, v, hv, hhead⟩ := exists_order hpath hvars
    obtain ⟨order', horder', v', hv', hhead'⟩ := exists_order hother hvars'
    have heq : some v = some v' :=
      hhead.symm.trans ((hsame order horder).trans ((hsame order' horder').symm.trans hhead'))
    rw [← hsigned path hpath v hv, Option.some.inj heq, hsigned other hother v' hv']
  · rintro hone order horder
    obtain ⟨order', horder', rfl⟩ := hfound
    rw [hone.flatMap_eq hnodup horder, hone.flatMap_eq hnodup horder']

theorem firsts_flatMap_iff (hnodup : files.Nodup)
    (hsigned : ∀ path ∈ files, ∀ v ∈ vars path, v.filePath = path) {found : List Variable}
    (hfound : ∃ order : List String, order.Perm files ∧ firsts (order.flatMap vars) = found) :
    (∀ order : List String, order.Perm files → firsts (order.flatMap vars) = found) ↔
      OneSource vars files := by
  obtain ⟨order', horder', rfl⟩ := hfound
  constructor
  · intro hsame
    refine (head?_flatMap_iff hnodup hsigned ⟨order', horder', rfl⟩).1 fun order horder => ?_
    rw [← head?_firsts, hsame order horder, head?_firsts]
  · intro hone order horder
    rw [hone.flatMap_eq hnodup horder, hone.flatMap_eq hnodup horder']

end Order

end Usage
end DeclScan
