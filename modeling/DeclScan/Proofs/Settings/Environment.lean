import DeclScan.Proofs.Settings.Merging
import DeclScan.Proofs.Text.Lower
import Mathlib.Data.List.TakeWhile

/-!
# DeclScan.Proofs.Settings.Environment

What the environment says about settings. A variable is about a field if its name is that of the
field behind the mark, in letters of any case; of several variables about one field the last counts.

* `Settings.IsVariableOf`, `Settings.Values.Says`: which field a variable is about, and what it says.
* `Settings.Values.environmentField?`: what the environment says about a field.
* `Settings.Values.field?_ofEnvironment`: that is what its layer has.
* `Settings.Values.environmentField?_eq_some_iff`: where no two names differ in case only, it is what
  the one variable says.
-/

namespace DeclScan

namespace Settings

/-! ## Names and values -/

/-- A name in the environment that stands for a field of a section that settings have: the mark,
the two names with an underscore between them, in letters of any case. -/
def IsVariableOf (sectionName fieldName name : String) : Prop :=
  sectionName ∈ sectionNames ∧ fieldName ≠ "" ∧ ∃ s f : List Char,
    name.toList = environmentMark.toList ++ (s ++ '_' :: f) ∧
      Text.lower s = sectionName.toList ∧ Text.lower f = fieldName.toList

theorem underscore_not_mem_sectionName {sectionName : String} (h : sectionName ∈ sectionNames) :
    '_' ∉ sectionName.toList := by
  have hall : ∀ name ∈ sectionNames, '_' ∉ name.toList := by decide
  exact hall sectionName h

theorem parted {s f : List Char} (h : '_' ∉ s) :
    (s ++ '_' :: f).takeWhile (· ≠ '_') = s ∧
      ((s ++ '_' :: f).dropWhile (· ≠ '_')).drop 1 = f := by
  have hall : ∀ c ∈ s, decide (c ≠ '_') = true := by
    intro c hc
    simpa using fun e : c = '_' => h (e ▸ hc)
  rw [List.takeWhile_append_of_pos hall, List.dropWhile_append_of_pos hall]
  simp

theorem environmentName?_eq_some_iff {name sectionName fieldName : String} :
    environmentName? name = some (sectionName, fieldName) ↔
      IsVariableOf sectionName fieldName name := by
  unfold environmentName?
  constructor
  · intro h
    split at h
    · cases h
    rename_i rest hrest
    simp only [Option.ite_none_right_eq_some, Option.some.injEq, Prod.mk.injEq, Bool.and_eq_true,
      List.contains_iff_mem, decide_eq_true_eq] at h
    obtain ⟨⟨hsection, hfield⟩, rfl, rfl⟩ := h
    refine ⟨hsection, hfield, ?_⟩
    have hmem : '_' ∈ Text.lower rest := by
      by_contra hnone
      refine hfield (congrArg String.ofList ?_)
      rw [List.dropWhile_eq_nil_iff.2 fun c hc => ?_, List.drop_nil]
      simpa using fun e : c = '_' => hnone (e ▸ hc)
    obtain ⟨s, f, rfl, hs⟩ := List.eq_append_cons_of_mem (Text.underscore_mem_lowerFrom.1 hmem)
    have hlower : '_' ∉ Text.lower s := fun h => hs (Text.underscore_mem_lowerFrom.1 h)
    rw [Text.lower_append_underscore, (parted hlower).1, (parted hlower).2]
    exact ⟨s, f, Text.eq_append_of_dropLiteral hrest, (String.toList_ofList).symm,
      (String.toList_ofList).symm⟩
  · rintro ⟨hsection, hfield, s, f, hname, hs, hf⟩
    have hunderscore := underscore_not_mem_sectionName hsection
    rw [hname, Text.dropLiteral_append]
    simp only [Text.lower_append_underscore, hs, hf, (parted hunderscore).1, (parted hunderscore).2,
      String.ofList_toList]
    simp [hsection, hfield]

instance (sectionName fieldName name : String) :
    Decidable (IsVariableOf sectionName fieldName name) :=
  decidable_of_iff _ environmentName?_eq_some_iff

/-- Two names with the mark that are the same but for the case of letters. -/
def SameButForCase (name other : String) : Prop :=
  environmentMark.toList <+: name.toList ∧ environmentMark.toList <+: other.toList ∧
    Path.lower name = Path.lower other

/-- No two names with the mark are the same but for the case of letters. -/
def AreApart (environment : List (String × String)) : Prop :=
  environment.Pairwise fun x y => ¬SameButForCase x.1 y.1

instance : Std.Symm fun x y : String × String => ¬SameButForCase x.1 y.1 :=
  ⟨fun _ _ h h' => h ⟨h'.2.1, h'.1, h'.2.2.symm⟩⟩

theorem sameButForCase_of_isVariableOf {sectionName fieldName name other : String}
    (hname : IsVariableOf sectionName fieldName name)
    (hother : IsVariableOf sectionName fieldName other) : SameButForCase name other := by
  have hmark {name : String} (h : IsVariableOf sectionName fieldName name) :
      environmentMark.toList <+: name.toList := by
    obtain ⟨-, -, s, f, heq, -⟩ := h
    exact ⟨_, heq.symm⟩
  have hlower {name : String} (h : IsVariableOf sectionName fieldName name) :
      Text.lower name.toList =
        Text.lower "DAUNS".toList ++ '_' :: (sectionName.toList ++ '_' :: fieldName.toList) := by
    obtain ⟨-, -, s, f, heq, hs, hf⟩ := h
    have hmark : environmentMark.toList = "DAUNS".toList ++ ['_'] := rfl
    rw [heq, hmark, List.append_assoc, List.singleton_append, Text.lower_append_underscore,
      Text.lower_append_underscore, hs, hf]
  exact ⟨hmark hname, hmark hother, by rw [Path.lower, Path.lower, hlower hname, hlower hother]⟩

namespace Values

variable {κ ν : Type} (vals : Values κ ν)

/-! ## What the environment says -/

/-- What a text says about a field: of a list the items between the commas, trimmed, without those
that are empty; otherwise the text itself. -/
def Says (sectionName fieldName text : String) (v : ν) : Prop :=
  if (sectionName, fieldName) ∈ listFields then
    ∃ pieces, pieces ≠ [] ∧ Text.joinWith ',' pieces = text.toList ∧
      (∀ piece ∈ pieces, ',' ∉ piece) ∧
      v = vals.ofTexts (((pieces.map Text.trim).filter (· ≠ [])).map String.ofList)
  else v = vals.ofText text

/-- What the environment says about a field: the last variable counts. -/
def environmentField? (environment : List (String × String)) : Key κ → Key κ → Option ν
  | .text sectionName, .text fieldName =>
    environment.reverse.findSome? fun (name, text) =>
      if IsVariableOf sectionName fieldName name then
        some (vals.environmentValue (sectionName, fieldName) text)
      else none
  | _, _ => none

variable {vals}

theorem says_iff {sectionName fieldName text : String} {v : ν} :
    vals.Says sectionName fieldName text v ↔
      v = vals.environmentValue (sectionName, fieldName) text := by
  have hitems (pieces : List (List Char)) :
      (pieces.map fun item => String.ofList (Text.trim item)).filter (· ≠ "") =
        ((pieces.map Text.trim).filter (· ≠ [])).map String.ofList := by
    have hempty (item : List Char) : (String.ofList item ≠ "") = (item ≠ []) := by
      rw [ne_eq, ne_eq, ← String.toList_inj, String.toList_ofList]
      rfl
    rw [← Function.comp_def String.ofList Text.trim, ← List.map_map, List.filter_map]
    simp only [Function.comp_def, hempty]
  by_cases hlist : (sectionName, fieldName) ∈ listFields
  · rw [Says, if_pos hlist, environmentValue, if_pos (by simpa using hlist), commaItems, hitems]
    constructor
    · rintro ⟨pieces, hne, hjoin, hcommas, rfl⟩
      rw [← hjoin, Text.splitOn_joinWith hne hcommas]
    · rintro rfl
      exact ⟨_, Text.splitOn_ne_nil ',' _, Text.joinWith_splitOn ',' _,
        fun _ => Text.not_mem_of_mem_splitOn, rfl⟩
  · rw [Says, if_neg hlist, environmentValue, if_neg (by simpa using hlist)]

theorem environmentField?_eq_some_iff {environment : List (String × String)}
    (h : AreApart environment) {sectionKey fieldKey : Key κ} {v : ν} :
    vals.environmentField? environment sectionKey fieldKey = some v ↔
      ∃ sectionName fieldName name text, sectionKey = .text sectionName ∧
        fieldKey = .text fieldName ∧ (name, text) ∈ environment ∧
        IsVariableOf sectionName fieldName name ∧ vals.Says sectionName fieldName text v := by
  simp only [says_iff]
  constructor
  · intro hv
    match sectionKey, fieldKey with
    | .text sectionName, .text fieldName =>
      obtain ⟨⟨name, text⟩, hmem, hfound⟩ := List.exists_of_findSome?_eq_some hv
      simp only [Option.ite_none_right_eq_some, Option.some.injEq] at hfound
      exact ⟨sectionName, fieldName, name, text, rfl, rfl, List.mem_reverse.1 hmem, hfound.1,
        hfound.2.symm⟩
  · rintro ⟨sectionName, fieldName, name, text, rfl, rfl, hmem, hname, rfl⟩
    have hsome : (vals.environmentField? environment (.text sectionName) (.text fieldName)).isSome =
        true := by
      rw [environmentField?, List.isSome_findSome?, List.any_eq_true]
      exact ⟨(name, text), List.mem_reverse.2 hmem, by simp [hname]⟩
    obtain ⟨w, hw⟩ := Option.isSome_iff_exists.1 hsome
    rw [hw]
    obtain ⟨⟨other, text'⟩, hmem', hfound⟩ := List.exists_of_findSome?_eq_some hw
    simp only [Option.ite_none_right_eq_some, Option.some.injEq] at hfound
    obtain ⟨hother, rfl⟩ := hfound
    by_contra hne
    have hdifferent : (name, text) ≠ (other, text') := by
      rintro heq
      cases heq
      exact hne rfl
    exact h.forall hmem (List.mem_reverse.1 hmem') hdifferent
      (sameButForCase_of_isVariableOf hname hother)

/-! ## The layer of the environment -/

theorem not_isMapping_environmentValue (name : String × String) (text : String) :
    ¬vals.IsMapping (vals.environmentValue name text) := by
  rw [not_isMapping_iff, environmentValue]
  split
  · exact vals.mapping?_ofTexts _
  · exact vals.mapping?_ofText _

variable [DecidableEq κ]

section SetField

variable {sections : Mapping κ ν}

theorem field?_setField (name : String × String) (v : ν) (sectionKey fieldKey : Key κ) :
    vals.field? (vals.setField sections name v) sectionKey fieldKey =
      if sectionKey = .text name.1 ∧ fieldKey = .text name.2 then some v
      else vals.field? sections sectionKey fieldKey := by
  rw [setField]
  by_cases hsection : sectionKey = .text name.1
  · subst hsection
    rw [field?_of_get? (Mapping.get?_put_self ..) (vals.mapping?_ofMapping _)]
    by_cases hfield : fieldKey = .text name.2
    · rw [hfield, Mapping.get?_put_self, if_pos ⟨rfl, rfl⟩]
    · rw [Mapping.get?_put_of_ne hfield, if_neg fun h => hfield h.2, field?]
      cases (sections.get? (.text name.1)).bind vals.mapping? <;> rfl
  · rw [field?, Mapping.get?_put_of_ne hsection, if_neg fun h => hsection h.1, field?]

theorem IsFlat.setField (h : vals.IsFlat sections) (name : String × String) {v : ν}
    (hv : ¬vals.IsMapping v) : vals.IsFlat (vals.setField sections name v) where
  isMapping_section sectionKey w hw := by
    by_cases hsection : sectionKey = .text name.1
    · rw [hsection, Values.setField, Mapping.get?_put_self, Option.some.injEq] at hw
      exact hw ▸ isMapping_ofMapping _
    · rw [Values.setField, Mapping.get?_put_of_ne hsection] at hw
      exact h.isMapping_section sectionKey w hw
  not_isMapping_field sectionKey fieldKey w hw := by
    rw [field?_setField] at hw
    split at hw
    · cases hw
      exact hv
    · exact h.not_isMapping_field sectionKey fieldKey w hw

end SetField

theorem ofEnvironment_append_singleton (environment : List (String × String))
    (entry : String × String) :
    vals.ofEnvironment (environment ++ [entry]) =
      match environmentName? entry.1 with
      | some found =>
        vals.setField (vals.ofEnvironment environment) found (vals.environmentValue found entry.2)
      | none => vals.ofEnvironment environment := by
  rw [ofEnvironment, List.foldl_append, List.foldl_cons, List.foldl_nil]
  rfl

theorem isFlat_ofEnvironment (environment : List (String × String)) :
    vals.IsFlat (vals.ofEnvironment environment) := by
  induction environment using List.reverseRecOn with
  | nil => exact isFlat_empty vals
  | append_singleton environment entry ih =>
    rw [ofEnvironment_append_singleton]
    split
    · exact ih.setField _ (not_isMapping_environmentValue _ _)
    · exact ih

/-- The layer of the environment has what the environment says. -/
theorem field?_ofEnvironment (environment : List (String × String)) (sectionKey fieldKey : Key κ) :
    vals.field? (vals.ofEnvironment environment) sectionKey fieldKey =
      vals.environmentField? environment sectionKey fieldKey := by
  induction environment using List.reverseRecOn with
  | nil => cases sectionKey <;> cases fieldKey <;> rfl
  | append_singleton environment entry ih =>
    have hcons : vals.environmentField? (environment ++ [entry]) sectionKey fieldKey =
        match environmentName? entry.1 with
        | some found =>
          if sectionKey = .text found.1 ∧ fieldKey = .text found.2 then
            some (vals.environmentValue found entry.2)
          else vals.environmentField? environment sectionKey fieldKey
        | none => vals.environmentField? environment sectionKey fieldKey := by
      match sectionKey, fieldKey with
      | .other _, _ | .text _, .other _ => cases environmentName? entry.1 <;> simp [environmentField?]
      | .text sectionName, .text fieldName =>
        rw [environmentField?, List.reverse_append, List.reverse_singleton, List.singleton_append,
          List.findSome?_cons, ← environmentField?]
        simp only [← environmentName?_eq_some_iff]
        cases hname : environmentName? entry.1 with
        | none => simp
        | some found =>
          by_cases hfound : found = (sectionName, fieldName)
          · simp [hfound]
          · have hne : ¬(sectionName = found.1 ∧ fieldName = found.2) :=
              fun h => hfound (Prod.ext h.1.symm h.2.symm)
            simp [hfound, hne]
    rw [ofEnvironment_append_singleton, hcons]
    cases environmentName? entry.1 with
    | none => exact ih
    | some found => rw [field?_setField, ih]

end Values
end Settings
end DeclScan
