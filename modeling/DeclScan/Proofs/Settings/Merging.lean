import DeclScan.Settings.Layer
import Mathlib.Tactic

/-!
# DeclScan.Proofs.Settings.Merging

What merging does to look-ups. A path of keys leads through mappings to a value; after one mapping is
merged over another, it leads to the leaf that the upper one has there, and where the upper one has
none to that of the lower one. The two have to agree on which paths lead to mappings.

* `Settings.Values.at?`, `Settings.Values.leaf?`: what a path leads to.
* `Settings.Values.merge_eq_none_iff`: when merging takes too many calls.
* `Settings.Values.leaf?_merge`: paths into merged mappings of any depth.
* `Settings.Values.field?_of_stack`: fields in layers of sections, of which the highest counts.
-/

namespace DeclScan
namespace Settings
namespace Values

variable {κ ν : Type} {vals : Values κ ν}

/-! ## One value over another -/

def IsMapping (vals : Values κ ν) (v : ν) : Prop := (vals.mapping? v).isSome = true

instance (v : ν) : Decidable (vals.IsMapping v) := inferInstanceAs (Decidable (_ = true))

@[simp] theorem isMapping_ofMapping (m : Mapping κ ν) : vals.IsMapping (vals.ofMapping m) := by
  rw [IsMapping, vals.mapping?_ofMapping, Option.isSome_some]

theorem isMapping_iff {v : ν} : vals.IsMapping v ↔ ∃ m, vals.mapping? v = some m :=
  Option.isSome_iff_exists

theorem not_isMapping_iff {v : ν} : ¬vals.IsMapping v ↔ vals.mapping? v = none :=
  Option.not_isSome_iff_eq_none

section ValueOver

variable {merge : Mapping κ ν → Mapping κ ν → Option (Mapping κ ν)}

@[simp] theorem valueOver_none (upper : ν) : vals.valueOver merge none upper = some upper := rfl

theorem valueOver_of_mapping? {lower upper : ν} {base top : Mapping κ ν}
    (hlower : vals.mapping? lower = some base) (hupper : vals.mapping? upper = some top) :
    vals.valueOver merge (some lower) upper = (merge base top).map vals.ofMapping := by
  simp only [valueOver, Option.bind_some, hlower, hupper]

theorem valueOver_of_not_isMapping {upper : ν} (h : ¬vals.IsMapping upper) (lower : Option ν) :
    vals.valueOver merge lower upper = some upper := by
  rw [valueOver, not_isMapping_iff.1 h]
  cases lower.bind vals.mapping? <;> rfl

theorem valueOver_eq_none_iff {lower : Option ν} {upper : ν} :
    vals.valueOver merge lower upper = none ↔
      ∃ v base top, lower = some v ∧ vals.mapping? v = some base ∧
        vals.mapping? upper = some top ∧ merge base top = none := by
  rw [valueOver]
  split
  · rename_i base top hbase htop
    obtain ⟨v, rfl, hv⟩ := Option.bind_eq_some_iff.1 hbase
    simp [hv, htop]
  · rename_i hnone
    constructor
    · intro h
      cases h
    · rintro ⟨v, base, top, rfl, hbase, htop, -⟩
      exact absurd htop (hnone base top hbase)

end ValueOver

variable [DecidableEq κ]

section PutOver

variable {merge : Mapping κ ν → Mapping κ ν → Option (Mapping κ ν)}

theorem putOver_eq_some {base merged : Mapping κ ν} {key : Key κ} {v : ν}
    (h : vals.putOver merge base (key, v) = some merged) :
    merged.get? key = vals.valueOver merge (base.get? key) v ∧
      (merged.get? key).isSome = true ∧
      ∀ other, other ≠ key → merged.get? other = base.get? other := by
  obtain ⟨w, hw, rfl⟩ := Option.map_eq_some_iff.1 h
  rw [hw, Mapping.get?_put_self]
  exact ⟨rfl, rfl, fun other hother => Mapping.get?_put_of_ne hother base w⟩

theorem get?_eq_none_of_nodup_cons {key : Key κ} {v : ν} {members : Table ν (Key κ)}
    (h : (Table.keys ((key, v) :: members)).Nodup) :
    members.get? key = none ∧ members.keys.Nodup := by
  rw [Table.keys, List.map_cons, List.nodup_cons] at h
  refine ⟨?_, h.2⟩
  rw [← Option.not_isSome_iff_eq_none]
  exact fun hsome => h.1 (Table.has_iff_mem_keys.1 hsome)

/-- A run over all members fails at one of them. The keys are different, so each finds what was there
at first. -/
theorem foldlM_putOver_eq_none_iff {members : Table ν (Key κ)} (hnodup : members.keys.Nodup)
    (base : Mapping κ ν) :
    members.foldlM (vals.putOver merge) base = none ↔
      ∃ key v, members.get? key = some v ∧ vals.valueOver merge (base.get? key) v = none := by
  induction members generalizing base with
  | nil => simp [Table.get?]
  | cons entry members ih =>
    obtain ⟨first, w⟩ := entry
    obtain ⟨hgone, hrest⟩ := get?_eq_none_of_nodup_cons hnodup
    rw [List.foldlM_cons, Option.bind_eq_bind]
    cases hput : vals.putOver merge base (first, w) with
    | none =>
      rw [Option.bind_none, eq_self, true_iff]
      exact ⟨first, w, by simp [Table.get?], by simpa [putOver] using hput⟩
    | some merged =>
      obtain ⟨hself, hsome, hothers⟩ := putOver_eq_some hput
      rw [Option.bind_some, ih hrest]
      constructor
      · rintro ⟨key, v, hv, hover⟩
        have hkey : key ≠ first := fun h => by rw [h, hgone] at hv; cases hv
        rw [hothers key hkey] at hover
        exact ⟨key, v, by rw [Table.get?, if_neg (Ne.symm hkey), hv], hover⟩
      · rintro ⟨key, v, hv, hover⟩
        by_cases hkey : first = key
        · subst hkey
          rw [Table.get?, if_pos rfl, Option.some.injEq] at hv
          rw [← hv, ← hself] at hover
          rw [hover] at hsome
          cases hsome
        · rw [Table.get?, if_neg hkey] at hv
          exact ⟨key, v, hv, by rw [hothers key (Ne.symm hkey), hover]⟩

theorem get?_of_foldlM_putOver {members : Table ν (Key κ)} (hnodup : members.keys.Nodup)
    {base merged : Mapping κ ν} (h : members.foldlM (vals.putOver merge) base = some merged)
    (key : Key κ) :
    merged.get? key = match members.get? key with
      | none => base.get? key
      | some v => vals.valueOver merge (base.get? key) v := by
  induction members generalizing base with
  | nil =>
    cases h
    rfl
  | cons entry members ih =>
    obtain ⟨first, w⟩ := entry
    obtain ⟨hgone, hrest⟩ := get?_eq_none_of_nodup_cons hnodup
    rw [List.foldlM_cons, Option.bind_eq_bind, Option.bind_eq_some_iff] at h
    obtain ⟨between, hput, h⟩ := h
    obtain ⟨hself, -, hothers⟩ := putOver_eq_some hput
    rw [ih hrest h]
    by_cases hkey : first = key
    · subst hkey
      simp only [hgone, Table.get?, if_true, hself]
    · simp only [Table.get?, if_neg hkey, hothers key (Ne.symm hkey)]

end PutOver

theorem get?_merge {calls : Nat} {base upper merged : Mapping κ ν}
    (h : vals.merge (calls + 1) base upper = some merged) (key : Key κ) :
    merged.get? key = match upper.get? key with
      | none => base.get? key
      | some v => vals.valueOver (vals.merge calls) (base.get? key) v :=
  get?_of_foldlM_putOver upper.nodup h key

theorem exists_of_get?_merge {calls : Nat} {base upper merged : Mapping κ ν}
    (h : vals.merge (calls + 1) base upper = some merged) {key : Key κ} {w : ν}
    (hw : upper.get? key = some w) :
    ∃ u, vals.valueOver (vals.merge calls) (base.get? key) w = some u ∧
      merged.get? key = some u := by
  have hget := get?_merge h key
  simp only [hw] at hget
  cases hover : vals.valueOver (vals.merge calls) (base.get? key) w with
  | some u => exact ⟨u, rfl, hget.trans hover⟩
  | none =>
    have hfails : vals.merge (calls + 1) base upper = none :=
      (foldlM_putOver_eq_none_iff upper.nodup base).2 ⟨key, w, hw, hover⟩
    rw [hfails] at h
    cases h

/-! ## Paths -/

/-- What a path of keys leads to. It leads through mappings only. -/
def at? (vals : Values κ ν) : List (Key κ) → ν → Option ν
  | [], v => some v
  | key :: path, v => ((vals.mapping? v).bind fun m => m.get? key).bind (at? vals path)

/-- What a path leads to, if that is not a mapping. -/
def leaf? (vals : Values κ ν) (path : List (Key κ)) (v : ν) : Option ν :=
  (vals.at? path v).filter fun w => ¬vals.IsMapping w

/-- A path leads to mappings in both of two values. -/
def MeetAt (vals : Values κ ν) (lower upper : ν) (path : List (Key κ)) : Prop :=
  ∃ v w, vals.at? path lower = some v ∧ vals.at? path upper = some w ∧
    vals.IsMapping v ∧ vals.IsMapping w

/-- Where a path leads to something in both of two values, it leads to a mapping in both or in
none. -/
def Agree (vals : Values κ ν) (lower upper : ν) : Prop :=
  ∀ path v w, vals.at? path lower = some v → vals.at? path upper = some w →
    (vals.IsMapping v ↔ vals.IsMapping w)

theorem at?_cons_of_not_isMapping {v : ν} (h : ¬vals.IsMapping v) (key : Key κ)
    (path : List (Key κ)) : vals.at? (key :: path) v = none := by
  rw [at?, not_isMapping_iff.1 h, Option.bind_none, Option.bind_none]

theorem at?_cons_of_mapping? {v : ν} {m : Mapping κ ν} (h : vals.mapping? v = some m) (key : Key κ)
    (path : List (Key κ)) : vals.at? (key :: path) v = (m.get? key).bind (vals.at? path) := by
  rw [at?, h, Option.bind_some]

theorem leaf?_nil (v : ν) : vals.leaf? [] v = if vals.IsMapping v then none else some v := by
  rw [leaf?, at?, Option.filter_some]
  by_cases h : vals.IsMapping v <;> simp [h]

theorem leaf?_cons_of_not_isMapping {v : ν} (h : ¬vals.IsMapping v) (key : Key κ)
    (path : List (Key κ)) : vals.leaf? (key :: path) v = none := by
  rw [leaf?, at?_cons_of_not_isMapping h, Option.filter_none]

theorem leaf?_cons_of_mapping? {v : ν} {m : Mapping κ ν} (h : vals.mapping? v = some m)
    (key : Key κ) (path : List (Key κ)) :
    vals.leaf? (key :: path) v = (m.get? key).bind (vals.leaf? path) := by
  rw [leaf?, at?_cons_of_mapping? h]
  cases m.get? key <;> rfl

section Meeting

variable {lower upper : ν} {base top : Mapping κ ν}

theorem meetAt_nil_iff :
    vals.MeetAt lower upper [] ↔ vals.IsMapping lower ∧ vals.IsMapping upper := by
  simp [MeetAt, at?]

theorem meetAt_cons_iff (key : Key κ) (path : List (Key κ))
    (hlower : vals.mapping? lower = some base) (hupper : vals.mapping? upper = some top) :
    vals.MeetAt lower upper (key :: path) ↔
      ∃ v w, base.get? key = some v ∧ top.get? key = some w ∧ vals.MeetAt v w path := by
  simp only [MeetAt, at?_cons_of_mapping? hlower, at?_cons_of_mapping? hupper,
    Option.bind_eq_some_iff]
  constructor
  · rintro ⟨a, b, ⟨v, hv, ha⟩, ⟨w, hw, hb⟩, hmappings⟩
    exact ⟨v, w, hv, hw, a, b, ha, hb, hmappings⟩
  · rintro ⟨v, w, hv, hw, a, b, ha, hb, hmappings⟩
    exact ⟨a, b, ⟨v, hv, ha⟩, ⟨w, hw, hb⟩, hmappings⟩

theorem MeetAt.isMapping {path : List (Key κ)} (h : vals.MeetAt lower upper path) :
    vals.IsMapping lower ∧ vals.IsMapping upper := by
  cases path with
  | nil => exact meetAt_nil_iff.1 h
  | cons key path =>
    obtain ⟨a, b, ha, hb, -⟩ := h
    constructor <;> by_contra hnone
    · rw [at?_cons_of_not_isMapping hnone] at ha
      cases ha
    · rw [at?_cons_of_not_isMapping hnone] at hb
      cases hb

theorem meetAt_ofMapping_iff {path : List (Key κ)} (hlower : vals.mapping? lower = some base)
    (hupper : vals.mapping? upper = some top) :
    vals.MeetAt (vals.ofMapping base) (vals.ofMapping top) path ↔ vals.MeetAt lower upper path := by
  cases path with
  | nil =>
    simp only [meetAt_nil_iff, isMapping_ofMapping, isMapping_iff.2 ⟨_, hlower⟩,
      isMapping_iff.2 ⟨_, hupper⟩]
  | cons key path =>
    rw [meetAt_cons_iff key path hlower hupper,
      meetAt_cons_iff key path (vals.mapping?_ofMapping base) (vals.mapping?_ofMapping top)]

theorem leaf?_ofMapping {v : ν} {m : Mapping κ ν} (h : vals.mapping? v = some m)
    (path : List (Key κ)) : vals.leaf? path (vals.ofMapping m) = vals.leaf? path v := by
  cases path with
  | nil => rw [leaf?_nil, leaf?_nil, if_pos (isMapping_ofMapping m), if_pos (isMapping_iff.2 ⟨m, h⟩)]
  | cons key path =>
    rw [leaf?_cons_of_mapping? h, leaf?_cons_of_mapping? (vals.mapping?_ofMapping m)]

theorem Agree.isMapping_iff (h : vals.Agree lower upper) :
    vals.IsMapping lower ↔ vals.IsMapping upper :=
  h [] lower upper rfl rfl

theorem Agree.member (h : vals.Agree (vals.ofMapping base) (vals.ofMapping top)) {key : Key κ}
    {v w : ν} (hv : base.get? key = some v) (hw : top.get? key = some w) : vals.Agree v w := by
  intro path a b ha hb
  refine h (key :: path) a b ?_ ?_
  · rw [at?_cons_of_mapping? (vals.mapping?_ofMapping base), hv, Option.bind_some, ha]
  · rw [at?_cons_of_mapping? (vals.mapping?_ofMapping top), hw, Option.bind_some, hb]

theorem Agree.ofMapping (h : vals.Agree lower upper) (hlower : vals.mapping? lower = some base)
    (hupper : vals.mapping? upper = some top) :
    vals.Agree (vals.ofMapping base) (vals.ofMapping top) := by
  intro path a b ha hb
  cases path with
  | nil =>
    cases ha
    cases hb
    simp
  | cons key path =>
    rw [at?_cons_of_mapping? (vals.mapping?_ofMapping _)] at ha hb
    exact h (key :: path) a b (by rwa [at?_cons_of_mapping? hlower])
      (by rwa [at?_cons_of_mapping? hupper])

end Meeting

/-! ## Mappings of any depth -/

section Merge

variable {calls : Nat} {base upper merged : Mapping κ ν}

/-- Merging takes as many calls as the longest path on which both have mappings is long, and one
more. The induction is on the calls. -/
theorem merge_eq_none_iff :
    vals.merge calls base upper = none ↔
      ∃ path, path.length = calls ∧
        vals.MeetAt (vals.ofMapping base) (vals.ofMapping upper) path := by
  induction calls generalizing base upper with
  | zero =>
    simp only [merge, List.length_eq_zero_iff, true_iff]
    exact ⟨[], rfl, meetAt_nil_iff.2 ⟨isMapping_ofMapping base, isMapping_ofMapping upper⟩⟩
  | succ calls ih =>
    rw [merge, foldlM_putOver_eq_none_iff upper.nodup]
    have hcons (key : Key κ) (path : List (Key κ)) :=
      meetAt_cons_iff key path (vals.mapping?_ofMapping base)
        (vals.mapping?_ofMapping upper)
    constructor
    · rintro ⟨key, w, hw, hover⟩
      obtain ⟨v, base', upper', hv, hbase', hupper', hmerge⟩ := valueOver_eq_none_iff.1 hover
      obtain ⟨path, hlength, hmeet⟩ := ih.1 hmerge
      rw [meetAt_ofMapping_iff hbase' hupper'] at hmeet
      exact ⟨key :: path, by rw [List.length_cons, hlength], (hcons key path).2 ⟨v, w, hv, hw, hmeet⟩⟩
    · rintro ⟨path, hlength, hmeet⟩
      obtain ⟨key, path, rfl⟩ := List.exists_cons_of_length_eq_add_one hlength
      obtain ⟨v, w, hv, hw, hmeet⟩ := (hcons key path).1 hmeet
      obtain ⟨base', hbase'⟩ := isMapping_iff.1 hmeet.isMapping.1
      obtain ⟨upper', hupper'⟩ := isMapping_iff.1 hmeet.isMapping.2
      rw [← meetAt_ofMapping_iff hbase' hupper'] at hmeet
      exact ⟨key, w, hw, valueOver_eq_none_iff.2
        ⟨v, base', upper', hv, hbase', hupper', ih.2 ⟨path, Nat.succ.inj hlength, hmeet⟩⟩⟩

/-- A leaf of the upper mapping counts, and otherwise one of the lower. The induction is on the path;
a step of it goes through both mappings at once. -/
theorem leaf?_merge (h : vals.merge calls base upper = some merged)
    (hagree : vals.Agree (vals.ofMapping base) (vals.ofMapping upper)) (path : List (Key κ)) :
    vals.leaf? path (vals.ofMapping merged) =
      (vals.leaf? path (vals.ofMapping upper)).or (vals.leaf? path (vals.ofMapping base)) := by
  induction path generalizing calls base upper merged with
  | nil => simp [leaf?_nil]
  | cons key path ih =>
    cases calls with
    | zero => cases h
    | succ calls =>
      simp only [leaf?_cons_of_mapping? (vals.mapping?_ofMapping _)]
      cases hw : upper.get? key with
      | none => simp [get?_merge h, hw]
      | some w =>
        obtain ⟨u, hover, hu⟩ := exists_of_get?_merge h hw
        rw [hu, Option.bind_some, Option.bind_some]
        cases hv : base.get? key with
        | none =>
          rw [hv, valueOver_none, Option.some.injEq] at hover
          rw [hover, Option.bind_none, Option.or_none]
        | some v =>
          have hbelow := hagree.member hv hw
          rw [hv] at hover
          by_cases hmapping : vals.IsMapping w
          · obtain ⟨upper', hupper'⟩ := isMapping_iff.1 hmapping
            obtain ⟨base', hbase'⟩ := isMapping_iff.1 (hbelow.isMapping_iff.2 hmapping)
            rw [valueOver_of_mapping? hbase' hupper', Option.map_eq_some_iff] at hover
            obtain ⟨merged', hmerged', rfl⟩ := hover
            rw [ih hmerged' (hbelow.ofMapping hbase' hupper'), leaf?_ofMapping hupper',
              leaf?_ofMapping hbase', Option.bind_some]
          · rw [valueOver_of_not_isMapping hmapping, Option.some.injEq] at hover
            rw [← hover, Option.bind_some]
            cases path with
            | nil => rw [leaf?_nil, if_neg hmapping, Option.some_or]
            | cons first path =>
              rw [leaf?_cons_of_not_isMapping hmapping,
                leaf?_cons_of_not_isMapping (mt hbelow.isMapping_iff.1 hmapping), Option.none_or]

theorem mem_keys_merge (h : vals.merge calls base upper = some merged) {key : Key κ} :
    key ∈ merged.keys ↔ key ∈ base.keys ∨ key ∈ upper.keys := by
  cases calls with
  | zero => cases h
  | succ calls =>
    simp only [Mapping.mem_keys_iff]
    cases hw : upper.get? key with
    | none => simp [get?_merge h, hw]
    | some w =>
      obtain ⟨u, -, hu⟩ := exists_of_get?_merge h hw
      simp [hu]

end Merge

/-! ## Sections of fields -/

/-- The value of a field of a section. -/
def field? (vals : Values κ ν) (sections : Mapping κ ν) (sectionKey fieldKey : Key κ) : Option ν :=
  ((sections.get? sectionKey).bind vals.mapping?).bind fun fields => fields.get? fieldKey

/-- Sections of fields: every section is a mapping and no field is one. -/
structure IsFlat (vals : Values κ ν) (sections : Mapping κ ν) : Prop where
  isMapping_section : ∀ sectionKey v, sections.get? sectionKey = some v → vals.IsMapping v
  not_isMapping_field : ∀ sectionKey fieldKey v,
    vals.field? sections sectionKey fieldKey = some v → ¬vals.IsMapping v

theorem field?_of_get? {sections fields : Mapping κ ν} {sectionKey : Key κ} {v : ν}
    (hv : sections.get? sectionKey = some v) (hfields : vals.mapping? v = some fields)
    (fieldKey : Key κ) : vals.field? sections sectionKey fieldKey = fields.get? fieldKey := by
  rw [field?, hv, Option.bind_some, hfields, Option.bind_some]

theorem field?_of_get?_eq_none {sections : Mapping κ ν} {sectionKey : Key κ}
    (h : sections.get? sectionKey = none) (fieldKey : Key κ) :
    vals.field? sections sectionKey fieldKey = none := by
  rw [field?, h, Option.bind_none, Option.bind_none]

theorem isFlat_empty (vals : Values κ ν) : vals.IsFlat .empty where
  isMapping_section _ _ h := nomatch h
  not_isMapping_field _ _ _ h := nomatch h

section IsFlat

variable {calls : Nat} {base upper merged : Mapping κ ν}

theorem IsFlat.exists_fields (h : vals.IsFlat base) {sectionKey : Key κ} {v : ν}
    (hv : base.get? sectionKey = some v) : ∃ fields, vals.mapping? v = some fields :=
  isMapping_iff.1 (h.isMapping_section sectionKey v hv)

theorem IsFlat.field?_merge (hbase : vals.IsFlat base) (hupper : vals.IsFlat upper)
    (h : vals.merge calls base upper = some merged) (sectionKey fieldKey : Key κ) :
    vals.field? merged sectionKey fieldKey =
      (vals.field? upper sectionKey fieldKey).or (vals.field? base sectionKey fieldKey) := by
  cases calls with
  | zero => cases h
  | succ calls =>
    cases hw : upper.get? sectionKey with
    | none =>
      have hget : merged.get? sectionKey = base.get? sectionKey := by rw [get?_merge h, hw]
      rw [field?_of_get?_eq_none hw, Option.none_or, field?, hget, field?]
    | some w =>
      obtain ⟨top, htop⟩ := hupper.exists_fields hw
      obtain ⟨u, hover, hu⟩ := exists_of_get?_merge h hw
      cases hv : base.get? sectionKey with
      | none =>
        rw [hv, valueOver_none, Option.some.injEq] at hover
        rw [field?_of_get?_eq_none hv, Option.or_none, field?_of_get? hw htop,
          field?_of_get? hu (hover ▸ htop)]
      | some v =>
        obtain ⟨bottom, hbottom⟩ := hbase.exists_fields hv
        rw [hv, valueOver_of_mapping? hbottom htop, Option.map_eq_some_iff] at hover
        obtain ⟨fields, hfields, rfl⟩ := hover
        rw [field?_of_get? hw htop, field?_of_get? hv hbottom,
          field?_of_get? hu (vals.mapping?_ofMapping fields)]
        cases calls with
        | zero => cases hfields
        | succ calls =>
          cases hx : top.get? fieldKey with
          | none => rw [get?_merge hfields, hx, Option.none_or]
          | some x =>
            have hleaf : ¬vals.IsMapping x :=
              hupper.not_isMapping_field sectionKey fieldKey x (by rw [field?_of_get? hw htop, hx])
            simp only [get?_merge hfields, hx, valueOver_of_not_isMapping hleaf, Option.some_or]

theorem IsFlat.merge (hbase : vals.IsFlat base) (hupper : vals.IsFlat upper)
    (h : vals.merge calls base upper = some merged) : vals.IsFlat merged where
  isMapping_section sectionKey v hv := by
    cases calls with
    | zero => cases h
    | succ calls =>
      cases hw : upper.get? sectionKey with
      | none =>
        rw [get?_merge h, hw] at hv
        exact hbase.isMapping_section sectionKey v hv
      | some w =>
        obtain ⟨u, hover, hu⟩ := exists_of_get?_merge h hw
        obtain rfl : u = v := Option.some.inj (hu.symm.trans hv)
        obtain ⟨top, htop⟩ := hupper.exists_fields hw
        cases hlower : base.get? sectionKey with
        | none =>
          rw [hlower, valueOver_none, Option.some.injEq] at hover
          exact hover ▸ hupper.isMapping_section sectionKey w hw
        | some lower =>
          obtain ⟨bottom, hbottom⟩ := hbase.exists_fields hlower
          rw [hlower, valueOver_of_mapping? hbottom htop, Option.map_eq_some_iff] at hover
          obtain ⟨fields, -, rfl⟩ := hover
          exact isMapping_ofMapping fields
  not_isMapping_field sectionKey fieldKey v hv := by
    rw [hbase.field?_merge hupper h, Option.or_eq_some_iff] at hv
    rcases hv with hv | ⟨-, hv⟩
    · exact hupper.not_isMapping_field _ _ v hv
    · exact hbase.not_isMapping_field _ _ v hv

theorem IsFlat.length_le_one (h : vals.IsFlat base) {path : List (Key κ)} {v : ν}
    (hv : vals.at? path (vals.ofMapping base) = some v) : vals.IsMapping v ↔ path.length ≤ 1 := by
  match path with
  | [] =>
    cases hv
    simp
  | [sectionKey] =>
    rw [at?_cons_of_mapping? (vals.mapping?_ofMapping base), Option.bind_eq_some_iff] at hv
    obtain ⟨w, hw, hv⟩ := hv
    cases hv
    simpa using h.isMapping_section sectionKey v hw
  | sectionKey :: fieldKey :: path =>
    rw [at?_cons_of_mapping? (vals.mapping?_ofMapping base), Option.bind_eq_some_iff] at hv
    obtain ⟨w, hw, hv⟩ := hv
    obtain ⟨fields, hfields⟩ := h.exists_fields hw
    rw [at?_cons_of_mapping? hfields, Option.bind_eq_some_iff] at hv
    obtain ⟨x, hx, hv⟩ := hv
    have hleaf := h.not_isMapping_field sectionKey fieldKey x (by rw [field?_of_get? hw hfields, hx])
    cases path with
    | nil =>
      cases hv
      simpa using hleaf
    | cons key path =>
      rw [at?_cons_of_not_isMapping hleaf] at hv
      cases hv

theorem IsFlat.agree (hbase : vals.IsFlat base) (hupper : vals.IsFlat upper) :
    vals.Agree (vals.ofMapping base) (vals.ofMapping upper) := fun _ _ _ hv hw =>
  (hbase.length_le_one hv).trans (hupper.length_le_one hw).symm

theorem IsFlat.not_meetAt (hbase : vals.IsFlat base) {path : List (Key κ)} (h : 2 ≤ path.length) :
    ¬vals.MeetAt (vals.ofMapping base) (vals.ofMapping upper) path := by
  rintro ⟨v, w, hv, -, hmapping, -⟩
  have hlength := (hbase.length_le_one hv).1 hmapping
  omega

theorem IsFlat.exists_merge (hbase : vals.IsFlat base) (upper : Mapping κ ν) (hcalls : 2 ≤ calls) :
    ∃ merged, vals.merge calls base upper = some merged := by
  rw [← Option.isSome_iff_exists, Option.isSome_iff_ne_none, ne_eq, merge_eq_none_iff]
  rintro ⟨path, rfl, hmeet⟩
  exact hbase.not_meetAt hcalls hmeet

end IsFlat

/-! ## Layers -/

/-- Layers put over each other, the lowest first. -/
def stack (vals : Values κ ν) (calls : Nat) (layers : List (Mapping κ ν)) : Option (Mapping κ ν) :=
  layers.foldlM (vals.merge calls) .empty

section Stack

variable {calls : Nat} {layers : List (Mapping κ ν)}

theorem stack_append_singleton (vals : Values κ ν) (calls : Nat) (layers : List (Mapping κ ν))
    (layer : Mapping κ ν) :
    vals.stack calls (layers ++ [layer]) =
      (vals.stack calls layers).bind fun below => vals.merge calls below layer := by
  rw [stack, List.foldlM_append, ← stack, Option.bind_eq_bind]
  simp

/-- The layers cannot all be put over each other: one of them takes too many calls. -/
def IsTooDeep (vals : Values κ ν) (calls : Nat) (layers : List (Mapping κ ν)) : Prop :=
  ∃ below layer above merged path, layers = below ++ layer :: above ∧
    vals.stack calls below = some merged ∧ path.length = calls ∧
      vals.MeetAt (vals.ofMapping merged) (vals.ofMapping layer) path

theorem stack_eq_none_iff : vals.stack calls layers = none ↔ vals.IsTooDeep calls layers := by
  constructor
  · induction layers using List.reverseRecOn with
    | nil => exact fun h => nomatch h
    | append_singleton layers layer ih =>
      intro h
      rw [stack_append_singleton, Option.bind_eq_none_iff] at h
      cases hbelow : vals.stack calls layers with
      | none =>
        obtain ⟨below, l, above, merged, path, rfl, hmerged, hpath⟩ := ih hbelow
        exact ⟨below, l, above ++ [layer], merged, path, by simp, hmerged, hpath⟩
      | some merged =>
        obtain ⟨path, hpath⟩ := merge_eq_none_iff.1 (h merged hbelow)
        exact ⟨layers, layer, [], merged, path, rfl, hbelow, hpath⟩
  · rintro ⟨below, layer, above, merged, path, rfl, hmerged, hpath⟩
    rw [stack, List.foldlM_append, ← stack, hmerged]
    simp [merge_eq_none_iff.2 ⟨path, hpath⟩]

theorem mem_keys_of_stack {sections : Mapping κ ν} (h : vals.stack calls layers = some sections)
    {key : Key κ} : key ∈ sections.keys ↔ ∃ layer ∈ layers, key ∈ layer.keys := by
  induction layers using List.reverseRecOn generalizing sections with
  | nil =>
    cases h
    simp [Mapping.mem_keys_iff]
  | append_singleton layers layer ih =>
    rw [stack_append_singleton, Option.bind_eq_some_iff] at h
    obtain ⟨below, hbelow, h⟩ := h
    rw [mem_keys_merge h, ih hbelow]
    simp [or_and_right, exists_or]

theorem exists_stack (hcalls : 2 ≤ calls) (h : ∀ layer ∈ layers, vals.IsFlat layer) :
    ∃ sections, vals.stack calls layers = some sections ∧ vals.IsFlat sections ∧
      ∀ sectionKey fieldKey, vals.field? sections sectionKey fieldKey =
        layers.reverse.findSome? fun layer => vals.field? layer sectionKey fieldKey := by
  induction layers using List.reverseRecOn with
  | nil => exact ⟨.empty, rfl, isFlat_empty vals, fun _ _ => rfl⟩
  | append_singleton layers layer ih =>
    obtain ⟨below, hbelow, hflat, hfield⟩ := ih fun l hl => h l (by simp [hl])
    have hlayer := h layer (by simp)
    obtain ⟨sections, hsections⟩ := hflat.exists_merge layer hcalls
    refine ⟨sections, by rw [stack_append_singleton, hbelow, Option.bind_some, hsections],
      hflat.merge hlayer hsections, fun sectionKey fieldKey => ?_⟩
    rw [hflat.field?_merge hlayer hsections, hfield, List.reverse_append, List.reverse_singleton,
      List.singleton_append, List.findSome?_cons]
    cases vals.field? layer sectionKey fieldKey <;> rfl

end Stack

end Values
end Settings
end DeclScan
