/-!
# DeclScan.Table

Small tables: keys with values in the order in which the keys were first put in. The keys are texts
if nothing else is said.

A look-up sees the last value that was put in (`get?_put_self`), and `keys_put` says what putting
does to the order of the keys.
-/

namespace DeclScan

abbrev Table (α : Type) (κ : Type := String) := List (κ × α)

namespace Table

variable {α κ : Type} [DecidableEq κ]

/-- Sets the value of a key: a new key goes to the end, a known one keeps its place. -/
def put (key : κ) (value : α) : Table α κ → Table α κ
  | [] => [(key, value)]
  | (k, v) :: rest => if k = key then (k, value) :: rest else (k, v) :: put key value rest

/-- The table of a list of pairs: a repeated key has its first place and its last value. -/
def ofPairs (pairs : List (κ × α)) : Table α κ :=
  pairs.foldl (fun table (k, v) => put k v table) []

def get? (key : κ) : Table α κ → Option α
  | [] => none
  | (k, v) :: rest => if k = key then some v else get? key rest

def erase (key : κ) (table : Table α κ) : Table α κ :=
  table.filter fun (k, _) => k ≠ key

def has (key : κ) (table : Table α κ) : Bool := (get? key table).isSome

def keys (table : Table α κ) : List κ := table.map Prod.fst

/-! ## What the operations do to look-ups and keys -/

@[simp] theorem get?_put_self (key : κ) (value : α) (table : Table α κ) :
    get? key (put key value table) = some value := by
  induction table with
  | nil => simp [put, get?]
  | cons entry rest ih =>
    obtain ⟨k, v⟩ := entry
    by_cases h : k = key <;> simp [put, get?, h, ih]

theorem get?_put_of_ne {key other : κ} (h : other ≠ key) (value : α)
    (table : Table α κ) : get? other (put key value table) = get? other table := by
  induction table with
  | nil => simp [put, get?, h.symm]
  | cons entry rest ih =>
    obtain ⟨k, v⟩ := entry
    by_cases hk : k = key
    · subst hk
      simp [put, get?, h.symm]
    · by_cases ho : k = other
      · subst ho
        simp [put, get?, h]
      · simp [put, get?, hk, ho, ih]

@[simp] theorem get?_erase_self (key : κ) (table : Table α κ) :
    get? key (erase key table) = none := by
  induction table with
  | nil => rfl
  | cons entry rest ih =>
    obtain ⟨k, v⟩ := entry
    by_cases h : k = key
    · simpa [erase, h] using ih
    · simpa [erase, h, get?] using ih

theorem get?_erase_of_ne {key other : κ} (h : other ≠ key) (table : Table α κ) :
    get? other (erase key table) = get? other table := by
  induction table with
  | nil => rfl
  | cons entry rest ih =>
    obtain ⟨k, v⟩ := entry
    by_cases hk : k = key
    · subst hk
      simpa [erase, get?, h.symm] using ih
    · by_cases ho : k = other
      · simp [erase, get?, ho, h]
      · simpa [erase, get?, hk, ho] using ih

theorem has_iff_mem_keys {key : κ} {table : Table α κ} :
    has key table = true ↔ key ∈ keys table := by
  induction table with
  | nil => simp [has, get?, keys]
  | cons entry rest ih =>
    obtain ⟨k, v⟩ := entry
    by_cases h : k = key
    · simp [has, get?, keys, h]
    · have h' : key ≠ k := fun e => h e.symm
      simpa [has, get?, keys, h, h'] using ih

/-- A new key goes to the end, a known one keeps its place. -/
theorem keys_put (key : κ) (value : α) (table : Table α κ) :
    keys (put key value table) =
      if key ∈ keys table then keys table else keys table ++ [key] := by
  induction table with
  | nil => simp [put, keys]
  | cons entry rest ih =>
    obtain ⟨k, v⟩ := entry
    by_cases h : k = key
    · simp [put, keys, h]
    · have h' : key ≠ k := fun e => h e.symm
      have ih' : (put key value rest).map Prod.fst =
          if key ∈ rest.map Prod.fst then rest.map Prod.fst else rest.map Prod.fst ++ [key] := ih
      by_cases hm : key ∈ rest.map Prod.fst
      · rw [if_pos hm] at ih'
        rw [if_pos (by simpa [keys] using Or.inr hm)]
        simp only [put, if_neg h, keys, List.map_cons, ih']
      · rw [if_neg hm] at ih'
        rw [if_neg (by
          simp only [keys, List.map_cons, List.mem_cons]
          exact fun e => e.elim h' hm)]
        simp only [put, if_neg h, keys, List.map_cons, ih', List.cons_append]

/-- No operation makes a key appear twice. -/
theorem nodup_keys_put (key : κ) (value : α) {table : Table α κ}
    (h : (keys table).Nodup) : (keys (put key value table)).Nodup := by
  rw [keys_put]
  split
  · exact h
  · rename_i hm
    rw [List.nodup_append]
    refine ⟨h, by simp, fun a ha b hb e => hm ?_⟩
    rw [List.mem_singleton] at hb
    rw [← hb, ← e]
    exact ha

theorem put_of_not_mem {key : κ} {table : Table α κ} (h : key ∉ keys table)
    (value : α) : put key value table = table ++ [(key, value)] := by
  induction table with
  | nil => rfl
  | cons entry rest ih =>
    simp only [keys, List.map_cons, List.mem_cons, not_or] at h
    rw [put, if_neg (Ne.symm h.1), ih h.2, List.cons_append]

/-- Pairs with different keys are a table as they are. -/
theorem ofPairs_of_nodup {pairs : List (κ × α)} (h : (keys pairs).Nodup) :
    ofPairs pairs = pairs := by
  suffices hfold : ∀ (pairs : List (κ × α)) (table : Table α κ), (keys (table ++ pairs)).Nodup →
      pairs.foldl (fun table (k, v) => put k v table) table = table ++ pairs from hfold pairs [] h
  intro pairs
  induction pairs with
  | nil => exact fun table _ => (List.append_nil table).symm
  | cons pair pairs ih =>
    intro table hnodup
    obtain ⟨k, v⟩ := pair
    have hnew : k ∉ keys table := by
      intro hmem
      simp only [keys, List.map_append, List.map_cons, List.nodup_append] at hnodup
      exact hnodup.2.2 k hmem k List.mem_cons_self rfl
    simp only [List.foldl_cons, put_of_not_mem hnew]
    rw [ih _ (by simpa using hnodup), List.append_assoc, List.singleton_append]

theorem nodup_keys_erase (key : κ) {table : Table α κ} (h : (keys table).Nodup) :
    (keys (erase key table)).Nodup :=
  List.Sublist.nodup (List.filter_sublist.map Prod.fst) h

/-! ## Properties of all values -/

theorem forall_mem_put {p : α → Prop} {key : κ} {value : α} {table : Table α κ}
    (h : ∀ entry ∈ table, p entry.2) (hvalue : p value) :
    ∀ entry ∈ put key value table, p entry.2 := by
  induction table with
  | nil => simpa [put] using hvalue
  | cons first table ih =>
    rw [List.forall_mem_cons] at h
    rw [put]
    split
    · exact List.forall_mem_cons.2 ⟨hvalue, h.2⟩
    · exact List.forall_mem_cons.2 ⟨h.1, ih h.2⟩

theorem of_get?_eq_some {p : α → Prop} {key : κ} {value : α} {table : Table α κ}
    (h : ∀ entry ∈ table, p entry.2) (hget : table.get? key = some value) : p value := by
  induction table with
  | nil => cases hget
  | cons first table ih =>
    rw [List.forall_mem_cons] at h
    rw [get?] at hget
    split at hget
    · cases hget
      exact h.1
    · exact ih h.2 hget

end Table
end DeclScan
