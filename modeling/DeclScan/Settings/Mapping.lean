import DeclScan.Table

/-!
# DeclScan.Settings.Mapping

Values under keys, each key once and in the order in which the keys came. Settings have texts for
keys; a file may have keys of other kinds, of which it only matters which of them are the same.
-/

namespace DeclScan
namespace Settings

/-- A key of a mapping. -/
inductive Key (κ : Type) where
  | text (s : String)
  | other (k : κ)
  deriving DecidableEq

/-- Values under keys. -/
structure Mapping (κ ν : Type) where
  members : Table ν (Key κ)
  nodup : members.keys.Nodup

namespace Mapping

variable {κ ν : Type}

def empty : Mapping κ ν := ⟨[], List.nodup_nil⟩

def isEmpty (m : Mapping κ ν) : Bool := m.members.isEmpty

def keys (m : Mapping κ ν) : List (Key κ) := m.members.keys

def textMembers? : Table ν (Key κ) → Option (Table ν)
  | [] => some []
  | (.text s, value) :: members => (textMembers? members).map ((s, value) :: ·)
  | (.other _, _) :: _ => none

/-- The members, if all keys are texts. -/
def texts? (m : Mapping κ ν) : Option (Table ν) := textMembers? m.members

/-- Only a key that is no text stands in the way. -/
theorem texts?_eq_none_iff {m : Mapping κ ν} : m.texts? = none ↔ ∃ k, .other k ∈ m.keys := by
  rw [texts?, keys, Table.keys]
  induction m.members with
  | nil => simp [textMembers?]
  | cons entry members ih =>
    obtain ⟨_ | k, value⟩ := entry
    · simp [textMembers?, ih]
    · exact iff_of_true rfl ⟨k, List.mem_cons_self⟩

variable [DecidableEq κ]

def get? (m : Mapping κ ν) (key : Key κ) : Option ν := m.members.get? key

/-- Sets the value of a key: a new key goes to the end, a known one keeps its place. -/
def put (m : Mapping κ ν) (key : Key κ) (value : ν) : Mapping κ ν :=
  ⟨m.members.put key value, Table.nodup_keys_put key value m.nodup⟩

/-- A repeated key has its first place and its last value. -/
def ofPairs (pairs : List (Key κ × ν)) : Mapping κ ν :=
  pairs.foldl (fun m (key, value) => m.put key value) empty

def ofTexts (entries : List (String × ν)) : Mapping κ ν :=
  ofPairs (entries.map fun (s, value) => (.text s, value))

/-! ## Look-ups -/

@[simp] theorem get?_empty (key : Key κ) : (empty : Mapping κ ν).get? key = none := rfl

@[simp] theorem get?_put_self (m : Mapping κ ν) (key : Key κ) (value : ν) :
    (m.put key value).get? key = some value :=
  Table.get?_put_self key value m.members

theorem get?_put_of_ne {key other : Key κ} (h : other ≠ key) (m : Mapping κ ν) (value : ν) :
    (m.put key value).get? other = m.get? other :=
  Table.get?_put_of_ne h value m.members

theorem mem_keys_iff {m : Mapping κ ν} {key : Key κ} :
    key ∈ m.keys ↔ (m.get? key).isSome = true :=
  Table.has_iff_mem_keys.symm

theorem get?_ofPairs_of_not_mem {pairs : List (Key κ × ν)} {key : Key κ}
    (h : key ∉ pairs.map Prod.fst) : (ofPairs pairs).get? key = none := by
  suffices hfold : ∀ m : Mapping κ ν,
      (pairs.foldl (fun m (key, value) => m.put key value) m).get? key = m.get? key from hfold empty
  induction pairs with
  | nil => exact fun _ => rfl
  | cons pair pairs ih =>
    rw [List.map_cons, List.mem_cons, not_or] at h
    exact fun m => (ih h.2 _).trans (get?_put_of_ne h.1 m pair.2)

theorem get?_ofTexts_other (entries : List (String × ν)) (k : κ) :
    (ofTexts entries : Mapping κ ν).get? (.other k) = none :=
  get?_ofPairs_of_not_mem (by simp)

theorem ofPairs_members (m : Mapping κ ν) : ofPairs m.members = m := by
  have hmembers (pairs : List (Key κ × ν)) (n : Mapping κ ν) :
      (pairs.foldl (fun m (key, value) => m.put key value) n).members =
        pairs.foldl (fun table (key, value) => Table.put key value table) n.members := by
    induction pairs generalizing n with
    | nil => rfl
    | cons pair pairs ih => exact ih _
  obtain ⟨members, nodup⟩ := m
  rw [Mapping.mk.injEq, ofPairs, hmembers]
  exact Table.ofPairs_of_nodup nodup

end Mapping
end Settings
end DeclScan
