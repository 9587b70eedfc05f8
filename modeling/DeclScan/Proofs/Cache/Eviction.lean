import DeclScan.Cache
import Mathlib

/-!
# DeclScan.Proofs.Cache.Eviction

Entries give way in two loops, one for the budget and one for the number. Together they keep the
longest end of the entries that is within both limits.

* `IsLongestSuffix`: the longest end of a list with a property.
* `keepWithinSize_spec`, `keepWithinCount_spec`: what each loop keeps.
* `evict_spec`: what both keep.
-/

namespace DeclScan

/-- An end of a list that has a property, and that no longer end with it goes beyond. -/
structure IsLongestSuffix {α : Type} (p : List α → Prop) (kept all : List α) : Prop where
  suffix : kept <:+ all
  holds : p kept
  longest : ∀ other, other <:+ all → p other → other <:+ kept

namespace IsLongestSuffix

variable {α β : Type} {p q : List α → Prop} {kept all : List α}

theorem unique {other : List α} (h : IsLongestSuffix p kept all)
    (h' : IsLongestSuffix p other all) : kept = other := by
  have hle := (h.longest other h'.suffix h'.holds).length_le
  exact (h'.longest kept h.suffix h.holds).eq_of_length_le hle

theorem refl (h : p all) : IsLongestSuffix p all all :=
  ⟨List.suffix_refl all, h, fun _ hs _ => hs⟩

theorem cons {a : α} (h : IsLongestSuffix p kept all) (hn : ¬ p (a :: all)) :
    IsLongestSuffix p kept (a :: all) := by
  refine ⟨h.suffix.trans (List.suffix_cons a all), h.holds, ?_⟩
  intro other hs ho
  rcases List.suffix_cons_iff.1 hs with rfl | hs
  · exact absurd ho hn
  · exact h.longest other hs ho

theorem trans {last : List α} (h : IsLongestSuffix p kept all) (h' : IsLongestSuffix q last kept)
    (hereditary : ∀ l l' : List α, l <:+ l' → p l' → p l) :
    IsLongestSuffix (fun l => p l ∧ q l) last all := by
  refine ⟨h'.suffix.trans h.suffix, ⟨hereditary last kept h'.suffix h.holds, h'.holds⟩, ?_⟩
  intro other hs ho
  exact h'.longest other (h.longest other hs ho.1) ho.2

theorem congr (h : IsLongestSuffix p kept all)
    (hiff : ∀ l, l <:+ all → (p l ↔ q l)) :
    IsLongestSuffix q kept all := by
  refine ⟨h.suffix, (hiff kept h.suffix).1 h.holds, ?_⟩
  intro other hs ho
  exact h.longest other hs ((hiff other hs).2 ho)

theorem map {f : α → β} {r : List β → Prop}
    (h : IsLongestSuffix (fun l => r (l.map f)) kept all) :
    IsLongestSuffix r (kept.map f) (all.map f) := by
  refine ⟨h.suffix.map f, h.holds, ?_⟩
  intro other hs ho
  obtain ⟨l, hl, rfl⟩ := List.suffix_map_iff.1 hs
  exact (h.longest l hl ho).map f

theorem find?_tails [DecidablePred p] (hnil : p []) (all : List α) :
    IsLongestSuffix p ((all.tails.find? fun l => p l).getD []) all := by
  induction all with
  | nil => simpa [hnil] using refl hnil
  | cons a rest ih =>
    by_cases hp : p (a :: rest)
    · simpa [hp] using refl hp
    · simpa [hp] using ih.cons hp

end IsLongestSuffix

namespace Cache

variable {τ : Type}

def total (entries : List (CacheEntry τ)) : Nat := (entries.map CacheEntry.size).sum

@[simp] theorem total_nil : total ([] : List (CacheEntry τ)) = 0 := rfl

@[simp] theorem total_cons (e : CacheEntry τ) (entries : List (CacheEntry τ)) :
    total (e :: entries) = e.size + total entries := by
  simp [total]

@[simp] theorem total_append (entries more : List (CacheEntry τ)) :
    total (entries ++ more) = total entries + total more := by
  simp [total]

theorem total_le_of_sublist {entries more : List (CacheEntry τ)} (h : entries.Sublist more) :
    total entries ≤ total more :=
  (h.map CacheEntry.size).sum_le_sum fun _ _ => Nat.zero_le _

theorem keepWithinSize_spec (maxSize : Nat) (entries : List (CacheEntry τ)) :
    let kept := keepWithinSize maxSize (total entries) entries
    IsLongestSuffix (fun l => total l ≤ maxSize) kept.entries entries ∧
      kept.size = total kept.entries ∧
      kept.evicted.map Evicted.path ++ kept.entries.map CacheEntry.path =
        entries.map CacheEntry.path := by
  induction entries with
  | nil => exact ⟨.refl (Nat.zero_le _), rfl, rfl⟩
  | cons e rest ih =>
    have hrest : (total (e :: rest) : Int) - e.size = total rest := by
      rw [total_cons]; omega
    by_cases hover : (maxSize : Int) < total (e :: rest)
    · obtain ⟨hlongest, hsize, hpaths⟩ := ih
      simp only [keepWithinSize, if_pos hover, hrest]
      refine ⟨hlongest.cons (by omega), hsize, ?_⟩
      simp [hpaths]
    · simp only [keepWithinSize, if_neg hover]
      exact ⟨.refl (by omega), trivial, rfl⟩

theorem keepWithinCount_spec (maxEntries : Nat) (entries : List (CacheEntry τ)) :
    let (kept, met) := keepWithinCount maxEntries (total entries) entries
    met = true ∧ IsLongestSuffix (fun l => l.length ≤ maxEntries) kept.entries entries ∧
      kept.size = total kept.entries ∧
      kept.evicted.map Evicted.path ++ kept.entries.map CacheEntry.path =
        entries.map CacheEntry.path := by
  induction entries with
  | nil =>
    exact ⟨by simp, .refl (Nat.zero_le _), rfl, rfl⟩
  | cons e rest ih =>
    have hrest : (total (e :: rest) : Int) - e.size = total rest := by
      rw [total_cons]; omega
    by_cases hmany : (maxEntries : Int) < (e :: rest).length
    · obtain ⟨hmet, hlongest, hsize, hpaths⟩ := ih
      simp only [keepWithinCount, if_pos hmany, hrest]
      refine ⟨hmet, hlongest.cons (by omega), hsize, ?_⟩
      simp [hpaths]
    · simp only [keepWithinCount, if_neg hmany]
      exact ⟨trivial, .refl (by omega), trivial, rfl⟩

def Fits (maxSize maxEntries : Nat) (entries : List (CacheEntry τ)) : Prop :=
  total entries ≤ maxSize ∧ entries.length ≤ maxEntries

/-- With a size that is kept right, the longest end within both limits stays, the rest is reported
in its order, and the loops end by themselves. -/
theorem evict_spec {maxSize maxEntries : Nat} {c : Cache τ} (hsize : c.size = total c.entries)
    (hbudget : c.maxSize = maxSize) (hlimit : c.maxEntries = maxEntries) :
    ∃ kept evicted,
      c.evict = ({ c with entries := kept, size := total kept }, .stored evicted) ∧
      IsLongestSuffix (Fits maxSize maxEntries) kept c.entries ∧
      evicted.map Evicted.path ++ kept.map CacheEntry.path = c.paths := by
  let bySize := keepWithinSize maxSize (total c.entries) c.entries
  let byCount := keepWithinCount maxEntries (total bySize.entries) bySize.entries
  obtain ⟨hlongest, hbySize, hpaths⟩ := keepWithinSize_spec maxSize c.entries
  obtain ⟨hmet, hlongest', hbyCount, hpaths'⟩ := keepWithinCount_spec maxEntries bySize.entries
  refine ⟨byCount.1.entries, bySize.evicted ++ byCount.1.evicted, ?_,
    hlongest.trans hlongest' ?_, ?_⟩
  · simp only [evict, hsize, hbudget, hlimit, hbySize, hmet, hbyCount, if_pos, byCount, bySize]
  · intro l l' hl hle
    exact (total_le_of_sublist hl.sublist).trans hle
  · rw [List.map_append, List.append_assoc, hpaths', hpaths, paths]

end Cache
end DeclScan
