import DeclScan.Proofs.Cache.Eviction
import DeclScan.Proofs.Cache.Session
import DeclScan.Proofs.Run

/-!
# DeclScan.Proofs.Cache.Bookkeeping

The size and the counters of a cache are changed step by step. In every state that a run reaches
they are what computing them anew would give.

* `Cache.remove_eq`, `Cache.lookup_cases`, `Cache.store_ok`: all that the operations do to a sound
  cache.
* `Cache.Sound`, `CacheSession.step_sound`: the invariant, and what a step preserves.
* `CacheSession.stateAfter_bookkeeping`: what holds after every run.
-/

namespace DeclScan
namespace Cache

variable {τ : Type}

def without (path : String) (entries : List (CacheEntry τ)) : List (CacheEntry τ) :=
  entries.filter fun e => e.path ≠ path

theorem without_sublist (path : String) (entries : List (CacheEntry τ)) :
    (without path entries).Sublist entries :=
  List.filter_sublist

theorem path_of_mem_without {path : String} {entries : List (CacheEntry τ)} {e : CacheEntry τ}
    (h : e ∈ without path entries) : e.path ≠ path := by
  simpa using (List.mem_filter.1 h).2

theorem path_of_find? {c : Cache τ} {path : String} {e : CacheEntry τ}
    (h : c.find? path = some e) : e.path = path := by
  simpa using List.find?_some h

theorem mem_of_find? {c : Cache τ} {path : String} {e : CacheEntry τ}
    (h : c.find? path = some e) : e ∈ c.entries :=
  List.mem_of_find?_eq_some h

theorem without_eq_self {c : Cache τ} {path : String} (h : c.find? path = none) :
    without path c.entries = c.entries := by
  refine List.filter_eq_self.2 fun e he => ?_
  simpa using List.find?_eq_none.1 h e he

/-- Sizes as computed, and one entry for a path. -/
structure Proper (entries : List (CacheEntry τ)) : Prop where
  measured : ∀ e ∈ entries, e.size = estimate e.vars
  unique : (entries.map CacheEntry.path).Nodup

theorem Proper.sublist {entries more : List (CacheEntry τ)} (h : Proper more)
    (hs : entries.Sublist more) : Proper entries :=
  ⟨fun e he => h.measured e (hs.subset he), h.unique.sublist (hs.map _)⟩

theorem Proper.renew {entries : List (CacheEntry τ)} (h : Proper entries) (e : CacheEntry τ)
    (hsize : e.size = estimate e.vars) : Proper (without e.path entries ++ [e]) := by
  have hrest := h.sublist (without_sublist e.path entries)
  constructor
  · intro other hother
    rcases List.mem_append.1 hother with hold | hnew
    · exact hrest.measured other hold
    · obtain rfl := List.mem_singleton.1 hnew
      exact hsize
  · rw [List.map_append, List.nodup_append]
    refine ⟨hrest.unique, by simp, ?_⟩
    intro path hpath other hother
    obtain ⟨old, hold, rfl⟩ := List.mem_map.1 hpath
    obtain rfl : other = e.path := by simpa using hother
    exact path_of_mem_without hold

theorem total_without {entries : List (CacheEntry τ)} {path : String} {e : CacheEntry τ}
    (hunique : (entries.map CacheEntry.path).Nodup)
    (hfind : entries.find? (fun e => e.path = path) = some e) :
    total entries = total (without path entries) + e.size := by
  induction entries with
  | nil => simp at hfind
  | cons first rest ih =>
    rw [List.map_cons, List.nodup_cons] at hunique
    by_cases hpath : first.path = path
    · obtain rfl : first = e := by simpa [hpath] using hfind
      have hrest : without path rest = rest := by
        refine List.filter_eq_self.2 fun other hother => ?_
        have : other.path ≠ first.path := fun heq =>
          hunique.1 (heq ▸ List.mem_map_of_mem hother)
        simpa [hpath] using this
      have hall : without path (first :: rest) = rest := by
        simpa [without, hpath] using hrest
      rw [hall, total_cons, Nat.add_comm]
    · have hfind' : rest.find? (fun e => e.path = path) = some e := by
        simpa [hpath] using hfind
      have := ih hunique.2 hfind'
      simp [without, hpath] at this ⊢
      omega

/-! ## The invariant -/

structure Sound (maxSize maxEntries : Nat) (c : Cache τ) : Prop where
  budget : c.maxSize = maxSize
  limit : c.maxEntries = maxEntries
  proper : Proper c.entries
  size : c.size = total c.entries
  fits : Fits maxSize maxEntries c.entries
  counted : c.hits + c.misses = c.requests

variable {maxSize maxEntries : Nat} {c : Cache τ}

theorem sound_empty (maxSize maxEntries : Nat) :
    Sound maxSize maxEntries (empty maxSize maxEntries : Cache τ) where
  budget := rfl
  limit := rfl
  proper := ⟨by simp [empty], List.nodup_nil⟩
  size := rfl
  fits := ⟨Nat.zero_le _, Nat.zero_le _⟩
  counted := rfl

theorem remove_eq (h : Sound maxSize maxEntries c) (path : String) :
    c.remove path =
      { c with entries := without path c.entries, size := total (without path c.entries) } := by
  cases hfind : c.find? path with
  | none =>
    simp only [remove, hfind, without_eq_self hfind, ← h.size]
  | some e =>
    have := total_without h.proper.unique hfind
    have hsize : c.size - e.size = total (without path c.entries) := by
      rw [h.size]; omega
    simp only [remove, hfind, hsize, without]

theorem Sound.remove (h : Sound maxSize maxEntries c) (path : String) :
    Sound maxSize maxEntries (c.remove path) := by
  have hsub := without_sublist path c.entries
  rw [remove_eq h]
  refine ⟨h.budget, h.limit, h.proper.sublist hsub, rfl, ⟨?_, ?_⟩, h.counted⟩
  · exact (total_le_of_sublist hsub).trans h.fits.1
  · exact hsub.length_le.trans h.fits.2

theorem Sound.touch (h : Sound maxSize maxEntries c) {path : String} {e : CacheEntry τ}
    (hfind : c.find? path = some e) (clock : Float) :
    Sound maxSize maxEntries (c.touch { e with accessed := clock }) := by
  obtain rfl := path_of_find? hfind
  have htotal := total_without h.proper.unique hfind
  have hsame : total (without e.path c.entries ++ [{ e with accessed := clock }]) =
      total c.entries := by
    rw [htotal, total_append]; rfl
  have hlength : (without e.path c.entries).length < c.entries.length :=
    List.length_filter_lt_length_iff_exists.2 ⟨e, mem_of_find? hfind, by simp⟩
  refine ⟨h.budget, h.limit, ?_, ?_, ⟨?_, ?_⟩, h.counted⟩
  · exact h.proper.renew { e with accessed := clock } (h.proper.measured e (mem_of_find? hfind))
  · exact h.size.trans (congrArg Nat.cast hsame.symm)
  · exact hsame.le.trans h.fits.1
  · have := h.fits.2
    simp only [Cache.touch, List.length_append, List.length_singleton]
    exact Nat.le_trans hlength this

/-! ## Requests -/

/-- A request is a hit on a good entry, which becomes the one used last, or else the path has no
entry afterwards. -/
theorem lookup_cases [LE τ] [DecidableLE τ] (c : Cache τ) (modified : Except FileError τ)
    (clock : Float) (path : String) :
    (∃ e current, c.find? path = some e ∧ modified = .ok current ∧ current ≤ e.modified ∧
      c.lookup modified clock path =
        ({ c.touch { e with accessed := clock } with
            requests := c.requests + 1, hits := c.hits + 1 },
          .hit { e with accessed := clock })) ∨
    ((∀ e current, c.find? path = some e → modified = .ok current → ¬ current ≤ e.modified) ∧
      ∃ missed : Lookup τ, missed.found? = none ∧
        c.lookup modified clock path =
          ({ c.remove path with requests := c.requests + 1, misses := c.misses + 1 }, missed)) := by
  cases hfind : c.find? path with
  | none =>
    refine .inr ⟨fun _ _ he => (by cases he), .absent, rfl, ?_⟩
    have hfind' : find? { c with requests := c.requests + 1 } path = none := hfind
    simp only [lookup, hfind', remove, hfind]
  | some e =>
    have hfind' : find? { c with requests := c.requests + 1 } path = some e := hfind
    cases modified with
    | error fault =>
      refine .inr ⟨fun _ _ _ hm => (by cases hm), .unreadable, rfl, ?_⟩
      simp only [lookup, hfind', remove, hfind]
    | ok current =>
      by_cases hgood : current ≤ e.modified
      · refine .inl ⟨e, current, rfl, rfl, hgood, ?_⟩
        simp only [lookup, hfind', if_pos hgood, touch]
      · refine .inr ⟨?_, .stale, rfl, ?_⟩
        · rintro _ _ ⟨⟩ ⟨⟩
          exact hgood
        · simp only [lookup, hfind', if_neg hgood, remove, hfind]

theorem Sound.lookup [LE τ] [DecidableLE τ] (h : Sound maxSize maxEntries c)
    (modified : Except FileError τ) (clock : Float) (path : String) :
    Sound maxSize maxEntries (c.lookup modified clock path).1 := by
  have hcounted := h.counted
  rcases lookup_cases c modified clock path with
    ⟨e, current, hfind, -, -, heq⟩ | ⟨-, missed, -, heq⟩
  · have ht := h.touch hfind clock
    rw [heq]
    refine ⟨ht.budget, ht.limit, ht.proper, ht.size, ht.fits, ?_⟩
    show c.hits + 1 + c.misses = c.requests + 1
    omega
  · have hr := h.remove path
    have hrc := hr.counted
    rw [remove_eq h] at hr hrc heq
    rw [heq]
    refine ⟨hr.budget, hr.limit, hr.proper, hr.size, hr.fits, ?_⟩
    show c.hits + (c.misses + 1) = c.requests + 1
    omega

/-- A result that can be put in: of the other entries and the new one, the longest end within both
limits stays. -/
theorem store_ok (h : Sound maxSize maxEntries c) (current : τ) (clock : Float) (path : String)
    (vars : List Variable) :
    ∃ kept evicted,
      c.store (.ok current) clock path vars =
        ({ c with entries := kept, size := total kept }, .stored evicted) ∧
      IsLongestSuffix (Fits maxSize maxEntries) kept
        (without path c.entries ++ [⟨path, vars, current, clock, estimate vars⟩]) ∧
      evicted.map Evicted.path ++ kept.map CacheEntry.path =
        (without path c.entries).map CacheEntry.path ++ [path] := by
  let e : CacheEntry τ := ⟨path, vars, current, clock, estimate vars⟩
  let grown : Cache τ :=
    { c with
      entries := without path c.entries ++ [e]
      size := (total (without path c.entries) : Int) + e.size }
  have hsize : grown.size = total grown.entries := by
    simp [grown]
  obtain ⟨kept, evicted, heq, hlongest, hpaths⟩ := evict_spec hsize h.budget h.limit
  refine ⟨kept, evicted, ?_, hlongest, ?_⟩
  · rw [store, remove_eq h]
    exact heq
  · simpa [paths, grown, e] using hpaths

theorem Sound.store (h : Sound maxSize maxEntries c) (modified : Except FileError τ)
    (clock : Float) (path : String) (vars : List Variable) :
    Sound maxSize maxEntries (c.store modified clock path vars).1 := by
  cases modified with
  | error fault => exact h
  | ok current =>
    obtain ⟨kept, evicted, heq, hlongest, -⟩ := store_ok h current clock path vars
    have hproper := h.proper.renew ⟨path, vars, current, clock, estimate vars⟩ rfl
    rw [heq]
    exact ⟨h.budget, h.limit, hproper.sublist hlongest.suffix.sublist, rfl, hlongest.holds,
      h.counted⟩

theorem store_ne_limitBelowZero (h : Sound maxSize maxEntries c) (modified : Except FileError τ)
    (clock : Float) (path : String) (vars : List Variable) (evicted : List Evicted) :
    (c.store modified clock path vars).2 ≠ .limitBelowZero evicted := by
  cases modified with
  | error fault => simp [Cache.store]
  | ok current =>
    obtain ⟨kept, evicted', heq, -, -⟩ := store_ok h current clock path vars
    simp [heq]

theorem Sound.clear (h : Sound maxSize maxEntries c) : Sound maxSize maxEntries c.clear := by
  rw [Cache.clear, h.budget, h.limit]
  exact sound_empty maxSize maxEntries

end Cache

/-! ## Runs -/

namespace CacheSession

open Cache

variable {τ : Type} [LE τ] [DecidableLE τ] {maxSize maxEntries : Nat}

theorem step_sound {s : CacheSession τ} (h : Sound maxSize maxEntries s.cache)
    (event : CacheEvent τ) : Sound maxSize maxEntries (s.step event).1.cache := by
  cases event with
  | touch path modified => exact h
  | unlink path fault => exact h
  | get path clock => exact h.lookup (s.status path) clock path
  | set path vars clock => exact h.store (s.status path) clock path vars
  | invalidate path => exact h.remove path
  | setDependencies path paths clock =>
    exact ⟨h.budget, h.limit, h.proper, h.size, h.fits, h.counted⟩
  | clear => exact h.clear
  | dispose => exact h.clear

theorem stateAfter_sound {s : CacheSession τ} (h : Sound maxSize maxEntries s.cache)
    (events : List (CacheEvent τ)) : Sound maxSize maxEntries (stateAfter step s events).cache :=
  stateAfter_induction (p := fun s => Sound maxSize maxEntries s.cache) step
    (fun _ event hs => step_sound hs event) h events

theorem answer_ne_limitBelowZero {s : CacheSession τ} (h : Sound maxSize maxEntries s.cache)
    (event : CacheEvent τ) (evicted : List Evicted) :
    (s.step event).2 ≠ .stored (.limitBelowZero evicted) := by
  cases event with
  | set path vars clock =>
    have := store_ne_limitBelowZero h (s.status path) clock path vars evicted
    simpa [step] using this
  | _ => simp [step]

theorem transcript_ne_limitBelowZero {s : CacheSession τ} (h : Sound maxSize maxEntries s.cache)
    (events : List (CacheEvent τ)) :
    ∀ exchange ∈ transcript step s events,
      ∀ evicted, exchange.2 ≠ .stored (.limitBelowZero evicted) := by
  induction events generalizing s with
  | nil => simp [transcript]
  | cons event events ih =>
    intro exchange hmem evicted
    rcases List.mem_cons.1 hmem with rfl | hlater
    · exact answer_ne_limitBelowZero h event evicted
    · exact ih (step_sound h event) exchange hlater evicted

/-- In every state that is reached the size is the sum of the estimates, both limits are kept, a
path has one entry at most, and every request was a hit or a miss. The budget is the one of the
start, and no entry is ever asked of an empty cache. -/
theorem stateAfter_bookkeeping (maxSize maxEntries : Nat) (status : String → Except FileError τ)
    (events : List (CacheEvent τ)) :
    let s := start maxSize maxEntries status
    let c := (stateAfter step s events).cache
    c.size = (c.entries.map fun e => estimate e.vars).sum ∧ c.size ≤ c.maxSize ∧
      c.count ≤ c.maxEntries ∧ c.paths.Nodup ∧ c.hits + c.misses = c.requests ∧
      c.maxSize = maxSize ∧ c.maxEntries = maxEntries ∧
      ∀ exchange ∈ transcript step s events, ∀ evicted,
        exchange.2 ≠ .stored (.limitBelowZero evicted) := by
  intro s c
  have hstart : Sound maxSize maxEntries s.cache := sound_empty maxSize maxEntries
  have h : Sound maxSize maxEntries c := stateAfter_sound hstart events
  have hestimate : c.entries.map CacheEntry.size = c.entries.map fun e => estimate e.vars :=
    List.map_congr_left h.proper.measured
  refine ⟨?_, ?_, ?_, h.proper.unique, h.counted, h.budget, h.limit,
    transcript_ne_limitBelowZero hstart events⟩
  · rw [h.size, total, hestimate]
  · rw [h.size, h.budget]
    exact_mod_cast h.fits.1
  · rw [h.limit]
    exact_mod_cast h.fits.2

end CacheSession
end DeclScan
