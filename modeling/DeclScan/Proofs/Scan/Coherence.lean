import DeclScan.Proofs.Cache.Bookkeeping
import DeclScan.Proofs.Scan.Interleaving

/-!
# DeclScan.Proofs.Scan.Coherence

What the cache serves while files change. A result is put in with the time that the file has then,
not with the one it had when the worker read it. So a hit is what the worker saw: it is right if a
change in between made no difference, and wrong for good if it made one.

* `Cache.Each`: a property of all results in a cache, and what the operations do to it.
* `Coherent`, `ScanStep.coherent`: the invariant, and what a step preserves.
* `Reachable.hit_right_iff`: when a hit is right.
* `Overtaken.hit_wrong`: a run that ends in a wrong hit.
-/

namespace DeclScan

variable {τ : Type}

/-! ## Results in a cache -/

namespace Cache

/-- Path, variables and time of all entries have a property. -/
def Each (p : String → List Variable → τ → Prop) (c : Cache τ) : Prop :=
  ∀ e ∈ c.entries, p e.path e.vars e.modified

variable {p q : String → List Variable → τ → Prop} {c : Cache τ}

theorem keepWithinSize_suffix (maxSize size : Int) (entries : List (CacheEntry τ)) :
    (keepWithinSize maxSize size entries).entries <:+ entries := by
  induction entries generalizing size with
  | nil => exact List.suffix_refl _
  | cons e rest ih =>
    simp only [keepWithinSize]
    split
    · exact (ih (size - e.size)).trans (List.suffix_cons e rest)
    · exact List.suffix_refl _

theorem keepWithinCount_suffix (maxEntries size : Int) (entries : List (CacheEntry τ)) :
    (keepWithinCount maxEntries size entries).1.entries <:+ entries := by
  induction entries generalizing size with
  | nil => exact List.suffix_refl _
  | cons e rest ih =>
    simp only [keepWithinCount]
    split
    · exact (ih (size - e.size)).trans (List.suffix_cons e rest)
    · exact List.suffix_refl _

theorem evict_suffix (c : Cache τ) : c.evict.1.entries <:+ c.entries := by
  simp only [evict]
  exact (keepWithinCount_suffix _ _ _).trans (keepWithinSize_suffix _ _ _)

theorem mem_remove {path : String} {e : CacheEntry τ} (h : e ∈ (c.remove path).entries) :
    e ∈ c.entries ∧ e.path ≠ path := by
  cases hfind : c.find? path with
  | none =>
    simp only [remove, hfind] at h
    exact ⟨h, by simpa using List.find?_eq_none.1 hfind e h⟩
  | some found =>
    simp only [remove, hfind] at h
    exact ⟨(List.mem_filter.1 h).1, by simpa using (List.mem_filter.1 h).2⟩

theorem Each.remove (h : c.Each p) (path : String) : (c.remove path).Each p := by
  intro e he
  exact h e (mem_remove he).1

theorem Each.lookup [LE τ] [DecidableLE τ] (h : c.Each p) (modified : Except FileError τ)
    (clock : Float) (path : String) : (c.lookup modified clock path).1.Each p := by
  rcases lookup_cases c modified clock path with
    ⟨found, current, hfind, -, -, heq⟩ | ⟨-, missed, -, heq⟩
  · rw [heq]
    intro e he
    rcases List.mem_append.1 he with hold | hnew
    · exact h e (List.filter_sublist.subset hold)
    · obtain rfl := List.mem_singleton.1 hnew
      exact h found (mem_of_find? hfind)
  · rw [heq]
    exact h.remove path

theorem Each.store (h : c.Each p) (current : τ) (clock : Float) (path : String)
    (vars : List Variable)
    (hold : ∀ other v t, other ≠ path → p other v t → q other v t) (hnew : q path vars current) :
    (c.store (.ok current) clock path vars).1.Each q := by
  intro e he
  rcases List.mem_append.1 ((evict_suffix _).subset he) with hrest | hlast
  · obtain ⟨hmem, hne⟩ := mem_remove hrest
    exact hold e.path e.vars e.modified hne (h e hmem)
  · obtain rfl := List.mem_singleton.1 hlast
    exact hnew

end Cache

/-! ## The scanner -/

namespace Scanner

variable (s : Scanner τ) (w : World τ)

theorem cache_writeBack (report : WorkerReport) :
    (s.writeBack w report).1.cache =
      match report.outcome with
      | .scanned vars => s.cache.map fun c =>
          (c.store (w.files.modified report.path) w.clock report.path vars).1
      | _ => s.cache := by
  cases houtcome : report.outcome with
  | scanned vars =>
    cases hcache : s.cache with
    | none => simp only [writeBack, houtcome, write, remember, hcache, Option.map_none]
    | some c => simp only [writeBack, houtcome, write, remember, hcache, Option.map_some]
  | _ => simp only [writeBack, houtcome, write, measure]

theorem rules_writeBack (report : WorkerReport) : (s.writeBack w report).1.rules = s.rules := by
  cases houtcome : report.outcome with
  | scanned vars =>
    cases hcache : s.cache with
    | none => simp only [writeBack, houtcome, write, remember, hcache]
    | some c => simp only [writeBack, houtcome, write, remember, hcache]
  | _ => simp only [writeBack, houtcome, write, measure]

variable [LE τ] [DecidableLE τ]

theorem cache_lookup (path : String) :
    (s.lookup w path).1.cache =
      s.cache.map fun c => (c.lookup (w.files.modified path) w.clock path).1 := by
  cases hcache : s.cache with
  | none => simp only [lookup, hcache, Option.map_none]
  | some c =>
    simp only [lookup, hcache, Option.map_some]
    split <;> rfl

theorem rules_lookup (path : String) : (s.lookup w path).1.rules = s.rules := by
  cases hcache : s.cache with
  | none => simp only [lookup, hcache]
  | some c =>
    simp only [lookup, hcache]
    split <;> rfl

theorem entry_of_lookup {path : String} {vars : List Variable}
    (h : (s.lookup w path).2 = some vars) :
    ∃ c e current, s.cache = some c ∧ e ∈ c.entries ∧ e.path = path ∧ e.vars = vars ∧
      w.files.modified path = .ok current ∧ current ≤ e.modified := by
  simp only [lookup] at h
  cases hcache : s.cache with
  | none => simp [hcache] at h
  | some c =>
    simp only [hcache] at h
    rcases Cache.lookup_cases c (w.files.modified path) w.clock path with
      ⟨e, current, hfind, hmodified, hle, heq⟩ | ⟨-, missed, hmissed, heq⟩
    · simp only [heq, Cache.Lookup.found?, Option.some.injEq] at h
      exact ⟨c, e, current, rfl, Cache.mem_of_find? hfind, Cache.path_of_find? hfind, h, hmodified,
        hle⟩
    · simp [heq, hmissed] at h

end Scanner

/-! ## The invariant -/

variable [Preorder τ]

structure Coherent (s : ScanSystem τ) : Prop where
  /-- The time of a file tells it from all that were at its path before. -/
  ordered : ∀ old ∈ s.before, ∀ path f g, s.world.files.file? path = some f →
    old.file? path = some g → g.modified ≤ f.modified ∧ (f.modified ≤ g.modified → f = g)
  flights : ∀ flight ∈ s.flights, flight.seen ∈ s.history ∧
    ∀ vars, flight.report.outcome = .scanned vars →
      extraction? s.scanner.rules.registry flight.seen flight.report.path = some vars
  landings : ∀ l ∈ s.landings, l.Within s.history ∧
    extraction? s.scanner.rules.registry l.seen l.path = some l.vars
  /-- What is in the cache was put in last, with the time that the file had then. -/
  entries : ∀ c, s.scanner.cache = some c → c.Each fun path vars t =>
    ∃ l, s.landing? path = some l ∧ l.vars = vars ∧ l.files.modified path = .ok t

theorem Coherent.ordered_change {s : ScanSystem τ} (hs : Coherent s) {next : FileStore τ}
    (hadvances : Advances s.before s.world.files next) :
    ∀ old ∈ s.history, ∀ path f g, next.file? path = some f →
      old.file? path = some g → g.modified ≤ f.modified ∧ (f.modified ≤ g.modified → f = g) := by
  intro old hold path f g hf hg
  rcases hadvances path with hsame | hlater
  · rw [hsame] at hf
    rcases List.mem_cons.1 hold with rfl | hbefore
    · obtain rfl : f = g := Option.some.inj (hf.symm.trans hg)
      exact ⟨le_refl _, fun _ => rfl⟩
    · exact hs.ordered old hbefore path f g hf hg
  · have hlt := hlater f hf old hold g hg
    exact ⟨hlt.le, fun hle => absurd hle (not_le_of_gt hlt)⟩

/-- A result that is put in becomes the last one of its path. One that is not leaves all as it
was. -/
theorem Coherent.entries_land {s : ScanSystem τ} (hs : Coherent s) (flight : Flight τ) :
    ∀ c, (s.scanner.writeBack s.world flight.report).1.cache = some c →
      c.Each fun path vars t =>
        ∃ l, ((flight.landing? s.world.files).toList ++ s.landings).find?
            (fun l => l.path = path) = some l ∧
          l.vars = vars ∧ l.files.modified path = .ok t := by
  intro c hc
  rw [Scanner.cache_writeBack] at hc
  cases houtcome : flight.report.outcome with
  | scanned vars =>
    simp only [houtcome, Option.map_eq_some_iff] at hc
    obtain ⟨old, hold, rfl⟩ := hc
    cases hmodified : s.world.files.modified flight.report.path with
    | error e =>
      have hnone : flight.landing? s.world.files = none := by
        simp only [Flight.landing?, houtcome, hmodified]
      rw [hnone]
      exact hs.entries old hold
    | ok t =>
      rw [Flight.landing?_of_scanned houtcome hmodified]
      refine (hs.entries old hold).store t _ _ _ ?_ ?_
      · intro other v u hne hother
        simpa [ScanSystem.landing?, hne.symm] using hother
      · exact ⟨⟨flight.report.path, vars, flight.seen, s.world.files⟩, by simp, rfl, hmodified⟩
  | _ =>
    simp only [houtcome] at hc
    have hnone : flight.landing? s.world.files = none := by
      simp only [Flight.landing?, houtcome]
    rw [hnone]
    exact hs.entries c hc

theorem Coherent.landings_land {s : ScanSystem τ} (hs : Coherent s) {flight : Flight τ}
    (hflight : flight ∈ s.flights) :
    ∀ l ∈ (flight.landing? s.world.files).toList ++ s.landings, l.Within s.history ∧
      extraction? s.scanner.rules.registry l.seen l.path = some l.vars := by
  intro l hl
  rcases List.mem_append.1 hl with hnew | hold
  · obtain ⟨houtcome, hpath, hseen, hfiles⟩ := Flight.landing?_eq_some (Option.mem_toList.1 hnew)
    obtain ⟨hmem, hread⟩ := hs.flights flight hflight
    rw [hpath, hseen]
    refine ⟨⟨[], s.before, by rw [hfiles]; rfl, ?_⟩, hread l.vars houtcome⟩
    rw [hseen, hfiles]
    exact hmem
  · exact hs.landings l hold

variable [DecidableLE τ]

theorem ScanStep.coherent {s s' : ScanSystem τ} (h : ScanStep s s') (hs : Coherent s) :
    Coherent s' := by
  cases h with
  | change world hadvances =>
    refine ⟨hs.ordered_change hadvances, ?_, ?_, hs.entries⟩
    · intro flight hflight
      obtain ⟨hseen, hread⟩ := hs.flights flight hflight
      exact ⟨List.mem_cons_of_mem _ hseen, hread⟩
    · intro l hl
      obtain ⟨hwithin, hread⟩ := hs.landings l hl
      exact ⟨hwithin.cons world.files, hread⟩
  | read path =>
    refine ⟨hs.ordered, ?_, hs.landings, hs.entries⟩
    intro flight hflight
    rcases List.mem_cons.1 hflight with rfl | hold
    · refine ⟨List.mem_cons_self, fun vars hvars => ?_⟩
      simp only [Scanner.work, path_scan] at hvars ⊢
      exact extraction?_of_scan hvars
    · exact hs.flights flight hold
  | land flight flights hperm =>
    have hflight : flight ∈ s.flights := hperm.mem_iff.2 List.mem_cons_self
    refine ⟨hs.ordered, ?_, ?_, hs.entries_land flight⟩
    · rw [Scanner.rules_writeBack]
      intro other hother
      exact hs.flights other (hperm.mem_iff.2 (List.mem_cons_of_mem _ hother))
    · rw [Scanner.rules_writeBack]
      exact hs.landings_land hflight
  | ask path =>
    refine ⟨hs.ordered, ?_, ?_, ?_⟩
    · rw [Scanner.rules_lookup]
      exact hs.flights
    · rw [Scanner.rules_lookup]
      exact hs.landings
    · intro c hc
      rw [Scanner.cache_lookup, Option.map_eq_some_iff] at hc
      obtain ⟨old, hold, rfl⟩ := hc
      exact (hs.entries old hold).lookup _ _ _
  | invalidate path =>
    refine ⟨hs.ordered, hs.flights, hs.landings, ?_⟩
    intro c hc
    obtain ⟨old, hold, rfl⟩ := Option.map_eq_some_iff.1 hc
    exact (hs.entries old hold).remove path
  | clear =>
    refine ⟨hs.ordered, hs.flights, hs.landings, ?_⟩
    intro c hc
    obtain ⟨old, hold, rfl⟩ := Option.map_eq_some_iff.1 hc
    intro e he
    cases he
  | record scanner hcache hrules =>
    refine ⟨hs.ordered, ?_, ?_, ?_⟩
    · rw [hrules]
      exact hs.flights
    · rw [hrules]
      exact hs.landings
    · intro c hc
      exact hs.entries c (hcache ▸ hc)

theorem Reachable.coherent {s : ScanSystem τ} (h : Reachable s) : Coherent s := by
  induction h with
  | start scanner world hempty =>
    refine ⟨by simp, by simp, by simp, ?_⟩
    intro c hc e he
    rw [hempty c hc] at he
    cases he
  | step _ hstep ih => exact hstep.coherent ih

/-! ## Hits -/

theorem Coherent.landing_of_hit {s : ScanSystem τ} (hs : Coherent s) {path : String}
    {vars : List Variable} (hhit : (s.scanner.lookup s.world path).2 = some vars) :
    ∃ l ∈ s.landings, s.landing? path = some l ∧ l.path = path ∧ l.vars = vars ∧
      s.world.files.file? path = l.files.file? path := by
  obtain ⟨c, e, current, hcache, he, rfl, rfl, hcurrent, hle⟩ :=
    s.scanner.entry_of_lookup s.world hhit
  obtain ⟨l, hfind, hvars, hmodified⟩ := hs.entries c hcache e he
  have hmem : l ∈ s.landings := List.mem_of_find?_eq_some hfind
  have hpath : l.path = e.path := by simpa using List.find?_some hfind
  refine ⟨l, hmem, hfind, hpath, hvars, ?_⟩
  obtain ⟨f, hf, rfl⟩ := FileStore.modified_eq_ok_iff.1 hcurrent
  obtain ⟨g, hg, hgt⟩ := FileStore.modified_eq_ok_iff.1 hmodified
  rw [hf, hg]
  rcases List.mem_cons.1 (hs.landings l hmem).1.files_mem with hnow | hbefore
  · rw [hnow] at hg
    exact hf.symm.trans hg
  · have hsame := (hs.ordered l.files hbefore e.path f g hf hg).2
    rw [hsame (hgt ▸ hle)]

theorem Reachable.hit_right_of_undisturbed {s : ScanSystem τ} (h : Reachable s) {path : String}
    {vars : List Variable} (hhit : (s.scanner.lookup s.world path).2 = some vars)
    (hundisturbed : ∀ l, s.landing? path = some l → l.seen.file? path = l.files.file? path) :
    s.extraction? path = some vars := by
  obtain ⟨l, hmem, hfind, rfl, rfl, hfile⟩ := h.coherent.landing_of_hit hhit
  rw [ScanSystem.extraction?, extraction?_congr _ hfile,
    ← extraction?_congr _ (hundisturbed l hfind)]
  exact (h.coherent.landings l hmem).2

/-- A hit serves what the worker saw of the file when it read it for the result that was put in
last. It is what the file holds now exactly if the file gave the same when it was put in. -/
theorem Reachable.hit_right_iff {s : ScanSystem τ} (h : Reachable s) {path : String}
    {vars : List Variable} (hhit : (s.scanner.lookup s.world path).2 = some vars) :
    ∃ l, s.landing? path = some l ∧ l.Within s.history ∧
      extraction? s.scanner.rules.registry l.seen path = some vars ∧
      (s.extraction? path = some vars ↔
        extraction? s.scanner.rules.registry l.files path =
          extraction? s.scanner.rules.registry l.seen path) := by
  obtain ⟨l, hmem, hfind, rfl, rfl, hfile⟩ := h.coherent.landing_of_hit hhit
  obtain ⟨hwithin, hread⟩ := h.coherent.landings l hmem
  refine ⟨l, hfind, hwithin, hread, ?_⟩
  rw [hread, ScanSystem.extraction?, extraction?_congr _ hfile]

/-! ## A write that overtakes a write-back -/

namespace Overtaken

def scanner : Scanner Nat where
  rules := ⟨.standard, [], none, none, .standard⟩
  cache := some (.empty Cache.defaultMaxSize Cache.defaultMaxEntries)
  meter := none
  log := []

def files (text : String) (time : Nat) : FileStore Nat :=
  ⟨[(["a.js"], .file ⟨text.toUTF8.toList, time⟩)]⟩

def read : World Nat := ⟨files "let a = 1" 1, 0⟩

def written : World Nat := ⟨files "let b = 1" 2, 0⟩

def flight : Flight Nat := ⟨scanner.work read "a.js", read.files⟩

/-- The file is read, then written, and then the report comes back. -/
def system : ScanSystem Nat where
  scanner := (scanner.writeBack written flight.report).1
  world := written
  before := [read.files]
  flights := []
  landings := (flight.landing? written.files).toList ++ []

def served : List Variable := ((system.scanner.lookup system.world "a.js").2).getD []

theorem modified_of_file? {text : String} {time : Nat} {path : String} {f : StoredFile Nat}
    (h : (files text time).file? path = some f) : f.modified = time := by
  obtain ⟨way, hmem⟩ := FileStore.mem_of_file? h
  simp only [files, List.mem_singleton, Prod.mk.injEq, StoreEntry.file.injEq] at hmem
  rw [hmem.2]

theorem reachable : Reachable system := by
  have hstart : Reachable ⟨scanner, read, [], [], []⟩ := by
    refine .start scanner read fun c hc => ?_
    obtain rfl := Option.some.inj hc
    rfl
  have hadvances : Advances [] read.files written.files := by
    refine fun path => .inr fun f hf old hold g hg => ?_
    obtain rfl := List.mem_singleton.1 hold
    rw [modified_of_file? hf, modified_of_file? hg]
    decide
  have hread := hstart.step (.read "a.js")
  have hchange := hread.step (.change written hadvances)
  exact hchange.step (.land flight [] (List.Perm.refl _))

theorem lookup_eq : (system.scanner.lookup system.world "a.js").2 = some served := by
  decide +kernel

end Overtaken

/-- The variables of the file as it was are served, and those that it has now are others. -/
theorem Overtaken.hit_wrong : Reachable system ∧
    (system.scanner.lookup system.world "a.js").2 = some served ∧
    served.map Variable.name = ["a"] ∧
    (system.extraction? "a.js").map (List.map Variable.name) = some ["b"] := by
  refine ⟨reachable, lookup_eq, ?_, ?_⟩
  · decide +kernel
  · decide +kernel

/-- The result that was put in last is the one served. -/
theorem Overtaken.landing_of_served : Reachable system ∧
    (system.scanner.lookup system.world "a.js").2 = some served ∧
    ∃ l, system.landing? "a.js" = some l ∧ l.Within system.history ∧
      extraction? system.scanner.rules.registry l.seen "a.js" = some served ∧
      (system.extraction? "a.js" = some served ↔
        extraction? system.scanner.rules.registry l.files "a.js" =
          extraction? system.scanner.rules.registry l.seen "a.js") :=
  ⟨reachable, lookup_eq, reachable.hit_right_iff lookup_eq⟩

end DeclScan
