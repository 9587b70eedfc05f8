import DeclScan.Proofs.Cache.Bookkeeping
import DeclScan.Proofs.Cache.RecencyList

/-!
# DeclScan.Proofs.Cache.Recency

A cache keeps and drops just what the plain list of recency does, whatever the sizes of the
results, also those of size zero and those beyond the budget.

* `Mirrors`: a cache stands for a list.
* `Mirrors.step`: every event keeps this, with the same answer.
* `CacheSession.retention`: the answers, the contents and their order in any run.
-/

namespace DeclScan

variable {τ : Type}

def CacheEntry.line (e : CacheEntry τ) : RecencyLine τ := ⟨e.path, e.vars, e.modified⟩

/-- What the list tells of an answer; it knows no limits that cannot be met. -/
def CacheAnswer.view? : CacheAnswer τ → Option RecencyAnswer
  | .silent => some .silent
  | .found (.hit e) => some (.hit e.vars)
  | .found _ => some .miss
  | .stored (.stored evicted) => some (.kept (evicted.map Cache.Evicted.path))
  | .stored (.unreadable e) => some (.unreadable e)
  | .stored (.limitBelowZero _) => none
  | .dropped was => some (.dropped was)

theorem view?_found_of_missed {missed : Cache.Lookup τ} (h : missed.found? = none) :
    (CacheAnswer.found missed).view? = some .miss := by
  cases missed with
  | hit e => cases h
  | _ => rfl

theorem map_take_of_map_eq_append {α β : Type} {f : α → β} {all : List α} {gone kept : List β}
    (h : all.map f = gone ++ kept) : (all.take (all.length - kept.length)).map f = gone := by
  have hlength := congrArg List.length h
  rw [List.length_map, List.length_append] at hlength
  rw [List.map_take, h, hlength, Nat.add_sub_cancel, List.take_left]

section Lines

open Cache

theorem weight_map_line {entries : List (CacheEntry τ)} (h : Proper entries) :
    weight (entries.map CacheEntry.line) = total entries := by
  rw [weight, total, List.map_map]
  refine congrArg List.sum (List.map_congr_left fun e he => ?_)
  exact (h.measured e he).symm

theorem isLongestSuffix_map_line {maxSize maxEntries : Nat} {kept all : List (CacheEntry τ)}
    (h : Proper all) (hlongest : IsLongestSuffix (Fits maxSize maxEntries) kept all) :
    IsLongestSuffix (WithinLimits maxSize maxEntries) (kept.map CacheEntry.line)
      (all.map CacheEntry.line) := by
  refine IsLongestSuffix.map (hlongest.congr fun l hl => ?_)
  rw [Fits, WithinLimits, weight_map_line (h.sublist hl.sublist), List.length_map]

end Lines

structure Mirrors (s : CacheSession τ) (r : RecencyList τ) : Prop where
  sound : Cache.Sound r.maxSize r.maxEntries s.cache
  status : s.status = r.status
  lines : s.cache.entries.map CacheEntry.line = r.lines

namespace Mirrors

open Cache

variable {s : CacheSession τ} {r : RecencyList τ}

theorem line?_eq (h : Mirrors s r) (path : String) :
    r.line? path = (s.cache.find? path).map CacheEntry.line := by
  rw [RecencyList.line?, ← h.lines, List.find?_map]
  rfl

theorem others_eq (h : Mirrors s r) (path : String) :
    r.others path = (without path s.cache.entries).map CacheEntry.line := by
  rw [RecencyList.others, ← h.lines, List.filter_map]
  rfl

theorem remove (h : Mirrors s r) (path : String) :
    Mirrors { s with cache := s.cache.remove path } { r with lines := r.others path } := by
  refine ⟨h.sound.remove path, h.status, ?_⟩
  rw [remove_eq h.sound, h.others_eq]

variable [LE τ] [DecidableLE τ]

theorem step_get (h : Mirrors s r) (path : String) (clock : Float) :
    Mirrors (s.step (.get path clock)).1 (r.step (.get path clock)).1 ∧
      (s.step (.get path clock)).2.view? = some (r.step (.get path clock)).2 := by
  have hsound := h.sound.lookup (s.status path) clock path
  rcases lookup_cases s.cache (s.status path) clock path with
    ⟨e, current, hfind, hstatus, hgood, heq⟩ | ⟨hbad, missed, hmissed, heq⟩
  · have hline : r.line? path = some e.line := by rw [h.line?_eq, hfind]; rfl
    have hstatus' : r.status path = .ok current := by rw [← h.status, hstatus]
    rw [RecencyList.step_get_of_good hline hstatus' hgood]
    refine ⟨⟨hsound, h.status, ?_⟩, ?_⟩
    · obtain rfl := path_of_find? hfind
      simp only [CacheSession.step, heq, touch]
      rw [List.map_append, h.others_eq]
      rfl
    · simp only [CacheSession.step, heq, CacheAnswer.view?]
      rfl
  · have hbad' : ∀ line current, r.line? path = some line → r.status path = .ok current →
        ¬ current ≤ line.modified := by
      intro line current hline hstatus
      rw [h.line?_eq, Option.map_eq_some_iff] at hline
      obtain ⟨e, hfind, rfl⟩ := hline
      rw [← h.status] at hstatus
      exact hbad e current hfind hstatus
    rw [RecencyList.step_get_of_bad hbad']
    refine ⟨⟨hsound, h.status, ?_⟩, ?_⟩
    · simp only [CacheSession.step, heq]
      exact (h.remove path).lines
    · simp only [CacheSession.step, heq]
      exact view?_found_of_missed hmissed

theorem step_set (h : Mirrors s r) (path : String) (vars : List Variable) (clock : Float) :
    Mirrors (s.step (.set path vars clock)).1 (r.step (.set path vars clock)).1 ∧
      (s.step (.set path vars clock)).2.view? = some (r.step (.set path vars clock)).2 := by
  have hsound := h.sound.store (s.status path) clock path vars
  cases hstatus : s.status path with
  | error e =>
    have hstatus' : r.status path = .error e := by rw [← h.status, hstatus]
    simp only [CacheSession.step, RecencyList.step, hstatus, hstatus', store]
    exact ⟨h, rfl⟩
  | ok current =>
    have hstatus' : r.status path = .ok current := by rw [← h.status, hstatus]
    obtain ⟨kept, evicted, heq, hlongest, hpaths⟩ := store_ok h.sound current clock path vars
    have hproper := h.sound.proper.renew ⟨path, vars, current, clock, estimate vars⟩ rfl
    have hlines := isLongestSuffix_map_line hproper hlongest
    rw [List.map_append, ← h.others_eq] at hlines
    have hretained : kept.map CacheEntry.line =
        retained r.maxSize r.maxEntries (r.others path ++ [⟨path, vars, current⟩]) :=
      hlines.unique (isLongestSuffix_retained _ _ _)
    have hall : (r.others path ++ [RecencyLine.mk path vars current]).map RecencyLine.path =
        evicted.map Evicted.path ++ kept.map CacheEntry.path := by
      rw [hpaths, List.map_append, h.others_eq, List.map_map]
      rfl
    rw [hstatus] at hsound
    simp only [CacheSession.step, RecencyList.step, hstatus, hstatus', heq] at hsound ⊢
    refine ⟨⟨hsound, h.status, hretained⟩, ?_⟩
    have hgone := map_take_of_map_eq_append hall
    simp only [List.length_map] at hgone
    simp only [CacheAnswer.view?, ← hretained, List.length_map, hgone]

theorem step (h : Mirrors s r) (event : CacheEvent τ) :
    Mirrors (s.step event).1 (r.step event).1 ∧
      (s.step event).2.view? = some (r.step event).2 := by
  cases event with
  | touch path modified =>
    have hstatus := congrArg (Function.update · path (.ok modified)) h.status
    exact ⟨⟨h.sound, hstatus, h.lines⟩, rfl⟩
  | unlink path fault =>
    have hstatus := congrArg (Function.update · path (.error ⟨fault, path⟩)) h.status
    exact ⟨⟨h.sound, hstatus, h.lines⟩, rfl⟩
  | get path clock => exact h.step_get path clock
  | set path vars clock => exact h.step_set path vars clock
  | invalidate path =>
    refine ⟨h.remove path, ?_⟩
    simp only [CacheSession.step, RecencyList.step, invalidate, contains, CacheAnswer.view?]
    rw [h.line?_eq, Option.isSome_map]
  | setDependencies path paths clock =>
    exact ⟨⟨CacheSession.step_sound h.sound (.setDependencies path paths clock), h.status,
      h.lines⟩, rfl⟩
  | clear => exact ⟨⟨h.sound.clear, h.status, rfl⟩, rfl⟩
  | dispose => exact ⟨⟨h.sound.clear, h.status, rfl⟩, rfl⟩

theorem run (h : Mirrors s r) (events : List (CacheEvent τ)) :
    Mirrors (stateAfter CacheSession.step s events) (stateAfter RecencyList.step r events) ∧
      (transcript CacheSession.step s events).map (fun x => (x.1, x.2.view?)) =
        (transcript RecencyList.step r events).map (fun x => (x.1, some x.2)) := by
  induction events generalizing s r with
  | nil => exact ⟨h, rfl⟩
  | cons event events ih =>
    obtain ⟨hnext, hanswer⟩ := h.step event
    obtain ⟨hlast, hanswers⟩ := ih hnext
    refine ⟨hlast, ?_⟩
    simp only [transcript, List.map_cons, hanswer, hanswers]

end Mirrors

namespace CacheSession

open Cache

theorem mirrors_start (maxSize maxEntries : Nat) (status : String → Except FileError τ) :
    Mirrors (start maxSize maxEntries status) (.start maxSize maxEntries status) :=
  ⟨sound_empty maxSize maxEntries, rfl, rfl⟩

variable [LE τ] [DecidableLE τ]

/-- Every answer and the contents are those of the list. So a result that can be put in takes the
end, and the longest end within the limits stays; one that cannot be put in changes nothing. The
order is that of the last use, and a hit is answered with what was put in last. -/
theorem retention (maxSize maxEntries : Nat) (status : String → Except FileError τ)
    (events : List (CacheEvent τ)) :
    let s := start maxSize maxEntries status
    let r := RecencyList.start maxSize maxEntries status
    let reached := stateAfter step s events
    let past := transcript RecencyList.step r events
    (transcript step s events).map (fun x => (x.1, x.2.view?)) =
      past.map (fun x => (x.1, some x.2)) ∧
    reached.cache.entries.map CacheEntry.line = (stateAfter RecencyList.step r events).lines ∧
    (∀ path vars clock current, reached.status path = .ok current →
      IsLongestSuffix (WithinLimits maxSize maxEntries)
        ((reached.step (.set path vars clock)).1.cache.entries.map CacheEntry.line)
        ((without path reached.cache.entries).map CacheEntry.line ++ [⟨path, vars, current⟩])) ∧
    (∀ path vars clock e, reached.status path = .error e →
      (reached.step (.set path vars clock)).1 = reached) ∧
    reached.cache.paths.Sublist (uses past).dedup ∧
    ∀ before path clock vars later, past = before ++ (.get path clock, .hit vars) :: later →
      lastStored? before path = some vars := by
  intro s r reached past
  obtain ⟨hmirrors, hanswers⟩ := (mirrors_start maxSize maxEntries status).run events
  have hrecorded := RecencyList.recorded maxSize maxEntries status events
  refine ⟨hanswers, hmirrors.lines, ?_, ?_, ?_, ?_⟩
  · intro path vars clock current hstatus
    have hstart : Sound maxSize maxEntries s.cache := sound_empty maxSize maxEntries
    have hsound := stateAfter_sound hstart events
    obtain ⟨kept, evicted, heq, hlongest, -⟩ := store_ok hsound current clock path vars
    have hproper := hsound.proper.renew ⟨path, vars, current, clock, estimate vars⟩ rfl
    have hlines := isLongestSuffix_map_line hproper hlongest
    rw [List.map_append] at hlines
    simp only [step, hstatus, reached, heq]
    exact hlines
  · intro path vars clock e hstatus
    simp only [step, hstatus, store]
  · have hpaths : reached.cache.paths =
        (stateAfter RecencyList.step r events).lines.map RecencyLine.path := by
      rw [← hmirrors.lines, List.map_map]
      rfl
    rw [hpaths]
    exact hrecorded.order
  · intro before path clock vars later hpast
    obtain ⟨first, rest, -, rfl, hanswer⟩ := split_of_transcript_eq _ hpast
    have hfirst := RecencyList.recorded maxSize maxEntries status first
    exact RecencyList.lastStored?_of_hit hfirst hanswer

end CacheSession
end DeclScan
