import DeclScan.Proofs.Cache.Eviction
import DeclScan.Proofs.Cache.Session
import DeclScan.Proofs.Run

/-!
# DeclScan.Proofs.Cache.RecencyList

What a cache is to do, said with a plain list: one line for each path with its variables and the
time of change at which they were put in, the path used last at the end.

* `retained`: of a list, the longest end within the limits.
* `RecencyList.step`: one event.
* `uses`, `lastStored?`: what a run tells about the order of use and about the last result of a path.
* `RecencyList.recorded`: the list agrees with both at every moment.
-/

namespace DeclScan

structure RecencyLine (τ : Type) where
  path : String
  vars : List Variable
  modified : τ

structure RecencyList (τ : Type) where
  maxSize : Nat
  maxEntries : Nat
  lines : List (RecencyLine τ)
  status : String → Except FileError τ

inductive RecencyAnswer where
  | silent
  | hit (vars : List Variable)
  | miss
  | kept (gaveWay : List String)
  | unreadable (e : FileError)
  | dropped (was : Bool)

variable {τ : Type}

def weight (lines : List (RecencyLine τ)) : Nat := (lines.map fun l => Cache.estimate l.vars).sum

def WithinLimits (maxSize maxEntries : Nat) (lines : List (RecencyLine τ)) : Prop :=
  weight lines ≤ maxSize ∧ lines.length ≤ maxEntries

instance (maxSize maxEntries : Nat) :
    DecidablePred (WithinLimits maxSize maxEntries (τ := τ)) :=
  fun _ => inferInstanceAs (Decidable (_ ∧ _))

/-- The first end within the limits; the ends of a list come longest first. -/
def retained (maxSize maxEntries : Nat) (lines : List (RecencyLine τ)) : List (RecencyLine τ) :=
  (lines.tails.find? fun l => WithinLimits maxSize maxEntries l).getD []

theorem isLongestSuffix_retained (maxSize maxEntries : Nat) (lines : List (RecencyLine τ)) :
    IsLongestSuffix (WithinLimits maxSize maxEntries) (retained maxSize maxEntries lines) lines :=
  .find?_tails ⟨Nat.zero_le _, Nat.zero_le _⟩ lines

namespace RecencyList

def start (maxSize maxEntries : Nat) (status : String → Except FileError τ) : RecencyList τ :=
  ⟨maxSize, maxEntries, [], status⟩

def line? (r : RecencyList τ) (path : String) : Option (RecencyLine τ) :=
  r.lines.find? fun l => l.path = path

def others (r : RecencyList τ) (path : String) : List (RecencyLine τ) :=
  r.lines.filter fun l => l.path ≠ path

variable [LE τ] [DecidableLE τ]

def step (r : RecencyList τ) : CacheEvent τ → RecencyList τ × RecencyAnswer
  | .touch path modified =>
    ({ r with status := Function.update r.status path (.ok modified) }, .silent)
  | .unlink path fault =>
    ({ r with status := Function.update r.status path (.error ⟨fault, path⟩) }, .silent)
  | .get path _ =>
    match r.line? path, r.status path with
    | some line, .ok current =>
      if current ≤ line.modified then
        ({ r with lines := r.others path ++ [line] }, .hit line.vars)
      else ({ r with lines := r.others path }, .miss)
    | _, _ => ({ r with lines := r.others path }, .miss)
  | .set path vars _ =>
    match r.status path with
    | .error e => (r, .unreadable e)
    | .ok current =>
      let all := r.others path ++ [⟨path, vars, current⟩]
      let kept := retained r.maxSize r.maxEntries all
      ({ r with lines := kept },
        .kept ((all.take (all.length - kept.length)).map RecencyLine.path))
  | .invalidate path => ({ r with lines := r.others path }, .dropped (r.line? path).isSome)
  | .setDependencies _ _ _ => (r, .silent)
  | .clear | .dispose => ({ r with lines := [] }, .silent)

theorem step_get_of_good {r : RecencyList τ} {path : String} {line : RecencyLine τ} {current : τ}
    (hline : r.line? path = some line) (hstatus : r.status path = .ok current)
    (hgood : current ≤ line.modified) (clock : Float) :
    r.step (.get path clock) = ({ r with lines := r.others path ++ [line] }, .hit line.vars) := by
  simp only [step, hline, hstatus, if_pos hgood]

theorem step_get_of_bad {r : RecencyList τ} {path : String}
    (hbad : ∀ line current, r.line? path = some line → r.status path = .ok current →
      ¬ current ≤ line.modified) (clock : Float) :
    r.step (.get path clock) = ({ r with lines := r.others path }, .miss) := by
  simp only [step]
  split
  · rename_i line current hline hstatus
    exact if_neg (hbad line current hline hstatus)
  · rfl

end RecencyList

/-! ## What a run tells -/

/-- The path that an exchange makes the one used last: a result was put in, or was found. -/
def used? : CacheEvent τ × RecencyAnswer → Option String
  | (.set path _ _, .kept _) => some path
  | (.get path _, .hit _) => some path
  | _ => none

def uses (past : List (CacheEvent τ × RecencyAnswer)) : List String := past.filterMap used?

def storedAs? (path : String) : CacheEvent τ × RecencyAnswer → Option (List Variable)
  | (.set other vars _, .kept _) => if other = path then some vars else none
  | _ => none

def lastStored? (past : List (CacheEvent τ × RecencyAnswer)) (path : String) :
    Option (List Variable) :=
  (past.filterMap (storedAs? path)).getLast?

theorem uses_append_of_used {past : List (CacheEvent τ × RecencyAnswer)}
    {exchange : CacheEvent τ × RecencyAnswer} {path : String} (h : used? exchange = some path) :
    uses (past ++ [exchange]) = uses past ++ [path] := by
  simp [uses, h]

theorem uses_append_of_not_used {past : List (CacheEvent τ × RecencyAnswer)}
    {exchange : CacheEvent τ × RecencyAnswer} (h : used? exchange = none) :
    uses (past ++ [exchange]) = uses past := by
  simp [uses, h]

theorem lastStored?_append (past : List (CacheEvent τ × RecencyAnswer))
    (exchange : CacheEvent τ × RecencyAnswer) (path : String) :
    lastStored? (past ++ [exchange]) path =
      (storedAs? path exchange).or (lastStored? past path) := by
  cases h : storedAs? path exchange <;> simp [lastStored?, h]

theorem dedup_append_singleton (paths : List String) (path : String) :
    (paths ++ [path]).dedup = paths.dedup.filter (· ≠ path) ++ [path] := by
  induction paths with
  | nil => simp
  | cons first rest ih =>
    rw [List.cons_append]
    by_cases hrest : first ∈ rest
    · rw [List.dedup_cons_of_mem (List.mem_append_left [path] hrest), ih,
        List.dedup_cons_of_mem hrest]
    · rw [List.dedup_cons_of_notMem hrest]
      by_cases hpath : first = path
      · subst hpath
        rw [List.dedup_cons_of_mem (by simp), ih]
        simp
      · rw [List.dedup_cons_of_notMem (by simp [hrest, hpath]), ih]
        simp [hpath]

namespace RecencyList

/-- The list is in the order of last use and holds what was put in last. -/
structure Recorded (past : List (CacheEvent τ × RecencyAnswer)) (r : RecencyList τ) : Prop where
  order : (r.lines.map RecencyLine.path).Sublist (uses past).dedup
  stored : ∀ l ∈ r.lines, lastStored? past l.path = some l.vars

theorem map_path_others (r : RecencyList τ) (path : String) :
    (r.others path).map RecencyLine.path = (r.lines.map RecencyLine.path).filter (· ≠ path) := by
  rw [others, List.filter_map]
  rfl

theorem path_of_mem_others {r : RecencyList τ} {path : String} {l : RecencyLine τ}
    (h : l ∈ r.others path) : l.path ≠ path := by
  simpa using (List.mem_filter.1 h).2

theorem path_of_line? {r : RecencyList τ} {path : String} {l : RecencyLine τ}
    (h : r.line? path = some l) : l.path = path := by
  simpa using List.find?_some h

theorem mem_of_line? {r : RecencyList τ} {path : String} {l : RecencyLine τ}
    (h : r.line? path = some l) : l ∈ r.lines :=
  List.mem_of_find?_eq_some h

variable {past : List (CacheEvent τ × RecencyAnswer)} {r : RecencyList τ}
  {exchange : CacheEvent τ × RecencyAnswer}

theorem Recorded.shrink (h : Recorded past r) {lines : List (RecencyLine τ)}
    (hlines : lines.Sublist r.lines) (hused : used? exchange = none)
    (hstored : ∀ path, storedAs? path exchange = none) (status : String → Except FileError τ) :
    Recorded (past ++ [exchange]) { r with lines := lines, status := status } := by
  constructor
  · rw [uses_append_of_not_used hused]
    exact (hlines.map _).trans h.order
  · intro l hl
    rw [lastStored?_append, hstored]
    exact h.stored l (hlines.subset hl)

theorem Recorded.renew (h : Recorded past r) {l : RecencyLine τ} {lines : List (RecencyLine τ)}
    (hlines : lines.Sublist (r.others l.path ++ [l])) (hused : used? exchange = some l.path)
    (hstored : ∀ path, path ≠ l.path → storedAs? path exchange = none)
    (hlast : (storedAs? l.path exchange).or (lastStored? past l.path) = some l.vars) :
    Recorded (past ++ [exchange]) { r with lines := lines } := by
  constructor
  · rw [uses_append_of_used hused, dedup_append_singleton]
    have hothers : ((r.others l.path).map RecencyLine.path).Sublist
        ((uses past).dedup.filter (· ≠ l.path)) := by
      rw [map_path_others]
      exact h.order.filter _
    refine (hlines.map _).trans ?_
    rw [List.map_append]
    exact hothers.append (List.Sublist.refl _)
  · intro other hother
    rw [lastStored?_append]
    rcases List.mem_append.1 (hlines.subset hother) with hold | hnew
    · rw [hstored other.path (path_of_mem_others hold)]
      exact h.stored other (List.filter_sublist.subset hold)
    · obtain rfl := List.mem_singleton.1 hnew
      exact hlast

variable [LE τ] [DecidableLE τ]

theorem step_recorded (past : List (CacheEvent τ × RecencyAnswer)) (r : RecencyList τ)
    (event : CacheEvent τ) (h : Recorded past r) :
    Recorded (past ++ [(event, (r.step event).2)]) (r.step event).1 := by
  cases event with
  | touch path modified => exact h.shrink (List.Sublist.refl _) rfl (fun _ => rfl) _
  | unlink path fault => exact h.shrink (List.Sublist.refl _) rfl (fun _ => rfl) _
  | get path clock =>
    simp only [step]
    split
    · rename_i line current hline hstatus
      split
      · have hpath := path_of_line? hline
        refine h.renew (l := line) ?_ ?_ ?_ ?_
        · rw [hpath]
        · rw [hpath]; rfl
        · intro _ _; rfl
        · exact h.stored line (mem_of_line? hline)
      · exact h.shrink List.filter_sublist rfl (fun _ => rfl) _
    · exact h.shrink List.filter_sublist rfl (fun _ => rfl) _
  | set path vars clock =>
    simp only [step]
    split
    · exact h.shrink (List.Sublist.refl _) rfl (fun _ => rfl) _
    · rename_i current hstatus
      have hretained := isLongestSuffix_retained r.maxSize r.maxEntries
        (r.others path ++ [⟨path, vars, current⟩])
      refine h.renew (l := ⟨path, vars, current⟩) hretained.suffix.sublist rfl ?_ ?_
      · intro other hother
        simp [storedAs?, hother.symm]
      · simp [storedAs?]
  | invalidate path => exact h.shrink List.filter_sublist rfl (fun _ => rfl) _
  | setDependencies path paths clock => exact h.shrink (List.Sublist.refl _) rfl (fun _ => rfl) _
  | clear => exact h.shrink (List.nil_sublist _) rfl (fun _ => rfl) _
  | dispose => exact h.shrink (List.nil_sublist _) rfl (fun _ => rfl) _

theorem lastStored?_of_hit {past : List (CacheEvent τ × RecencyAnswer)} {r : RecencyList τ}
    (h : Recorded past r) {path : String} {clock : Float} {vars : List Variable}
    (hhit : (r.step (.get path clock)).2 = .hit vars) : lastStored? past path = some vars := by
  simp only [step] at hhit
  split at hhit
  · rename_i line current hline hstatus
    split at hhit
    · simp only [RecencyAnswer.hit.injEq] at hhit
      rw [← hhit, ← path_of_line? hline]
      exact h.stored line (mem_of_line? hline)
    · cases hhit
  · cases hhit

theorem recorded (maxSize maxEntries : Nat) (status : String → Except FileError τ)
    (events : List (CacheEvent τ)) :
    let r := start maxSize maxEntries status
    Recorded (transcript step r events) (stateAfter step r events) := by
  refine transcript_induction step step_recorded ⟨?_, ?_⟩ events
  · simp [start]
  · simp [start]

end RecencyList
end DeclScan
