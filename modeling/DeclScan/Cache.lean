import DeclScan.FileStore
import DeclScan.Log
import DeclScan.Number.Decimal
import DeclScan.Table
import DeclScan.Timers.Basic
import DeclScan.Variable

/-!
# DeclScan.Cache

Scan results by file path. A result is good as long as the file is not changed: the time of change
that was found when the result was put in is at least the present one. The results take up no more
than a budget of bytes, by estimate, and are no more than a number; the ones not used for the
longest time give way.

* `Cache.lookup`: asks for the result of a file; a bad one is dropped.
* `Cache.store`: puts a result in.
* `Cache.estimate`: the size of a result.

The size of all entries is kept up to date by every change instead of being computed anew.
-/

namespace DeclScan

/-- A result with the time of change of its file, the time of its last use, and its size. -/
structure CacheEntry (τ : Type) where
  path : String
  vars : List Variable
  modified : τ
  accessed : Float
  size : Nat

def CacheEntry.describe (e : CacheEntry Float) : Json :=
  .obj [("names", .arr (e.vars.map fun v => .str v.name)), ("last_modified", .float e.modified),
    ("last_accessed", .float e.accessed), ("size", .int e.size)]

/-- What a file depends on, and when this was last said. -/
structure Dependencies where
  paths : List String
  updated : Float

/-- A cache; the entry not used for the longest time comes first. -/
structure Cache (τ : Type) where
  maxSize : Int
  maxEntries : Int
  entries : List (CacheEntry τ)
  dependencies : Table Dependencies
  size : Int
  hits : Nat
  misses : Nat
  requests : Nat

namespace Cache

variable {τ : Type}

def defaultMaxSize : Int := 50 * 1024 * 1024

def defaultMaxEntries : Int := 1000

def empty (maxSize maxEntries : Int) : Cache τ := ⟨maxSize, maxEntries, [], [], 0, 0, 0, 0⟩

def variableOverhead : Nat := 32

/-- The size of a variable: two bytes for each character of its name and labels, and an
overhead. -/
def variableSize (v : Variable) : Nat :=
  2 * v.name.length + 2 * v.type.length + 2 * v.declaredAs.length + variableOverhead

def estimate : List Variable → Nat
  | [] => 0
  | v :: vars => variableSize v + estimate vars

@[simp] theorem estimate_append (vars more : List Variable) :
    estimate (vars ++ more) = estimate vars + estimate more := by
  induction vars with
  | nil => simp [estimate]
  | cons v vars ih => simp [estimate, ih, Nat.add_assoc]

def find? (c : Cache τ) (path : String) : Option (CacheEntry τ) :=
  c.entries.find? fun e => e.path = path

def contains (c : Cache τ) (path : String) : Bool := (c.find? path).isSome

def remove (c : Cache τ) (path : String) : Cache τ :=
  match c.find? path with
  | none => c
  | some e =>
    { c with entries := c.entries.filter (fun e => e.path ≠ path), size := c.size - e.size }

/-- Drops the entry of a path; the answer tells whether there was one. -/
def invalidate (c : Cache τ) (path : String) : Cache τ × Bool := (c.remove path, c.contains path)

/-! ## Asking -/

/-- What a request finds. -/
inductive Lookup (τ : Type) where
  | hit (e : CacheEntry τ)
  | absent
  | stale
  | unreadable

def Lookup.found? : Lookup τ → Option (CacheEntry τ)
  | .hit e => some e
  | _ => none

def Lookup.log (path : String) : Lookup τ → List LogRecord
  | .hit _ | .absent => []
  | .stale => [.debug .cache s!"Cache entry for {path} is stale"]
  | .unreadable => [.debug .cache s!"Dropping cache entry for unreadable {path}"]

def touch (c : Cache τ) (e : CacheEntry τ) : Cache τ :=
  { c with entries := c.entries.filter (fun other => other.path ≠ e.path) ++ [e] }

/-- Asks for the result of a file with a time of change. -/
def lookup [LE τ] [DecidableLE τ] (c : Cache τ) (modified : Except FileError τ) (clock : Float)
    (path : String) : Cache τ × Lookup τ :=
  let c := { c with requests := c.requests + 1 }
  let miss (c : Cache τ) : Cache τ := { c with misses := c.misses + 1 }
  match c.find? path with
  | none => (miss c, .absent)
  | some e =>
    match modified with
    | .error _ => (miss (c.remove path), .unreadable)
    | .ok current =>
      if current ≤ e.modified then
        let e := { e with accessed := clock }
        ({ c.touch e with hits := c.hits + 1 }, .hit e)
      else (miss (c.remove path), .stale)

/-! ## Putting in -/

/-- Why an entry gave way. -/
inductive EvictionCause where
  | overBudget
  | tooMany
  deriving Repr, DecidableEq

/-- An entry that gave way. -/
structure Evicted where
  path : String
  cause : EvictionCause
  deriving Repr, DecidableEq

def Evicted.record (e : Evicted) : LogRecord :=
  match e.cause with
  | .overBudget => .debug .cache s!"Evicting {e.path} (cache size over budget)"
  | .tooMany => .debug .cache s!"Evicting {e.path} (entry limit reached)"

/-- Entries left after some gave way, and their size. -/
structure Kept (τ : Type) where
  entries : List (CacheEntry τ)
  size : Int
  evicted : List Evicted

/-- Drops the first entries while the size is over the budget. -/
def keepWithinSize (maxSize : Int) : Int → List (CacheEntry τ) → Kept τ
  | size, [] => ⟨[], size, []⟩
  | size, e :: rest =>
    if maxSize < size then
      let kept := keepWithinSize maxSize (size - e.size) rest
      { kept with evicted := ⟨e.path, .overBudget⟩ :: kept.evicted }
    else ⟨e :: rest, size, []⟩

/-- Drops the first entries while there are too many. A limit below zero asks for more entries than
there are, and has no answer. -/
def keepWithinCount (maxEntries : Int) : Int → List (CacheEntry τ) → Kept τ × Bool
  | size, [] => (⟨[], size, []⟩, decide (0 ≤ maxEntries))
  | size, e :: rest =>
    if maxEntries < (e :: rest).length then
      let (kept, met) := keepWithinCount maxEntries (size - e.size) rest
      ({ kept with evicted := ⟨e.path, .tooMany⟩ :: kept.evicted }, met)
    else (⟨e :: rest, size, []⟩, true)

/-- What became of a result that was put in. -/
inductive Stored where
  | stored (evicted : List Evicted)
  | unreadable (e : FileError)
  /-- The limits cannot be met. -/
  | limitBelowZero (evicted : List Evicted)

def Stored.log (path : String) : Stored → List LogRecord
  | .stored evicted | .limitBelowZero evicted => evicted.map Evicted.record
  | .unreadable e => [.error .cache s!"Error caching result for {path}: {e.message}"]

/-- Lets entries give way until budget and number are kept. -/
def evict (c : Cache τ) : Cache τ × Stored :=
  let bySize := keepWithinSize c.maxSize c.size c.entries
  let (byCount, met) := keepWithinCount c.maxEntries bySize.size bySize.entries
  let evicted := bySize.evicted ++ byCount.evicted
  ({ c with entries := byCount.entries, size := byCount.size },
    if met then .stored evicted else .limitBelowZero evicted)

/-- Puts in the result of a file with a time of change. Without that time nothing changes. -/
def store (c : Cache τ) (modified : Except FileError τ) (clock : Float) (path : String)
    (vars : List Variable) : Cache τ × Stored :=
  match modified with
  | .error e => (c, .unreadable e)
  | .ok current =>
    let c := c.remove path
    let size := estimate vars
    evict { c with
      entries := c.entries ++ [⟨path, vars, current, clock, size⟩]
      size := c.size + size }

/-! ## Dependencies and statistics -/

def setDependencies (c : Cache τ) (clock : Float) (path : String) (paths : List String) :
    Cache τ :=
  { c with dependencies := c.dependencies.put path ⟨paths, clock⟩ }

def dependencies? (c : Cache τ) (path : String) : Option Dependencies :=
  c.dependencies.get? path

def clear (c : Cache τ) : Cache τ := empty c.maxSize c.maxEntries

def dispose (c : Cache τ) : Cache τ := c.clear

def clearedRecord : LogRecord := .debug .cache "Cache cleared"

def count (c : Cache τ) : Nat := c.entries.length

/-- The paths of the entries, the one not used for the longest time first. -/
def paths (c : Cache τ) : List String := c.entries.map CacheEntry.path

def hitRate (c : Cache τ) : Float :=
  if c.requests = 0 then 0 else Binary64.ofRatio false c.hits c.requests

end Cache
end DeclScan
