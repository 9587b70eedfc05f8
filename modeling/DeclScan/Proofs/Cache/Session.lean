import DeclScan.Cache
import Mathlib.Logic.Function.Basic

/-!
# DeclScan.Proofs.Cache.Session

Runs of a cache in a world that does not stand still: between any two requests a file can get
another time of change or become unreadable.

* `CacheEvent`: a request, or a change of the world.
* `CacheSession.step`: an event and its answer.
-/

namespace DeclScan

inductive CacheEvent (τ : Type) where
  | touch (path : String) (modified : τ)
  | unlink (path : String) (fault : FileFault)
  | get (path : String) (clock : Float)
  | set (path : String) (vars : List Variable) (clock : Float)
  | invalidate (path : String)
  | setDependencies (path : String) (paths : List String) (clock : Float)
  | clear
  | dispose

inductive CacheAnswer (τ : Type) where
  | silent
  | found (found : Cache.Lookup τ)
  | stored (stored : Cache.Stored)
  | dropped (was : Bool)

/-- A cache, and what asking for the time of change of each path leads to. -/
structure CacheSession (τ : Type) where
  cache : Cache τ
  status : String → Except FileError τ

namespace CacheSession

variable {τ : Type}

def start (maxSize maxEntries : Nat) (status : String → Except FileError τ) : CacheSession τ :=
  ⟨Cache.empty maxSize maxEntries, status⟩

variable [LE τ] [DecidableLE τ]

def step (s : CacheSession τ) : CacheEvent τ → CacheSession τ × CacheAnswer τ
  | .touch path modified =>
    ({ s with status := Function.update s.status path (.ok modified) }, .silent)
  | .unlink path fault =>
    ({ s with status := Function.update s.status path (.error ⟨fault, path⟩) }, .silent)
  | .get path clock =>
    let (cache, found) := s.cache.lookup (s.status path) clock path
    ({ s with cache := cache }, .found found)
  | .set path vars clock =>
    let (cache, stored) := s.cache.store (s.status path) clock path vars
    ({ s with cache := cache }, .stored stored)
  | .invalidate path =>
    let (cache, was) := s.cache.invalidate path
    ({ s with cache := cache }, .dropped was)
  | .setDependencies path paths clock =>
    ({ s with cache := s.cache.setDependencies clock path paths }, .silent)
  | .clear => ({ s with cache := s.cache.clear }, .silent)
  | .dispose => ({ s with cache := s.cache.dispose }, .silent)

end CacheSession
end DeclScan
