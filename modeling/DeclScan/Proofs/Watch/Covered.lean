import DeclScan.Proofs.Scan.Coverage
import DeclScan.Watcher

/-!
# DeclScan.Proofs.Watch.Covered

A watcher and a scan of the same root cover the same files. The scan goes down from the root and
does not enter directories that are skipped; the watcher gets a path and looks at the directories on
it from the root on. What is above the root matters to neither.

* `Watcher.directories_below`: what the watcher looks at.
* `Watcher.shouldProcess_iff_listed`: the two agree on every file below the root.
* `Vendored.listed_below`: a root whose path has a directory that is skipped.
-/

namespace DeclScan
namespace Watcher

/-- The directories on the way from the root are found again, whatever the root is called. -/
theorem directories_below (root : String) {directories : List String} {name : String}
    (h : ∀ n ∈ directories ++ [name], Path.IsName n) :
    Watcher.directories (some root) (Path.below root (directories ++ [name])) = directories := by
  simp only [Watcher.directories, Path.below?_resolve_below root h, List.dropLast_concat]

theorem name_below (root : String) {directories : List String} {name : String}
    (h : ∀ n ∈ directories ++ [name], Path.IsName n) :
    Path.name (Path.below root (directories ++ [name])) = name := by
  rw [Path.name, Path.names_below root h, ← List.append_assoc, List.getLast?_concat,
    Option.getD_some]

theorem shouldProcess_below {w : Watcher} {root : String} (hroot : w.root = some root)
    (r : ScanRules) {directories : List String} {name : String}
    (h : ∀ n ∈ directories ++ [name], Path.IsName n) :
    w.shouldProcess r (Path.below root (directories ++ [name])) = true ↔
      (∀ directory ∈ directories, r.skipDirectories.contains directory = false) ∧
        r.isSupported name = true := by
  simp only [shouldProcess, hroot, directories_below root h, name_below root h, Bool.and_eq_true,
    Bool.not_eq_true', List.any_eq_false, Bool.not_eq_true]

/-- A file below the root is processed if and only if a scan of the root lists it: in a walk that
starts at the place of the root, by whatever path that is known, and in particular in the walk along
the path itself. -/
theorem shouldProcess_iff_listed {τ : Type} {store : FileStore τ} (h : store.IsTree)
    {w : Watcher} {root : String} (hroot : w.root = some root) (r : ScanRules)
    {way directories : List String} {name : String} {f : StoredFile τ}
    (hf : store.entryAt? (way ++ directories ++ [name]) = some (.file f)) :
    (w.shouldProcess r (Path.below root (directories ++ [name])) = true ↔
      Path.below root (directories ++ [name]) ∈
        (store.walkFrom r.skipDirectories.contains (store.depth + 1) way root).flatMap r.listed) ∧
    (store.locate root = .ok (way, .directory) →
      (w.shouldProcess r (Path.below root (directories ++ [name])) = true ↔
        Path.below root (directories ++ [name]) ∈ (r.workspaceFiles store root).1)) := by
  have hwalk : w.shouldProcess r (Path.below root (directories ++ [name])) = true ↔
      Path.below root (directories ++ [name]) ∈
        (store.walkFrom r.skipDirectories.contains (store.depth + 1) way root).flatMap r.listed := by
    have hnames {directories : List String} {name : String} {f : StoredFile τ}
        (hf : store.entryAt? (way ++ directories ++ [name]) = some (.file f)) :
        ∀ n ∈ directories ++ [name], Path.IsName n := by
      rw [List.append_assoc] at hf
      exact fun n hn => h.isName hf n (List.mem_append_right way hn)
    have hway : store.entryAt? way = some .directory := by
      rw [List.append_assoc] at hf
      exact h.directory_of_append hf (by simp)
    rw [shouldProcess_below hroot r (hnames hf), ScanRules.mem_listed_walkFrom h hway]
    constructor
    · rintro ⟨hskip, hsupported⟩
      exact ⟨directories, name, f, hskip, hf, rfl, hsupported⟩
    · rintro ⟨directories', name', f', hskip, hf', heq, hsupported⟩
      have hways := Path.below_inj (hnames hf) (hnames hf') heq
      rw [List.append_singleton_inj] at hways
      obtain ⟨rfl, rfl⟩ := hways
      exact ⟨hskip, hsupported⟩
  exact ⟨hwalk, fun hlocate => by rw [hwalk, ScanRules.workspaceFiles_of_locate hlocate]⟩

end Watcher

/-! ## A root in a directory that is skipped -/

namespace Vendored

def file : StoreEntry Nat := .file ⟨[], 1⟩

/-- A package among those that a workspace depends on, with its sources and what was built. -/
def store : FileStore Nat :=
  ⟨[(["node_modules"], .directory), (["node_modules", "app"], .directory),
    (["node_modules", "app", "src"], .directory), (["node_modules", "app", "src", "a.js"], file),
    (["node_modules", "app", "dist"], .directory), (["node_modules", "app", "dist", "b.js"], file)]⟩

theorem isTree : store.IsTree where
  nodup := by decide
  ne_nil := by decide
  names := by decide
  parents := by
    simp only [store, List.forall_mem_cons]
    exact ⟨rfl, rfl, rfl, rfl, rfl, rfl, by simp⟩

def watcher : Watcher := .start (some "node_modules/app")

def rules : ScanRules where
  registry := .standard
  skipDirectories := ["node_modules", "dist"]
  extensions := none
  maxFileSize := none
  pool := .standard

/-- Of a watched package the sources are listed and what was built is not. -/
theorem listed_below :
    "node_modules/app/src/a.js" ∈ (rules.workspaceFiles store "node_modules/app").1 ∧
      "node_modules/app/dist/b.js" ∉ (rules.workspaceFiles store "node_modules/app").1 := by
  have hlocate : store.locate "node_modules/app" = .ok (["node_modules", "app"], .directory) := by
    rfl
  have hsource : store.entryAt? (["node_modules", "app"] ++ ["src"] ++ ["a.js"]) = some file :=
    rfl
  have hbuilt : store.entryAt? (["node_modules", "app"] ++ ["dist"] ++ ["b.js"]) = some file :=
    rfl
  have hsource := (Watcher.shouldProcess_iff_listed isTree (w := watcher) rfl rules hsource).2 hlocate
  have hbuilt := (Watcher.shouldProcess_iff_listed isTree (w := watcher) rfl rules hbuilt).2 hlocate
  have hpath : Path.below "node_modules/app" (["src"] ++ ["a.js"]) = "node_modules/app/src/a.js" := by
    decide +kernel
  have hpath' :
      Path.below "node_modules/app" (["dist"] ++ ["b.js"]) = "node_modules/app/dist/b.js" := by
    decide +kernel
  rw [hpath] at hsource
  rw [hpath'] at hbuilt
  exact ⟨hsource.1 (by decide +kernel), fun h => absurd (hbuilt.2 h) (by decide +kernel)⟩

end Vendored
end DeclScan
