import DeclScan.Proofs.Files.Tree
import DeclScan.Proofs.Record
import DeclScan.Proofs.Scan.Outcomes
import DeclScan.Proofs.Text.Lower

/-!
# DeclScan.Proofs.Scan.Coverage

Which files a scan of a workspace covers, and what it says about each.

* `ScanRules.mem_workspaceFiles`: the files that are read.
* `ScanRules.Covers`: what the results are to be, said of the tree of files alone.
* `Scanner.scanWorkspace_covers`: so they are, in whatever order the reports of the workers come in.
-/

namespace DeclScan

variable {τ : Type}

namespace ScanRules

variable {r : ScanRules} {store : FileStore τ} {root : String}

/-! ## The files that are read -/

theorem isSupported_iff {path : String} :
    r.isSupported path = true ↔
      r.isWanted (Path.lower (Path.suffix path)) = true ∧
        ∃ e, r.registry.forFile? path = some e := by
  simp [isSupported, Registry.forFile?, Registry.get?, Option.isSome_iff_exists]

theorem isSupported_join (directory : String) {name : String} (h : Path.IsName name) :
    r.isSupported (Path.join directory name) = r.isSupported name := by
  simp only [isSupported, Path.suffix_join directory h]

theorem workspaceFiles_of_locate {way : List String}
    (hroot : store.locate root = .ok (way, .directory)) :
    (r.workspaceFiles store root).1 =
      (store.walkFrom r.skipDirectories.contains (store.depth + 1) way root).flatMap r.listed := by
  simp only [workspaceFiles, FileStore.walk, hroot]

theorem workspaceFiles_of_not_directory
    (h : ∀ way, store.locate root ≠ .ok (way, .directory)) :
    (r.workspaceFiles store root).1 = [] := by
  simp only [workspaceFiles, FileStore.walk]
  cases hroot : store.locate root with
  | error e => rfl
  | ok found =>
    obtain ⟨way, entry⟩ := found
    cases entry with
    | file f => rfl
    | directory => exact absurd hroot (h way)

theorem mem_listed_walkFrom (h : store.IsTree) {way : List String}
    (hway : store.entryAt? way = some .directory) {path : String} :
    path ∈ (store.walkFrom r.skipDirectories.contains (store.depth + 1) way root).flatMap r.listed ↔
      ∃ directories name f,
        (∀ directory ∈ directories, r.skipDirectories.contains directory = false) ∧
        store.entryAt? (way ++ directories ++ [name]) = some (.file f) ∧
        path = Path.below root (directories ++ [name]) ∧ r.isSupported name = true := by
  simp only [FileStore.walkFrom_eq, List.flatMap_map, listed, List.mem_flatMap,
    h.mem_waysBelow hway, List.mem_map, List.mem_filter, FileStore.mem_sortNames, h.mem_fileNames,
    Path.below_append]
  constructor
  · rintro ⟨directories, ⟨-, hskip, -⟩, name, ⟨⟨f, hf⟩, hsupported⟩, rfl⟩
    exact ⟨directories, name, f, hskip, hf, rfl, hsupported⟩
  · rintro ⟨directories, name, f, hskip, hf, rfl, hsupported⟩
    have hdirectory := h.directory_of_append hf (List.cons_ne_nil name [])
    exact ⟨directories, ⟨FileStore.length_lt_of_entryAt? hdirectory, hskip, hdirectory⟩, name,
      ⟨⟨f, hf⟩, hsupported⟩, rfl⟩

theorem mem_workspaceFiles (h : store.IsTree) {path : String} :
    path ∈ (r.workspaceFiles store root).1 ↔
      (∃ f, store.IsBelow r.skipDirectories.contains root path f) ∧ r.isSupported path = true := by
  by_cases hroot : ∃ way, store.locate root = .ok (way, .directory)
  · obtain ⟨way, hway⟩ := hroot
    have hentry := FileStore.entryAt?_of_follow (FileStore.follow_of_locate hway)
    have hsupports {directories : List String} {name : String} {f : StoredFile τ}
        (hf : store.entryAt? (way ++ directories ++ [name]) = some (.file f)) :
        r.isSupported (Path.below root (directories ++ [name])) = r.isSupported name := by
      rw [Path.below_append, isSupported_join _ (h.isName hf name (by simp))]
    rw [workspaceFiles_of_locate hway, mem_listed_walkFrom h hentry]
    constructor
    · rintro ⟨directories, name, f, hskip, hf, rfl, hsupported⟩
      exact ⟨⟨f, way, directories, name, hway, hskip, hf, rfl⟩, by rw [hsupports hf, hsupported]⟩
    · rintro ⟨⟨f, way', directories, name, hway', hskip, hf, rfl⟩, hsupported⟩
      obtain rfl : way = way' := by
        rw [hway] at hway'
        simpa using hway'
      exact ⟨directories, name, f, hskip, hf, rfl, by rw [← hsupports hf, hsupported]⟩
  · rw [not_exists] at hroot
    rw [workspaceFiles_of_not_directory hroot]
    simp only [List.not_mem_nil, false_iff, not_and]
    rintro ⟨f, way, -, -, hway, -⟩
    exact absurd hway (hroot way)

theorem nodup_workspaceFiles (h : store.IsTree) : (r.workspaceFiles store root).1.Nodup := by
  by_cases hroot : ∃ way, store.locate root = .ok (way, .directory)
  · obtain ⟨way, hway⟩ := hroot
    have hnames : ∀ directories, ∀ name ∈ store.fileNames (way ++ directories),
        ∀ n ∈ directories ++ [name], Path.IsName n := by
      intro directories name hname n hn
      obtain ⟨f, hf⟩ := h.mem_fileNames.1 hname
      rw [List.append_assoc] at hf
      exact h.isName hf n (List.mem_append_right way hn)
    have hinj : ∀ directories, ∀ name ∈ store.fileNames (way ++ directories),
        ∀ directories', ∀ name' ∈ store.fileNames (way ++ directories'),
          Path.join (Path.below root directories) name =
            Path.join (Path.below root directories') name' →
          directories = directories' ∧ name = name' := by
      intro directories name hname directories' name' hname' heq
      rw [← Path.below_append, ← Path.below_append] at heq
      have hways := Path.below_inj (hnames _ _ hname) (hnames _ _ hname') heq
      exact ⟨List.append_inj_left' hways rfl, List.singleton_inj.1 (List.append_inj_right' hways rfl)⟩
    simp only [workspaceFiles_of_locate hway, FileStore.walkFrom_eq, List.flatMap_map, listed]
    rw [List.nodup_flatMap]
    constructor
    · intro directories _
      refine List.Nodup.map_on ?_
        ((FileStore.nodup_sortNames (h.nodup_fileNames _)).sublist List.filter_sublist)
      intro name hname other hother heq
      simp only [List.mem_filter, FileStore.mem_sortNames] at hname hother
      exact (hinj _ _ hname.1 _ _ hother.1 heq).2
    · refine (h.nodup_waysBelow _ _ _).pairwise_of_forall_ne ?_
      intro directories _ directories' _ hne path hpath hpath'
      simp only [List.mem_map, List.mem_filter, FileStore.mem_sortNames] at hpath hpath'
      obtain ⟨name, hname, rfl⟩ := hpath
      obtain ⟨name', hname', heq⟩ := hpath'
      exact hne (hinj _ _ hname.1 _ _ hname'.1 heq.symm).1
  · rw [not_exists] at hroot
    rw [workspaceFiles_of_not_directory hroot]
    exact List.nodup_nil

/-! ## What the results are to be -/

/-- The variables of a file that a scan covers: it is below the root, in no directory that is
skipped, its extension is wanted and has an extractor, it is not too large, and the extractor finds
these variables in its text. -/
def Covers (r : ScanRules) (store : FileStore τ) (root path : String) (vars : List Variable) :
    Prop :=
  ∃ f e found, store.IsBelow r.skipDirectories.contains root path f ∧
    r.isWanted (Path.lower (Path.suffix path)) = true ∧ r.registry.forFile? path = some e ∧
    (∀ limit, r.maxFileSize = some limit → (f.bytes.length : Int) ≤ limit) ∧
    e.extract f.text path = .ok found ∧ found.vars = vars

theorem isTooLarge_eq_false_iff {limit : Option Int} {size : Nat} :
    Worker.isTooLarge limit size = false ↔ ∀ n, limit = some n → (size : Int) ≤ n := by
  cases limit with
  | none => simp [Worker.isTooLarge]
  | some n => simp [Worker.isTooLarge]

theorem covers_iff (h : store.IsTree) {path : String} {vars : List Variable} :
    r.Covers store root path vars ↔
      path ∈ (r.workspaceFiles store root).1 ∧ r.reading? store path = some vars := by
  rw [mem_workspaceFiles h, reading?_eq_some_iff, isSupported_iff]
  simp only [isTooLarge_eq_false_iff]
  constructor
  · rintro ⟨f, e, found, hbelow, hwanted, he, hsize, hfound, hvars⟩
    exact ⟨⟨⟨f, hbelow⟩, hwanted, e, he⟩, e, f, found, he, hbelow.file?_eq h, hsize, hfound, hvars⟩
  · rintro ⟨⟨⟨f, hbelow⟩, hwanted, -⟩, e, f', found, he, hf, hsize, hfound, hvars⟩
    obtain rfl : f = f' := Option.some.inj ((hbelow.file?_eq h).symm.trans hf)
    exact ⟨f, e, found, hbelow, hwanted, he, hsize, hfound, hvars⟩

theorem Covers.congr {r : ScanRules} {store other : FileStore τ} {root path : String}
    {vars : List Variable}
    (h : ∀ f, store.IsBelow r.skipDirectories.contains root path f ↔
      other.IsBelow r.skipDirectories.contains root path f) :
    r.Covers store root path vars ↔ r.Covers other root path vars := by
  simp only [Covers, h]

end ScanRules

/-! ## Scanning -/

namespace Scanner

variable [LE τ] [DecidableLE τ] {s : Scanner τ} {w : World τ} {arrival : Arrival}

theorem scanWorkspace_results (hfaithful : s.Faithful w.files) (htree : w.files.IsTree)
    (harrival : arrival.IsFair) (hdelivers : s.rules.pool.Delivers arrival) (root : String) :
    ∃ results : ScanResults, (s.scanWorkspace w arrival root).2 = s.verdict (.ok results) ∧
      results.keys.Nodup ∧
      ∀ path vars, results.get? path = some vars ↔ s.rules.Covers w.files root path vars := by
  have hnodup : (s.rules.workspaceFiles w.files root).1.Nodup :=
    ScanRules.nodup_workspaceFiles htree
  obtain ⟨order, horder, houtcome⟩ := hfaithful.snd_scanWorkspace harrival hdelivers hnodup
  refine ⟨_, houtcome, ?_, ?_⟩
  · exact (horder.nodup_iff.2 hnodup).sublist (s.rules.keys_entries_sublist w.files order)
  · intro path vars
    rw [ScanRules.covers_iff htree, ← horder.mem_iff]
    exact ScanRules.get?_entries_eq_some_iff

theorem IsBlank.scanWorkspace_results (h : s.IsBlank) (htree : w.files.IsTree)
    (harrival : arrival.IsFair) (root : String) :
    ∃ results : ScanResults, (s.scanWorkspace w arrival root).2 = s.verdict (.ok results) ∧
      results.keys.Nodup ∧
      ∀ path vars, results.get? path = some vars ↔
        s.rules.Covers w.files root path vars ∧ s.rules.pool.failure? arrival path = none := by
  obtain ⟨order, horder, harrived⟩ := exists_order harrival s.rules w.files s.rules.pool
    (s.rules.workspaceFiles w.files root).1
  have hnodup : order.Nodup := horder.nodup_iff.2 (ScanRules.nodup_workspaceFiles htree)
  refine ⟨_, h.snd_scanWorkspace harrived hnodup, ?_, fun path vars => ?_⟩
  · exact (hnodup.sublist List.filter_sublist).sublist (s.rules.keys_entries_sublist w.files _)
  · rw [ScanRules.covers_iff htree, ← horder.mem_iff, ScanRules.get?_entries_eq_some_iff,
      WorkerPool.mem_delivered]
    exact and_right_comm

/-- In whatever order the tasks are done, a scan without a cache has just the files that it covers and
whose workers report, each once and with its variables; these are what comes out of the records of the
workers. The errors that are counted are those that workers report, and the tasks that end outside
of their workers. What is said of a file depends on that file alone, and on its own task. So where
all workers report, as they do inline, the results are the files that are covered, and the errors
those of the workers. -/
theorem scanWorkspace_covers (hcache : s.cache = none) (htree : w.files.IsTree)
    (harrival : arrival.IsFair) (root : String) :
    ∃ results : ScanResults, (s.scanWorkspace w arrival root).2 = s.verdict (.ok results) ∧
      results.keys.Nodup ∧ (s.rules.workspaceFiles w.files root).1.Nodup ∧
      (∀ path vars, results.get? path = some vars ↔
        s.rules.Covers w.files root path vars ∧ s.rules.pool.failure? arrival path = none) ∧
      (∀ path vars, results.get? path = some vars →
        (vars.map Variable.toJson).mapM Variable.ofJson = .ok vars) ∧
      (s.scanWorkspace w arrival root).1.errors =
        s.errors.map (· + (s.rules.workspaceFiles w.files root).1.countP fun path =>
          (s.rules.pool.failure? arrival path).isSome || (s.work w path).isFailed) ∧
      (∀ (w' : World τ) (arrival' : Arrival), w'.files.IsTree → arrival'.IsFair →
        ∃ results' : ScanResults, (s.scanWorkspace w' arrival' root).2 = s.verdict (.ok results') ∧
          ∀ path, (∀ f, w.files.IsBelow s.rules.skipDirectories.contains root path f ↔
              w'.files.IsBelow s.rules.skipDirectories.contains root path f) →
            (s.rules.pool.failure? arrival path = none ↔
              s.rules.pool.failure? arrival' path = none) →
            results'.get? path = results.get? path) ∧
      (s.rules.pool.Delivers arrival →
        (∀ path vars, results.get? path = some vars ↔ s.rules.Covers w.files root path vars) ∧
          (s.scanWorkspace w arrival root).1.errors =
            s.errors.map (· + (s.rules.workspaceFiles w.files root).1.countP fun path =>
              (s.work w path).isFailed)) ∧
      (s.rules.pool.executor = .inline → s.rules.pool.Delivers arrival) := by
  have hblank : s.IsBlank := holds_of_cache_eq_none hcache
  obtain ⟨results, houtcome, hkeys, hget⟩ := hblank.scanWorkspace_results htree harrival root
  have herrors : (s.scanWorkspace w arrival root).1.errors =
      s.errors.map (· + (s.rules.workspaceFiles w.files root).1.countP fun path =>
        (s.rules.pool.failure? arrival path).isSome || (s.work w path).isFailed) := by
    obtain ⟨hcache', hrules⟩ := s.cache_startTimer w.clock "scan_workspace"
    refine errors_timed s w.clock "scan_workspace" _ ?_
    rw [errors_scanFilesBelow harrival (hcache'.trans hcache), hrules]
    simp only [ScanRules.isFailed_task]
    rfl
  refine ⟨results, houtcome, hkeys, ScanRules.nodup_workspaceFiles htree, hget,
    fun _ vars _ => Variable.mapM_ofJson vars, herrors, ?_, fun hdelivers => ⟨?_, ?_⟩,
    fun hinline => WorkerPool.delivers_inline hinline arrival⟩
  · intro w' arrival' htree' harrival'
    obtain ⟨results', houtcome', -, hget'⟩ := hblank.scanWorkspace_results htree' harrival' root
    refine ⟨results', houtcome', fun path hsame htask => Option.ext fun vars => ?_⟩
    rw [hget', hget, ScanRules.Covers.congr hsame, htask]
  · intro path vars
    rw [hget, and_iff_left (hdelivers path)]
  · rw [herrors]
    simp only [hdelivers _, Option.isSome_none, Bool.false_or]

end Scanner

/-! ## A tree with a bit of everything -/

namespace Assorted

def scanner : Scanner Nat where
  rules :=
    { registry := Registry.standard.register (.ofLines "boom" [".boom"])
      skipDirectories := ["node_modules"]
      extensions := none
      maxFileSize := some 16
      pool := ⟨4, .process⟩ }
  cache := none
  meter := some ⟨Monitor.start 10, Sampler.constant 0⟩
  log := []

def file (text : String) : StoreEntry Nat := .file ⟨text.toUTF8.toList, 1⟩

/-- Two files that are read, one that is too large, one that is no source, one whose extractor fails,
and one in a directory that is skipped. -/
def world : World Nat where
  files := ⟨[(["w"], .directory), (["w", "a.js"], file "let a = 1"),
    (["w", "b.js"], file "let b = 'too long'"), (["w", "c.js"], file "let c = 1"),
    (["w", "d.boom"], file "!raise d"), (["w", "notes"], file "let n = 1"),
    (["w", "node_modules"], .directory), (["w", "node_modules", "e.js"], file "let e = 1")]⟩
  clock := 0

theorem isTree : world.files.IsTree where
  nodup := by decide
  ne_nil := by decide
  names := by decide
  parents := by
    simp only [world, List.forall_mem_cons]
    exact ⟨rfl, rfl, rfl, rfl, rfl, rfl, rfl, rfl, by simp⟩

/-- The last task is done first, and one ends outside of its worker. -/
def arrival : Arrival where
  failure? path := if path = "w/c.js" then some "cannot pickle" else none
  order := List.reverse

theorem isFair : arrival.IsFair := List.reverse_perm

theorem workspaceFiles_eq : (scanner.rules.workspaceFiles world.files "w").1 =
    ["w/a.js", "w/b.js", "w/c.js", "w/d.boom"] := by
  have hlocate : world.files.locate "w" = .ok (["w"], .directory) := by
    have hanchor : Path.anchor "w" = [] := by decide +kernel
    have hnames : Path.names "w" = ["w"] := by decide +kernel
    simp only [FileStore.locate, hanchor, hnames]
    rfl
  have hfiles : world.files.fileNames ["w"] = ["a.js", "b.js", "c.js", "d.boom", "notes"] := rfl
  have hdirectories :
      world.files.directoryNames scanner.rules.skipDirectories.contains ["w"] = [] := rfl
  have hsorted : FileStore.sortNames ["a.js", "b.js", "c.js", "d.boom", "notes"] =
      ["a.js", "b.js", "c.js", "d.boom", "notes"] := List.mergeSort_of_pairwise (by decide)
  rw [ScanRules.workspaceFiles_of_locate hlocate, FileStore.walkFrom_eq, FileStore.waysBelow,
    hdirectories, FileStore.sortNames, List.mergeSort_nil]
  simp only [List.flatMap_nil, List.map_cons, List.map_nil, List.append_nil, hfiles, hsorted,
    List.flatMap_cons]
  decide +kernel

end Assorted

/-- Of the files that a scan covers, the one whose worker does not report is left out; it is counted
as an error beside the one whose extractor fails. -/
theorem Assorted.scanWorkspace_reversed :
    scanner.cache = none ∧ world.files.IsTree ∧ arrival.IsFair ∧
      ∃ results : ScanResults,
        (scanner.scanWorkspace world arrival "w").2 = scanner.verdict (.ok results) ∧
        (∀ path vars, results.get? path = some vars ↔
          scanner.rules.Covers world.files "w" path vars ∧ path ≠ "w/c.js") ∧
        (scanner.scanWorkspace world arrival "w").1.errors = some 2 ∧
        ∃ delivered : ScanResults,
          (scanner.scanWorkspace world .inOrder "w").2 = scanner.verdict (.ok delivered) ∧
          (∀ path vars, delivered.get? path = some vars ↔
            scanner.rules.Covers world.files "w" path vars) ∧
          (scanner.scanWorkspace world .inOrder "w").1.errors = some 1 := by
  obtain ⟨results, houtcome, -, -, hget, -, herrors, -⟩ :=
    Scanner.scanWorkspace_covers (s := scanner) rfl isTree isFair "w"
  obtain ⟨delivered, hdelivered, -, -, -, -, -, -, hall, -⟩ :=
    Scanner.scanWorkspace_covers (s := scanner) rfl isTree Arrival.isFair_inOrder "w"
  obtain ⟨hget', herrors'⟩ := hall (WorkerPool.delivers_ofOrder _ id)
  have hlost : ∀ path, scanner.rules.pool.failure? arrival path = none ↔ path ≠ "w/c.js" := by
    simp [WorkerPool.failure?, scanner, arrival]
  refine ⟨rfl, isTree, isFair, results, houtcome, fun path vars => ?_, ?_, delivered, hdelivered,
    hget', ?_⟩
  · rw [hget, hlost]
  · rw [herrors, workspaceFiles_eq]
    decide +kernel
  · rw [herrors', workspaceFiles_eq]
    decide +kernel

end DeclScan
