import DeclScan.Proofs.Language.Origins
import DeclScan.Proofs.Scan.Coverage
import DeclScan.Proofs.Usage
import DeclScan.Timers.Exact
import DeclScan.Workspace

/-!
# DeclScan.Proofs.Scan.Hotspots

Which variables of a workspace are much used. Results of files come in an order that nobody fixes:
those from the cache first, then those of the workers as they come. The names that are much used do
not depend on it, but of all declarations of a name the first is the one that is told.

* `Workspace.MayAnswer`: the answers that there can be, with any faithful cache and any order of the
  reports.
* `Workspace.mayAnswer_iff`: each order of the files gives one of them, and there are no others.
* `Workspace.hotspots_scheduling`: when there is only one.
-/

namespace DeclScan

variable {τ : Type}

namespace Scanner

/-- How much the cache may have, if there is one. -/
def limits (s : Scanner τ) : Option (Int × Int) :=
  s.cache.map fun c => (c.maxSize, c.maxEntries)

/-! ## Two measurements -/

/-- The scanner when its next measurement has been taken. -/
def sampled (s : Scanner τ) : Scanner τ :=
  { s with meter := s.meter.map fun m => { m with sampler := m.sampler.take.2 } }

theorem sampler?_sampled (s : Scanner τ) :
    s.sampled.sampler? = s.sampler?.map fun sampler => sampler.take.2 := by
  simp only [sampler?, sampled, Option.map_map]
  rfl

theorem Measures.keeps_sampled {s s' : Scanner τ} (h : s.Measures s') : s.sampled.Keeps s' :=
  ⟨h.rules, by rw [sampler?_sampled, h.sampler]⟩

theorem Keeps.sampled {s s' : Scanner τ} (h : s.Keeps s') : s.sampled.Keeps s'.sampled :=
  ⟨h.rules, by rw [sampler?_sampled, sampler?_sampled, h.sampler]⟩

theorem verdict_eq_error {α : Type} {s s' : Scanner τ} {a b : α} {failure : ScanFailure}
    (h : s.verdict (s'.verdict (.ok a)) = .error failure) :
    s.verdict (s'.verdict (.ok b)) = .error failure := by
  simp only [verdict] at h ⊢
  generalize s.breakdown? = first at h ⊢
  generalize s'.breakdown? = second at h ⊢
  cases first with
  | some text => exact h
  | none =>
    cases second with
    | some text => exact h
    | none => cases h

end Scanner

namespace Workspace

/-! ## What is told of an order of the files -/

/-- The paths of the files that are read. -/
def paths (s : Workspace τ) (w : World τ) (root : String) : List String :=
  (s.scanner.rules.workspaceFiles w.files root).1

/-- The results that are shown if the files are read in some order. -/
def resultsIn (s : Workspace τ) (w : World τ) (order : List String) : ScanResults :=
  s.visibleResults (order.filterMap (s.scanner.rules.entryOf? w.files))

/-- The name occurs often enough in the files of a workspace. -/
def isMuchUsed (s : Workspace τ) (w : World τ) (root name : String) : Bool :=
  s.analysis.hotspotThreshold ≤
    ((documents w (s.resultsIn w (s.paths w root))).1.flatMap
      (Usage.occurrencesIn .dollar name)).length

/-- The variables of a file that are shown and much used. -/
def muchUsed (s : Workspace τ) (w : World τ) (root path : String) : List Variable :=
  (s.visible ((s.scanner.rules.reading? w.files path).getD [])).filter fun v =>
    s.isMuchUsed w root v.name

theorem filePath_of_mem_muchUsed {s : Workspace τ} (hsigns : s.scanner.rules.registry.Signs)
    {w : World τ} {root path : String} {v : Variable} (h : v ∈ s.muchUsed w root path) :
    v.filePath = path := by
  have hvisible : ∀ vars, v ∈ s.visible vars → v ∈ vars := by
    intro vars hv
    simp only [visible] at hv
    split at hv
    · exact hv
    · exact List.mem_of_mem_filter hv
  have hv := hvisible _ (List.mem_of_mem_filter h)
  cases hread : s.scanner.rules.reading? w.files path with
  | none => simp [hread] at hv
  | some vars =>
    obtain ⟨e, f, found, he, -, -, hfound, rfl⟩ := ScanRules.reading?_eq_some_iff.1 hread
    exact hsigns.of_forFile? he _ _ _ hfound v (by simpa [hread] using hv)

theorem flatMap_resultsIn (s : Workspace τ) (w : World τ) (order : List String) :
    (s.resultsIn w order).flatMap Prod.snd =
      order.flatMap fun path => s.visible ((s.scanner.rules.reading? w.files path).getD []) := by
  have hnil : s.visible [] = [] := by simp [visible]
  induction order with
  | nil => rfl
  | cons path order ih =>
    rw [List.flatMap_cons, ← ih]
    cases hread : s.scanner.rules.reading? w.files path with
    | none => simp [resultsIn, visibleResults, ScanRules.entryOf?, hread, hnil]
    | some vars => simp [resultsIn, visibleResults, ScanRules.entryOf?, hread]

theorem documents_perm (w : World τ) {results results' : ScanResults}
    (h : results.Perm results') : (documents w results).1.Perm (documents w results').1 :=
  (h.map _).filterMap _

theorem hotspots_resultsIn {s : Workspace τ} {w : World τ} {root : String} {order : List String}
    (horder : order.Perm (s.paths w root)) :
    Usage.hotspots (Usage.crossReference (documents w (s.resultsIn w order)).1
        (s.resultsIn w order) .dollar) s.analysis.hotspotThreshold =
      Usage.firsts (order.flatMap (s.muchUsed w root)) := by
  have hresults : (s.resultsIn w order).Perm (s.resultsIn w (s.paths w root)) :=
    (horder.filterMap _).map _
  have hcount : ∀ name, ((documents w (s.resultsIn w order)).1.flatMap
        (Usage.occurrencesIn .dollar name)).length =
      ((documents w (s.resultsIn w (s.paths w root))).1.flatMap
        (Usage.occurrencesIn .dollar name)).length :=
    fun name => ((documents_perm w hresults).flatMap_right _).length_eq
  rw [Usage.hotspots_crossReference, flatMap_resultsIn, List.filter_flatMap]
  simp only [hcount]
  rfl

theorem snd_crossReference (s : Workspace τ) (w : World τ) (results : ScanResults) :
    (s.crossReference w results).2 =
      s.scanner.verdict (.ok (Usage.crossReference (documents w results).1 results .dollar)) := by
  simp only [crossReference, onScanner]
  rw [Scanner.guarded_eq _ _ _ _ (.refl _)]
  exact (Scanner.keeps_write s.scanner _).verdict_eq _

theorem isBlank_clearCache (s : Workspace τ) : s.clearCache.scanner.IsBlank := by
  intro c hc e he
  obtain ⟨old, -, rfl⟩ := Option.map_eq_some_iff.1 hc
  cases he

theorem limits_clearCache (s : Workspace τ) : s.clearCache.scanner.limits = s.scanner.limits := by
  simp only [clearCache, write, Scanner.write, Scanner.limits, Option.map_map]
  rfl

variable [Time τ]

/-- What is answered when a workspace has been scanned: both the scan and the analysis end with a
measurement. -/
theorem snd_hotspots {s : Workspace τ} {w : World τ} {arrival : Arrival} {root : String}
    {order : List String} (horder : order.Perm (s.paths w root))
    (hscan : (s.scanner.scanWorkspace w arrival root).2 =
      s.scanner.verdict (.ok (order.filterMap (s.scanner.rules.entryOf? w.files)))) :
    (s.hotspots w arrival root).2 =
      s.scanner.verdict (s.scanner.sampled.verdict
        (.ok (Usage.firsts (order.flatMap (s.muchUsed w root))))) := by
  let next : Workspace τ := { s with scanner := (s.scanner.scanWorkspace w arrival root).1 }
  have hkeeps : s.scanner.sampled.Keeps next.scanner :=
    (s.scanner.measures_scanWorkspace w arrival root).keeps_sampled
  have hall : s.scanAll w arrival root =
      (next, s.scanner.verdict (.ok (s.resultsIn w order))) := by
    simp only [scanAll, onScanner, hscan, Scanner.verdict]
    cases s.scanner.breakdown? <;> rfl
  have hreferences := (next.snd_crossReference w (s.resultsIn w order)).trans (hkeeps.verdict_eq _)
  rw [← hotspots_resultsIn horder]
  simp only [hotspots, hall, Scanner.verdict]
  cases s.scanner.breakdown? with
  | some text => rfl
  | none =>
    simp only [hreferences, Scanner.verdict]
    cases s.scanner.sampled.breakdown? <;> rfl

/-! ## What may be answered -/

/-- The same workspace, but for what its cache has, as long as that is right, and for what was done
and written down before. -/
structure Variant (files : FileStore τ) (s s' : Workspace τ) : Prop where
  analysis : s'.analysis = s.analysis
  keeps : s.scanner.Keeps s'.scanner
  limits : s'.scanner.limits = s.scanner.limits
  faithful : s'.scanner.Faithful files

/-- The answers about a root that there can be, where all workers report. -/
def MayAnswer (s : Workspace τ) (w : World τ) (root : String)
    (answer : Except ScanFailure (List Variable)) : Prop :=
  ∃ (s' : Workspace τ) (arrival : Arrival), Variant w.files s s' ∧
    arrival.IsFair ∧ s.scanner.rules.pool.Delivers arrival ∧
    (s'.hotspots w arrival root).2 = answer

theorem Variant.paths_eq {files : FileStore τ} {s s' : Workspace τ} (h : Variant files s s')
    (w : World τ) (root : String) : s'.paths w root = s.paths w root := by
  rw [paths, paths, h.keeps.rules]

theorem Variant.muchUsed_eq {files : FileStore τ} {s s' : Workspace τ} (h : Variant files s s')
    (w : World τ) (root : String) : s'.muchUsed w root = s.muchUsed w root := by
  have hvisible : s'.visible = s.visible := by
    funext vars
    simp only [visible, h.analysis]
  have hresults : s'.resultsIn w = s.resultsIn w := by
    funext order
    rw [resultsIn, resultsIn, visibleResults, visibleResults, hvisible, h.keeps.rules]
  have hused : s'.isMuchUsed w root = s.isMuchUsed w root := by
    funext name
    rw [isMuchUsed, isMuchUsed, hresults, h.paths_eq, h.analysis]
  funext path
  rw [muchUsed, muchUsed, hvisible, hused, h.keeps.rules]

section Answers

variable {s : Workspace τ} {w : World τ} {root : String}

/-- Each order of the files gives an answer that there can be, and there are no others. -/
theorem mayAnswer_iff (htree : w.files.IsTree) {answer : Except ScanFailure (List Variable)} :
    s.MayAnswer w root answer ↔ ∃ order : List String, order.Perm (s.paths w root) ∧
      answer = s.scanner.verdict (s.scanner.sampled.verdict
        (.ok (Usage.firsts (order.flatMap (s.muchUsed w root))))) := by
  have hnodup : (s.paths w root).Nodup := ScanRules.nodup_workspaceFiles htree
  constructor
  · rintro ⟨s', arrival, hvariant, harrival, hdelivers, rfl⟩
    have hpaths := hvariant.paths_eq w root
    rw [← hpaths] at hnodup ⊢
    rw [← hvariant.keeps.rules] at hdelivers
    obtain ⟨order, horder, hscan⟩ :=
      hvariant.faithful.snd_scanWorkspace harrival hdelivers hnodup
    refine ⟨order, horder, ?_⟩
    rw [snd_hotspots horder hscan, hvariant.keeps.verdict_eq, hvariant.keeps.sampled.verdict_eq,
      hvariant.muchUsed_eq]
  · rintro ⟨order, horder, rfl⟩
    classical
    let pool := s.scanner.rules.pool
    let task := s.scanner.rules.task w.files pool .inOrder
    let arrival : Arrival := .ofOrder fun futures =>
      if futures = (s.paths w root).map task then order.map task else futures
    have harrival : arrival.IsFair := by
      intro futures
      simp only [arrival, Arrival.ofOrder]
      split
      · rename_i heq
        rw [heq]
        exact horder.map task
      · exact .refl futures
    have hdelivers : pool.Delivers arrival := WorkerPool.delivers_ofOrder _ _
    have htask : s.scanner.rules.task w.files pool arrival = task := by
      funext path
      simp only [task, ScanRules.task, WorkerPool.submit, hdelivers path,
        WorkerPool.delivers_ofOrder pool id path, Arrival.inOrder]
    have hblank := s.isBlank_clearCache
    have hvariant : Variant w.files s s.clearCache :=
      ⟨rfl, ⟨rfl, rfl⟩, s.limits_clearCache, hblank.faithful w.files⟩
    refine ⟨s.clearCache, arrival, hvariant, harrival, hdelivers, ?_⟩
    have horder' : order.Perm (s.clearCache.paths w root) := horder
    have harrived : arrival.order
          ((s.paths w root).map (s.scanner.rules.task w.files pool arrival)) =
        order.map (s.scanner.rules.task w.files pool arrival) := by
      rw [htask]
      exact if_pos rfl
    have hscan := hblank.snd_scanWorkspace harrived (horder.nodup_iff.2 hnodup)
    have hdelivered : s.clearCache.scanner.rules.pool.delivered arrival order = order :=
      WorkerPool.delivered_eq hdelivers order
    rw [hdelivered] at hscan
    rw [snd_hotspots horder' hscan, hvariant.keeps.verdict_eq, hvariant.keeps.sampled.verdict_eq,
      hvariant.muchUsed_eq]

theorem MayAnswer.iff_of_ok (htree : w.files.IsTree) {vars : List Variable}
    (h : s.MayAnswer w root (.ok vars)) {answer : Except ScanFailure (List Variable)} :
    s.MayAnswer w root answer ↔ ∃ order : List String, order.Perm (s.paths w root) ∧
      answer = .ok (Usage.firsts (order.flatMap (s.muchUsed w root))) := by
  obtain ⟨_, -, hok⟩ := (mayAnswer_iff htree).1 h
  obtain ⟨hscan, hok⟩ := Scanner.verdict_eq_ok_iff.1 hok.symm
  obtain ⟨hanalysis, -⟩ := Scanner.verdict_eq_ok_iff.1 hok
  simp only [mayAnswer_iff htree, Scanner.verdict, hscan, hanalysis]

/-- Whatever the cache has and in whatever order the workers report, the same names are much used. A
name is told with the same declaration each time exactly if not more than one file declares it, and
the whole answer is the same each time exactly if not more than one file declares any of them. A
failure does not depend on the order. -/
theorem hotspots_scheduling (htree : w.files.IsTree) (hsigns : s.scanner.rules.registry.Signs)
    (root : String) :
    (∀ failure answer, s.MayAnswer w root (.error failure) → s.MayAnswer w root answer →
      answer = .error failure) ∧
    ∀ vars, s.MayAnswer w root (.ok vars) →
      (∀ answer, s.MayAnswer w root answer → ∃ vars', answer = .ok vars' ∧
        (vars'.map Variable.name).Perm (vars.map Variable.name)) ∧
      (∀ name, (∀ vars', s.MayAnswer w root (.ok vars') →
          vars'.find? (fun v => v.name = name) = vars.find? fun v => v.name = name) ↔
        Usage.OneSource (fun path => (s.muchUsed w root path).filter fun v => v.name = name)
          (s.paths w root)) ∧
      ((∀ answer, s.MayAnswer w root answer → answer = .ok vars) ↔
        Usage.OneSource (s.muchUsed w root) (s.paths w root)) := by
  have hnodup : (s.paths w root).Nodup := ScanRules.nodup_workspaceFiles htree
  constructor
  · intro failure answer hfailure hanswer
    obtain ⟨order, -, heq⟩ := (mayAnswer_iff htree).1 hfailure
    obtain ⟨order', -, rfl⟩ := (mayAnswer_iff htree).1 hanswer
    exact Scanner.verdict_eq_error heq.symm
  · intro vars hvars
    obtain ⟨order, horder, heq⟩ := (hvars.iff_of_ok htree).1 hvars
    obtain rfl := Except.ok.inj heq
    refine ⟨?_, ?_, ?_⟩
    · intro answer hanswer
      obtain ⟨order', horder', rfl⟩ := (hvars.iff_of_ok htree).1 hanswer
      exact ⟨_, rfl, Usage.perm_names_firsts ((horder'.trans horder.symm).flatMap_right _)⟩
    · intro name
      have hfind : ∀ order : List String,
          (Usage.firsts (order.flatMap (s.muchUsed w root))).find? (fun v => v.name = name) =
            (order.flatMap fun path =>
              (s.muchUsed w root path).filter fun v => v.name = name).head? := by
        intro order
        rw [Usage.find?_firsts, List.filter_flatMap]
      rw [← Usage.head?_flatMap_iff hnodup
        (fun path _ v hv => filePath_of_mem_muchUsed hsigns (List.mem_of_mem_filter hv))
        ⟨order, horder, rfl⟩, ← hfind]
      constructor
      · intro hsame order' horder'
        rw [← hfind]
        exact hsame _ ((hvars.iff_of_ok htree).2 ⟨order', horder', rfl⟩)
      · intro hsame vars' hvars'
        obtain ⟨order', horder', heq⟩ := (hvars.iff_of_ok htree).1 hvars'
        obtain rfl := Except.ok.inj heq
        rw [hfind, hsame order' horder']
    · rw [← Usage.firsts_flatMap_iff hnodup
        (fun path _ v hv => filePath_of_mem_muchUsed hsigns hv) ⟨order, horder, rfl⟩]
      constructor
      · intro hsame order' horder'
        exact Except.ok.inj (hsame _ ((hvars.iff_of_ok htree).2 ⟨order', horder', rfl⟩))
      · intro hsame answer hanswer
        obtain ⟨order', horder', rfl⟩ := (hvars.iff_of_ok htree).1 hanswer
        rw [hsame order' horder']

end Answers

end Workspace

/-! ## A name that two files declare -/

namespace Contested

def rules : ScanRules := ⟨.standard, [], none, none, .standard⟩

def world : World ℚ where
  files := ⟨[(["w"], .directory), (["w", "a.js"], .file ⟨"let x = 1".toUTF8.toList, 1⟩),
    (["w", "b.js"], .file ⟨"let x = 2".toUTF8.toList, 1⟩)]⟩
  clock := 0

/-- Nothing has been scanned. A name that is met twice is much used. -/
def fresh : Workspace ℚ where
  analysis := ⟨2, true⟩
  sampleInterval := 1
  checkInterval := 1
  scanner := ⟨rules, some (.empty (1000 : Nat) (10 : Nat)), none, []⟩
  debouncer := .start 0
  memory := ⟨100, 200, 10, false, [], []⟩
  memorySampler := .constant ⟨0, 0, 0⟩
  timers := .start 0
  updates := []

/-- The second file has been scanned before. -/
def warm : Workspace ℚ := (fresh.scanFile world "w/b.js").1

theorem isTree : world.files.IsTree where
  nodup := by decide
  ne_nil := by decide
  names := by decide
  parents := by
    simp only [world, List.forall_mem_cons]
    exact ⟨rfl, rfl, rfl, by simp⟩

theorem variant_fresh : Workspace.Variant world.files fresh fresh := by
  refine ⟨rfl, .refl _, rfl, ?_⟩
  rintro c ⟨⟩ e he
  cases he

theorem variant_warm : Workspace.Variant world.files fresh warm := by
  have hmeasures := fresh.scanner.measures_scanFile world "w/b.js"
  refine ⟨rfl, ⟨hmeasures.rules, hmeasures.sampler⟩, by decide +kernel, ?_⟩
  have hseen := Scanner.Holds.scanFile (w := world) variant_fresh.faithful
    (Scanner.admits_served fresh.scanner.rules world.files) "w/b.js"
  rw [Scanner.Faithful, show warm.scanner.rules = fresh.scanner.rules from hmeasures.rules]
  exact hseen

theorem locate_root : world.files.locate "w" = .ok (["w"], .directory) := by
  have hanchor : Path.anchor "w" = [] := by decide +kernel
  have hnames : Path.names "w" = ["w"] := by decide +kernel
  simp only [FileStore.locate, hanchor, hnames]
  rfl

theorem walk_eq : world.files.walk rules.skipDirectories.contains "w" =
    .ok [⟨"w", ["a.js", "b.js"]⟩] := by
  have hsorted : FileStore.sortNames ["a.js", "b.js"] = ["a.js", "b.js"] :=
    List.mergeSort_of_pairwise (by decide)
  have hnone : FileStore.sortNames [] = [] := List.mergeSort_nil
  have hchildren : world.files.children ["w"] =
      [("a.js", .file ⟨"let x = 1".toUTF8.toList, 1⟩),
        ("b.js", .file ⟨"let x = 2".toUTF8.toList, 1⟩)] := rfl
  rw [FileStore.walk, locate_root]
  simp [FileStore.walkFrom, hchildren, hsorted, hnone]

theorem workspaceFiles_eq {s : Scanner ℚ} (h : s.rules = rules) :
    (s.startTimer world.clock "scan_workspace").1.rules.workspaceFiles world.files "w" =
      (["w/a.js", "w/b.js"], []) := by
  have hlisted : [(⟨"w", ["a.js", "b.js"]⟩ : FileStore.Listing)].flatMap rules.listed =
      ["w/a.js", "w/b.js"] := by decide +kernel
  rw [(s.cache_startTimer world.clock "scan_workspace").2, h, ScanRules.workspaceFiles, walk_eq]
  exact congrArg (·, []) hlisted

/-- Name, file and line of each variable. -/
def owners (answer : Except ScanFailure (List Variable)) : Option (List (String × String × Int)) :=
  answer.toOption.map fun vars => vars.map fun v => (v.name, v.filePath, v.line)

/-- The last task is done first. -/
def reversed : Arrival := .ofOrder List.reverse

theorem owners_told : owners (fresh.hotspots world .inOrder "w").2 = some [("x", "w/a.js", 1)] ∧
    owners (warm.hotspots world .inOrder "w").2 = some [("x", "w/b.js", 1)] ∧
    owners (fresh.hotspots world reversed "w").2 = some [("x", "w/b.js", 1)] := by
  have hfresh := workspaceFiles_eq (s := fresh.scanner) rfl
  have hwarm := workspaceFiles_eq variant_warm.keeps.rules
  refine ⟨?_, ?_, ?_⟩ <;>
  · simp only [Workspace.hotspots, Workspace.scanAll, Workspace.onScanner, Scanner.scanWorkspace,
      Scanner.timed, Scanner.scanFilesBelow, hfresh, hwarm]
    decide +kernel

theorem eq_ok_of_owners {answer : Except ScanFailure (List Variable)}
    {told : List (String × String × Int)} (h : owners answer = some told) :
    ∃ vars, answer = .ok vars ∧ vars.map (fun v => (v.name, v.filePath, v.line)) = told := by
  cases answer with
  | error e => cases h
  | ok vars => exact ⟨vars, rfl, Option.some.inj h⟩

end Contested

/-- Both caches are right, and in both orders all workers report once. What is told about the name
differs. -/
theorem Contested.hotspots_differ :
    Workspace.Variant world.files fresh fresh ∧ Workspace.Variant world.files fresh warm ∧
      reversed.IsFair ∧ rules.pool.Delivers reversed ∧
      owners (fresh.hotspots world .inOrder "w").2 = some [("x", "w/a.js", 1)] ∧
      owners (warm.hotspots world .inOrder "w").2 = some [("x", "w/b.js", 1)] ∧
      owners (fresh.hotspots world reversed "w").2 = some [("x", "w/b.js", 1)] :=
  ⟨variant_fresh, variant_warm, List.reverse_perm, WorkerPool.delivers_ofOrder _ _, owners_told⟩

/-- The name itself is told each time; that both files declare it is why the rest is open. -/
theorem Contested.names_told :
    world.files.IsTree ∧ fresh.scanner.rules.registry.Signs ∧
      ∃ vars, fresh.MayAnswer world "w" (.ok vars) ∧ vars.map Variable.name = ["x"] ∧
        (∀ answer, fresh.MayAnswer world "w" answer → ∃ vars', answer = .ok vars' ∧
          (vars'.map Variable.name).Perm (vars.map Variable.name)) ∧
        ¬ Usage.OneSource (fresh.muchUsed world "w") (fresh.paths world "w") := by
  obtain ⟨vars, hvars, htold⟩ := eq_ok_of_owners owners_told.1
  obtain ⟨vars', hvars', htold'⟩ := eq_ok_of_owners owners_told.2.1
  have hdelivers := WorkerPool.delivers_ofOrder rules.pool id
  have hmay : fresh.MayAnswer world "w" (.ok vars) :=
    ⟨fresh, .inOrder, variant_fresh, Arrival.isFair_inOrder, hdelivers, hvars⟩
  have hmay' : fresh.MayAnswer world "w" (.ok vars') :=
    ⟨warm, .inOrder, variant_warm, Arrival.isFair_inOrder, hdelivers, hvars'⟩
  have hsigns : fresh.scanner.rules.registry.Signs := Registry.signs_standard
  obtain ⟨hnames, -, hsame⟩ :=
    (Workspace.hotspots_scheduling isTree hsigns "w").2 vars hmay
  refine ⟨isTree, hsigns, vars, hmay, ?_, hnames, fun hone => ?_⟩
  · simpa using congrArg (List.map Prod.fst) htold
  · obtain rfl := Except.ok.inj (hsame.2 hone _ hmay')
    rw [htold] at htold'
    simp at htold'

end DeclScan
