import DeclScan.Proofs.Scan.Faithful

/-!
# DeclScan.Proofs.Scan.Results

The results of a workspace. Walking, asking the cache, handing files to workers and taking in their
reports come down to reading each file once; only the order of the results is open.

* `ScanRules.entryOf?`: a file with its reading.
* `ScanRules.vars?_task`: what a pool brings back of a file.
* `Scanner.results_collect`: reports that are taken in add their entries, in the order they come in.
* `Scanner.Faithful.results_scanFilesBelow`: where all workers report, the results are the entries of
  the files, in some order.
-/

namespace DeclScan

variable {τ : Type}

/-! ## Entries -/

namespace ScanRules

/-- A file with its reading, if it has one. -/
def entryOf? (r : ScanRules) (files : FileStore τ) (path : String) :
    Option (String × List Variable) :=
  (r.reading? files path).map fun vars => (path, vars)

theorem entryOf?_eq_some_iff {r : ScanRules} {files : FileStore τ} {path : String}
    {x : String × List Variable} :
    r.entryOf? files path = some x ↔ x.1 = path ∧ r.reading? files path = some x.2 := by
  obtain ⟨found, vars⟩ := x
  simp only [entryOf?, Option.map_eq_some_iff, Prod.mk.injEq]
  constructor
  · rintro ⟨vars', hread, rfl, rfl⟩
    exact ⟨rfl, hread⟩
  · rintro ⟨rfl, hread⟩
    exact ⟨vars, hread, rfl, rfl⟩

theorem get?_entries_eq_some_iff {r : ScanRules} {files : FileStore τ} {order : List String}
    {path : String} {vars : List Variable} :
    Table.get? path (order.filterMap (r.entryOf? files)) = some vars ↔
      path ∈ order ∧ r.reading? files path = some vars := by
  induction order with
  | nil => simp [Table.get?]
  | cons first order ih =>
    rw [List.filterMap_cons]
    cases hread : r.reading? files first with
    | none =>
      simp only [entryOf?, hread, Option.map_none]
      by_cases hpath : path = first
      · rw [ih, hpath, hread]
        simp
      · rw [ih]
        simp [hpath]
    | some found =>
      simp only [entryOf?, hread, Option.map_some, Table.get?]
      by_cases hpath : path = first
      · simp [hpath, hread]
      · simp [if_neg (Ne.symm hpath), ih, hpath]

theorem keys_entries_sublist (r : ScanRules) (files : FileStore τ) (order : List String) :
    (Table.keys (order.filterMap (r.entryOf? files))).Sublist order := by
  induction order with
  | nil => exact .slnil
  | cons first order ih =>
    rw [List.filterMap_cons]
    cases hread : r.reading? files first with
    | none =>
      simp only [entryOf?, hread, Option.map_none]
      exact ih.cons first
    | some vars =>
      simp only [entryOf?, hread, Option.map_some]
      exact ih.cons_cons first

/-! ## Tasks -/

/-- The task of a pool about a file. -/
def task (r : ScanRules) (files : FileStore τ) (pool : WorkerPool) (arrival : Arrival)
    (path : String) : Future :=
  pool.submit arrival path (r.report files path)

theorem path_task (r : ScanRules) (files : FileStore τ) (pool : WorkerPool) (arrival : Arrival)
    (path : String) : (r.task files pool arrival path).report.path = path :=
  WorkerPool.path_report_submit (path_scan _ _ _ _)

/-- What comes back of a file is what was read of it, if its worker reports. -/
theorem vars?_task (r : ScanRules) (files : FileStore τ) (pool : WorkerPool) (arrival : Arrival)
    (path : String) :
    (r.task files pool arrival path).report.vars? =
      if (pool.failure? arrival path).isNone then r.reading? files path else none := by
  rw [task]
  cases hfailure : pool.failure? arrival path with
  | none =>
    rw [WorkerPool.report_submit_of_eq_none hfailure]
    rfl
  | some text =>
    rw [WorkerPool.report_submit_of_eq_some hfailure]
    rfl

theorem isFailed_task (r : ScanRules) (files : FileStore τ) (pool : WorkerPool) (arrival : Arrival)
    (path : String) :
    (r.task files pool arrival path).report.isFailed =
      ((pool.failure? arrival path).isSome || (r.report files path).isFailed) := by
  rw [task]
  cases hfailure : pool.failure? arrival path with
  | none => rw [WorkerPool.report_submit_of_eq_none hfailure, Option.isSome_none, Bool.false_or]
  | some text =>
    rw [WorkerPool.report_submit_of_eq_some hfailure, Option.isSome_some, Bool.true_or]
    rfl

theorem reading?_of_task {r : ScanRules} {files : FileStore τ} {pool : WorkerPool}
    {arrival : Arrival} {path : String} {vars : List Variable}
    (h : (r.task files pool arrival path).report.vars? = some vars) :
    r.reading? files (r.task files pool arrival path).report.path = some vars := by
  rw [vars?_task] at h
  rw [path_task]
  split_ifs at h
  exact h

end ScanRules

namespace Scanner

/-! ## From the cache -/

section Cache

variable [LE τ] [DecidableLE τ] {s : Scanner τ} {w : World τ}

theorem Holds.splitCached {p : String → List Variable → τ → Prop} (h : s.Holds p)
    (paths : List String) : (s.splitCached w paths).1.Holds p := by
  induction paths generalizing s with
  | nil => exact h
  | cons path paths ih =>
    have hrest := ih (h.lookup (w := w) path)
    simp only [Scanner.splitCached]
    split <;> exact hrest

theorem Faithful.results_splitCached (h : s.Faithful w.files) (paths : List String) :
    ∃ served, (s.splitCached w paths).2.results = served.filterMap (s.rules.entryOf? w.files) ∧
      (served ++ (s.splitCached w paths).2.waiting).Perm paths := by
  induction paths generalizing s with
  | nil => exact ⟨[], rfl, .refl _⟩
  | cons path paths ih =>
    obtain ⟨served, hresults, hperm⟩ := ih (h.lookup path)
    rw [s.rules_lookup w path] at hresults
    simp only [Scanner.splitCached]
    cases hfound : (s.lookup w path).2 with
    | some vars =>
      have hentry : s.rules.entryOf? w.files path = some (path, vars) :=
        ScanRules.entryOf?_eq_some_iff.2 ⟨rfl, h.reading_of_lookup hfound⟩
      refine ⟨path :: served, ?_, hperm.cons path⟩
      rw [List.filterMap_cons, hentry, ← hresults]
    | none => exact ⟨served, hresults, List.perm_middle.trans (hperm.cons path)⟩

theorem splitCached_of_cache_eq_none (w : World τ) (h : s.cache = none) (paths : List String) :
    s.splitCached w paths = (s, ⟨[], paths⟩) := by
  induction paths with
  | nil => rfl
  | cons path paths ih =>
    have hlookup : s.lookup w path = (s, none) := by simp only [lookup, h]
    simp only [splitCached, hlookup, ih]

theorem IsBlank.snd_splitCached (h : s.IsBlank) (paths : List String) :
    (s.splitCached w paths).2 = ⟨[], paths⟩ := by
  induction paths generalizing s with
  | nil => rfl
  | cons path paths ih =>
    have hrest := ih (Holds.lookup (w := w) h path)
    simp only [splitCached, h.snd_lookup w path, hrest]

end Cache

/-! ## From the workers -/

/-- Results of new files go to the end, in the order in which they come. -/
theorem results_collect (s : Scanner τ) (w : World τ) (results : ScanResults)
    (reports : List WorkerReport)
    (hnodup : (Table.keys results ++ reports.map WorkerReport.path).Nodup) :
    (s.collect w results reports).2 =
      results ++ reports.filterMap fun report => report.vars?.map fun vars => (report.path, vars) := by
  induction reports generalizing s results with
  | nil => simp [collect]
  | cons report reports ih =>
    have hsnd : (s.writeBack w report).2 = report.vars? := by
      simp only [writeBack, WorkerReport.vars?]
      cases report.outcome <;> rfl
    rw [List.map_cons] at hnodup
    have hnew : report.path ∉ Table.keys results := fun hmem =>
      (List.nodup_append.1 hnodup).2.2 _ hmem _ List.mem_cons_self rfl
    rw [List.filterMap_cons, ← hsnd]
    simp only [collect]
    split
    · rename_i s' vars heq
      have hput := Table.put_of_not_mem hnew vars
      rw [hput, ih, heq]
      · simp
      · simpa [Table.keys] using hnodup
    · rename_i s' heq
      rw [ih, heq]
      · rfl
      · exact hnodup.sublist ((List.sublist_cons_self _ _).append_left _)

theorem Holds.collect {p : String → List Variable → τ → Prop} {s : Scanner τ} {w : World τ}
    (h : s.Holds p) (hp : Admits s.rules w.files p) (results : ScanResults)
    {reports : List WorkerReport}
    (hreports : ∀ report ∈ reports, ∀ vars, report.vars? = some vars →
      s.rules.reading? w.files report.path = some vars) :
    (s.collect w results reports).1.Holds p := by
  induction reports generalizing s results with
  | nil => exact h
  | cons report reports ih =>
    have hwritten := h.writeBack hp (hreports report List.mem_cons_self)
    have hrules := s.rules_writeBack w report
    have hrest := fun other hother => hreports other (List.mem_cons_of_mem report hother)
    simp only [Scanner.collect]
    split <;>
    · rename_i heq
      rw [heq] at hwritten hrules
      exact ih hwritten (hrules.symm ▸ hp) _ (hrules.symm ▸ hrest)

theorem exists_order {arrival : Arrival} (harrival : arrival.IsFair) (r : ScanRules)
    (files : FileStore τ) (pool : WorkerPool) (waiting : List String) :
    ∃ order : List String, order.Perm waiting ∧
      arrival.order (waiting.map (r.task files pool arrival)) =
        order.map (r.task files pool arrival) := by
  have hperm := harrival (waiting.map (r.task files pool arrival))
  have hpath : ∀ path, (r.task files pool arrival path).report.path = path :=
    r.path_task files pool arrival
  -- each task bears the path of its file, so the order can be read off the tasks
  refine ⟨(arrival.order (waiting.map (r.task files pool arrival))).map (·.report.path), ?_, ?_⟩
  · have hmap := hperm.map (·.report.path)
    have hid : (fun future : Future => future.report.path) ∘ r.task files pool arrival = id :=
      funext hpath
    rwa [List.map_map, hid, List.map_id] at hmap
  · rw [List.map_map]
    refine (List.map_id'' (fun _ => rfl) _).symm.trans (List.map_congr_left fun future hfuture => ?_)
    obtain ⟨path, -, rfl⟩ := List.mem_map.1 (hperm.mem_iff.1 hfuture)
    simp [hpath]

theorem results_of_arrived {s : Scanner τ} {w : World τ} {pool : WorkerPool} {arrival : Arrival}
    {split : Split} {served arrived : List String}
    (hserved : split.results = served.filterMap (s.rules.entryOf? w.files))
    (harrived : arrival.order (split.waiting.map (s.rules.task w.files pool arrival)) =
      arrived.map (s.rules.task w.files pool arrival))
    (hnodup : (served ++ arrived).Nodup) :
    (s.scanWaiting w pool arrival split).2 =
      (served ++ pool.delivered arrival arrived).filterMap (s.rules.entryOf? w.files) := by
  have hpath : ∀ path, (s.rules.task w.files pool arrival path).report.path = path :=
    s.rules.path_task w.files pool arrival
  have htask : s.task w pool arrival = s.rules.task w.files pool arrival := rfl
  simp only [Scanner.scanWaiting, htask, harrived]
  rw [results_collect, hserved, List.filterMap_append, WorkerPool.delivered, List.filterMap_filter,
    List.map_map, List.filterMap_map]
  · refine congrArg _ (List.filterMap_congr fun path _ => ?_)
    rw [Function.comp_apply, Function.comp_apply, ScanRules.vars?_task, hpath, ScanRules.entryOf?]
    cases pool.failure? arrival path <;> rfl
  · rw [List.map_map, List.map_map, hserved,
      show (WorkerReport.path ∘ Future.report) ∘ s.rules.task w.files pool arrival = id from
        funext hpath, List.map_id]
    exact hnodup.sublist ((s.rules.keys_entries_sublist w.files served).append_right arrived)

/-! ## Workspaces -/

section Workspace

variable {s : Scanner τ} {w : World τ} {pool : WorkerPool} {arrival : Arrival}

section Holds

variable (harrival : arrival.IsFair)
include harrival

theorem Holds.scanWaiting {p : String → List Variable → τ → Prop} (h : s.Holds p)
    (hp : Admits s.rules w.files p) (split : Split) :
    (s.scanWaiting w pool arrival split).1.Holds p := by
  simp only [Scanner.scanWaiting]
  obtain ⟨hcache, hrules⟩ := s.cache_write_if pool.sharesLog
    ((split.waiting.map (s.task w pool arrival)).flatMap (·.report.log))
  refine (h.of_cache_eq hcache).collect (hrules.symm ▸ hp) _ fun report hreport vars hvars => ?_
  obtain ⟨future, hfuture, rfl⟩ := List.mem_map.1 hreport
  obtain ⟨path, -, rfl⟩ := List.mem_map.1 ((harrival _).mem_iff.1 hfuture)
  rw [hrules]
  exact ScanRules.reading?_of_task hvars

variable [LE τ] [DecidableLE τ]

theorem Holds.scanFilesBelow {p : String → List Variable → τ → Prop} (h : s.Holds p)
    (hp : Admits s.rules w.files p) (announce : Bool) (root : String) :
    (s.scanFilesBelow w pool arrival announce root).1.Holds p := by
  let files := (s.rules.workspaceFiles w.files root).1
  let started := s.write (s.rules.workspaceFiles w.files root).2
  have hstarted : started.Holds p := h.of_cache_eq rfl
  have hsplit : (started.splitCached w files).1.Holds p := hstarted.splitCached files
  have hkeeps := started.keeps_splitCached w files
  obtain ⟨hcache, hrules⟩ := (started.splitCached w files).1.cache_write_if announce
    [scanningRecord root (started.splitCached w files).2]
  exact (hsplit.of_cache_eq hcache).scanWaiting harrival
    ((hrules.trans hkeeps.rules).symm ▸ hp) _

end Holds

variable [LE τ] [DecidableLE τ]

/-- Where all workers report, the results of a workspace are the entries of its files in some order,
with a cache that is faithful and with none. -/
theorem Faithful.results_scanFilesBelow (h : s.Faithful w.files) (harrival : arrival.IsFair)
    (hdelivers : pool.Delivers arrival) (announce : Bool) {root : String}
    (hnodup : (s.rules.workspaceFiles w.files root).1.Nodup) :
    ∃ order : List String, order.Perm (s.rules.workspaceFiles w.files root).1 ∧
      (s.scanFilesBelow w pool arrival announce root).2 =
        order.filterMap (s.rules.entryOf? w.files) := by
  let files := (s.rules.workspaceFiles w.files root).1
  let started := s.write (s.rules.workspaceFiles w.files root).2
  let split := started.splitCached w files
  have hstarted : started.Faithful w.files := Holds.of_cache_eq h rfl
  obtain ⟨served, hserved, hperm⟩ := hstarted.results_splitCached files
  have hkeeps := (started.keeps_splitCached w files).trans (keeps_write_if _ announce
    [scanningRecord root split.2])
  have hrules : _ = s.rules := hkeeps.rules
  obtain ⟨arrived, hall, harrived⟩ := exists_order harrival s.rules w.files pool split.2.waiting
  have horder : (served ++ arrived).Perm files := (hall.append_left served).trans hperm
  rw [← hrules] at harrived
  have hresults := results_of_arrived (hserved.trans (by rw [hrules]; rfl)) harrived
    (horder.nodup_iff.2 hnodup)
  rw [hrules, WorkerPool.delivered_eq hdelivers] at hresults
  exact ⟨served ++ arrived, horder, hresults⟩

/-- With nothing in the cache the results come in the order in which the tasks are done, those of
the files whose workers report. -/
theorem IsBlank.results_scanFilesBelow (h : s.IsBlank) {root : String} {order : List String}
    (harrived : arrival.order
        ((s.rules.workspaceFiles w.files root).1.map (s.rules.task w.files pool arrival)) =
      order.map (s.rules.task w.files pool arrival))
    (hnodup : order.Nodup) (announce : Bool) :
    (s.scanFilesBelow w pool arrival announce root).2 =
      (pool.delivered arrival order).filterMap (s.rules.entryOf? w.files) := by
  let files := (s.rules.workspaceFiles w.files root).1
  let started := s.write (s.rules.workspaceFiles w.files root).2
  have hblank : started.IsBlank := h.of_cache_eq rfl
  have hsplit : (started.splitCached w files).2 = ⟨[], files⟩ := hblank.snd_splitCached files
  have hkeeps := (started.keeps_splitCached w files).trans (keeps_write_if _ announce
    [scanningRecord root (started.splitCached w files).2])
  have hrules : _ = s.rules := hkeeps.rules
  have hserved : (started.splitCached w files).2.results =
      List.filterMap (s.rules.entryOf? w.files) [] := by rw [hsplit]; rfl
  have hwaiting : arrival.order
        ((started.splitCached w files).2.waiting.map (s.rules.task w.files pool arrival)) =
      order.map (s.rules.task w.files pool arrival) := by rw [hsplit]; exact harrived
  rw [← hrules] at hserved hwaiting
  have hresults := results_of_arrived hserved hwaiting (by simpa using hnodup)
  rw [hrules] at hresults
  exact hresults

end Workspace

end Scanner
end DeclScan
