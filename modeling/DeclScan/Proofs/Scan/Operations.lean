import DeclScan.Proofs.Scan.Interleaving

/-!
# DeclScan.Proofs.Scan.Operations

The operations of a scanner are runs of small steps, in which the files stay as they are and no
report is left under way. So what holds of all runs holds of them, too, and of what lies between
their steps.

* `ScanSystem.Becomes`: what the scanner can come to by its own steps.
* `becomes_scanFile`, `becomes_scanWorkspace`: the operations.
-/

namespace DeclScan

variable {τ : Type}

namespace WorkerReport

def isFailed (report : WorkerReport) : Bool :=
  match report.outcome with
  | .failed _ => true
  | _ => false

theorem isFailed_iff {report : WorkerReport} :
    report.isFailed = true ↔ ∃ reason, report.outcome = .failed reason := by
  rw [isFailed]
  cases report.outcome <;> simp

end WorkerReport

namespace Scanner

theorem cache_startTimer (scanner : Scanner τ) (clock : Float) (operation : String) :
    (scanner.startTimer clock operation).1.cache = scanner.cache ∧
      (scanner.startTimer clock operation).1.rules = scanner.rules := by
  simp only [startTimer]
  split <;> exact ⟨rfl, rfl⟩

theorem cache_endTimer {α : Type} (scanner : Scanner τ) (clock : Float)
    (timer : Option OperationTimer) (outcome : Except ScanFailure α) :
    (scanner.endTimer clock timer outcome).1.cache = scanner.cache ∧
      (scanner.endTimer clock timer outcome).1.rules = scanner.rules := by
  simp only [endTimer]
  split <;> exact ⟨rfl, rfl⟩

theorem cache_writeBack_of_isFailed (scanner : Scanner τ) (w : World τ) {report : WorkerReport}
    (h : report.isFailed = true) :
    (scanner.writeBack w report).1.cache = scanner.cache ∧
      (scanner.writeBack w report).1.rules = scanner.rules := by
  obtain ⟨reason, hreason⟩ := WorkerReport.isFailed_iff.1 h
  simp only [writeBack, hreason]
  exact ⟨rfl, rfl⟩

theorem cache_write_if (scanner : Scanner τ) (b : Bool) (records : List LogRecord) :
    (if b then scanner.write records else scanner).cache = scanner.cache ∧
      (if b then scanner.write records else scanner).rules = scanner.rules := by
  cases b <;> exact ⟨rfl, rfl⟩

end Scanner

namespace ScanSystem

variable [Preorder τ] [DecidableLE τ]

/-- There are steps to the scanner, with nothing else changed but where the results came from. -/
def Becomes (s : ScanSystem τ) (scanner : Scanner τ) : Prop :=
  ∃ landings, Relation.ReflTransGen ScanStep s { s with scanner := scanner, landings := landings }

variable {s : ScanSystem τ} {scanner next : Scanner τ}

theorem becomes_self (s : ScanSystem τ) : s.Becomes s.scanner := ⟨s.landings, .refl⟩

theorem Becomes.trans (h : s.Becomes scanner)
    (h' : ∀ landings, Becomes { s with scanner := scanner, landings := landings } next) :
    s.Becomes next := by
  obtain ⟨landings, hsteps⟩ := h
  obtain ⟨more, hmore⟩ := h' landings
  exact ⟨more, hsteps.trans hmore⟩

theorem becomes_record (hcache : scanner.cache = s.scanner.cache)
    (hrules : scanner.rules = s.scanner.rules) : s.Becomes scanner :=
  ⟨s.landings, .single (.record scanner hcache hrules)⟩

theorem becomes_lookup (s : ScanSystem τ) (path : String) :
    s.Becomes (s.scanner.lookup s.world path).1 :=
  ⟨s.landings, .single (.ask path)⟩

theorem becomes_writeBack (s : ScanSystem τ) (path : String) :
    s.Becomes (s.scanner.writeBack s.world (s.scanner.work s.world path)).1 := by
  let flight : Flight τ := ⟨s.scanner.work s.world path, s.world.files⟩
  have hland := ScanStep.land (s := { s with flights := flight :: s.flights }) flight s.flights
    (List.Perm.refl _)
  exact ⟨_, .tail (.single (.read path)) hland⟩

theorem Becomes.reachable (h : s.Becomes scanner) (hs : Reachable s) :
    ∃ landings, Reachable { s with scanner := scanner, landings := landings } := by
  obtain ⟨landings, hsteps⟩ := h
  exact ⟨landings, hs.steps hsteps⟩

/-! ## Timing -/

theorem becomes_timed {α : Type} (s : ScanSystem τ) (clock : Float) (operation : String)
    (body : Scanner τ → Scanner τ × Except ScanFailure α)
    (hbody : ∀ scanner landings,
      Becomes { s with scanner := scanner, landings := landings } (body scanner).1) :
    s.Becomes (s.scanner.timed clock operation body).1 := by
  obtain ⟨hcache, hrules⟩ := Scanner.cache_startTimer s.scanner clock operation
  refine (becomes_record hcache hrules).trans fun landings => ?_
  refine (hbody _ landings).trans fun more => ?_
  obtain ⟨hcache', hrules'⟩ := Scanner.cache_endTimer (body (s.scanner.startTimer clock operation).1).1
    clock (s.scanner.startTimer clock operation).2 (body (s.scanner.startTimer clock operation).1).2
  exact becomes_record hcache' hrules'

/-! ## Files -/

theorem becomes_answer (s : ScanSystem τ) (path : String) :
    s.Becomes (s.scanner.answer s.world (s.scanner.work s.world path)).1 := by
  simp only [Scanner.answer]
  split
  · exact becomes_self s
  · exact becomes_self s
  · exact becomes_writeBack s path
  · exact becomes_writeBack s path

theorem becomes_scanFile (s : ScanSystem τ) (path : String) :
    s.Becomes (s.scanner.scanFile s.world path).1 := by
  refine becomes_timed s s.world.clock "scan_file" _ fun scanner landings => ?_
  have hlookup := becomes_lookup { s with scanner := scanner, landings := landings } path
  cases hasked : scanner.lookup s.world path with
  | mk asked found =>
    simp only [hasked] at hlookup
    cases found with
    | some vars => simpa only [hasked] using hlookup
    | none =>
      simp only
      refine hlookup.trans fun more => ?_
      have hrecord : Becomes { s with scanner := asked, landings := more }
          (asked.write (asked.work s.world path).log) := becomes_record rfl rfl
      exact hrecord.trans fun last => becomes_answer _ path

/-! ## Workspaces -/

theorem becomes_splitCached (s : ScanSystem τ) (paths : List String) :
    s.Becomes (s.scanner.splitCached s.world paths).1 := by
  induction paths generalizing s with
  | nil => exact becomes_self s
  | cons path paths ih =>
    have hrest : s.Becomes ((s.scanner.lookup s.world path).1.splitCached s.world paths).1 :=
      (becomes_lookup s path).trans fun landings => ih _
    simp only [Scanner.splitCached]
    split <;> exact hrest

theorem steps_read (s : ScanSystem τ) (paths : List String) :
    ∃ flights, (flights.map Flight.report).Perm (paths.map (s.scanner.work s.world)) ∧
      Relation.ReflTransGen ScanStep s { s with flights := flights ++ s.flights } := by
  induction paths with
  | nil => exact ⟨[], .refl _, .refl⟩
  | cons path paths ih =>
    obtain ⟨flights, hperm, hsteps⟩ := ih
    refine ⟨⟨s.scanner.work s.world path, s.world.files⟩ :: flights, hperm.cons _, ?_⟩
    exact hsteps.tail (.read path)

theorem steps_collect (s : ScanSystem τ) (flights : List (Flight τ)) (lost : List WorkerReport)
    (hlost : ∀ report ∈ lost, report.isFailed = true) (results : ScanResults)
    {reports : List WorkerReport} (hperm : (flights.map Flight.report ++ lost).Perm reports) :
    ∃ landings, Relation.ReflTransGen ScanStep { s with flights := flights ++ s.flights }
      { s with
        scanner := (s.scanner.collect s.world results reports).1
        landings := landings } := by
  induction reports generalizing s flights lost results with
  | nil =>
    obtain ⟨hflights, -⟩ := List.append_eq_nil_iff.1 hperm.eq_nil
    obtain rfl : flights = [] := List.map_eq_nil_iff.1 hflights
    exact ⟨s.landings, .refl⟩
  | cons report reports ih =>
    have hcollect : ∃ more, (s.scanner.collect s.world results (report :: reports)).1 =
        ((s.scanner.writeBack s.world report).1.collect s.world more reports).1 := by
      simp only [Scanner.collect]
      split
      · rename_i scanner vars heq
        exact ⟨_, by rw [heq]⟩
      · rename_i scanner heq
        exact ⟨_, by rw [heq]⟩
    obtain ⟨more, heq⟩ := hcollect
    rw [heq]
    rcases List.mem_append.1 (hperm.mem_iff.2 List.mem_cons_self) with hmem | hmem
    · obtain ⟨flight, hflight, rfl⟩ := List.mem_map.1 hmem
      obtain ⟨front, back, rfl⟩ := List.append_of_mem hflight
      have hmiddle : (front ++ flight :: back).Perm (flight :: (front ++ back)) :=
        List.perm_middle
      have hrest : ((front ++ back).map Flight.report ++ lost).Perm reports :=
        (((hmiddle.map Flight.report).append_right lost).symm.trans hperm).cons_inv
      let landed : ScanSystem τ :=
        { s with
          scanner := (s.scanner.writeBack s.world flight.report).1
          landings := (flight.landing? s.world.files).toList ++ s.landings }
      have hland : ScanStep { s with flights := (front ++ flight :: back) ++ s.flights }
          { landed with flights := (front ++ back) ++ s.flights } :=
        .land flight ((front ++ back) ++ s.flights) (hmiddle.append_right s.flights)
      obtain ⟨landings, hsteps⟩ := ih landed (front ++ back) lost hlost more hrest
      exact ⟨landings, .head hland hsteps⟩
    · obtain ⟨front, back, rfl⟩ := List.append_of_mem hmem
      have hmiddle : (flights.map Flight.report ++ (front ++ report :: back)).Perm
          (report :: (flights.map Flight.report ++ (front ++ back))) := by
        rw [← List.append_assoc, ← List.append_assoc]
        exact List.perm_middle
      obtain ⟨hcache, hrules⟩ := Scanner.cache_writeBack_of_isFailed s.scanner s.world (hlost report hmem)
      have hrecord : ScanStep { s with flights := flights ++ s.flights }
          { s with
            flights := flights ++ s.flights
            scanner := (s.scanner.writeBack s.world report).1 } := .record _ hcache hrules
      obtain ⟨landings, hsteps⟩ := ih { s with scanner := (s.scanner.writeBack s.world report).1 }
        flights (front ++ back)
        (fun other hother => hlost other ((List.perm_middle.mem_iff).2 (List.mem_cons_of_mem _ hother)))
        more (hmiddle.symm.trans hperm).cons_inv
      exact ⟨landings, .head hrecord hsteps⟩

section Workspace

variable {pool : WorkerPool} {arrival : Arrival} (harrival : arrival.IsFair)

include harrival

theorem becomes_scanWaiting (s : ScanSystem τ) (split : Scanner.Split) :
    s.Becomes (s.scanner.scanWaiting s.world pool arrival split).1 := by
  let task := s.scanner.task s.world pool arrival
  let delivers (path : String) : Bool := (pool.failure? arrival path).isNone
  let waiting := split.waiting.filter delivers
  let lost := (split.waiting.filter (!delivers ·)).map fun path => (task path).report
  obtain ⟨flights, hflights, hread⟩ := steps_read s waiting
  simp only [Scanner.scanWaiting]
  obtain ⟨hcache, hrules⟩ := s.scanner.cache_write_if pool.sharesLog
    ((split.waiting.map task).flatMap (·.report.log))
  have hrecord : ScanStep { s with flights := flights ++ s.flights }
      { s with
        flights := flights ++ s.flights
        scanner := if pool.sharesLog then
          s.scanner.write ((split.waiting.map task).flatMap (·.report.log)) else s.scanner } :=
    .record _ hcache hrules
  have hlost : ∀ report ∈ lost, report.isFailed = true := by
    intro report hreport
    obtain ⟨path, hpath, rfl⟩ := List.mem_map.1 hreport
    have hfails := (List.mem_filter.1 hpath).2
    rw [Bool.not_eq_true', Option.isNone_eq_false_iff] at hfails
    obtain ⟨text, htext⟩ := Option.isSome_iff_exists.1 hfails
    exact congrArg WorkerReport.isFailed (WorkerPool.report_submit_of_eq_some htext)
  have hdelivered : waiting.map (s.scanner.work s.world) =
      waiting.map fun path => (task path).report :=
    List.map_congr_left fun path hpath => (WorkerPool.report_submit_of_eq_none
      (Option.isNone_iff_eq_none.1 (List.mem_filter.1 hpath).2)).symm
  have hperm : (flights.map Flight.report ++ lost).Perm
      ((arrival.order (split.waiting.map task)).map Future.report) := by
    have hall := ((List.filter_append_perm delivers split.waiting).map fun path => (task path).report)
    rw [List.map_append, ← hdelivered] at hall
    refine (hflights.append_right lost).trans (hall.trans ?_)
    rw [show (fun path => (task path).report) = Future.report ∘ task from rfl, ← List.map_map]
    exact ((harrival _).map Future.report).symm
  obtain ⟨landings, hcollect⟩ := steps_collect
    { s with
      scanner := if pool.sharesLog then
        s.scanner.write ((split.waiting.map task).flatMap (·.report.log)) else s.scanner }
    flights lost hlost split.results hperm
  exact ⟨landings, (hread.tail hrecord).trans hcollect⟩

theorem becomes_scanFilesBelow (s : ScanSystem τ) (announce : Bool) (root : String) :
    s.Becomes (s.scanner.scanFilesBelow s.world pool arrival announce root).1 := by
  let files := (s.scanner.rules.workspaceFiles s.world.files root).1
  let started := s.scanner.write (s.scanner.rules.workspaceFiles s.world.files root).2
  let split := started.splitCached s.world files
  have hstart : s.Becomes started := becomes_record rfl rfl
  have hsplit : s.Becomes split.1 :=
    hstart.trans fun landings => becomes_splitCached
      { s with scanner := started, landings := landings } files
  obtain ⟨hcache, hrules⟩ := split.1.cache_write_if announce [Scanner.scanningRecord root split.2]
  have hannounce := hsplit.trans fun landings =>
    becomes_record (s := { s with scanner := split.1, landings := landings }) hcache hrules
  exact hannounce.trans fun landings => becomes_scanWaiting harrival _ split.2

theorem becomes_scanWorkspace (s : ScanSystem τ) (root : String) :
    s.Becomes (s.scanner.scanWorkspace s.world arrival root).1 :=
  becomes_timed s s.world.clock "scan_workspace" _ fun _ _ =>
    becomes_scanFilesBelow harrival _ true root

theorem becomes_scanWorkspaceQuietly (s : ScanSystem τ) (root : String) :
    s.Becomes (s.scanner.scanWorkspaceQuietly s.world arrival root).1 :=
  becomes_timed s s.world.clock "scan_workspace_async" _ fun _ _ =>
    becomes_scanFilesBelow harrival _ false root

end Workspace
end ScanSystem
end DeclScan
