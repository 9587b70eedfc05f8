import DeclScan.Proofs.Scan.Results

/-!
# DeclScan.Proofs.Scan.Outcomes

What a scanner that was asked for something says in the end, and what it has counted by then. Its
operations are timed; the end of a timer takes a measurement, and if that breaks off the whole
operation fails.

* `Scanner.errors_scanFilesBelow`: every report of an error is counted.
* `Scanner.verdict`, `Scanner.timed_eq`: what timing makes of an outcome.
* `Scanner.Faithful.snd_scanFile`, `Scanner.Faithful.snd_scanWorkspace`: the outcomes.
-/

namespace DeclScan

variable {τ : Type}

namespace Scanner

/-! ## Errors -/

def errors (s : Scanner τ) : Option Nat := s.meter.map fun m => m.monitor.errorCount

theorem errors_measure (s : Scanner τ) {change : Monitor → Monitor} {n : Nat}
    (h : ∀ m : Monitor, (change m).errorCount = m.errorCount + n) :
    (s.measure change).errors = s.errors.map (· + n) := by
  simp only [errors, measure, Option.map_map]
  exact Option.map_congr fun m _ => h m.monitor

theorem errors_write (s : Scanner τ) (records : List LogRecord) :
    (s.write records).errors = s.errors := rfl

theorem errors_remember (s : Scanner τ) (w : World τ) (path : String) (vars : List Variable) :
    (s.remember w path vars).errors = s.errors := by
  simp only [remember]
  split <;> rfl

theorem errors_writeBack (s : Scanner τ) (w : World τ) (report : WorkerReport) :
    (s.writeBack w report).1.errors =
      s.errors.map (· + if report.isFailed then 1 else 0) := by
  cases houtcome : report.outcome with
  | failed reason =>
    simp only [writeBack, WorkerReport.isFailed, houtcome]
    exact errors_measure _ fun _ => rfl
  | _ => simp [writeBack, WorkerReport.isFailed, houtcome, errors_write, errors_remember]

theorem errors_collect (s : Scanner τ) (w : World τ) (results : ScanResults)
    (reports : List WorkerReport) :
    (s.collect w results reports).1.errors =
      s.errors.map (· + reports.countP WorkerReport.isFailed) := by
  induction reports generalizing s results with
  | nil => simp [collect]
  | cons report reports ih =>
    have hwrite := s.errors_writeBack w report
    have hcount : ∀ s' : Scanner τ, s'.errors = (s.writeBack w report).1.errors →
        s'.errors.map (· + reports.countP WorkerReport.isFailed) =
          s.errors.map (· + (report :: reports).countP WorkerReport.isFailed) := by
      intro s' hs'
      rw [hs', hwrite, Option.map_map]
      refine Option.map_congr fun n _ => ?_
      simp only [Function.comp_apply, List.countP_cons]
      omega
    simp only [collect]
    split
    · rename_i s' vars heq
      rw [ih]
      exact hcount s' (by rw [heq])
    · rename_i s' heq
      rw [ih]
      exact hcount s' (by rw [heq])

theorem errors_startTimer (s : Scanner τ) (clock : Float) (operation : String) :
    (s.startTimer clock operation).1.errors = s.errors := by
  simp only [startTimer]
  split
  · rfl
  · rename_i m hmeter
    simp only [errors, hmeter, Option.map_some]
    rfl

theorem errors_endTimer {α : Type} (s : Scanner τ) (clock : Float) (timer : Option OperationTimer)
    (outcome : Except ScanFailure α) : (s.endTimer clock timer outcome).1.errors = s.errors := by
  simp only [endTimer]
  split
  · rename_i m timer' hmeter
    simp only [errors, hmeter, Option.map_some, Monitor.endOperation]
    split
    · rfl
    · split <;> rfl
  · rfl

theorem errors_timed {α : Type} (s : Scanner τ) (clock : Float) (operation : String)
    (body : Scanner τ → Scanner τ × Except ScanFailure α) {n : Nat}
    (hbody : (body (s.startTimer clock operation).1).1.errors =
      (s.startTimer clock operation).1.errors.map (· + n)) :
    (s.timed clock operation body).1.errors = s.errors.map (· + n) := by
  simp only [timed]
  rw [errors_endTimer, hbody, errors_startTimer]

/-- Every report of an error is counted, and nothing else. -/
theorem errors_scanFilesBelow [LE τ] [DecidableLE τ] {s : Scanner τ} {w : World τ}
    {pool : WorkerPool} {arrival : Arrival} (harrival : arrival.IsFair) (h : s.cache = none)
    (announce : Bool) (root : String) :
    (s.scanFilesBelow w pool arrival announce root).1.errors =
      s.errors.map (· + (s.rules.workspaceFiles w.files root).1.countP fun path =>
        (s.rules.task w.files pool arrival path).report.isFailed) := by
  have hwrite_if : ∀ (s : Scanner τ) (b : Bool) (records : List LogRecord),
      (if b then s.write records else s).errors = s.errors := by
    intro s b records
    cases b <;> rfl
  simp only [scanFilesBelow]
  rw [splitCached_of_cache_eq_none w (show (s.write _).cache = none from h)]
  simp only [scanWaiting]
  rw [errors_collect, hwrite_if, hwrite_if, errors_write, List.countP_map, (harrival _).countP_eq,
    List.countP_map]
  refine congrArg₂ _ (funext fun n => congrArg (n + ·) (List.countP_congr fun path _ => ?_)) rfl
  have hrules := (keeps_write_if (s.write (s.rules.workspaceFiles w.files root).2) announce
    [scanningRecord root ⟨[], (s.rules.workspaceFiles w.files root).1⟩]).rules
  rw [Function.comp_apply, Function.comp_apply, task, work, hrules]
  rfl

/-! ## Outcomes -/

/-- The text of the failure that the next measurement of a scanner breaks off with, if it does. -/
def breakdown? (s : Scanner τ) : Option String :=
  s.sampler?.bind fun sampler =>
    match sampler.next with
    | .failure text => some text
    | _ => none

/-- The outcome of an operation that is measured at its end. -/
def verdict {α : Type} (s : Scanner τ) (outcome : Except ScanFailure α) : Except ScanFailure α :=
  match s.breakdown? with
  | some text => .error (.broken text)
  | none => outcome

theorem verdict_eq_ok_iff {α : Type} {s : Scanner τ} {outcome : Except ScanFailure α} {a : α} :
    s.verdict outcome = .ok a ↔ s.breakdown? = none ∧ outcome = .ok a := by
  simp only [verdict]
  cases s.breakdown? <;> simp

theorem Keeps.verdict_eq {s s' : Scanner τ} {α : Type} (h : s.Keeps s')
    (outcome : Except ScanFailure α) : s'.verdict outcome = s.verdict outcome := by
  simp only [verdict, breakdown?, h.sampler]

/-- Rules are as before, and a measurement was taken. -/
structure Measures (s s' : Scanner τ) : Prop where
  rules : s'.rules = s.rules
  sampler : s'.sampler? = s.sampler?.map fun sampler => sampler.take.2

theorem Measures.keeps {s s' next next' : Scanner τ} (h : s.Measures next) (h' : s'.Measures next')
    (hkeeps : s.Keeps s') : next.Keeps next' :=
  ⟨h'.rules.trans (hkeeps.rules.trans h.rules.symm),
    by rw [h'.sampler, h.sampler, hkeeps.sampler]⟩

theorem endTimer_eq {α : Type} {s : Scanner τ} {m : Meter} (hmeter : s.meter = some m)
    (clock started : Float) (operation : String) (outcome : Except ScanFailure α) :
    (s.endTimer clock (some ⟨operation, started, none⟩) outcome).2 = s.verdict outcome ∧
      (s.endTimer clock (some ⟨operation, started, none⟩) outcome).1.sampler? =
        some m.sampler.take.2 := by
  have htake : m.sampler.take.1 = m.sampler.next := by
    simp only [Sampler.take]
    split <;> rfl
  simp only [endTimer, hmeter, verdict, breakdown?, sampler?, Monitor.endOperation, htake,
    Option.map_some, Option.bind_some]
  cases m.sampler.next <;> exact ⟨rfl, rfl⟩

/-- A timed operation takes one measurement, and fails if that breaks off. -/
theorem timed_eq {α : Type} (s : Scanner τ) (clock : Float) (operation : String)
    (body : Scanner τ → Scanner τ × Except ScanFailure α)
    (hbody : (s.startTimer clock operation).1.Keeps (body (s.startTimer clock operation).1).1) :
    (s.timed clock operation body).2 =
        s.verdict (body (s.startTimer clock operation).1).2 ∧
      s.Measures (s.timed clock operation body).1 := by
  have hkeeps := (s.keeps_startTimer clock operation).trans hbody
  have hsampler := hkeeps.sampler
  have hrules := (cache_endTimer (body (s.startTimer clock operation).1).1 clock
    (s.startTimer clock operation).2 (body (s.startTimer clock operation).1).2).2
  suffices h : (s.timed clock operation body).2 =
        s.verdict (body (s.startTimer clock operation).1).2 ∧
      (s.timed clock operation body).1.sampler? =
        s.sampler?.map fun sampler => sampler.take.2 from
    ⟨h.1, hrules.trans hkeeps.rules, h.2⟩
  rw [← hkeeps.verdict_eq, ← hsampler]
  cases hmeter : s.meter with
  | none =>
    have hnone : (body s).1.meter = none := by
      simpa [startTimer, hmeter, sampler?] using hsampler
    simp [timed, startTimer, endTimer, hmeter, hnone, verdict, breakdown?, sampler?]
  | some m =>
    have hstart : (s.startTimer clock operation).2 = some ⟨operation, clock, none⟩ := by
      simp only [startTimer, hmeter, Monitor.startOperation]
    obtain ⟨m', hmeter', -⟩ : ∃ m', (body (s.startTimer clock operation).1).1.meter = some m' ∧
        m'.sampler = m.sampler := by
      simpa only [sampler?, hmeter, Option.map_some, Option.map_eq_some_iff] using hsampler
    simp only [timed, hstart]
    obtain ⟨houtcome, htaken⟩ := endTimer_eq hmeter' clock clock operation
      (body (s.startTimer clock operation).1).2
    exact ⟨houtcome, by rw [htaken, sampler?, hmeter', Option.map_some, Option.map_some]⟩

theorem guarded_eq {α : Type} (s : Scanner τ) (clock : Float) (operation : String)
    (body : Scanner τ → Scanner τ × Except ScanFailure α)
    (hbody : (s.startTimer clock operation).1.Keeps (body (s.startTimer clock operation).1).1) :
    (s.guarded clock operation body).2 =
      s.verdict (body (s.startTimer clock operation).1).2 := by
  -- the timer ends as that of an operation which does the same and always succeeds
  have htimed := (s.timed_eq clock operation (fun s => ((body s).1, .ok ())) hbody).1
  simp only [timed] at htimed
  simp only [guarded]
  generalize (body (s.startTimer clock operation).1).1.endTimer clock
    (s.startTimer clock operation).2 (.ok ()) = ended at htimed ⊢
  obtain ⟨s', ended⟩ := ended
  simp only at htimed
  rw [htimed]
  simp only [verdict]
  cases s.breakdown? with
  | some text => rfl
  | none =>
    simp only
    cases (body (s.startTimer clock operation).1).2 <;> rfl

/-! ## Asking for a file -/

section Files

variable [LE τ] [DecidableLE τ]

theorem measures_scanFile (s : Scanner τ) (w : World τ) (path : String) :
    s.Measures (s.scanFile w path).1 :=
  (s.timed_eq w.clock "scan_file" (scanFileBody w path) (keeps_scanFileBody _ w path)).2

theorem measures_scanWorkspace (s : Scanner τ) (w : World τ) (arrival : Arrival) (root : String) :
    s.Measures (s.scanWorkspace w arrival root).1 :=
  (s.timed_eq w.clock "scan_workspace" _ (keeps_scanFilesBelow _ w _ arrival true root)).2

variable {s : Scanner τ} {w : World τ} {p : String → List Variable → τ → Prop}

theorem Holds.scanFile (h : s.Holds p) (hp : Admits s.rules w.files p) (path : String) :
    (s.scanFile w path).1.Holds p :=
  have hbody : ∀ s' : Scanner τ, s'.rules = s.rules → s'.Holds p →
      (Scanner.scanFileBody w path s').1.Holds p :=
    fun _ hrules hs => hs.scanFileBody (hrules.symm ▸ hp) path
  h.timed hbody

theorem Holds.scanWorkspace (h : s.Holds p) (hp : Admits s.rules w.files p) {arrival : Arrival}
    (harrival : arrival.IsFair) (root : String) :
    (s.scanWorkspace w arrival root).1.Holds p :=
  h.timed fun _ hrules hs => hs.scanFilesBelow harrival (hrules.symm ▸ hp) true root

theorem snd_scanFile {path : String}
    (hbody : (scanFileBody w path (s.startTimer w.clock "scan_file").1).2 =
      ((s.startTimer w.clock "scan_file").1.rules.report w.files path).answer) :
    (s.scanFile w path).2 = s.verdict (s.rules.report w.files path).answer := by
  have htimed := (s.timed_eq w.clock "scan_file" (scanFileBody w path)
    (keeps_scanFileBody _ w path)).1
  rw [hbody, (s.cache_startTimer w.clock "scan_file").2] at htimed
  exact htimed

/-- The answer about a file follows from the rules and the files, with a faithful cache and with
none. -/
theorem Faithful.snd_scanFile (h : s.Faithful w.files) (path : String) :
    (s.scanFile w path).2 = s.verdict (s.rules.report w.files path).answer :=
  Scanner.snd_scanFile ((h.startTimer w.clock "scan_file").snd_scanFileBody path)

/-- So does the answer about a file that was forgotten, whatever is known of others. -/
theorem Forgets.snd_scanFile {path : String} (h : s.Forgets path) (w : World τ) :
    (s.scanFile w path).2 = s.verdict (s.rules.report w.files path).answer :=
  Scanner.snd_scanFile ((h.startTimer w.clock "scan_file").snd_scanFileBody w)

end Files

/-! ## Asking for a workspace -/

section Workspaces

variable [LE τ] [DecidableLE τ] {s : Scanner τ} {w : World τ} {arrival : Arrival} {root : String}

/-- Where all workers report, the results of a workspace are the entries of its files, in an order
that follows from neither rules nor files. -/
theorem Faithful.snd_scanWorkspace (h : s.Faithful w.files) (harrival : arrival.IsFair)
    (hdelivers : s.rules.pool.Delivers arrival)
    (hnodup : (s.rules.workspaceFiles w.files root).1.Nodup) :
    ∃ order : List String, order.Perm (s.rules.workspaceFiles w.files root).1 ∧
      (s.scanWorkspace w arrival root).2 =
        s.verdict (.ok (order.filterMap (s.rules.entryOf? w.files))) := by
  have hrules := (s.cache_startTimer w.clock "scan_workspace").2
  rw [← hrules] at hnodup hdelivers
  obtain ⟨order, horder, heq⟩ := (h.startTimer w.clock "scan_workspace").results_scanFilesBelow
    harrival hdelivers true hnodup
  rw [hrules] at horder
  refine ⟨order, horder, ?_⟩
  rw [← hrules, ← heq]
  exact (timed_eq s w.clock _ _ (keeps_scanFilesBelow _ w _ arrival true root)).1

/-- With nothing in the cache it is the order in which the tasks are done; and the files whose
workers do not report have no entries. -/
theorem IsBlank.snd_scanWorkspace (h : s.IsBlank) {order : List String}
    (harrived : arrival.order
        ((s.rules.workspaceFiles w.files root).1.map
          (s.rules.task w.files s.rules.pool arrival)) =
      order.map (s.rules.task w.files s.rules.pool arrival))
    (hnodup : order.Nodup) :
    (s.scanWorkspace w arrival root).2 =
      s.verdict (.ok ((s.rules.pool.delivered arrival order).filterMap
        (s.rules.entryOf? w.files))) := by
  have hrules := (s.cache_startTimer w.clock "scan_workspace").2
  rw [← hrules] at harrived
  have hresults := (h.startTimer w.clock "scan_workspace").results_scanFilesBelow harrived hnodup true
  rw [← hrules, ← hresults]
  exact (timed_eq s w.clock _ _ (keeps_scanFilesBelow _ w _ arrival true root)).1

end Workspaces

end Scanner
end DeclScan
