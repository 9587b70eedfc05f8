import DeclScan.Proofs.Scan.Outcomes
import DeclScan.Proofs.Timers.OneShot
import DeclScan.Workspace

/-!
# DeclScan.Proofs.Watch.Rescans

Scanning changed files anew. What is told about a file is what its content gives at that moment; no
result that is in the cache has a say in it.

* `Workspace.Gives`: what a file gives, said without the cache.
* `Workspace.Reports`: what is told when a file is scanned anew; `Workspace.rescanned_keeps`,
  `Workspace.reports_rescanned`: what a rescan leaves as it is, and that it tells this.
* `Workspace.Rescans`: an advance of the clock that consists of rescans.
-/

namespace DeclScan
namespace Workspace

variable {τ : Type}

section News

variable (s : Workspace τ) (w : World τ) (path : String)

/-- A file gives variables: the extractor for it finds them in its present text, and they are shown.
A file that cannot be read gives none, nor does one for which the measurement of the scan breaks
off. -/
def Gives (vars : List Variable) : Prop :=
  s.scanner.breakdown? = none ∧
    ∃ e f found, s.scanner.rules.registry.forFile? path = some e ∧ w.files.file? path = some f ∧
      Worker.isTooLarge s.scanner.rules.maxFileSize f.bytes.length = false ∧
      e.extract f.text path = .ok found ∧ s.visible found.vars = vars

/-- What a listener is told when a file is scanned anew: what the file gives, once. -/
structure Reports (listener : Option Listener) (s' : Workspace τ) : Prop where
  told : ∀ vars, s.Gives w path vars →
    s'.updates = s.updates ++ listener.elim [] fun _ => [⟨path, vars⟩]
  silent : (∀ vars, ¬ s.Gives w path vars) → s'.updates = s.updates

/-- The variables that a file gives. -/
def fresh? : Option (List Variable) :=
  match s.scanner.breakdown? with
  | some _ => none
  | none => (s.scanner.rules.reading? w.files path).map s.visible

theorem fresh?_eq_some_iff {vars : List Variable} :
    s.fresh? w path = some vars ↔ s.Gives w path vars := by
  rw [fresh?, Gives]
  cases s.scanner.breakdown? with
  | some text => simp
  | none =>
    simp only [Option.map_eq_some_iff, ScanRules.reading?_eq_some_iff, true_and]
    constructor
    · rintro ⟨read, ⟨e, f, found, he, hf, hsize, hfound, rfl⟩, rfl⟩
      exact ⟨e, f, found, he, hf, hsize, hfound, rfl⟩
    · rintro ⟨e, f, found, he, hf, hsize, hfound, rfl⟩
      exact ⟨found.vars, ⟨e, f, found, he, hf, hsize, hfound, rfl⟩, rfl⟩

theorem forgets_forget : (s.forget path).scanner.Forgets path := by
  intro c hc
  simp only [forget, Option.map_eq_some_iff] at hc
  obtain ⟨old, -, rfl⟩ := hc
  intro e he
  exact (Cache.mem_remove he).2

theorem toOption_scanFile_forget [Time τ] :
    ((s.forget path).scanFile w path).2.toOption = s.fresh? w path := by
  have hscan := (s.forgets_forget path).snd_scanFile w
  have houtcome : ((s.forget path).scanFile w path).2 =
      ((s.forget path).scanner.scanFile w path).2.map s.visible := rfl
  have hbreakdown : (s.forget path).scanner.breakdown? = s.scanner.breakdown? := rfl
  rw [houtcome, hscan, Scanner.verdict, hbreakdown, fresh?]
  cases s.scanner.breakdown? with
  | some text => rfl
  | none =>
    have hrules : (s.forget path).scanner.rules = s.scanner.rules := rfl
    rw [hrules, ScanRules.reading?]
    simp only [WorkerReport.answer, WorkerReport.vars?]
    cases (s.scanner.rules.report w.files path).outcome <;> rfl

end News

/-- Only scanner, listeners and log have changed, and the rules are as before. -/
structure Keeps (s s' : Workspace τ) : Prop where
  timers : s'.timers = s.timers
  debouncer : s'.debouncer = s.debouncer
  analysis : s'.analysis = s.analysis
  rules : s'.scanner.rules = s.scanner.rules

theorem keeps_scanFile [Time τ] (s : Workspace τ) (w : World τ) (path : String) :
    s.Keeps (s.scanFile w path).1 :=
  ⟨rfl, rfl, rfl, (s.scanner.measures_scanFile w path).rules⟩

theorem keeps_scanFile_forget [Time τ] (s : Workspace τ) (w : World τ) (path : String) :
    s.Keeps ((s.forget path).scanFile w path).1 :=
  ⟨rfl, rfl, rfl, ((s.forget path).scanner.measures_scanFile w path).rules⟩

/-! ## One rescan -/

def noteFailure (s : Workspace τ) (key : String) : Option String → Workspace τ
  | none => s
  | some text => s.write [failureRecord key text]

/-- A workspace after a file was scanned anew. -/
def rescanned [Time τ] (s : Workspace τ) (w : World τ) (path : String) (listener : Option Listener) :
    Workspace τ :=
  (s.rescan w path listener).1.noteFailure path (s.rescan w path listener).2

section Rescanned

variable (s : Workspace τ) (w : World τ) (path : String) (listener : Option Listener)

theorem keeps_noteFailure (key : String) (failure : Option String) :
    s.Keeps (s.noteFailure key failure) := by
  cases failure <;> exact ⟨rfl, rfl, rfl, rfl⟩

theorem updates_noteFailure (key : String) (failure : Option String) :
    (s.noteFailure key failure).updates = s.updates := by
  cases failure <;> rfl

theorem keeps_tell (vars : List Variable) : s.Keeps (s.tell path vars listener).1 := by
  cases listener <;> exact ⟨rfl, rfl, rfl, rfl⟩

theorem Keeps.trans {s s' s'' : Workspace τ} (h : s.Keeps s') (h' : s'.Keeps s'') : s.Keeps s'' :=
  ⟨h'.timers.trans h.timers, h'.debouncer.trans h.debouncer, h'.analysis.trans h.analysis,
    h'.rules.trans h.rules⟩

variable [Time τ]

theorem keeps_rescan : s.Keeps (s.rescan w path listener).1 := by
  have hscan := s.keeps_scanFile_forget w path
  simp only [rescan]
  split
  · rename_i asked vars heq
    rw [heq] at hscan
    exact hscan.trans (keeps_tell asked path listener vars)
  · rename_i asked refusal heq
    rw [heq] at hscan
    exact hscan.trans ⟨rfl, rfl, rfl, rfl⟩
  · rename_i asked text heq
    rw [heq] at hscan
    exact hscan

theorem rescanned_keeps : s.Keeps (s.rescanned w path listener) :=
  (s.keeps_rescan w path listener).trans (keeps_noteFailure _ _ _)

theorem updates_rescanned : (s.rescanned w path listener).updates =
    s.updates ++ (s.fresh? w path).elim [] fun vars => listener.elim [] fun _ => [⟨path, vars⟩] := by
  have hfresh := s.toOption_scanFile_forget w path
  have hscan : ((s.forget path).scanFile w path).1.updates = s.updates := rfl
  rw [rescanned, updates_noteFailure]
  simp only [rescan]
  split
  · rename_i asked vars heq
    rw [heq] at hfresh hscan
    have hfresh : s.fresh? w path = some vars := hfresh.symm
    have hscan : asked.updates = s.updates := hscan
    cases listener <;> simp [tell, hfresh, hscan]
  · rename_i asked refusal heq
    rw [heq] at hfresh hscan
    have hfresh : s.fresh? w path = none := hfresh.symm
    simpa [hfresh, write] using hscan
  · rename_i asked text heq
    rw [heq] at hfresh hscan
    have hfresh : s.fresh? w path = none := hfresh.symm
    simpa [hfresh] using hscan

theorem reports_rescanned : s.Reports w path listener (s.rescanned w path listener) where
  told vars hvars := by
    rw [updates_rescanned, (s.fresh?_eq_some_iff w path).2 hvars]
    rfl
  silent hnone := by
    have hfresh : s.fresh? w path = none :=
      Option.eq_none_iff_forall_ne_some.2 fun vars hvars =>
        hnone vars ((s.fresh?_eq_some_iff w path).1 hvars)
    rw [updates_rescanned, hfresh]
    exact List.append_nil _

end Rescanned

/-! ## Jobs that go off -/

def IsRescan : Job → Prop
  | .rescan _ _ => True
  | _ => False

section Jobs

variable (s : Workspace τ)

theorem keeps_write (records : List LogRecord) : s.Keeps (s.write records) := ⟨rfl, rfl, rfl, rfl⟩

theorem keeps_sampleMemory : s.Keeps s.sampleMemory.1 := by
  rw [sampleMemory]
  cases s.scanner.meter <;> exact ⟨rfl, rfl, rfl, rfl⟩

theorem keeps_clearCache : s.Keeps s.clearCache := ⟨rfl, rfl, rfl, rfl⟩

theorem keeps_afterCleanup {β : Type} (announced : Nat) (done : MemoryManager.Outcome β) :
    s.Keeps (s.afterCleanup announced done) := by
  have hstart : s.Keeps (({ s with memory := done.manager } : Workspace τ).write
      (done.log.take announced)) := ⟨rfl, rfl, rfl, rfl⟩
  rw [afterCleanup]
  refine Keeps.trans ?_ (keeps_write _ _)
  generalize ({ s with memory := done.manager } : Workspace τ).write
    (done.log.take announced) = r at hstart ⊢
  induction done.events generalizing r with
  | nil => exact hstart
  | cons event events ih =>
    cases event with
    | cleanup name => exact ih _ (hstart.trans r.keeps_clearCache)
    | notice text => exact ih _ hstart

variable [Time τ]

theorem keeps_perform (w : World τ) (job : Job) : s.Keeps (s.perform w job).1 := by
  cases job with
  | rescan path listener => exact s.keeps_rescan w path listener
  | sampleMemory => exact s.keeps_sampleMemory
  | checkMemory =>
    have hcheck : s.Keeps s.checkMemory.1 := by
      have hsampler : s.Keeps { s with memorySampler := s.memorySampler.take.2 } :=
        ⟨rfl, rfl, rfl, rfl⟩
      exact hsampler.trans (keeps_afterCleanup _ _ _)
    rw [perform]
    split
    · rename_i checked pressure heq
      rwa [heq] at hcheck
    · rename_i checked text heq
      rwa [heq] at hcheck

end Jobs

variable [Time τ]

/-- What a timer that goes off does. -/
def goOff (w : World τ) (timer : Timer τ Job) (s : Workspace τ) : Workspace τ :=
  (s.perform w timer.action).1.noteFailure timer.key (s.perform w timer.action).2

theorem goOff_rescan (w : World τ) {timer : Timer τ Job} {listener : Option Listener}
    (haction : timer.action = .rescan timer.key listener) (s : Workspace τ) :
    goOff w timer s = s.rescanned w timer.key listener := by
  rw [goOff, haction]
  rfl

theorem keeps_goOff (s : Workspace τ) (w : World τ) (timer : Timer τ Job) : s.Keeps (goOff w timer s) :=
  (s.keeps_perform w timer.action).trans (keeps_noteFailure _ _ _)

theorem passive_host (w : World τ) (p : Job → Prop) : (host w).Passive p (goOff w) where
  run_eq again timer s _ := by
    simp only [host, goOff]
    cases s.perform w timer.action with
    | mk next failure => cases failure <;> rfl
  timers_act timer s _ := (s.keeps_goOff w timer).timers
  timers_setTimers s timers := rfl

/-- A file that was scanned anew, and the time at which it was. -/
structure Rescan (τ : Type) where
  path : String
  time : τ

/-- `Rescans w listener target rescans s s'`: an advance to a time leads from `s` to `s'`, and
consists of rescans, one after the other. Each finds the clock at its time, and tells the listener
what the file gives then. -/
inductive Rescans (w : World τ) (listener : Option Listener) (target : τ) :
    List (Rescan τ) → Workspace τ → Workspace τ → Prop where
  | rest {s} : Rescans w listener target [] s { s with timers := { s.timers with now := target } }
  | rescan {rescan rescans s timers s'} : timers.now = rescan.time →
      s.Reports w rescan.path listener
        (({ s with timers := timers } : Workspace τ).rescanned w rescan.path listener) →
      Rescans w listener target rescans
        (({ s with timers := timers } : Workspace τ).rescanned w rescan.path listener) s' →
      Rescans w listener target (rescan :: rescans) s s'

theorem rescans_of_goOff {w : World τ} {listener : Option Listener} {timers : List (Timer τ Job)}
    {s s' : Workspace τ} (target : τ) (h : (host w).GoOff (goOff w) timers s s')
    (hactions : ∀ timer ∈ timers, timer.action = .rescan timer.key listener) :
    Rescans w listener target (timers.map fun timer => ⟨timer.key, timer.due⟩) s
      ((host w).moveClock target s') := by
  induction h with
  | nil => exact .rest
  | @cons timer rest s left s' hnow _ ih =>
    have haction := hactions timer List.mem_cons_self
    have hset : (host w).setTimers s left = { s with timers := left } := rfl
    rw [goOff_rescan w haction, hset] at ih
    obtain ⟨htold, hsilent⟩ :=
      reports_rescanned ({ s with timers := left } : Workspace τ) w timer.key listener
    exact .rescan hnow ⟨htold, hsilent⟩
      (ih fun other hother => hactions other (List.mem_cons_of_mem _ hother))

section Rescans

variable {w : World τ} {listener : Option Listener} {target : τ} {rescans : List (Rescan τ)}
  {s s' : Workspace τ}

theorem Rescans.keeps (h : Rescans w listener target rescans s s') :
    s'.debouncer = s.debouncer ∧ s'.analysis = s.analysis ∧
      s'.scanner.rules = s.scanner.rules := by
  induction h with
  | rest => exact ⟨rfl, rfl, rfl⟩
  | @rescan rescan rescans s timers s' _ _ _ ih =>
    have hkeeps := rescanned_keeps ({ s with timers := timers } : Workspace τ) w rescan.path listener
    exact ⟨ih.1.trans hkeeps.debouncer, ih.2.1.trans hkeeps.analysis, ih.2.2.trans hkeeps.rules⟩

/-- What was told about a file. -/
def updatesOf (s : Workspace τ) (path : String) : List Update :=
  s.updates.filter (Update.path · = path)

omit [Time τ] in
theorem Reports.updatesOf_eq {path other : String} (h : s.Reports w other listener s')
    (hne : other ≠ path) : s'.updatesOf path = s.updatesOf path := by
  rw [updatesOf, updatesOf]
  by_cases hgives : ∃ vars, s.Gives w other vars
  · obtain ⟨vars, hvars⟩ := hgives
    rw [h.told vars hvars, List.filter_append]
    cases listener <;> simp [hne]
  · rw [h.silent (not_exists.1 hgives)]

theorem Rescans.updatesOf_eq (h : Rescans w listener target rescans s s') {path : String}
    (hpath : ∀ rescan ∈ rescans, rescan.path ≠ path) : s'.updatesOf path = s.updatesOf path := by
  induction h with
  | rest => rfl
  | rescan _ hreports _ ih =>
    rw [ih fun other hother => hpath other (List.mem_cons_of_mem _ hother),
      hreports.updatesOf_eq (hpath _ List.mem_cons_self)]

end Rescans

end Workspace
end DeclScan
