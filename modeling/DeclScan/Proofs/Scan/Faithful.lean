import DeclScan.Proofs.Scan.Coherence
import DeclScan.Proofs.Scan.Operations

/-!
# DeclScan.Proofs.Scan.Faithful

What a scanner answers about a file, said without its cache. A cache is faithful to the files if
whatever it would serve is what a worker would report. Then the answers follow from the rules and the
files alone.

* `ScanRules.reading?`: the variables that a worker reports about a file, if it does.
* `Scanner.Keeps`: rules and measurements are as before.
* `Scanner.Holds`: a property of all results in the cache. Operations keep it if readings of the files
  have it.
* `Scanner.Faithful`: the cache tells the truth about the files as they are.
* `Scanner.Forgets`: the cache says nothing about a file.
-/

namespace DeclScan

variable {τ : Type}

/-! ## Readings -/

def WorkerReport.vars? (report : WorkerReport) : Option (List Variable) :=
  match report.outcome with
  | .scanned vars => some vars
  | _ => none

theorem WorkerReport.vars?_eq_some_iff {report : WorkerReport} {vars : List Variable} :
    report.vars? = some vars ↔ report.outcome = .scanned vars := by
  simp only [vars?]
  cases report.outcome <;> simp

/-- The answer about a file that was asked for. -/
def WorkerReport.answer (report : WorkerReport) : Except ScanFailure (List Variable) :=
  match report.outcome with
  | .noExtractor => .error (.refused ⟨report.path, unsupportedText⟩)
  | .tooLarge size => .error (.refused ⟨report.path, Worker.tooLargeText size⟩)
  | .scanned vars => .ok vars
  | .failed reason => .error (.refused ⟨report.path, reason⟩)

theorem WorkerReport.answer_eq_ok_iff {report : WorkerReport} {vars : List Variable} :
    report.answer = .ok vars ↔ report.vars? = some vars := by
  simp only [answer, vars?]
  cases report.outcome <;> simp

/-- The text that an extractor is given of a file. -/
def StoredFile.text (f : StoredFile τ) : List Char :=
  Utf8.normalizeNewlines (Utf8.decodeLossy f.bytes)

namespace ScanRules

def report (r : ScanRules) (files : FileStore τ) (path : String) : WorkerReport :=
  Worker.scan r.registry r.maxFileSize files path

def reading? (r : ScanRules) (files : FileStore τ) (path : String) : Option (List Variable) :=
  (r.report files path).vars?

theorem outcome_extract {e : Extractor} {files : FileStore τ} {path : String}
    {vars : List Variable} :
    (Worker.extract e files path).outcome = .scanned vars ↔
      ∃ f found, files.file? path = some f ∧ e.extract f.text path = .ok found ∧
        found.vars = vars := by
  simp only [Worker.extract]
  constructor
  · intro h
    split at h
    · cases h
    · rename_i text htext
      obtain ⟨f, hf, rfl⟩ := FileStore.readText_eq_ok_iff.1 htext
      split at h
      · cases h
      · rename_i found hfound
        exact ⟨f, found, hf, hfound, by simpa using h⟩
  · rintro ⟨f, found, hf, hfound, rfl⟩
    have htext : files.readText path = .ok f.text :=
      FileStore.readText_eq_ok_iff.2 ⟨f, hf, rfl⟩
    simp only [htext, hfound]

theorem reading?_eq_some_iff {r : ScanRules} {files : FileStore τ} {path : String}
    {vars : List Variable} :
    r.reading? files path = some vars ↔
      ∃ e f found, r.registry.forFile? path = some e ∧ files.file? path = some f ∧
        Worker.isTooLarge r.maxFileSize f.bytes.length = false ∧
        e.extract f.text path = .ok found ∧ found.vars = vars := by
  have hsize : ∀ f, files.file? path = some f → files.sizeOf path = .ok f.bytes.length :=
    fun f hf => by simp only [FileStore.sizeOf, FileStore.status_of_file? hf]
  rw [reading?, WorkerReport.vars?_eq_some_iff, report, Worker.scan]
  cases he : r.registry.forFile? path with
  | none => simp
  | some e =>
    cases hlimit : r.maxFileSize with
    | none => simp [outcome_extract, Worker.isTooLarge]
    | some limit =>
      simp only [Option.some.injEq, exists_and_left, exists_eq_left']
      cases hsized : files.sizeOf path with
      | error fault =>
        simp only [reduceCtorEq, false_iff, not_exists, not_and]
        intro f hf
        rw [hsize f hf] at hsized
        cases hsized
      | ok size =>
        simp only
        split
        · rename_i hlarge
          simp only [reduceCtorEq, false_iff, not_exists, not_and]
          intro f hf hsmall
          rw [hsize f hf] at hsized
          cases hsized
          exact absurd hlarge (Bool.eq_false_iff.1 hsmall)
        · rename_i hsmall
          rw [outcome_extract]
          constructor
          · rintro ⟨f, found, hf, hfound⟩
            rw [hsize f hf] at hsized
            cases hsized
            exact ⟨f, hf, Bool.eq_false_iff.2 hsmall, found, hfound⟩
          · rintro ⟨f, hf, -, found, hfound⟩
            exact ⟨f, found, hf, hfound⟩

theorem reading?_congr (r : ScanRules) {files other : FileStore τ} {path : String}
    (h : files.file? path = other.file? path) :
    r.reading? files path = r.reading? other path := by
  refine Option.ext fun vars => ?_
  simp only [reading?_eq_some_iff, h]

end ScanRules

namespace Scanner

/-! ## What operations leave as it is -/

def sampler? (s : Scanner τ) : Option (Sampler Int) := s.meter.map Meter.sampler

/-- Rules and measurements to come are as before. -/
structure Keeps (s s' : Scanner τ) : Prop where
  rules : s'.rules = s.rules
  sampler : s'.sampler? = s.sampler?

theorem Keeps.refl (s : Scanner τ) : s.Keeps s := ⟨rfl, rfl⟩

theorem Keeps.trans {s s' s'' : Scanner τ} (h : s.Keeps s') (h' : s'.Keeps s'') : s.Keeps s'' :=
  ⟨h'.rules.trans h.rules, h'.sampler.trans h.sampler⟩

section Keeps

variable (s : Scanner τ) (w : World τ)

theorem keeps_write (records : List LogRecord) : s.Keeps (s.write records) := ⟨rfl, rfl⟩

theorem keeps_measure (change : Monitor → Monitor) : s.Keeps (s.measure change) := by
  refine ⟨rfl, ?_⟩
  simp only [sampler?, measure, Option.map_map]
  rfl

theorem keeps_startTimer (clock : Float) (operation : String) :
    s.Keeps (s.startTimer clock operation).1 := by
  simp only [startTimer]
  split
  · exact .refl s
  · rename_i m hmeter
    exact ⟨rfl, by simp [sampler?, hmeter]⟩

theorem keeps_remember (path : String) (vars : List Variable) :
    s.Keeps (s.remember w path vars) := by
  simp only [remember]
  split
  · exact .refl s
  · exact ⟨rfl, rfl⟩

theorem keeps_writeBack (report : WorkerReport) : s.Keeps (s.writeBack w report).1 := by
  simp only [writeBack]
  split
  · exact (s.keeps_remember w _ _).trans (keeps_write _ _)
  · exact s.keeps_write _
  · exact s.keeps_write _
  · exact (s.keeps_write _).trans (keeps_measure _ _)

theorem keeps_answer (report : WorkerReport) : s.Keeps (s.answer w report).1 := by
  simp only [answer]
  split
  · exact .refl s
  · exact .refl s
  · exact s.keeps_writeBack w report
  · exact s.keeps_writeBack w report

theorem keeps_collect (results : ScanResults) (reports : List WorkerReport) :
    s.Keeps (s.collect w results reports).1 := by
  induction reports generalizing s results with
  | nil => exact .refl s
  | cons report reports ih =>
    have hwrite := s.keeps_writeBack w report
    simp only [collect]
    split
    · rename_i s' vars heq
      rw [heq] at hwrite
      exact hwrite.trans (ih s' _)
    · rename_i s' heq
      rw [heq] at hwrite
      exact hwrite.trans (ih s' _)

theorem keeps_write_if (b : Bool) (records : List LogRecord) :
    s.Keeps (if b then s.write records else s) := by
  cases b
  · exact .refl s
  · exact s.keeps_write records

theorem keeps_scanWaiting (pool : WorkerPool) (arrival : Arrival) (split : Split) :
    s.Keeps (s.scanWaiting w pool arrival split).1 := by
  simp only [scanWaiting]
  exact (s.keeps_write_if _ _).trans (keeps_collect _ w _ _)

variable [LE τ] [DecidableLE τ]

theorem keeps_lookup (path : String) : s.Keeps (s.lookup w path).1 := by
  refine ⟨s.rules_lookup w path, ?_⟩
  cases hcache : s.cache with
  | none => simp only [lookup, hcache]
  | some c =>
    simp only [lookup, hcache]
    split
    · exact (keeps_measure _ Monitor.recordCacheHit).sampler
    · exact (keeps_measure _ Monitor.recordCacheMiss).sampler

theorem keeps_splitCached (paths : List String) : s.Keeps (s.splitCached w paths).1 := by
  induction paths generalizing s with
  | nil => exact .refl s
  | cons path paths ih =>
    have hrest := (s.keeps_lookup w path).trans (ih (s.lookup w path).1)
    simp only [splitCached]
    split <;> exact hrest

theorem keeps_scanFilesBelow (pool : WorkerPool) (arrival : Arrival) (announce : Bool)
    (root : String) : s.Keeps (s.scanFilesBelow w pool arrival announce root).1 := by
  simp only [scanFilesBelow]
  exact (((s.keeps_write _).trans (keeps_splitCached _ w _)).trans (keeps_write_if _ _ _)).trans
    (keeps_scanWaiting _ w _ _ _)

end Keeps

theorem snd_answer (s : Scanner τ) (w : World τ) (report : WorkerReport) :
    (s.answer w report).2 = report.answer := by
  simp only [Scanner.answer, WorkerReport.answer]
  cases report.outcome <;> rfl

/-! ## What a cache holds -/

/-- Path, variables and time of each result in the cache have a property. -/
def Holds (p : String → List Variable → τ → Prop) (s : Scanner τ) : Prop :=
  ∀ c, s.cache = some c → c.Each p

/-- The property holds of every reading of the files, with the time that its file has. -/
def Admits (r : ScanRules) (files : FileStore τ) (p : String → List Variable → τ → Prop) : Prop :=
  ∀ path vars t, r.reading? files path = some vars → files.modified path = .ok t → p path vars t

section Holds

variable {p : String → List Variable → τ → Prop} {s : Scanner τ} {w : World τ}

theorem holds_of_cache_eq_none (h : s.cache = none) : s.Holds p := by
  intro c hc
  rw [h] at hc
  cases hc

theorem Holds.of_cache_eq {s' : Scanner τ} (h : s.Holds p) (hcache : s'.cache = s.cache) :
    s'.Holds p :=
  fun c hc => h c (hcache ▸ hc)

theorem Holds.mono {q : String → List Variable → τ → Prop} (h : s.Holds p)
    (hpq : ∀ path vars t, p path vars t → q path vars t) : s.Holds q :=
  fun c hc e he => hpq _ _ _ (h c hc e he)

theorem Holds.writeBack (h : s.Holds p) (hp : Admits s.rules w.files p) {report : WorkerReport}
    (hreport : ∀ vars, report.vars? = some vars →
      s.rules.reading? w.files report.path = some vars) :
    (s.writeBack w report).1.Holds p := by
  intro c hc
  rw [cache_writeBack] at hc
  cases houtcome : report.outcome with
  | scanned vars =>
    simp only [houtcome, Option.map_eq_some_iff] at hc
    obtain ⟨old, hold, rfl⟩ := hc
    have hread := hreport vars (WorkerReport.vars?_eq_some_iff.2 houtcome)
    cases hmodified : w.files.modified report.path with
    | error e => exact h old hold
    | ok t =>
      exact (h old hold).store t _ _ _ (fun _ _ _ _ hother => hother)
        (hp _ _ _ hread hmodified)
  | _ =>
    simp only [houtcome] at hc
    exact h c hc

theorem vars?_work {path : String} {vars : List Variable}
    (h : (s.work w path).vars? = some vars) :
    s.rules.reading? w.files (s.work w path).path = some vars := by
  rw [show (s.work w path).path = path from path_scan _ _ _ _]
  exact h

theorem Holds.answer (h : s.Holds p) (hp : Admits s.rules w.files p) (path : String) :
    (s.answer w (s.work w path)).1.Holds p := by
  simp only [Scanner.answer]
  split
  · exact h
  · exact h
  · exact h.writeBack hp fun _ hvars => vars?_work hvars
  · exact h.writeBack hp fun _ hvars => vars?_work hvars

theorem Holds.timed {α : Type} {clock : Float} {operation : String}
    {body : Scanner τ → Scanner τ × Except ScanFailure α} (h : s.Holds p)
    (hbody : ∀ s' : Scanner τ, s'.rules = s.rules → s'.Holds p → (body s').1.Holds p) :
    (s.timed clock operation body).1.Holds p := by
  obtain ⟨hcache, hrules⟩ := s.cache_startTimer clock operation
  have hdone := hbody _ hrules (h.of_cache_eq hcache)
  exact hdone.of_cache_eq (cache_endTimer _ _ _ _).1

/-- Nothing is in the cache, or there is none. -/
def IsBlank (s : Scanner τ) : Prop := s.Holds fun _ _ _ => False

theorem IsBlank.startTimer (h : s.IsBlank) (clock : Float) (operation : String) :
    (s.startTimer clock operation).1.IsBlank :=
  h.of_cache_eq (s.cache_startTimer clock operation).1

variable [LE τ] [DecidableLE τ]

theorem Holds.lookup (h : s.Holds p) (path : String) : (s.lookup w path).1.Holds p := by
  intro c hc
  rw [cache_lookup, Option.map_eq_some_iff] at hc
  obtain ⟨old, hold, rfl⟩ := hc
  exact (h old hold).lookup _ _ _

/-- The part of scanning a file that is timed. -/
def scanFileBody (w : World τ) (path : String) (s : Scanner τ) :
    Scanner τ × Except ScanFailure (List Variable) :=
  match s.lookup w path with
  | (s, some vars) => (s, .ok vars)
  | (s, none) =>
    let report := s.work w path
    (s.write report.log).answer w report

theorem Holds.scanFileBody (h : s.Holds p) (hp : Admits s.rules w.files p) (path : String) :
    (scanFileBody w path s).1.Holds p := by
  have hlookup : (s.lookup w path).1.Holds p := h.lookup path
  have hrules := s.rules_lookup w path
  simp only [Scanner.scanFileBody]
  cases hasked : s.lookup w path with
  | mk asked found =>
    rw [hasked] at hlookup hrules
    cases found with
    | some vars => exact hlookup
    | none =>
      have hwritten : (asked.write (asked.work w path).log).Holds p := hlookup.of_cache_eq rfl
      exact hwritten.answer (hrules.symm ▸ hp) path

theorem keeps_scanFileBody (s : Scanner τ) (w : World τ) (path : String) :
    s.Keeps (Scanner.scanFileBody w path s).1 := by
  have hkeeps := s.keeps_lookup w path
  simp only [Scanner.scanFileBody]
  cases hasked : s.lookup w path with
  | mk asked found =>
    rw [hasked] at hkeeps
    cases found with
    | some vars => exact hkeeps
    | none => exact (hkeeps.trans (keeps_write asked (asked.work w path).log)).trans (keeps_answer _ w _)

end Holds

/-! ## Faithful caches -/

section Faithful

variable [LE τ] {s : Scanner τ} {w : World τ}

/-- What would be served about a file is what a worker would report. -/
def Served (r : ScanRules) (files : FileStore τ) (path : String) (vars : List Variable) (t : τ) :
    Prop :=
  ∀ current, files.modified path = .ok current → current ≤ t → r.reading? files path = some vars

theorem admits_served (r : ScanRules) (files : FileStore τ) : Admits r files (Served r files) :=
  fun _ _ _ hread _ _ _ _ => hread

/-- The cache tells the truth about the files. -/
def Faithful (s : Scanner τ) (files : FileStore τ) : Prop := s.Holds (Served s.rules files)

theorem Faithful.startTimer {files : FileStore τ} (h : s.Faithful files) (clock : Float)
    (operation : String) : (s.startTimer clock operation).1.Faithful files := by
  obtain ⟨hcache, hrules⟩ := s.cache_startTimer clock operation
  rw [Faithful, hrules]
  exact Holds.of_cache_eq h hcache

theorem IsBlank.faithful (h : s.IsBlank) (files : FileStore τ) : s.Faithful files :=
  h.mono fun _ _ _ => False.elim

variable [DecidableLE τ]

theorem Faithful.reading_of_lookup (h : s.Faithful w.files) {path : String}
    {vars : List Variable} (hhit : (s.lookup w path).2 = some vars) :
    s.rules.reading? w.files path = some vars := by
  obtain ⟨c, e, current, hcache, he, rfl, rfl, hcurrent, hle⟩ := s.entry_of_lookup w hhit
  exact h c hcache e he current hcurrent hle

theorem Faithful.lookup (h : s.Faithful w.files) (path : String) :
    (s.lookup w path).1.Faithful w.files := by
  rw [Faithful, rules_lookup]
  exact Holds.lookup h path

theorem snd_scanFileBody {path : String} (hserved : ∀ vars, (s.lookup w path).2 = some vars →
    s.rules.reading? w.files path = some vars) :
    (scanFileBody w path s).2 = (s.rules.report w.files path).answer := by
  have hrules := s.rules_lookup w path
  simp only [scanFileBody]
  cases hasked : s.lookup w path with
  | mk asked found =>
    rw [hasked] at hrules hserved
    cases found with
    | some vars => exact (WorkerReport.answer_eq_ok_iff.2 (hserved vars rfl)).symm
    | none =>
      simp only
      rw [snd_answer, work, hrules]
      rfl

theorem Faithful.snd_scanFileBody (h : s.Faithful w.files) (path : String) :
    (scanFileBody w path s).2 = (s.rules.report w.files path).answer :=
  Scanner.snd_scanFileBody fun _ hhit => h.reading_of_lookup hhit

end Faithful

/-! ## Forgotten files -/

section Forgets

variable {s : Scanner τ} {path : String}

/-- No result in the cache is about a file. -/
def Forgets (path : String) (s : Scanner τ) : Prop := s.Holds fun other _ _ => other ≠ path

theorem IsBlank.forgets (h : s.IsBlank) (path : String) : s.Forgets path :=
  h.mono fun _ _ _ => False.elim

theorem Forgets.startTimer (h : s.Forgets path) (clock : Float) (operation : String) :
    (s.startTimer clock operation).1.Forgets path :=
  h.of_cache_eq (s.cache_startTimer clock operation).1

variable [LE τ] [DecidableLE τ]

theorem Forgets.snd_lookup (h : s.Forgets path) (w : World τ) : (s.lookup w path).2 = none := by
  refine Option.eq_none_iff_forall_ne_some.2 fun vars hhit => ?_
  obtain ⟨c, e, -, hcache, he, hpath, -⟩ := s.entry_of_lookup w hhit
  exact h c hcache e he hpath

theorem IsBlank.snd_lookup (h : s.IsBlank) (w : World τ) (path : String) :
    (s.lookup w path).2 = none :=
  (h.forgets path).snd_lookup w

theorem Forgets.snd_scanFileBody (h : s.Forgets path) (w : World τ) :
    (scanFileBody w path s).2 = (s.rules.report w.files path).answer :=
  Scanner.snd_scanFileBody fun vars hhit => by
    rw [h.snd_lookup w] at hhit
    cases hhit

end Forgets

end Scanner
end DeclScan
