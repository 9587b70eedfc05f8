import DeclScan.Scan.Scanner
import Mathlib

/-!
# DeclScan.Proofs.Scan.Interleaving

A scanner among others that change the files. That a worker reads a file and that its report is
written back are two steps, and the files can change between them.

* `Advances`: how files may change: what is new at a path is later than all that was there.
* `ScanSystem`: the scanner, the files, and the reports that are under way. It also keeps what no
  program sees: all earlier files, and where each result in the cache came from.
* `ScanStep`, `Reachable`: one step, and what steps lead to.
* `extraction?`: the variables of a file as it is.
-/

namespace DeclScan

variable {τ : Type}

namespace FileStore

def file? (store : FileStore τ) (path : String) : Option (StoredFile τ) :=
  match store.status path with
  | .ok (.file f) => some f
  | _ => none

theorem entryAt?_of_follow {store : FileStore τ} {way names found : List String}
    {entry : StoreEntry τ} (h : store.follow way names = .ok (found, entry)) :
    store.entryAt? found = some entry := by
  induction names generalizing way with
  | nil =>
    simp only [follow] at h
    split at h
    · rename_i entry' hentry
      cases h
      exact hentry
    · cases h
  | cons name names ih =>
    simp only [follow] at h
    split at h
    · cases h
    · cases h
    · split at h
      · split at h
        · cases h
        · exact ih h
      · exact ih h

theorem follow_of_locate {store : FileStore τ} {path : String} {way : List String}
    {entry : StoreEntry τ} (h : store.locate path = .ok (way, entry)) :
    store.follow [] (Path.names path) = .ok (way, entry) := by
  simp only [locate] at h
  split at h
  · cases h
  · split at h
    · cases h
    · rename_i found f hfound
      split at h
      · cases h
      · cases h
        exact hfound
    · rename_i hfound
      cases h
      exact hfound

theorem status_eq_ok {store : FileStore τ} {path : String} {entry : StoreEntry τ}
    (h : store.status path = .ok entry) : ∃ way, store.entryAt? way = some entry := by
  simp only [status] at h
  split at h
  · rename_i way found hfound
    cases h
    exact ⟨way, entryAt?_of_follow (follow_of_locate hfound)⟩
  · cases h

theorem status_of_file? {store : FileStore τ} {path : String} {f : StoredFile τ}
    (h : store.file? path = some f) : store.status path = .ok (.file f) := by
  simp only [file?] at h
  split at h
  · rename_i g hg
    rw [hg, Option.some.inj h]
  · cases h

theorem mem_of_file? {store : FileStore τ} {path : String} {f : StoredFile τ}
    (h : store.file? path = some f) : ∃ way, (way, .file f) ∈ store.entries := by
  obtain ⟨way, hentry⟩ := status_eq_ok (status_of_file? h)
  simp only [entryAt?] at hentry
  split at hentry
  · cases hentry
  · obtain ⟨⟨found, entry⟩, hfind, rfl⟩ := Option.map_eq_some_iff.1 hentry
    exact ⟨found, List.mem_of_find?_eq_some hfind⟩

theorem modified_eq_ok_iff {store : FileStore τ} {path : String} {t : τ} :
    store.modified path = .ok t ↔ ∃ f, store.file? path = some f ∧ f.modified = t := by
  simp only [modified, file?]
  cases store.status path with
  | error e => simp
  | ok entry =>
    cases entry with
    | directory => simp
    | file f => simp

theorem readText_eq_ok_iff {store : FileStore τ} {path : String} {text : List Char} :
    store.readText path = .ok text ↔
      ∃ f, store.file? path = some f ∧
        Utf8.normalizeNewlines (Utf8.decodeLossy f.bytes) = text := by
  simp only [readText, readBytes, file?]
  cases store.status path with
  | error e => simp
  | ok entry =>
    cases entry with
    | directory => simp
    | file f => simp

end FileStore

/-- The variables of a file: what the extractor for it makes of its text. -/
def extraction? (registry : Registry) (store : FileStore τ) (path : String) :
    Option (List Variable) :=
  match registry.forFile? path, store.readText path with
  | some e, .ok text =>
    match e.extract text path with
    | .ok found => some found.vars
    | .error _ => none
  | _, _ => none

theorem extraction?_eq_some_iff {registry : Registry} {store : FileStore τ} {path : String}
    {vars : List Variable} :
    extraction? registry store path = some vars ↔
      ∃ e text found, registry.forFile? path = some e ∧ store.readText path = .ok text ∧
        e.extract text path = .ok found ∧ found.vars = vars := by
  simp only [extraction?]
  constructor
  · intro h
    split at h
    · rename_i e text he htext
      split at h
      · rename_i found hfound
        exact ⟨e, text, found, he, htext, hfound, by simpa using h⟩
      · cases h
    · cases h
  · rintro ⟨e, text, found, he, htext, hfound, rfl⟩
    simp only [he, htext, hfound]

theorem extraction?_congr (registry : Registry) {store other : FileStore τ} {path : String}
    (h : store.file? path = other.file? path) :
    extraction? registry store path = extraction? registry other path := by
  refine Option.ext fun vars => ?_
  simp only [extraction?_eq_some_iff, FileStore.readText_eq_ok_iff, h]

theorem path_scan (registry : Registry) (maxFileSize : Option Int) (store : FileStore τ)
    (path : String) : (Worker.scan registry maxFileSize store path).path = path := by
  have hextract : ∀ e, (Worker.extract e store path).path = path := by
    intro e
    simp only [Worker.extract]
    split
    · rfl
    · split <;> rfl
  simp only [Worker.scan]
  split
  · rfl
  · split
    · exact hextract _
    · split
      · rfl
      · split
        · rfl
        · exact hextract _

theorem extraction?_of_extract {registry : Registry} {e : Extractor} {store : FileStore τ}
    {path : String} {vars : List Variable} (he : registry.forFile? path = some e)
    (h : (Worker.extract e store path).outcome = .scanned vars) :
    extraction? registry store path = some vars := by
  simp only [Worker.extract] at h
  split at h
  · cases h
  · rename_i text htext
    split at h
    · cases h
    · rename_i found hfound
      exact extraction?_eq_some_iff.2 ⟨e, text, found, he, htext, hfound, by simpa using h⟩

theorem extraction?_of_scan {registry : Registry} {maxFileSize : Option Int} {store : FileStore τ}
    {path : String} {vars : List Variable}
    (h : (Worker.scan registry maxFileSize store path).outcome = .scanned vars) :
    extraction? registry store path = some vars := by
  simp only [Worker.scan] at h
  split at h
  · cases h
  · rename_i e he
    split at h
    · exact extraction?_of_extract he h
    · split at h
      · cases h
      · split at h
        · cases h
        · exact extraction?_of_extract he h

/-- From the files `now`, with others before them, to `next`: at each path there is the same file as
now, or none, or one with a later time than any file had there. -/
def Advances [LT τ] (before : List (FileStore τ)) (now next : FileStore τ) : Prop :=
  ∀ path, next.file? path = now.file? path ∨
    ∀ f, next.file? path = some f →
      ∀ old ∈ now :: before, ∀ g, old.file? path = some g → g.modified < f.modified

/-- A report and the files that the worker saw. -/
structure Flight (τ : Type) where
  report : WorkerReport
  seen : FileStore τ

/-- A result that was put into the cache, the files that the worker saw, and those at the time of
putting in. -/
structure Landing (τ : Type) where
  path : String
  vars : List Variable
  seen : FileStore τ
  files : FileStore τ

/-- In a history with the newest files first, the worker read no later than the result was put in. -/
def Landing.Within (l : Landing τ) (history : List (FileStore τ)) : Prop :=
  ∃ later earlier, history = later ++ l.files :: earlier ∧ l.seen ∈ l.files :: earlier

theorem Landing.Within.cons {l : Landing τ} {history : List (FileStore τ)} (h : l.Within history)
    (next : FileStore τ) : l.Within (next :: history) := by
  obtain ⟨later, earlier, rfl, hseen⟩ := h
  exact ⟨next :: later, earlier, rfl, hseen⟩

theorem Landing.Within.files_mem {l : Landing τ} {history : List (FileStore τ)}
    (h : l.Within history) : l.files ∈ history := by
  obtain ⟨later, earlier, rfl, -⟩ := h
  exact List.mem_append_right later List.mem_cons_self

structure ScanSystem (τ : Type) where
  scanner : Scanner τ
  world : World τ
  before : List (FileStore τ)
  flights : List (Flight τ)
  landings : List (Landing τ)

/-- What is put in when a report is written back: a result of a file that is still there. -/
def Flight.landing? (flight : Flight τ) (files : FileStore τ) : Option (Landing τ) :=
  match flight.report.outcome, files.modified flight.report.path with
  | .scanned vars, .ok _ => some ⟨flight.report.path, vars, flight.seen, files⟩
  | _, _ => none

theorem Flight.landing?_of_scanned {flight : Flight τ} {files : FileStore τ}
    {vars : List Variable} {t : τ} (houtcome : flight.report.outcome = .scanned vars)
    (hmodified : files.modified flight.report.path = .ok t) :
    flight.landing? files = some ⟨flight.report.path, vars, flight.seen, files⟩ := by
  simp only [landing?, houtcome, hmodified]

theorem Flight.landing?_eq_some {flight : Flight τ} {files : FileStore τ} {l : Landing τ}
    (h : flight.landing? files = some l) :
    flight.report.outcome = .scanned l.vars ∧ l.path = flight.report.path ∧
      l.seen = flight.seen ∧ l.files = files := by
  simp only [landing?] at h
  split at h
  · rename_i vars t houtcome hmodified
    obtain rfl := Option.some.inj h
    exact ⟨houtcome, rfl, rfl, rfl⟩
  · cases h

namespace ScanSystem

def history (s : ScanSystem τ) : List (FileStore τ) := s.world.files :: s.before

def extraction? (s : ScanSystem τ) (path : String) : Option (List Variable) :=
  DeclScan.extraction? s.scanner.rules.registry s.world.files path

def landing? (s : ScanSystem τ) (path : String) : Option (Landing τ) :=
  s.landings.find? fun l => l.path = path

end ScanSystem

section Steps

variable [Preorder τ] [DecidableLE τ]

inductive ScanStep (s : ScanSystem τ) : ScanSystem τ → Prop
  /-- Others change files, and time goes by. -/
  | change (world : World τ) (h : Advances s.before s.world.files world.files) :
    ScanStep s { s with world := world, before := s.world.files :: s.before }
  /-- A worker reads a file. -/
  | read (path : String) :
    ScanStep s { s with
      flights := ⟨s.scanner.work s.world path, s.world.files⟩ :: s.flights }
  /-- A report is written back, in whatever order. -/
  | land (flight : Flight τ) (flights : List (Flight τ)) (h : s.flights.Perm (flight :: flights)) :
    ScanStep s { s with
      scanner := (s.scanner.writeBack s.world flight.report).1
      flights := flights
      landings := (flight.landing? s.world.files).toList ++ s.landings }
  | ask (path : String) :
    ScanStep s { s with scanner := (s.scanner.lookup s.world path).1 }
  | invalidate (path : String) :
    ScanStep s { s with
      scanner := { s.scanner with cache := s.scanner.cache.map fun c => (c.invalidate path).1 } }
  | clear :
    ScanStep s { s with scanner := { s.scanner with cache := s.scanner.cache.map Cache.clear } }
  /-- Logging and measuring. -/
  | record (scanner : Scanner τ) (hcache : scanner.cache = s.scanner.cache)
    (hrules : scanner.rules = s.scanner.rules) : ScanStep s { s with scanner := scanner }

/-- What a scanner with nothing in its cache can come to. -/
inductive Reachable : ScanSystem τ → Prop
  | start (scanner : Scanner τ) (world : World τ)
    (h : ∀ c, scanner.cache = some c → c.entries = []) : Reachable ⟨scanner, world, [], [], []⟩
  | step {s s' : ScanSystem τ} (h : Reachable s) (hstep : ScanStep s s') : Reachable s'

theorem Reachable.steps {s s' : ScanSystem τ} (h : Reachable s)
    (hsteps : Relation.ReflTransGen ScanStep s s') : Reachable s' := by
  induction hsteps with
  | refl => exact h
  | tail _ hstep ih => exact ih.step hstep

end Steps
end DeclScan
