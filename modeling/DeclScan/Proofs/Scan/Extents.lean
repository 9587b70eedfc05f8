import DeclScan.Proofs.Files.History
import DeclScan.Proofs.Language.Extents
import DeclScan.Proofs.Scan.Outcomes

/-!
# DeclScan.Proofs.Scan.Extents

A scan reports no number greater than the bytes of the file that it comes from. This is what limits
on the numbers in its output come down to.

* `StoredFile.length_text_le`: decoding does not lengthen a text.
* `FileStore.FilesBelow`: a limit on the bytes of all files.
* `ScanResults.Sound`: results under different paths, with a property of all their variables.
* `Scanner.IsBlank.sound_scanWorkspace`, `Scanner.IsBlank.reading_of_scanFile`: a scanner with nothing
  in its cache.
-/

namespace DeclScan

/-! ## Texts -/

namespace Utf8

theorem length_decodeLossyFrom_le (skip : Nat) (read : List Char) (bytes : List UInt8) :
    (decodeLossyFrom skip read bytes).length ≤ read.length + bytes.length := by
  induction bytes generalizing skip read with
  | nil =>
    rw [decodeLossyFrom, List.length_reverse, List.length_nil]
    omega
  | cons b bytes ih =>
    cases skip with
    | succ skip =>
      have hrest := ih skip read
      rw [decodeLossyFrom, List.length_cons]
      omega
    | zero =>
      rw [decodeLossyFrom, List.length_cons]
      split
      · rename_i c length _
        have hrest := ih (length - 1) (c :: read)
        rw [List.length_cons] at hrest
        omega
      · rename_i length _
        have hrest := ih (length - 1) ('\uFFFD' :: read)
        rw [List.length_cons] at hrest
        omega

theorem length_normalizeFrom_le (read s : List Char) :
    (normalizeFrom read s).length ≤ read.length + s.length := by
  fun_induction normalizeFrom read s with
  | case1 read =>
    rw [List.length_reverse, List.length_nil]
    omega
  | case2 read s ih =>
    simp only [List.length_cons] at ih ⊢
    omega
  | case3 read s _ ih =>
    simp only [List.length_cons] at ih ⊢
    omega
  | case4 read c s _ _ ih =>
    simp only [List.length_cons] at ih ⊢
    omega

end Utf8

variable {τ : Type}

/-- Each character takes a byte at least. -/
theorem StoredFile.length_text_le (f : StoredFile τ) : f.text.length ≤ f.bytes.length := by
  have hdecoded := Utf8.length_decodeLossyFrom_le 0 [] f.bytes
  have hnormal := Utf8.length_normalizeFrom_le [] (Utf8.decodeLossy f.bytes)
  rw [List.length_nil, Nat.zero_add] at hdecoded hnormal
  exact hnormal.trans hdecoded

/-! ## Files -/

namespace FileStore

/-- Every file has fewer than `limit` bytes. -/
def FilesBelow (limit : Nat) (store : FileStore τ) : Prop :=
  ∀ way f, store.entryAt? way = some (.file f) → f.bytes.length < limit

section

variable {limit : Nat} {store : FileStore τ}

theorem filesBelow_empty (limit : Nat) : (empty : FileStore τ).FilesBelow limit := by
  intro way f hf
  rw [entryAt?] at hf
  split at hf <;> cases hf

theorem FilesBelow.of_file? (h : store.FilesBelow limit) {path : String} {f : StoredFile τ}
    (hf : store.file? path = some f) : f.bytes.length < limit :=
  h _ f (entryAt?_of_file? hf)

theorem FilesBelow.makeDirectories (h : store.FilesBelow limit) (way names : List String) :
    (store.makeDirectories way names).FilesBelow limit :=
  fun other f hf => h other f (file_of_makeDirectories hf)

theorem FilesBelow.ensureDirectory (h : store.FilesBelow limit) {path : String}
    {next : FileStore τ} (hnext : store.ensureDirectory path = .ok next) :
    next.FilesBelow limit := by
  simp only [FileStore.ensureDirectory] at hnext
  split at hnext
  · cases hnext
    exact h
  · cases hnext
  · cases hnext
  · cases hnext
    exact h.makeDirectories _ _

theorem FilesBelow.write (h : store.FilesBelow limit) (path : String) {f : StoredFile τ}
    (hf : f.bytes.length < limit) : (store.write path f).FilesBelow limit := by
  intro way g hg
  simp only [FileStore.write] at hg
  by_cases hway : way = (Path.resolve path).names
  · subst hway
    by_cases hnil : (Path.resolve path).names = []
    · rw [hnil] at hg
      cases hg
    · rw [entryAt?_setEntry_self _ hnil] at hg
      cases hg
      exact hf
  · rw [entryAt?_setEntry_of_ne _ hway] at hg
    exact h.makeDirectories _ _ way g hg

end

end FileStore

/-! ## Readings -/

theorem ScanRules.within_of_reading? {r : ScanRules} (hregistry : r.registry = Registry.standard)
    {files : FileStore τ} {limit : Nat} (hfiles : files.FilesBelow limit) {path : String}
    {vars : List Variable} (h : r.reading? files path = some vars) :
    ∀ v ∈ vars, v.Within limit := by
  obtain ⟨e, f, found, he, hf, -, hfound, rfl⟩ := reading?_eq_some_iff.1 h
  rw [hregistry] at he
  have hbytes := hfiles.of_file? hf
  have htext := f.length_text_le
  intro v hv
  exact (Registry.measures_of_forFile? he _ _ _ hfound v hv).mono (by omega)

/-- Results of different files, with a property of all variables in them. -/
structure ScanResults.Sound (p : Variable → Prop) (results : ScanResults) : Prop where
  nodup : (Table.keys results).Nodup
  all : ∀ entry ∈ results, ∀ v ∈ entry.2, p v

theorem ScanResults.sound_nil (p : Variable → Prop) : Sound p [] :=
  ⟨List.nodup_nil, fun _ hentry => nomatch hentry⟩

theorem ScanResults.Sound.put {p : Variable → Prop} {results : ScanResults} (h : Sound p results)
    (path : String) {vars : List Variable} (hvars : ∀ v ∈ vars, p v) :
    Sound p (Table.put path vars results) :=
  ⟨Table.nodup_keys_put path vars h.nodup,
    Table.forall_mem_put (p := fun vars => ∀ v ∈ vars, p v) h.all hvars⟩

namespace Scanner

variable {s : Scanner τ} {w : World τ} {p : Variable → Prop}

theorem sound_collect {results : ScanResults} (h : ScanResults.Sound p results)
    {reports : List WorkerReport}
    (hreports : ∀ report ∈ reports, ∀ vars, report.vars? = some vars → ∀ v ∈ vars, p v) :
    ScanResults.Sound p (s.collect w results reports).2 := by
  induction reports generalizing s results with
  | nil => exact h
  | cons report reports ih =>
    rw [List.forall_mem_cons] at hreports
    have hsnd : (s.writeBack w report).2 = report.vars? := by
      simp only [writeBack, WorkerReport.vars?]
      cases report.outcome <;> rfl
    simp only [collect]
    split
    · rename_i s' vars heq
      rw [heq] at hsnd
      exact ih (h.put report.path (hreports.1 vars hsnd.symm)) hreports.2
    · exact ih h hreports.2

variable [LE τ] [DecidableLE τ]

theorem IsBlank.sound_scanFilesBelow (h : s.IsBlank)
    (hp : ∀ path vars, s.rules.reading? w.files path = some vars → ∀ v ∈ vars, p v)
    {pool : WorkerPool} {arrival : Arrival} (harrival : ∀ futures, arrival.order futures ⊆ futures)
    (announce : Bool) (root : String) :
    ScanResults.Sound p (s.scanFilesBelow w pool arrival announce root).2 := by
  let files := (s.rules.workspaceFiles w.files root).1
  let started := s.write (s.rules.workspaceFiles w.files root).2
  have hblank : started.IsBlank := h.of_cache_eq rfl
  have hsplit : (started.splitCached w files).2 = ⟨[], files⟩ := hblank.snd_splitCached files
  have hrules : _ = s.rules := ((started.keeps_splitCached w files).trans (keeps_write_if _ announce
    [scanningRecord root (started.splitCached w files).2])).rules
  simp only [Scanner.scanFilesBelow, Scanner.scanWaiting]
  refine sound_collect ?_ ?_
  · rw [hsplit]
    exact ScanResults.sound_nil p
  · intro report hreport vars hvars
    obtain ⟨future, hfuture, rfl⟩ := List.mem_map.1 hreport
    obtain ⟨path, -, rfl⟩ := List.mem_map.1 (harrival _ hfuture)
    have hreading := ScanRules.reading?_of_task hvars
    rw [hrules] at hreading
    exact hp _ vars hreading

theorem IsBlank.sound_scanWorkspace (h : s.IsBlank)
    (hp : ∀ path vars, s.rules.reading? w.files path = some vars → ∀ v ∈ vars, p v)
    {arrival : Arrival} (harrival : ∀ futures, arrival.order futures ⊆ futures) {root : String}
    {results : ScanResults} (hscan : (s.scanWorkspace w arrival root).2 = .ok results) :
    ScanResults.Sound p results := by
  let started := (s.startTimer w.clock "scan_workspace").1
  have hrules : started.rules = s.rules := (s.cache_startTimer w.clock "scan_workspace").2
  have hblank : started.IsBlank := h.startTimer w.clock "scan_workspace"
  have hsound : ScanResults.Sound p
      (started.scanFilesBelow w started.rules.pool arrival true root).2 :=
    hblank.sound_scanFilesBelow (hrules.symm ▸ hp) harrival true root
  have htimed := (timed_eq s w.clock "scan_workspace"
    (fun s => ((s.scanFilesBelow w s.rules.pool arrival true root).1,
      .ok (s.scanFilesBelow w s.rules.pool arrival true root).2))
    (keeps_scanFilesBelow _ w _ arrival true root)).1
  obtain ⟨-, hresults⟩ := verdict_eq_ok_iff.1 (htimed.symm.trans hscan)
  exact Except.ok.inj hresults ▸ hsound

theorem IsBlank.reading_of_scanFile (h : s.IsBlank) {path : String} {vars : List Variable}
    (hscan : (s.scanFile w path).2 = .ok vars) : s.rules.reading? w.files path = some vars := by
  rw [(h.faithful w.files).snd_scanFile, verdict_eq_ok_iff, WorkerReport.answer_eq_ok_iff] at hscan
  exact hscan.2

end Scanner
end DeclScan
