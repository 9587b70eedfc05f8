import DeclScan.Proofs.Files.History
import DeclScan.Proofs.Run
import DeclScan.Proofs.Scan.Coverage
import DeclScan.Timers.Exact
import DeclScan.Workspace

/-!
# DeclScan.Proofs.Scan.Transparency

A cache cannot be seen. A scanner with one and a scanner without give the same answers, whatever is
asked and however the files change in between.

* `ScanEvent`, `ScanSession.step`: requests and changes.
* `ScanSession.Truthful`: what is in the cache was read from files that were there at some time.
* `ScanSession.Matches`, `ScanSession.Matches.step`: two sessions that differ in their caches, and what
  a step preserves.
* `ScanSession.Matches.run`: so the answers are the same.
-/

namespace DeclScan

variable {τ : Type}

/-- What can happen to a scanner: others change the files, or it is asked for something. -/
inductive ScanEvent (τ : Type) where
  | change (world : World τ)
  | scanFile (path : String)
  | scanWorkspace (root : String) (arrival : Arrival)
  | invalidate (path : String)
  | clear

/-- What is answered; the results of a workspace as a map. -/
inductive ScanAnswer where
  | silence
  | file (outcome : Except ScanFailure (List Variable))
  | workspace (outcome : Except ScanFailure (String → Option (List Variable)))

/-- The same event, but for the order in which the reports of workers come in. -/
inductive ScanEvent.Alike : ScanEvent τ → ScanEvent τ → Prop
  | change (world : World τ) : Alike (.change world) (.change world)
  | scanFile (path : String) : Alike (.scanFile path) (.scanFile path)
  | scanWorkspace (root : String) (arrival arrival' : Arrival) :
    Alike (.scanWorkspace root arrival) (.scanWorkspace root arrival')
  | invalidate (path : String) : Alike (.invalidate path) (.invalidate path)
  | clear : Alike .clear .clear

/-- A scanner, the files, and all files that were there before. -/
structure ScanSession (τ : Type) where
  scanner : Scanner τ
  world : World τ
  before : List (FileStore τ)

namespace ScanSession

def start (scanner : Scanner τ) (world : World τ) : ScanSession τ := ⟨scanner, world, []⟩

section Steps

variable [LE τ] [DecidableLE τ]

def step (s : ScanSession τ) : ScanEvent τ → ScanSession τ × ScanAnswer
  | .change world => ({ s with world := world, before := s.world.files :: s.before }, .silence)
  | .scanFile path =>
    let (scanner, outcome) := s.scanner.scanFile s.world path
    ({ s with scanner := scanner }, .file outcome)
  | .scanWorkspace root arrival =>
    let (scanner, outcome) := s.scanner.scanWorkspace s.world arrival root
    ({ s with scanner := scanner },
      .workspace (outcome.map fun results path => results.get? path))
  | .invalidate path =>
    ({ s with scanner :=
        { s.scanner with cache := s.scanner.cache.map fun c => (c.invalidate path).1 } }, .silence)
  | .clear =>
    ({ s with scanner := { s.scanner with cache := s.scanner.cache.map Cache.clear } }, .silence)

end Steps

/-- Files stay trees and new ones are later than all that were at their place; every task of a pool
is done once, and its worker reports. -/
def Allows [LT τ] (s : ScanSession τ) : ScanEvent τ → Prop
  | .change world => world.files.IsTree ∧ FileStore.Renews s.before s.world.files world.files
  | .scanWorkspace _ arrival => arrival.IsFair ∧ s.scanner.rules.pool.Delivers arrival
  | _ => True

/-! ## What a cache has seen -/

/-- The variables were read from files that were there at some time. -/
def Seen (r : ScanRules) (history : List (FileStore τ)) (path : String) (vars : List Variable)
    (t : τ) : Prop :=
  ∃ files ∈ history, files.modified path = .ok t ∧ r.reading? files path = some vars

theorem admits_seen (s : ScanSession τ) :
    Scanner.Admits s.scanner.rules s.world.files
      (Seen s.scanner.rules (s.world.files :: s.before)) :=
  fun _ _ _ hread ht => ⟨s.world.files, List.mem_cons_self, ht, hread⟩

variable [Preorder τ]

theorem served_of_seen {r : ScanRules} {before : List (FileStore τ)} {now : FileStore τ}
    (hlatest : FileStore.Latest before now) {path : String} {vars : List Variable} {t : τ}
    (h : Seen r (now :: before) path vars t) : Scanner.Served r now path vars t := by
  intro current hcurrent hle
  obtain ⟨files, hfiles, ht, hread⟩ := h
  obtain ⟨f, hf, rfl⟩ := FileStore.modified_eq_ok_iff.1 hcurrent
  obtain ⟨g, hg, rfl⟩ := FileStore.modified_eq_ok_iff.1 ht
  obtain rfl := hlatest.file?_eq hfiles hf hg hle
  rwa [r.reading?_congr (hf.trans hg.symm)]

structure Truthful (s : ScanSession τ) : Prop where
  tree : s.world.files.IsTree
  latest : FileStore.Latest s.before s.world.files
  seen : s.scanner.Holds (Seen s.scanner.rules (s.world.files :: s.before))

variable {s s' : ScanSession τ}

theorem Truthful.faithful (h : s.Truthful) : s.scanner.Faithful s.world.files :=
  h.seen.mono fun _ _ _ => served_of_seen h.latest

theorem Truthful.of_scanner (h : s.Truthful) {scanner : Scanner τ}
    (hrules : scanner.rules = s.scanner.rules)
    (hseen : scanner.Holds (Seen s.scanner.rules (s.world.files :: s.before))) :
    ({ s with scanner := scanner } : ScanSession τ).Truthful :=
  ⟨h.tree, h.latest, by rwa [hrules]⟩

variable [DecidableLE τ]

theorem Truthful.step (h : s.Truthful) {event : ScanEvent τ} (hallowed : s.Allows event) :
    (s.step event).1.Truthful := by
  cases event with
  | change world =>
    refine ⟨hallowed.1, h.latest.renew hallowed.2, h.seen.mono ?_⟩
    rintro path vars t ⟨files, hfiles, hseen⟩
    exact ⟨files, List.mem_cons_of_mem _ hfiles, hseen⟩
  | scanFile path =>
    exact h.of_scanner (s.scanner.measures_scanFile s.world path).rules
      (h.seen.scanFile s.admits_seen path)
  | scanWorkspace root arrival =>
    exact h.of_scanner (s.scanner.measures_scanWorkspace s.world arrival root).rules
      (h.seen.scanWorkspace s.admits_seen hallowed.1 root)
  | invalidate path =>
    refine h.of_scanner rfl fun c hc => ?_
    obtain ⟨old, hold, rfl⟩ := Option.map_eq_some_iff.1 hc
    exact (h.seen old hold).remove path
  | clear =>
    refine h.of_scanner rfl fun c hc => ?_
    obtain ⟨old, hold, rfl⟩ := Option.map_eq_some_iff.1 hc
    intro e he
    cases he

/-! ## Two sessions -/

/-- Sessions that differ in what their caches hold and in what they have measured and logged. -/
structure Matches (s s' : ScanSession τ) : Prop where
  world : s'.world = s.world
  before : s'.before = s.before
  keeps : s.scanner.Keeps s'.scanner

theorem Matches.workspace_eq (hm : Matches s s') (h : s.Truthful) (h' : s'.Truthful)
    {arrival arrival' : Arrival}
    (harrival : arrival.IsFair ∧ s.scanner.rules.pool.Delivers arrival)
    (harrival' : arrival'.IsFair ∧ s'.scanner.rules.pool.Delivers arrival') (root : String) :
    (s.scanner.scanWorkspace s.world arrival root).2.map (fun results path => results.get? path) =
      (s'.scanner.scanWorkspace s'.world arrival' root).2.map
        fun results path => results.get? path := by
  obtain ⟨results, houtcome, -, hget⟩ :=
    Scanner.scanWorkspace_results h.faithful h.tree harrival.1 harrival.2 root
  obtain ⟨results', houtcome', -, hget'⟩ :=
    Scanner.scanWorkspace_results h'.faithful h'.tree harrival'.1 harrival'.2 root
  have hsame : (fun path => results'.get? path) = fun path => results.get? path := by
    funext path
    refine Option.ext fun vars => ?_
    rw [hget, hget', hm.world, hm.keeps.rules]
  rw [houtcome, houtcome', hm.keeps.verdict_eq]
  simp only [Scanner.verdict]
  cases s.scanner.breakdown? with
  | some text => rfl
  | none => simp only [Except.map, hsame]

theorem Matches.step (hm : Matches s s') (h : s.Truthful) (h' : s'.Truthful)
    {event event' : ScanEvent τ} (halike : event.Alike event') (hallowed : s.Allows event)
    (hallowed' : s'.Allows event') :
    (s.step event).2 = (s'.step event').2 ∧ Matches (s.step event).1 (s'.step event').1 := by
  cases halike with
  | change world =>
    exact ⟨rfl, rfl, congrArg₂ _ (congrArg World.files hm.world) hm.before, hm.keeps⟩
  | scanFile path =>
    have hanswer : (s.scanner.scanFile s.world path).2 =
        (s'.scanner.scanFile s'.world path).2 := by
      rw [h.faithful.snd_scanFile, h'.faithful.snd_scanFile, hm.keeps.verdict_eq, hm.world,
        hm.keeps.rules]
    exact ⟨congrArg ScanAnswer.file hanswer, hm.world, hm.before,
      (s.scanner.measures_scanFile s.world path).keeps
        (s'.scanner.measures_scanFile s'.world path) hm.keeps⟩
  | scanWorkspace root arrival arrival' =>
    exact ⟨congrArg ScanAnswer.workspace (hm.workspace_eq h h' hallowed hallowed' root), hm.world,
      hm.before, (s.scanner.measures_scanWorkspace s.world arrival root).keeps
        (s'.scanner.measures_scanWorkspace s'.world arrival' root) hm.keeps⟩
  | invalidate path => exact ⟨rfl, hm.world, hm.before, hm.keeps.rules, hm.keeps.sampler⟩
  | clear => exact ⟨rfl, hm.world, hm.before, hm.keeps.rules, hm.keeps.sampler⟩

/-- Each event is allowed when it happens. -/
def AllowsAll (s : ScanSession τ) : List (ScanEvent τ) → Prop
  | [] => True
  | event :: events => s.Allows event ∧ AllowsAll (s.step event).1 events

/-- Two runs with the same events give the same answers, whatever the caches hold. -/
theorem Matches.run (hm : Matches s s') (h : s.Truthful) (h' : s'.Truthful)
    {events events' : List (ScanEvent τ)} (halike : List.Forall₂ ScanEvent.Alike events events')
    (hallowed : s.AllowsAll events) (hallowed' : s'.AllowsAll events') :
    (transcript ScanSession.step s events).map Prod.snd =
        (transcript ScanSession.step s' events').map Prod.snd ∧
      (stateAfter ScanSession.step s events).Truthful := by
  induction halike generalizing s s' with
  | nil => exact ⟨rfl, h⟩
  | cons hevent _ ih =>
    obtain ⟨hanswer, hnext⟩ := hm.step h h' hevent hallowed.1 hallowed'.1
    obtain ⟨hanswers, hlast⟩ :=
      ih hnext (h.step hallowed.1) (h'.step hallowed'.1) hallowed.2 hallowed'.2
    exact ⟨by simp only [transcript, List.map_cons, hanswer, hanswers], hlast⟩

end ScanSession

/-! ## Texts that were not saved -/

theorem Utf8.normalizeFrom_of_not_mem {s : List Char} (h : '\r' ∉ s) (read : List Char) :
    normalizeFrom read s = read.reverse ++ s := by
  induction s generalizing read with
  | nil => simp [normalizeFrom]
  | cons c s ih =>
    rw [List.mem_cons, not_or] at h
    have hstep : normalizeFrom read (c :: s) = normalizeFrom (c :: read) s := by
      rw [normalizeFrom]
      · rintro s' rfl -
        exact h.1 rfl
      · rintro rfl
        exact h.1 rfl
    rw [hstep, ih h.2]
    simp

theorem Utf8.normalizeNewlines_of_not_mem {s : List Char} (h : '\r' ∉ s) :
    normalizeNewlines s = s :=
  normalizeFrom_of_not_mem h []

namespace Workspace

variable [Time τ]

theorem scanContent_of_scanFile {s s' : Workspace τ} {w : World τ}
    (h : s.scanner.Faithful w.files) (hrules : s'.scanner.rules = s.scanner.rules)
    (hanalysis : s'.analysis = s.analysis) {path : String} {f : StoredFile τ}
    {vars : List Variable} (hf : w.files.file? path = some f)
    (hreturn : '\r' ∉ Utf8.decodeLossy f.bytes) (hscan : (s.scanFile w path).2 = .ok vars) :
    (s'.scanContent w path (Utf8.decodeLossy f.bytes)).2 = s'.scanner.verdict (.ok vars) := by
  have houtcome : (s.scanner.verdict (s.scanner.rules.report w.files path).answer).map s.visible =
      .ok vars := by
    rw [← h.snd_scanFile path]
    exact hscan
  obtain ⟨all, hall, rfl⟩ : ∃ all, s.scanner.verdict
      (s.scanner.rules.report w.files path).answer = .ok all ∧ s.visible all = vars := by
    generalize s.scanner.verdict (s.scanner.rules.report w.files path).answer = outcome at houtcome
    cases outcome with
    | error e => cases houtcome
    | ok all => exact ⟨all, rfl, by simpa [Except.map] using houtcome⟩
  obtain ⟨e, f', found, he, hf', -, hfound, rfl⟩ := ScanRules.reading?_eq_some_iff.1
    (WorkerReport.answer_eq_ok_iff.1 (Scanner.verdict_eq_ok_iff.1 hall).2)
  obtain rfl : f = f' := Option.some.inj (hf.symm.trans hf')
  rw [StoredFile.text, Utf8.normalizeNewlines_of_not_mem hreturn] at hfound
  have hextractor : s'.extractorFor path = .ok e := by simp only [extractorFor, hrules, he]
  have hvisible : s'.visible found.vars = s.visible found.vars := by
    simp only [visible, hanalysis]
  simp only [scanContent, withExtractor, hextractor, onScanner, hfound]
  rw [Scanner.guarded_eq]
  · simp only [Scanner.verdict, ← hvisible]
    cases s'.scanner.breakdown? <;> rfl
  · exact Scanner.keeps_write _ _

end Workspace

/-! ## With a cache and without -/

namespace ScanSession

/-- With a cache of any size and without one, whatever happens to the files between requests, the
answers are the same. And what a file gives is what its text gives, if its lines end in newlines. -/
theorem cache_transparent (rules : ScanRules) (meter : Option Meter) (log log' : List LogRecord)
    (maxSize maxEntries : Nat) {world : World ℚ} (htree : world.files.IsTree)
    {events events' : List (ScanEvent ℚ)} (halike : List.Forall₂ ScanEvent.Alike events events')
    (hallowed : (start ⟨rules, some (.empty maxSize maxEntries), meter, log⟩ world).AllowsAll events)
    (hallowed' : (start ⟨rules, none, meter, log'⟩ world).AllowsAll events') :
    (transcript step (start ⟨rules, some (.empty maxSize maxEntries), meter, log⟩ world)
        events).map Prod.snd =
      (transcript step (start ⟨rules, none, meter, log'⟩ world) events').map Prod.snd ∧
    ∀ s s' : Workspace ℚ,
      let reached :=
        stateAfter step (start ⟨rules, some (.empty maxSize maxEntries), meter, log⟩ world) events
      s.scanner = reached.scanner → s'.scanner.rules = s.scanner.rules → s'.analysis = s.analysis →
      ∀ path f vars, reached.world.files.file? path = some f → '\r' ∉ Utf8.decodeLossy f.bytes →
        (s.scanFile reached.world path).2 = .ok vars →
        (s'.scanContent reached.world path (Utf8.decodeLossy f.bytes)).2 =
          s'.scanner.verdict (.ok vars) := by
  have htruthful : ∀ cache log, (∀ c : Cache ℚ, cache = some c → c.entries = []) →
      (start ⟨rules, cache, meter, log⟩ world).Truthful := by
    refine fun cache log hempty => ⟨htree, by simp [FileStore.Latest, start], fun c hc e he => ?_⟩
    rw [hempty c hc] at he
    cases he
  have hcached := htruthful (some (.empty maxSize maxEntries)) log (by rintro c ⟨⟩; rfl)
  have hplain := htruthful none log' (by rintro c ⟨⟩)
  have hmatches : Matches (start ⟨rules, some (.empty maxSize maxEntries), meter, log⟩ world)
      (start ⟨rules, none, meter, log'⟩ world) := ⟨rfl, rfl, rfl, rfl⟩
  obtain ⟨hanswers, hreached⟩ := hmatches.run hcached hplain halike hallowed hallowed'
  refine ⟨hanswers, ?_⟩
  intro s s' reached hscanner hrules hanalysis path f vars hf hreturn hscan
  have hfaithful : s.scanner.Faithful reached.world.files := hscanner ▸ hreached.faithful
  exact Workspace.scanContent_of_scanFile hfaithful hrules hanalysis hf hreturn hscan

end ScanSession

/-! ## A file that is written between two scans -/

namespace Rewritten

def rules : ScanRules := ⟨.standard, [], none, none, .standard⟩

def world : World ℚ where
  files := ⟨[(["w"], .directory), (["w", "a.js"], .file ⟨"let a = 1".toUTF8.toList, 1⟩)]⟩
  clock := 0

/-- Written anew, at a later time. -/
def later : World ℚ where
  files := world.files.write "w/a.js" ⟨"let b = 1".toUTF8.toList, 2⟩
  clock := 1

def events (arrival : Arrival) : List (ScanEvent ℚ) :=
  [.scanWorkspace "w" arrival, .change later, .scanFile "w/a.js", .invalidate "w/a.js",
    .scanWorkspace "w" arrival, .clear]

theorem isTree : world.files.IsTree where
  nodup := by decide
  ne_nil := by decide
  names := by decide
  parents := by
    simp only [world, List.forall_mem_cons]
    exact ⟨rfl, rfl, by simp⟩

def scanner (cache : Option (Cache ℚ)) : Scanner ℚ := ⟨rules, cache, none, []⟩

def cached : ScanSession ℚ := .start (scanner (some (.empty (1000 : Nat) (1 : Nat)))) world

def plain : ScanSession ℚ := .start (scanner none) world

/-- A workspace with the scanner that the events lead to. -/
def workspace : Workspace ℚ where
  analysis := .standard
  sampleInterval := 1
  checkInterval := 1
  scanner := (stateAfter ScanSession.step cached (events .inOrder)).scanner
  debouncer := .start 0
  memory := ⟨100, 200, 10, false, [], []⟩
  memorySampler := .constant ⟨0, 0, 0⟩
  timers := .start 0
  updates := []

theorem names_resolve : (Path.resolve "w/a.js").names = ["w", "a.js"] := by decide +kernel

theorem entryAt?_file : world.files.entryAt? (Path.resolve "w/a.js").names =
    some (.file ⟨"let a = 1".toUTF8.toList, 1⟩) := by
  rw [names_resolve]
  rfl

theorem isTree_later : later.files.IsTree := by
  refine isTree.write (by simp [names_resolve]) (by simp [entryAt?_file]) ?_ _
  intro part hpart f
  rw [names_resolve] at hpart
  rcases List.prefix_concat_iff.1 (show part <+: [] ++ ["w"] from hpart) with rfl | hnil
  · simp [world, FileStore.entryAt?]
  · rw [List.prefix_nil.1 hnil]
    simp [FileStore.entryAt?]

theorem renews : FileStore.Renews [] world.files later.files := by
  refine FileStore.renews_write fun old hold g hg => ?_
  rw [List.mem_singleton.1 hold, entryAt?_file] at hg
  cases hg
  norm_num

/-- The last task is done first. -/
def reversed : Arrival := .ofOrder List.reverse

theorem allowsAll (scanner : Scanner ℚ) {order : List Future → List Future}
    (horder : ∀ futures, (order futures).Perm futures) :
    (ScanSession.start scanner world).AllowsAll (events (.ofOrder order)) :=
  ⟨⟨horder, WorkerPool.delivers_ofOrder _ order⟩, ⟨isTree_later, renews⟩, trivial, trivial,
    ⟨horder, WorkerPool.delivers_ofOrder _ order⟩, trivial, trivial⟩

theorem alike : List.Forall₂ ScanEvent.Alike (events .inOrder) (events reversed) :=
  .cons (.scanWorkspace _ _ _) (.cons (.change _) (.cons (.scanFile _) (.cons (.invalidate _)
    (.cons (.scanWorkspace _ _ _) (.cons .clear .nil)))))

def served : List Variable := (workspace.scanFile later "w/a.js").2.toOption.getD []

theorem scanFile_eq : (workspace.scanFile later "w/a.js").2 = .ok served := by
  decide +kernel

def file : StoredFile ℚ := ⟨"let b = 1".toUTF8.toList, 2⟩

theorem file?_eq : later.files.file? "w/a.js" = some file := by
  have hfound : (later.files.file? "w/a.js").map (fun f => (f.bytes, f.modified)) =
      some (file.bytes, file.modified) := by
    decide +kernel
  obtain ⟨⟨bytes, modified⟩, hf, heq⟩ := Option.map_eq_some_iff.1 hfound
  rw [hf]
  cases heq
  rfl

theorem return_not_mem : '\r' ∉ Utf8.decodeLossy file.bytes := by decide +kernel

end Rewritten

theorem Rewritten.answers_alike :
    world.files.IsTree ∧ List.Forall₂ ScanEvent.Alike (events .inOrder) (events reversed) ∧
      cached.AllowsAll (events .inOrder) ∧ plain.AllowsAll (events reversed) ∧
      (transcript ScanSession.step cached (events .inOrder)).map Prod.snd =
        (transcript ScanSession.step plain (events reversed)).map Prod.snd ∧
      later.files.file? "w/a.js" = some file ∧ '\r' ∉ Utf8.decodeLossy file.bytes ∧
      (workspace.scanFile later "w/a.js").2 = .ok served ∧
      (workspace.scanContent later "w/a.js" (Utf8.decodeLossy file.bytes)).2 =
        workspace.scanner.verdict (.ok served) := by
  have hcached : cached.AllowsAll (events .inOrder) := allowsAll _ .refl
  have hplain : plain.AllowsAll (events reversed) := allowsAll _ List.reverse_perm
  obtain ⟨hanswers, hcontent⟩ := ScanSession.cache_transparent rules none [] [] 1000 1 isTree alike
    hcached hplain
  exact ⟨isTree, alike, hcached, hplain, hanswers, file?_eq, return_not_mem, scanFile_eq,
    hcontent workspace workspace rfl rfl rfl "w/a.js" file served file?_eq return_not_mem
      scanFile_eq⟩

end DeclScan
