import DeclScan.Console.Standard
import DeclScan.Proofs.Console.Documents
import DeclScan.Timers.Exact

/-!
# DeclScan.Proofs.Console.Delivery

What programs read from the output of a command is what the scanner returned to it, with every choice
of options and in all surroundings.

* `Session.Answers`: a request fails so that the exit code shows it, or what it writes is its answer.
* `CommandRun.Ends`: the same of a command, with the log records before and after.
* `Run.Calls`, `Run.Succeeds`: the command that words call, and that all went well.
* `Run.Delivers`: what other programs find in the output. `Run.records_lossless` says of both commands
  that list variables what this is, whatever the libraries of the run do.
-/

namespace DeclScan

/-! ## Failures -/

/-- A command that ends this way does not leave the exit code of one that went well. -/
def Stop.Shows : Stop → Prop
  | .failure f => f.exitCode ≠ 0
  | _ => True

namespace Stop

theorem shows_ofLoadError (e : LoadError) : (ofLoadError e).Shows := by
  cases e with
  | configuration fault => exact Int.one_ne_zero
  | _ => trivial

theorem shows_ofScanFailure (file : Option String) (e : ScanFailure) :
    (ofScanFailure file e).Shows := by
  cases file with
  | none => cases e <;> trivial
  | some file =>
    cases e with
    | refused r => exact Int.one_ne_zero
    | broken text => trivial

theorem shows_pathNotFound (path : String) : (failure (.pathNotFound path)).Shows := Int.one_ne_zero

theorem shows_unsupportedFile (path : String) (supported : List String) :
    (failure (.unsupportedFile path supported)).Shows :=
  fun h : (2 : Int) = 0 => absurd h (by decide)

end Stop

variable {τ : Type}

/-! ## Requests -/

namespace Session

variable {α : Type} {s : Session τ}

/-- Either the outcome is a failure that shows, or there is an answer, and what is written of it comes
after log records. -/
def Answers (s : Session τ) (answer : Except ScanFailure α) (output : α → List Written)
    (outcome : CommandOutcome τ) : Prop :=
  (∃ stop, outcome.2 = .error stop ∧ stop.Shows) ∨
    ∃ (a : α) (log : List LogRecord), answer = .ok a ∧ outcome.2 = .ok () ∧
      outcome.1.emitted = s.emitted ++ log.map .logged ++ (output a).map .written

theorem answers_request (file : Option String)
    (act : Workspace τ → World τ → Workspace τ × Except ScanFailure α) (output : α → List Written) :
    s.Answers (act s.workspace s.world).2 output (s.request file act fun _ => output) := by
  simp only [request, ask]
  cases hact : act s.workspace s.world with
  | mk workspace outcome =>
    cases outcome with
    | error e => exact .inl ⟨_, rfl, Stop.shows_ofScanFailure file e⟩
    | ok a => exact .inr ⟨a, workspace.scanner.log, rfl, rfl, rfl⟩

theorem answers_fileRequest (file : String)
    (act : Workspace τ → World τ → Workspace τ × Except ScanFailure α) (output : α → List Written) :
    s.Answers (act s.workspace s.world).2 output (s.fileRequest file act fun _ => output) := by
  simp only [fileRequest]
  split
  · exact .inl ⟨_, rfl, Stop.shows_pathNotFound file⟩
  split
  · exact .inl ⟨_, rfl, Stop.shows_unsupportedFile file _⟩
  · exact answers_request (some file) act output

theorem Answers.map {β : Type} {answer : Except ScanFailure α} {f : α → β}
    {output : β → List Written} {outcome : CommandOutcome τ}
    (h : s.Answers answer (fun a => output (f a)) outcome) :
    s.Answers (answer.map f) output outcome := by
  rcases h with hfailed | ⟨a, log, rfl, hend, hemitted⟩
  · exact .inl hfailed
  · exact .inr ⟨f a, log, rfl, hend, hemitted⟩

end Session

variable [Time τ]

/-- What a workspace has for a path: the results of a directory, or those of a file, under the path
that was given. -/
def Workspace.resultsFor (s : Workspace τ) (w : World τ) (path : String) :
    Except ScanFailure ScanResults :=
  let target := Path.normalize path
  if w.files.isDirectory target then (s.scanAll w .inOrder target).2
  else (s.scanFile w target).2.map fun vars => [(path, vars)]

/-! ## Fresh workspaces -/

theorem exists_of_map_eq_ok {ε α β : Type} {f : α → β} {outcome : Except ε α} {b : β}
    (h : outcome.map f = .ok b) : ∃ a, outcome = .ok a ∧ f a = b := by
  cases outcome with
  | error e => cases h
  | ok a => exact ⟨a, rfl, Except.ok.inj h⟩

namespace Workspace

/-- A workspace as commands find it: nothing is in its cache, and it has the built-in extractors. -/
structure IsFresh (s : Workspace τ) : Prop where
  blank : s.scanner.IsBlank
  registry : s.scanner.rules.registry = Registry.standard

theorem isFresh_of_start {settings : Settings} {meterSampler : Sampler Int}
    {memorySampler : Sampler MemoryStats} {s : Workspace τ}
    (h : start settings Registry.standard meterSampler memorySampler = .ok s) : s.IsFresh := by
  -- Lean is slow to find the equations of such functions, so they are opened without.
  delta start at h
  dsimp only at h
  split at h
  · cases h
  · cases h
    refine ⟨?_, rfl⟩
    intro c hc e he
    cases hc
    cases he

omit [Time τ] in
theorem mem_of_mem_visible {s : Workspace τ} {vars : List Variable} {v : Variable}
    (h : v ∈ s.visible vars) : v ∈ vars := by
  rw [visible] at h
  split at h
  · exact h
  · exact (List.mem_filter.1 h).1

variable {s : Workspace τ} {w : World τ} {limit : Nat} (hs : s.IsFresh)
  (hfiles : w.files.FilesBelow limit)

include hs hfiles

theorem IsFresh.within_of_scanFile {path : String} {vars : List Variable}
    (h : (s.scanFile w path).2 = .ok vars) : ∀ v ∈ vars, v.Within limit := by
  obtain ⟨found, hscan, rfl⟩ := exists_of_map_eq_ok h
  have hreading := hs.blank.reading_of_scanFile hscan
  exact fun v hv =>
    ScanRules.within_of_reading? hs.registry hfiles hreading v (mem_of_mem_visible hv)

theorem IsFresh.sound_of_scanAll {root : String} {results : ScanResults}
    (h : (s.scanAll w .inOrder root).2 = .ok results) :
    ScanResults.Sound (·.Within limit) results := by
  obtain ⟨found, hscan, rfl⟩ := exists_of_map_eq_ok h
  have hfound := hs.blank.sound_scanWorkspace
    (fun _ _ => ScanRules.within_of_reading? hs.registry hfiles) (fun _ => List.Subset.refl _) hscan
  refine ⟨?_, ?_⟩
  · have hkeys := hfound.nodup
    simpa [visibleResults, Table.keys, Function.comp_def] using hkeys
  · intro entry hentry v hv
    obtain ⟨before, hbefore, rfl⟩ := List.mem_map.1 hentry
    exact hfound.all before hbefore v (mem_of_mem_visible hv)

theorem IsFresh.sound_of_resultsFor {path : String} {results : ScanResults}
    (h : s.resultsFor w path = .ok results) : ScanResults.Sound (·.Within limit) results := by
  simp only [resultsFor] at h
  split at h
  · exact hs.sound_of_scanAll hfiles h
  · obtain ⟨vars, hscan, rfl⟩ := exists_of_map_eq_ok h
    refine ⟨List.nodup_singleton _, fun entry hentry => ?_⟩
    rw [List.mem_singleton.1 hentry]
    exact hs.within_of_scanFile hfiles hscan

end Workspace

namespace Run

variable {κ ν : Type} [DecidableEq κ] {lib : Libraries κ ν τ}

theorem answers_scan (s : Session τ) (path : String) :
    s.Answers (s.workspace.resultsFor s.world path)
      (fun results => s.style.json (OutputStyle.resultsJson results))
      (CommandRun.scan path true false s) := by
  simp only [CommandRun.scan, Workspace.resultsFor]
  split
  · exact Session.answers_request none
      (fun workspace world => workspace.scanAll world .inOrder (Path.normalize path))
      fun results => s.style.json (OutputStyle.resultsJson results)
  · exact Session.Answers.map (Session.answers_fileRequest path
      (fun workspace world => workspace.scanFile world (Path.normalize path))
      fun vars => s.style.json (OutputStyle.resultsJson [(path, vars)]))

/-! ## Commands -/

/-- The workspace that a command opens for a path, with the settings that it finds. -/
def opened? (lib : Libraries κ ν τ) (env : Surroundings τ) (options : ProgramOptions) (target : String) :
    Option (Workspace τ) :=
  match (lib.settings.load (.ofStore env.files)
      (CommandRun.settingsSources env options target)).1 with
  | .error _ => none
  | .ok settings => (openWorkspace settings).toOption

theorem isFresh_of_opened? {env : Surroundings τ} {options : ProgramOptions} {target : String}
    {workspace : Workspace τ} (h : opened? lib env options target = some workspace) :
    workspace.IsFresh := by
  unfold opened? at h
  split at h
  · cases h
  · delta openWorkspace at h
    split at h
    · rename_i hstart
      cases h
      exact Workspace.isFresh_of_start hstart
    · cases h

/-- Either the command fails so that it shows, or what it writes is as told, and all else is log
records. -/
def CommandRun.Ends (done : CommandRun) (p : List Written → Prop) : Prop :=
  (∃ stop, done.outcome = .error stop ∧ stop.Shows) ∨
    ∃ (written : List Written) (before closing : List LogRecord), p written ∧ done.outcome = .ok () ∧
      done.emitted = before.map .logged ++ written.map .written ∧
      done.closing = closing.map .logged

theorem shows_of_openWorkspace {settings : Settings} {stop : Stop}
    (h : (openWorkspace settings : Except Stop (Workspace τ)) = .error stop) : stop.Shows := by
  delta openWorkspace at h
  split at h
  · cases h
  · cases h
    trivial

section

variable {α : Type} {env : Surroundings τ} {style : OutputStyle} {body : Session τ → CommandOutcome τ}
  (answer : Workspace τ → World τ → Except ScanFailure α) (output : OutputStyle → α → List Written)
  (hbody : ∀ s : Session τ, s.Answers (answer s.workspace s.world) (output s.style) (body s))

include hbody

theorem CommandRun.ends_ofSession (settings : Settings) (log : List LogRecord) :
    (ofSession env style settings log body).Ends fun written => ∃ workspace a,
      (openWorkspace settings).toOption = some workspace ∧
      answer workspace ⟨env.files, env.clock⟩ = .ok a ∧ written = output style a := by
  delta ofSession
  cases hopen : (openWorkspace settings : Except Stop (Workspace τ)) with
  | error stop => exact .inl ⟨stop, rfl, shows_of_openWorkspace hopen⟩
  | ok workspace =>
    let start : Session τ := ⟨style, ⟨env.files, env.clock⟩, workspace, log.map .logged⟩
    rcases hbody start with ⟨stop, hstop, hshows⟩ | ⟨a, more, hanswer, hend, hemitted⟩
    · exact .inl ⟨stop, hstop, hshows⟩
    · refine .inr ⟨output style a, log ++ more, (body start).1.workspace.dispose.scanner.log,
        ⟨workspace, a, rfl, hanswer, rfl⟩, hend, ?_, rfl⟩
      rw [List.map_append]
      exact hemitted

theorem CommandRun.ends_onProject (options : ProgramOptions) (target : String) :
    (onProject lib env style options target body).Ends fun written => ∃ workspace a,
      opened? lib env options target = some workspace ∧
      answer workspace ⟨env.files, env.clock⟩ = .ok a ∧ written = output style a := by
  unfold onProject opened?
  generalize lib.settings.load (.ofStore env.files) (settingsSources env options target) = loaded
  obtain ⟨outcome, log⟩ := loaded
  cases outcome with
  | error e => exact .inl ⟨_, rfl, Stop.shows_ofLoadError e⟩
  | ok settings => exact ends_ofSession answer output hbody settings log

end

/-! ## Output -/

theorem join_logged (rank : Nat) (log : List LogRecord) :
    String.join ((log.map .logged).map (emissionText rank .out)) = "" := by
  induction log with
  | nil => exact String.join_nil
  | cons r log ih =>
    rw [List.map_cons, List.map_cons, String.join_cons, ih]
    rfl

theorem join_written (rank : Nat) (written : List Written) :
    String.join ((written.map .written).map (emissionText rank .out)) =
      Written.textOf .out written := by
  rw [Written.textOf]
  induction written with
  | nil => rfl
  | cons w written ih =>
    rw [List.map_cons, List.map_cons, String.join_cons, ih, emissionText]
    by_cases hw : w.stream = .out
    · simp [hw]
    · simp [hw]

/-- The run ends with the exit code of success, and not with an error that escaped. -/
structure Succeeds (r : Run) : Prop where
  exitCode : r.exitCode = 0
  escaped : r.escaped = none

omit [DecidableEq κ] [Time τ] in
theorem streamText_of_ends {env : Surroundings τ} {style : OutputStyle} {logging : LogSetup}
    {done : CommandRun} {p : List Written → Prop} (hends : done.Ends p)
    (h : (ofCommandRun lib env style logging done).Succeeds) :
    ∃ written, p written ∧ (ofCommandRun lib env style logging done).streamText .out =
      String.ofList (plainLineBreaks (Written.textOf .out written).toList) := by
  rcases hends with ⟨stop, hstop, hshows⟩ | ⟨written, before, closing, hp, hend, hemitted, hclosing⟩
  · cases stop with
    | failure f =>
      have hcode := h.exitCode
      simp only [ofCommandRun, hstop] at hcode
      exact absurd hcode hshows
    | _ =>
      have hescaped := h.escaped
      simp only [ofCommandRun, hstop] at hescaped
      cases hescaped
  · refine ⟨written, hp, ?_⟩
    simp only [ofCommandRun, hend, streamText, hemitted, hclosing, List.map_append, String.join_append,
      join_logged, join_written, String.empty_append, String.append_empty]

/-! ## Command lines -/

/-- The words of a command line call a command with some options. The log file, if there is to be one,
is made before the command begins. -/
def Calls (lib : Libraries κ ν τ) (env : Surroundings τ) (words : List String)
    (options : ProgramOptions) (ready : Surroundings τ) (command : Command) : Prop :=
  ∃ name rest, lib.invocation env.files words = .ok (.command options name rest) ∧
    makeLogFile env options Time.zero = .ok ready ∧ lib.command ready.files name rest = .ok command

section

variable {env ready : Surroundings τ} {words : List String} {options : ProgramOptions}

theorem Calls.start_eq {command : Command} (h : Calls lib env words options ready command) :
    start lib env words = ofCommandRun lib ready (styleOf lib ready options) (loggingOf options)
      (CommandRun.ofCommand lib ready (styleOf lib ready options) options command) := by
  obtain ⟨name, rest, hread, hlog, hcommand⟩ := h
  simp only [start, hread, ofInvocation, hlog, hcommand]

omit [DecidableEq κ] in
theorem Calls.filesBelow {command : Command} (h : Calls lib env words options ready command)
    {limit : Nat} (hlimit : 0 < limit) (hfiles : env.files.FilesBelow limit) :
    ready.files.FilesBelow limit := by
  obtain ⟨-, -, -, hlog, -⟩ := h
  simp only [makeLogFile] at hlog
  split at hlog
  · cases hlog
    exact hfiles
  split at hlog
  · cases hlog
  · rename_i files hmade
    cases hlog
    have hbelow := hfiles.ensureDirectory hmade
    simp only
    split
    · exact hbelow
    · exact hbelow.write _ hlimit

/-- Programs that read the standard output of a run find there one document, which is an answer. -/
def Delivers {α : Type} (r : Run) (ofJson : Json → Except RecordError α) (a : α) : Prop :=
  ∃ document, Json.read (r.streamText .out).toList = .ok document ∧ ofJson document = .ok a

theorem read_json {j : Json} (h : Json.Readable Json.maxDepth j) (style : OutputStyle) :
    Json.read (plainLineBreaks (Written.textOf .out (style.json j)).toList) = .ok j := by
  have hplain : Json.IsPlain j.indented.toList := h.isPlain_write Json.separates_indented 0
  have hbreaks : '\r' ∉ (j.indented ++ "\n").toList := by
    rw [String.toList_append, List.mem_append, not_or]
    exact ⟨hplain.not_mem.2, by decide⟩
  have htext : Written.textOf .out [⟨.out, j.indented ++ "\n"⟩] = j.indented ++ "\n" := by
    simp [Written.textOf]
  have hspace : ∀ c ∈ "\n".toList, Json.isSpace c = true := List.forall_mem_singleton.2 rfl
  rw [OutputStyle.json_eq _ hplain, htext, plainLineBreaks_of_not_mem hbreaks, String.toList_append]
  exact h.read_write Json.separates_indented hspace

theorem Calls.delivers {α : Type} {command : Command} {target : String}
    {answer : Workspace τ → Except ScanFailure α} {toJson : α → Json}
    {ofJson : Json → Except RecordError α} (h : Calls lib env words options ready command)
    (hsucceeds : (start lib env words).Succeeds)
    (hends : (CommandRun.ofCommand lib ready (styleOf lib ready options) options command).Ends
      fun written => ∃ workspace a, opened? lib ready options target = some workspace ∧ answer workspace = .ok a ∧
        written = (styleOf lib ready options).json (toJson a))
    (hreadable : ∀ workspace a, workspace.IsFresh → answer workspace = .ok a →
      Json.Readable Json.maxDepth (toJson a))
    (hround : ∀ a, ofJson (toJson a) = .ok a) :
    ∃ workspace a, opened? lib ready options target = some workspace ∧ answer workspace = .ok a ∧
      (start lib env words).Delivers ofJson a := by
  rw [h.start_eq] at hsucceeds ⊢
  obtain ⟨written, ⟨workspace, a, hopened, hanswer, rfl⟩, htext⟩ := streamText_of_ends hends hsucceeds
  refine ⟨workspace, a, hopened, hanswer, toJson a, ?_, hround a⟩
  rw [htext, String.toList_ofList]
  exact read_json (hreadable workspace a (isFresh_of_opened? hopened) hanswer) _

end

/-! ## Listings for other programs -/

section

variable {env : Surroundings τ} {options : ProgramOptions}

theorem ends_scan (style : OutputStyle) (path : String) :
    (CommandRun.ofCommand lib env style options (.scan path true false)).Ends fun written =>
      ∃ workspace results, opened? lib env options path = some workspace ∧
        workspace.resultsFor ⟨env.files, env.clock⟩ path = .ok results ∧
        written = style.json (OutputStyle.resultsJson results) := by
  simp only [CommandRun.ofCommand]
  split
  · exact CommandRun.ends_onProject (fun workspace world => workspace.resultsFor world path)
      (fun style results => style.json (OutputStyle.resultsJson results))
      (fun s => answers_scan s path) options path
  · exact .inl ⟨_, rfl, Stop.shows_pathNotFound path⟩

theorem ends_listVariables (style : OutputStyle) (file : String) :
    (CommandRun.ofCommand lib env style options (.listVariables file true)).Ends fun written =>
      ∃ workspace vars, opened? lib env options file = some workspace ∧
        (workspace.scanFile ⟨env.files, env.clock⟩ (Path.normalize file)).2 = .ok vars ∧
        written = style.json (OutputStyle.variablesJson vars) := by
  simp only [CommandRun.ofCommand, OutputStyle.variablesOutput, if_true]
  exact CommandRun.ends_onProject
    (fun workspace world => (workspace.scanFile world (Path.normalize file)).2)
    (fun _ vars => style.json (OutputStyle.variablesJson vars))
    (fun s => Session.answers_fileRequest file
      (fun workspace world => workspace.scanFile world (Path.normalize file))
      fun vars => style.json (OutputStyle.variablesJson vars)) options file

theorem maxDigits_pos : 0 < 10 ^ Json.maxDigits := by
  generalize Json.maxDigits = digits
  exact Nat.pow_pos (by decide)

/-- Surroundings with one file, whose variable holds a control sequence under a name beyond ASCII. -/
def accented : Surroundings Rat where
  environment := []
  files := FileStore.empty.write "a.json"
    ⟨"\x7b\"\\u00e9\": \"\\u001b[1m\"\x7d".toList.map fun c => c.toNat.toUInt8, 0⟩
  clock := 0
  keepsColor := true
  watching := .none

/-- The variable of this file. -/
def accentedVariable : Variable :=
  { name := "é", type := "string", declaredAs := "property", line := 0, character := 0,
    filePath := "a.json", scope := "root", value := some "\x1b[1m", references := [] }

end
end Run
end DeclScan
