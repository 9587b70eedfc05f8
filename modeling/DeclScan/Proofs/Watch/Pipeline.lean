import DeclScan.Proofs.Debounce.Awaited
import DeclScan.Proofs.Watch.Rescans
import DeclScan.Watcher

/-!
# DeclScan.Proofs.Watch.Pipeline

From file events to what a listener is told (`Watch.reports_fresh`): no change of a file is lost, no
old variables are told, and none are told twice.

* `Watch`, `WatchEvent`: a watched workspace with timers of its own, and what happens to it. Files may
  change in any way, also without an event and without a later time.
* `Watch.requests`: what the events ask of the debouncer.
* `Watch.Follows`: a session holds the rescans that wait after its events.
-/

namespace DeclScan

open UpdateRequest

variable {τ : Type}

/-- The changes that the file system tells of. A move deletes one file and creates another. -/
def FileNotice.changes (n : FileNotice) : List (FileChange × String) :=
  if n.isDirectory then []
  else
    match n.event with
    | .change kind path => [(kind, path)]
    | .move source destination => [(.deleted, source), (.created, destination)]

/-- A watched workspace. Its debouncer and its timers are taken anew, and all else is as it is. -/
structure Watch (τ : Type) where
  root : Option String
  listener : Option Listener
  delayMs : Int
  workspace : Workspace τ
  world : World τ

/-- What happens while a workspace is watched. -/
inductive WatchEvent (τ : Type) where
  | notice (n : FileNotice)
  | change (world : World τ)
  | scanFile (path : String)
  | advance (seconds : τ)

namespace WatchEvent

def creation (path : String) : WatchEvent τ := .notice ⟨.change .created path, false⟩

def deletion (path : String) : WatchEvent τ := .notice ⟨.change .deleted path, false⟩

def move (source destination : String) : WatchEvent τ := .notice ⟨.move source destination, false⟩

/-- The event tells of a file in a way that leaves it there. -/
def Renews (path : String) : WatchEvent τ → Prop
  | .notice n => ∃ kind, (kind, path) ∈ n.changes ∧ kind ≠ .deleted
  | _ => False

end WatchEvent

structure WatchSession (τ : Type) where
  watcher : Watcher
  workspace : Workspace τ
  world : World τ

namespace Watch

/-! ## Events as requests -/

variable (watch : Watch τ)

/-- Whether changes of a file are passed on. -/
def forwards (path : String) : Bool :=
  (Watcher.start watch.root).shouldProcess watch.workspace.scanner.rules path

/-- What a change asks of the debouncer, if it is passed on. -/
def requestOf? (change : FileChange × String) : Option (UpdateRequest τ Job) :=
  if watch.forwards change.2 then
    match change.1 with
    | .deleted => some (.cancel change.2)
    | .created | .modified => some (.update change.2 (.rescan change.2 watch.listener))
  else none

def requestsOf : WatchEvent τ → List (UpdateRequest τ Job)
  | .notice n => n.changes.filterMap watch.requestOf?
  | .change _ | .scanFile _ => []
  | .advance seconds => [.advance seconds]

def requests (past : List (WatchEvent τ)) : List (UpdateRequest τ Job) := past.flatMap watch.requestsOf

@[simp] theorem requests_append (past later : List (WatchEvent τ)) :
    watch.requests (past ++ later) = watch.requests past ++ watch.requests later :=
  List.flatMap_append

@[simp] theorem requests_singleton (e : WatchEvent τ) : watch.requests [e] = watch.requestsOf e := by
  simp [requests]

theorem length_requests_le (past later : List (WatchEvent τ)) :
    (watch.requests past).length ≤ (watch.requests (past ++ later)).length := by
  rw [requests_append, List.length_append]
  exact Nat.le_add_right _ _

variable {watch} in
theorem forwards_of_update_mem {past : List (WatchEvent τ)} {path : String} {job : Job}
    (h : .update path job ∈ watch.requests past) :
    watch.forwards path = true ∧ job = .rescan path watch.listener ∧
      ∃ n kind, WatchEvent.notice n ∈ past ∧ (kind, path) ∈ n.changes ∧ kind ≠ .deleted := by
  obtain ⟨e, he, hrequest⟩ := List.mem_flatMap.1 h
  cases e with
  | notice n =>
    obtain ⟨⟨kind, changed⟩, hchange, hrequest⟩ := List.mem_filterMap.1 hrequest
    simp only [requestOf?] at hrequest
    split at hrequest
    · rename_i hforwards
      cases kind with
      | deleted => cases hrequest
      | created =>
        cases hrequest
        exact ⟨hforwards, rfl, n, _, he, hchange, nofun⟩
      | modified =>
        cases hrequest
        exact ⟨hforwards, rfl, n, _, he, hchange, nofun⟩
    · cases hrequest
  | change world => cases hrequest
  | scanFile path => cases hrequest
  | advance seconds => simp [requestsOf] at hrequest

/-! ## Runs -/

variable [Time τ]

def start : WatchSession τ where
  watcher := Watcher.start watch.root
  workspace := { watch.workspace with
    debouncer := Debouncer.start watch.delayMs
    timers := Timers.start Time.zero }
  world := watch.world

def notice (s : WatchSession τ) (n : FileNotice) : WatchSession τ :=
  { s with
    watcher := (s.watcher.notice s.workspace watch.listener n).1
    workspace := (s.watcher.notice s.workspace watch.listener n).2 }

def step (fuel : Nat) (s : WatchSession τ) : WatchEvent τ → Option (WatchSession τ)
  | .notice n => some (watch.notice s n)
  | .change world => some { s with world := world }
  | .scanFile path => some { s with workspace := (s.workspace.scanFile s.world path).1 }
  | .advance seconds =>
    (s.workspace.advance s.world fuel seconds).map fun (workspace, _) =>
      { s with workspace := workspace }

def after (fuel : Nat) (past : List (WatchEvent τ)) : Option (WatchSession τ) :=
  past.foldlM (watch.step fuel) watch.start

theorem after_concat (fuel : Nat) (past : List (WatchEvent τ)) (e : WatchEvent τ) :
    watch.after fuel (past ++ [e]) = (watch.after fuel past).bind fun s => watch.step fuel s e := by
  simp only [after, List.foldlM_append, List.foldlM_cons, List.foldlM_nil]
  cases List.foldlM (watch.step fuel) watch.start past with
  | none => rfl
  | some s => simp

/-- A rescan of a file waits, for a time. -/
def RescanAwaited (past : List (WatchEvent τ)) (rescan : Workspace.Rescan τ) : Prop :=
  Awaited watch.delayMs (watch.requests past) rescan.path
    ⟨.rescan rescan.path watch.listener, rescan.time⟩

variable {watch}

theorem update_mem_of_awaited {α : Type} {delayMs : Int} {rs : List (UpdateRequest τ α)}
    {key : String} {u : PendingUpdate τ α} (h : Awaited delayMs rs key u) :
    .update key u.action ∈ rs := by
  obtain ⟨before, since, rfl, -⟩ := h
  simp

theorem action_of_awaited_requests {past : List (WatchEvent τ)} {path : String} {u : PendingUpdate τ Job}
    (h : Awaited watch.delayMs (watch.requests past) path u) :
    u.action = .rescan path watch.listener :=
  (forwards_of_update_mem (update_mem_of_awaited h)).2.1

theorem not_awaited_append {α : Type} {delayMs : Int} {rs later : List (UpdateRequest τ α)}
    {key : String} (h : ∀ u, ¬ Awaited delayMs rs key u)
    (hlater : ∀ action, .update key action ∉ later) : ∀ u, ¬ Awaited delayMs (rs ++ later) key u := by
  induction later using List.reverseRecOn with
  | nil => simpa using h
  | append_singleton later r ih =>
    intro u
    rw [← List.append_assoc, awaited_concat]
    rintro (⟨rfl, -⟩ | ⟨hwaits, -⟩)
    · exact hlater u.action (by simp)
    · exact ih (fun action hmem => hlater action (List.mem_append_left _ hmem)) u hwaits

theorem not_awaited_of_deletion {before since : List (WatchEvent τ)} {path : String}
    (hsince : ∀ e ∈ since, ¬ e.Renews path) (u : PendingUpdate τ Job) :
    ¬ Awaited watch.delayMs
      (watch.requests (before ++ .deletion path :: since)) path u := by
  intro hwaits
  have hforwards := (forwards_of_update_mem (update_mem_of_awaited hwaits)).1
  have hrequests : watch.requests (before ++ .deletion path :: since) =
      (watch.requests before ++ [.cancel path]) ++ watch.requests since := by
    simp [requests, requestsOf, WatchEvent.deletion, FileNotice.changes, requestOf?, hforwards]
  rw [hrequests] at hwaits
  refine not_awaited_append (fun u hcancelled => ?_) (fun action hmem => ?_) u hwaits
  · simp [awaited_concat, Revokes] at hcancelled
  · obtain ⟨-, -, n, kind, hn, hchange, hkind⟩ := forwards_of_update_mem hmem
    exact hsince _ hn ⟨kind, hchange, hkind⟩

/-! ## Sessions -/

/-- A watcher and its workspace hold the rescans that wait after requests. -/
structure Follows (watch : Watch τ) (rs : List (UpdateRequest τ Job)) (w : Watcher)
    (s : Workspace τ) : Prop where
  root : w.root = watch.root
  rules : s.scanner.rules = watch.workspace.scanner.rules
  analysis : s.analysis = watch.workspace.analysis
  tracks : ∃ a, s.debouncer.Tracks Workspace.IsRescan watch.delayMs rs s.timers a

variable {rs : List (UpdateRequest τ Job)} {w : Watcher} {s : Workspace τ}

theorem follows_start : watch.Follows [] watch.start.watcher watch.start.workspace :=
  ⟨rfl, rfl, rfl, _, Debouncer.tracks_start _ _⟩

theorem Follows.keeps (h : watch.Follows rs w s) {s' : Workspace τ} (hs : s.Keeps s') :
    watch.Follows rs w s' where
  root := h.root
  rules := hs.rules.trans h.rules
  analysis := hs.analysis.trans h.analysis
  tracks := by
    rw [hs.timers, hs.debouncer]
    exact h.tracks

variable [Time.Steady τ]

theorem Follows.change (h : watch.Follows rs w s) (kind : FileChange) (path : String) :
    watch.Follows (rs ++ (watch.requestOf? (kind, path)).toList)
        (w.change s watch.listener kind path).1 (w.change s watch.listener kind path).2 ∧
      (w.change s watch.listener kind path).2.updates = s.updates := by
  obtain ⟨hroot, hrules, hanalysis, a, ha⟩ := id h
  have hforwards : ({ w with received := w.received + 1 } : Watcher).shouldProcess s.scanner.rules
      path = watch.forwards path := by
    rw [forwards, Watcher.shouldProcess, Watcher.shouldProcess, hroot, hrules]
    rfl
  rw [Watcher.change, hforwards, requestOf?]
  cases watch.forwards path with
  | false =>
    simp only [Bool.false_eq_true, if_false, Option.toList_none, List.append_nil]
    exact ⟨⟨hroot, hrules, hanalysis, a, ha⟩, trivial⟩
  | true =>
    simp only [if_true]
    cases kind with
    | deleted => exact ⟨⟨hroot, hrules, hanalysis, _, ha.cancel path⟩, rfl⟩
    | created => exact ⟨⟨hroot, hrules, hanalysis, _, ha.update path trivial⟩, rfl⟩
    | modified => exact ⟨⟨hroot, hrules, hanalysis, _, ha.update path trivial⟩, rfl⟩

theorem Follows.notice (h : watch.Follows rs w s) (n : FileNotice) :
    watch.Follows (rs ++ n.changes.filterMap watch.requestOf?) (w.notice s watch.listener n).1
        (w.notice s watch.listener n).2 ∧
      (w.notice s watch.listener n).2.updates = s.updates := by
  obtain ⟨event, isDirectory⟩ := n
  cases isDirectory with
  | true =>
    simp only [FileNotice.changes, if_true, List.filterMap_nil, List.append_nil]
    exact ⟨h, rfl⟩
  | false =>
    cases event with
    | change kind path =>
      have hrequests : List.filterMap watch.requestOf? [(kind, path)] =
          (watch.requestOf? (kind, path)).toList := by
        cases hr : watch.requestOf? (kind, path) <;> simp [hr]
      simp only [FileNotice.changes, Bool.false_eq_true, if_false]
      rw [hrequests]
      exact h.change kind path
    | move source destination =>
      have hrequests : List.filterMap watch.requestOf?
            [(.deleted, source), (.created, destination)] =
          (watch.requestOf? (.deleted, source)).toList ++
            (watch.requestOf? (.created, destination)).toList := by
        cases hr : watch.requestOf? (.deleted, source) <;>
          cases hr' : watch.requestOf? (.created, destination) <;> simp [hr, hr']
      simp only [FileNotice.changes, Bool.false_eq_true, if_false]
      rw [hrequests, ← List.append_assoc]
      obtain ⟨hdeleted, hupdates⟩ := h.change .deleted source
      obtain ⟨hcreated, hupdates'⟩ := hdeleted.change .created destination
      exact ⟨hcreated, hupdates'.trans hupdates⟩

open Workspace in
theorem Follows.advance (h : watch.Follows rs w s) (hrescans : ∀ key u,
    Awaited watch.delayMs rs key u → u.action = .rescan key watch.listener) (world : World τ)
    (seconds : τ) :
    ∃ s' rescans, (∀ fuel, rs.length < fuel →
        s.advance world fuel seconds = some (s', rescans.length)) ∧
      watch.Follows (rs ++ [.advance seconds]) w s' ∧
      Rescans world watch.listener (clock rs + seconds) rescans s s' ∧
      (rescans.map Rescan.path).Nodup ∧
      ∀ rescan, rescan ∈ rescans ↔ ComesDue watch.delayMs rs (.advance seconds) rescan.path
        ⟨.rescan rescan.path watch.listener, rescan.time⟩ := by
  obtain ⟨hroot, hrules, hanalysis, a, ha⟩ := h
  obtain ⟨timers, t, a', hgo, hdistinct, hdue, htracks, hrun⟩ :=
    Debouncer.Tracks.advance_host (passive_host world _) (s := s) ha seconds
  have hactions : ∀ timer ∈ timers, timer.action = .rescan timer.key watch.listener :=
    fun timer htimer => hrescans _ _ ((hdue _ _).2 ⟨timer, htimer, rfl, rfl⟩).1
  have htrace := rescans_of_goOff (clock rs + seconds) hgo hactions
  obtain ⟨hdebouncer, hanalysis', hrules'⟩ := htrace.keeps
  refine ⟨_, _, fun fuel hfuel => ?_, ⟨hroot, hrules'.trans hrules, hanalysis'.trans hanalysis, a', ?_⟩,
    htrace, ?_, fun rescan => ?_⟩
  · rw [List.length_map]
    exact hrun fuel hfuel
  · rw [hdebouncer]
    exact htracks
  · rw [List.map_map]
    exact hdistinct
  · obtain ⟨path, time⟩ := rescan
    simp only [List.mem_map, hdue, Rescan.mk.injEq]
    constructor
    · rintro ⟨timer, htimer, rfl, rfl⟩
      exact ⟨timer, htimer, rfl, congrArg (PendingUpdate.mk · _) (hactions timer htimer)⟩
    · rintro ⟨timer, htimer, rfl, hupdate⟩
      exact ⟨timer, htimer, rfl, congrArg PendingUpdate.due hupdate⟩

/-! ## Whole sessions -/

open Workspace in
/-- What an event after others makes a session tell. An advance consists of the rescans that wait and
whose time it reaches, each of them once; no other event tells anything. -/
structure Tells (watch : Watch τ) (past : List (WatchEvent τ)) (e : WatchEvent τ)
    (s s' : WatchSession τ) : Prop where
  rescans : ∀ seconds, e = .advance seconds → ∃ rescans,
    Rescans s.world watch.listener (clock (watch.requests past) + seconds) rescans s.workspace
        s'.workspace ∧
      (rescans.map Rescan.path).Nodup ∧
      ∀ rescan, rescan ∈ rescans ↔ watch.RescanAwaited past rescan ∧
        rescan.time ≤ clock (watch.requests past) + seconds
  silent : (∀ seconds, e ≠ .advance seconds) → s'.workspace.updates = s.workspace.updates

variable {past : List (WatchEvent τ)}

theorem Follows.step {s : WatchSession τ} (h : watch.Follows (watch.requests past) s.watcher s.workspace)
    (e : WatchEvent τ) :
    ∃ s', (∀ fuel, (watch.requests (past ++ [e])).length ≤ fuel → watch.step fuel s e = some s') ∧
      watch.Follows (watch.requests (past ++ [e])) s'.watcher s'.workspace ∧
      watch.Tells past e s s' := by
  rw [requests_append, requests_singleton]
  cases e with
  | notice n =>
    obtain ⟨hfollows, hupdates⟩ := h.notice n
    exact ⟨watch.notice s n, fun _ _ => rfl, hfollows, nofun, fun _ => hupdates⟩
  | change world =>
    rw [requestsOf, List.append_nil]
    exact ⟨{ s with world := world }, fun _ _ => rfl, h, nofun, fun _ => rfl⟩
  | scanFile path =>
    rw [requestsOf, List.append_nil]
    exact ⟨{ s with workspace := (s.workspace.scanFile s.world path).1 }, fun _ _ => rfl,
      h.keeps (s.workspace.keeps_scanFile s.world path), nofun, fun _ => rfl⟩
  | advance seconds =>
    obtain ⟨workspace, rescans, hrun, hfollows, htrace, hdistinct, hmem⟩ :=
      h.advance (fun _ _ => action_of_awaited_requests) s.world seconds
    refine ⟨{ s with workspace := workspace }, fun fuel hfuel => ?_, hfollows, ?_, ?_⟩
    · simp only [requestsOf, List.length_append, List.length_singleton] at hfuel
      rw [Watch.step, hrun fuel hfuel]
      rfl
    · intro reached hreached
      obtain rfl := WatchEvent.advance.inj hreached
      refine ⟨rescans, htrace, hdistinct, fun rescan => (hmem rescan).trans (and_congr_right fun _ => ?_)⟩
      simp
    · intro hne
      exact absurd rfl (hne seconds)

theorem after_follows (watch : Watch τ) (past : List (WatchEvent τ)) :
    ∃ s, (∀ fuel, (watch.requests past).length ≤ fuel → watch.after fuel past = some s) ∧
      watch.Follows (watch.requests past) s.watcher s.workspace := by
  induction past using List.reverseRecOn with
  | nil => exact ⟨watch.start, fun _ _ => rfl, follows_start⟩
  | append_singleton past e ih =>
    obtain ⟨s, hafter, hfollows⟩ := ih
    obtain ⟨s', hstep, hfollows', -⟩ := hfollows.step e
    refine ⟨s', fun fuel hfuel => ?_, hfollows'⟩
    rw [after_concat, hafter fuel ((watch.length_requests_le past [e]).trans hfuel),
      Option.bind_some, hstep fuel hfuel]

theorem after_tells (watch : Watch τ) (past : List (WatchEvent τ)) (e : WatchEvent τ) :
    ∃ s s', (∀ fuel, (watch.requests (past ++ [e])).length ≤ fuel →
        watch.after fuel past = some s ∧ watch.after fuel (past ++ [e]) = some s') ∧
      watch.Follows (watch.requests past) s.watcher s.workspace ∧ watch.Tells past e s s' := by
  obtain ⟨s, hafter, hfollows⟩ := watch.after_follows past
  obtain ⟨s', hstep, -, htells⟩ := hfollows.step e
  refine ⟨s, s', fun fuel hfuel => ?_, hfollows, htells⟩
  have hs := hafter fuel ((watch.length_requests_le past [e]).trans hfuel)
  exact ⟨hs, by rw [after_concat, hs, Option.bind_some, hstep fuel hfuel]⟩

/-! ## Deleted files -/

omit [Time.Steady τ] in
theorem Tells.updatesOf_eq {e : WatchEvent τ} {s s' : WatchSession τ} (h : watch.Tells past e s s')
    {path : String} (hquiet : ∀ u, ¬ Awaited watch.delayMs (watch.requests past) path u) :
    s'.workspace.updatesOf path = s.workspace.updatesOf path := by
  by_cases he : ∃ seconds, e = .advance seconds
  · obtain ⟨seconds, rfl⟩ := he
    obtain ⟨rescans, htrace, -, hmem⟩ := h.rescans seconds rfl
    refine htrace.updatesOf_eq fun rescan hrescan => ?_
    rintro rfl
    exact hquiet _ ((hmem rescan).1 hrescan).1
  · rw [Workspace.updatesOf, h.silent fun seconds heq => he ⟨seconds, heq⟩]
    rfl

theorem silent_after_deletion (watch : Watch τ) (before since : List (WatchEvent τ)) (path : String)
    (hsince : ∀ e ∈ since, ¬ e.Renews path) :
    ∃ s s', (∀ fuel, (watch.requests (before ++ .deletion path :: since)).length ≤ fuel →
        watch.after fuel before = some s ∧
          watch.after fuel (before ++ .deletion path :: since) = some s') ∧
      s'.workspace.updatesOf path = s.workspace.updatesOf path := by
  induction since using List.reverseRecOn with
  | nil =>
    obtain ⟨s, s', hafter, -, htells⟩ := watch.after_tells before (.deletion path)
    exact ⟨s, s', hafter, congrArg (List.filter _) (htells.silent nofun)⟩
  | append_singleton since e ih =>
    have hearlier : ∀ other ∈ since, ¬ other.Renews path :=
      fun other hother => hsince other (List.mem_append_left _ hother)
    obtain ⟨s, t, hafter, hsame⟩ := ih hearlier
    obtain ⟨t', s', hafter', -, htells⟩ := watch.after_tells (before ++ .deletion path :: since) e
    have hlength := watch.length_requests_le (before ++ .deletion path :: since) [e]
    obtain rfl : t = t' :=
      Option.some.inj ((hafter _ hlength).2.symm.trans (hafter' _ (Nat.le_refl _)).1)
    rw [← List.cons_append, ← List.append_assoc]
    refine ⟨s, s', fun fuel hfuel => ⟨(hafter fuel (hlength.trans hfuel)).1, (hafter' fuel hfuel).2⟩, ?_⟩
    rw [htells.updatesOf_eq (not_awaited_of_deletion hearlier), hsame]

/-! ## The pipeline -/

/-- After any events, a further event is answered. If it advances the clock, just those files are
scanned anew whose last change was passed on and whose delay is over by then, each of them once and
at its time; the listener is told what the file gives then. Else nothing is told. A move is a deletion
and a creation, and nothing is told about a deleted file until it is back. -/
theorem reports_fresh (watch : Watch τ) (past : List (WatchEvent τ)) (e : WatchEvent τ) :
    ∃ s s', (∀ fuel, (watch.requests (past ++ [e])).length ≤ fuel →
        watch.after fuel past = some s ∧ watch.after fuel (past ++ [e]) = some s') ∧
      s.workspace.scanner.rules = watch.workspace.scanner.rules ∧
      s.workspace.analysis = watch.workspace.analysis ∧
      watch.Tells past e s s' ∧
      (∀ fuel source destination, watch.after fuel (past ++ [.move source destination]) =
        watch.after fuel (past ++ [.deletion source] ++ [.creation destination])) ∧
      ∀ before since path, past ++ [e] = before ++ .deletion path :: since →
        (∀ other ∈ since, ¬ other.Renews path) →
        ∃ t, (∀ fuel, (watch.requests (past ++ [e])).length ≤ fuel →
            watch.after fuel before = some t) ∧
          s'.workspace.updatesOf path = t.workspace.updatesOf path := by
  obtain ⟨s, s', hafter, hfollows, htells⟩ := watch.after_tells past e
  refine ⟨s, s', hafter, hfollows.rules, hfollows.analysis, htells, ?_, ?_⟩
  · intro fuel source destination
    rw [after_concat, after_concat, after_concat, Option.bind_assoc]
    rfl
  · intro before since path hsplit hsince
    obtain ⟨t, t', hboth, hsame⟩ := watch.silent_after_deletion before since path hsince
    rw [← hsplit] at hboth
    obtain rfl : s' = t' := Option.some.inj
      ((hafter _ (Nat.le_refl _)).2.symm.trans (hboth _ (Nat.le_refl _)).2)
    exact ⟨t, fun fuel hfuel => (hboth fuel hfuel).1, hsame⟩

namespace Created

def workspace : Workspace ℚ where
  analysis := .standard
  sampleInterval := 5
  checkInterval := 30
  scanner := ⟨⟨.standard, [], none, none, .standard⟩, none, none, []⟩
  debouncer := .start 300
  memory := ⟨100, 200, 10, false, [], []⟩
  memorySampler := .constant ⟨0, 0, 0⟩
  timers := .start 0
  updates := []

/-- A file with one variable. -/
def session : Watch ℚ where
  root := none
  listener := some ⟨none⟩
  delayMs := 300
  workspace := workspace
  world :=
    ⟨⟨[(["w"], .directory), (["w", "a.js"], .file ⟨"let x = 1".toUTF8.toList, 0⟩)]⟩, 0⟩

/-- After it was created its variable is told, once. -/
theorem reports_created :
    ∃ s s', session.after 2 [.creation "w/a.js"] = some s ∧
      session.after 2 ([.creation "w/a.js"] ++ [.advance 1]) = some s' ∧
      session.Tells [.creation "w/a.js"] (.advance 1) s s' ∧
      s'.workspace.updates.map (fun u => (u.path, u.vars.map Variable.name)) =
        [("w/a.js", ["x"])] := by
  obtain ⟨s, s', hafter, -, -, htells, -⟩ := session.reports_fresh [.creation "w/a.js"] (.advance 1)
  obtain ⟨hs, hs'⟩ := hafter 2 (by decide +kernel)
  have htold : (session.after 2 [.creation "w/a.js", .advance 1]).map
      (·.workspace.updates.map fun u => (u.path, u.vars.map Variable.name)) =
        some [("w/a.js", ["x"])] := by
    decide +kernel
  exact ⟨s, s', hs, hs', htells, Option.some.inj ((congrArg (Option.map _) hs').symm.trans htold)⟩

end Created

end Watch
end DeclScan
