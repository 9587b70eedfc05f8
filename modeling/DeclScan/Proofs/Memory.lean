import DeclScan.Memory
import DeclScan.Proofs.Number.Order
import DeclScan.Proofs.Run
import DeclScan.Proofs.Window

/-!
# DeclScan.Proofs.Memory

What a memory manager does over a whole run. A round goes through the cleanups that are registered
when it begins. They may change what is registered, and they may fail; neither changes the round.

* `MemoryManager.runAll_eq`: a round, without its recursion.
* `MemoryManager.Does`: what each call may do, by what is registered and by the thresholds.
* `MemoryManager.does_stateAfter`: after any calls the next one does just that; and what is known
  then of samples, registrations and thresholds.
-/

namespace DeclScan

/-- A call of a memory manager. What each cleanup does in its turn comes with the call. -/
inductive MemoryCall where
  | register (name : String)
  | unregister (name : String)
  | check (effect : Nat → String → CleanupEffect) (sample : Sample MemoryStats)
  | cleanUp (effect : Nat → String → CleanupEffect)
  | setThresholds (warningMb criticalMb : Float)

/-- What a call gives back. -/
inductive MemoryResult where
  | done
  | pressure (pressure : MemoryPressure)
  | failure (text : String)
  | refused (e : MemoryManager.LimitError)
  deriving Repr, DecidableEq

/-- What is seen of a call. -/
structure MemoryAnswer where
  events : List MemoryEvent
  log : List LogRecord
  result : MemoryResult

namespace MemoryAnswer

/-- Nothing is seen of the call. -/
def silent : MemoryAnswer := ⟨[], [], .done⟩

/-- The cleanup that an event is the run of. -/
def cleanup? : MemoryEvent → Option String
  | .cleanup name => some name
  | .notice _ => none

/-- The cleanups that ran, in order. -/
def ran (a : MemoryAnswer) : List String := a.events.filterMap cleanup?

theorem filterMap_cleanup? (names : List String) :
    (names.map MemoryEvent.cleanup).filterMap cleanup? = names := by
  rw [List.filterMap_map]
  exact List.filterMap_some

theorem filterMap_cleanup?_append_notice (names : List String) (hasReceiver : Bool) (text : String) :
    (names.map MemoryEvent.cleanup ++
      (if hasReceiver then [MemoryEvent.notice text] else [])).filterMap cleanup? = names := by
  rw [List.filterMap_append, filterMap_cleanup?]
  cases hasReceiver <;> exact List.append_nil names

end MemoryAnswer

namespace MemoryManager

def step (m : MemoryManager) : MemoryCall → MemoryManager × MemoryAnswer
  | .register name => (m.register name, .silent)
  | .unregister name => (m.unregister name, .silent)
  | .check effect sample =>
    let done := m.check effect sample
    let result :=
      match done.result with
      | .ok pressure => .pressure pressure
      | .error text => .failure text
    (done.manager, ⟨done.events, done.log, result⟩)
  | .cleanUp effect =>
    let done := m.cleanUp effect
    (done.manager, ⟨done.events, done.log, .done⟩)
  | .setThresholds warningMb criticalMb =>
    match m.setThresholds warningMb criticalMb with
    | .ok m => (m, .silent)
    | .error e => (m, ⟨[], [], .refused e⟩)

/-! ## Rounds -/

/-- The changes of a round, in order. -/
def changesIn (effect : Nat → String → CleanupEffect) (names : List String) : List CleanupChange :=
  names.zipIdx.flatMap fun (name, turn) => (effect turn name).changes

/-- The records about the failures of a round, in order. -/
def failuresIn (effect : Nat → String → CleanupEffect) (names : List String) : List LogRecord :=
  names.zipIdx.flatMap fun (name, turn) =>
    ((effect turn name).failure.map cleanupFailureRecord).toList

section Rounds

variable (effect : Nat → String → CleanupEffect)

theorem changesIn_cons (name : String) (names : List String) :
    changesIn effect (name :: names) =
      (effect 0 name).changes ++ changesIn (fun turn => effect (turn + 1)) names := by
  rw [changesIn, List.zipIdx_cons', List.flatMap_cons, List.flatMap_map]
  rfl

theorem failuresIn_cons (name : String) (names : List String) :
    failuresIn effect (name :: names) =
      ((effect 0 name).failure.map cleanupFailureRecord).toList ++
        failuresIn (fun turn => effect (turn + 1)) names := by
  rw [failuresIn, List.zipIdx_cons', List.flatMap_cons, List.flatMap_map]
  rfl

/-- What a change makes of the registered cleanups. -/
def changed (names : List String) : CleanupChange → List String
  | .register name => names ++ [name]
  | .unregister name => names.erase name

theorem foldl_change (changes : List CleanupChange) (m : MemoryManager) :
    changes.foldl change m = { m with cleanups := changes.foldl changed m.cleanups } := by
  induction changes generalizing m with
  | nil => rfl
  | cons c changes ih =>
    rw [List.foldl_cons, ih]
    cases c <;> rfl

/-- A round goes through the names that it was given, whatever is changed and whatever fails. -/
theorem runAll_eq (names : List String) (m : MemoryManager) :
    runAll effect names m =
      ⟨{ m with cleanups := (changesIn effect names).foldl changed m.cleanups },
        names.map .cleanup, failuresIn effect names, ()⟩ := by
  induction names generalizing effect m with
  | nil => rfl
  | cons name names ih =>
    rw [runAll, ih, changesIn_cons, failuresIn_cons, foldl_change, List.foldl_append]
    rfl

end Rounds

/-! ## Calls -/

/-- The registrations after a round. -/
def cleanupsAfter (m : MemoryManager) (effect : Nat → String → CleanupEffect) : List String :=
  (changesIn effect m.cleanups).foldl changed m.cleanups

/-- What one call may do. A round goes through what is registered at the moment of the call. Whether
there is one, and whether notice is given, is up to the sample and the thresholds. -/
inductive Does (m : MemoryManager) : MemoryCall → MemoryManager → MemoryAnswer → Prop where
  | register {name : String} :
      Does m (.register name) { m with cleanups := m.cleanups ++ [name] } .silent
  /-- Of several registrations the earliest goes. -/
  | unregister {name : String} {before behind : List String} (hfirst : name ∉ before)
      (hcleanups : m.cleanups = before ++ name :: behind) :
      Does m (.unregister name) { m with cleanups := before ++ behind } .silent
  | unknown {name : String} (hname : name ∉ m.cleanups) : Does m (.unregister name) m .silent
  | critical {effect : Nat → String → CleanupEffect} {stats : MemoryStats}
      (hcritical : m.criticalMb < stats.rss / 1048576) :
      Does m (.check effect (.value stats))
        { m with
          cleanups := m.cleanupsAfter effect
          history := (m.history ++ [stats]).rtake m.historyLimit }
        { events := m.cleanups.map .cleanup ++ (if m.hasReceiver then [.notice noticeText] else [])
          log := [.warning .memory s!"Critical memory usage: {fixedText 2 (stats.rss / 1048576)}MB",
              .info .memory "Performing critical memory cleanup"] ++
            failuresIn effect m.cleanups ++
            (if m.hasReceiver then [] else [.warning .memory noticeText])
          result := .pressure .critical }
  | high {effect : Nat → String → CleanupEffect} {stats : MemoryStats}
      (hcritical : ¬m.criticalMb < stats.rss / 1048576) (hwarning : m.warningMb < stats.rss / 1048576) :
      Does m (.check effect (.value stats))
        { m with
          cleanups := m.cleanupsAfter effect
          history := (m.history ++ [stats]).rtake m.historyLimit }
        { events := m.cleanups.map .cleanup
          log := [.warning .memory s!"High memory usage: {fixedText 2 (stats.rss / 1048576)}MB",
              .info .memory "Performing memory cleanup"] ++
            failuresIn effect m.cleanups
          result := .pressure .high }
  | calm {effect : Nat → String → CleanupEffect} {stats : MemoryStats}
      (hcritical : ¬m.criticalMb < stats.rss / 1048576) (hwarning : ¬m.warningMb < stats.rss / 1048576) :
      Does m (.check effect (.value stats))
        { m with history := (m.history ++ [stats]).rtake m.historyLimit }
        { events := []
          log := []
          result := .pressure
            (if m.warningMb * mediumRatio < stats.rss / 1048576 then .medium else .low) }
  | unavailable {effect : Nat → String → CleanupEffect} {outage : Outage} :
      Does m (.check effect (.unavailable outage)) m
        ⟨[], [Monitor.unavailableRecord .memory outage], .pressure .low⟩
  | failure {effect : Nat → String → CleanupEffect} {text : String} :
      Does m (.check effect (.failure text)) m ⟨[], [], .failure text⟩
  | cleanUp {effect : Nat → String → CleanupEffect} :
      Does m (.cleanUp effect) { m with cleanups := m.cleanupsAfter effect }
        { events := m.cleanups.map .cleanup
          log := .info .memory "Performing memory cleanup" :: failuresIn effect m.cleanups
          result := .done }
  | accepted {warningMb criticalMb : Float}
      (horder : ¬(warningMb ≤ 0 ∨ criticalMb < warningMb)) :
      Does m (.setThresholds warningMb criticalMb)
        { m with warningMb := warningMb, criticalMb := criticalMb } .silent
  | refused {warningMb criticalMb : Float} (horder : warningMb ≤ 0 ∨ criticalMb < warningMb) :
      Does m (.setThresholds warningMb criticalMb) m ⟨[], [], .refused .notOrdered⟩

theorem does_check (m : MemoryManager) (effect : Nat → String → CleanupEffect)
    (sample : Sample MemoryStats) :
    m.Does (.check effect sample) (m.step (.check effect sample)).1
      (m.step (.check effect sample)).2 := by
  cases sample with
  | unavailable outage => exact .unavailable
  | failure text => exact .failure
  | value stats =>
    by_cases hcritical : m.criticalMb < residentMb stats
    · simp only [step, check, cleanUpCritical, runAll_eq, pressureFor, hcritical, if_true]
      exact .critical hcritical
    · by_cases hwarning : m.warningMb < residentMb stats
      · simp only [step, check, cleanUp, runAll_eq, pressureFor, hcritical, hwarning, if_true,
          if_false]
        exact .high hcritical hwarning
      · simp only [step, check, pressureFor, hcritical, hwarning, if_false]
        exact .calm hcritical hwarning

theorem areThresholds_iff {warningMb criticalMb : Float} :
    areThresholds warningMb criticalMb = true ↔ ¬(warningMb ≤ 0 ∨ criticalMb < warningMb) := by
  simp [areThresholds]

theorem does_step (m : MemoryManager) (call : MemoryCall) :
    m.Does call (m.step call).1 (m.step call).2 := by
  cases call with
  | register name => exact .register
  | unregister name =>
    by_cases hname : name ∈ m.cleanups
    · obtain ⟨before, behind, hfirst, hcleanups, herase⟩ := List.exists_erase_eq hname
      simp only [step, unregister, herase]
      exact .unregister hfirst hcleanups
    · simp only [step, unregister, List.erase_of_not_mem hname]
      exact .unknown hname
  | check effect sample => exact m.does_check effect sample
  | cleanUp effect =>
    simp only [step, cleanUp, runAll_eq]
    exact .cleanUp
  | setThresholds warningMb criticalMb =>
    by_cases horder : warningMb ≤ 0 ∨ criticalMb < warningMb
    · simp only [step, setThresholds, areThresholds_iff, horder, not_true, if_false]
      exact .refused horder
    · simp only [step, setThresholds, areThresholds_iff, horder, not_false_iff, if_true]
      exact .accepted horder

/-! ## Runs -/

/-- The samples that were taken. -/
def samplesOf (calls : List MemoryCall) : List MemoryStats :=
  calls.filterMap fun
    | .check _ (.value stats) => some stats
    | _ => none

/-- The changes that a call made, by itself or by the cleanups that ran. -/
def changesOf : MemoryCall × MemoryAnswer → List CleanupChange
  | (.register name, _) => [.register name]
  | (.unregister name, _) => [.unregister name]
  | (.check effect _, answer) | (.cleanUp effect, answer) => changesIn effect answer.ran
  | (.setThresholds _ _, _) => []

/-- The thresholds after a call. Those that are not in order do not come to hold. -/
def thresholdsAfter (thresholds : Float × Float) : MemoryCall → Float × Float
  | .setThresholds warningMb criticalMb =>
    if warningMb ≤ 0 ∨ criticalMb < warningMb then thresholds else (warningMb, criticalMb)
  | _ => thresholds

/-- What a manager keeps, by all that was called and answered since it was `start`. -/
structure IsAfter (start : MemoryManager) (past : List (MemoryCall × MemoryAnswer))
    (m : MemoryManager) : Prop where
  history : m.history = (samplesOf (past.map Prod.fst)).rtake start.historyLimit
  cleanups : m.cleanups = (past.flatMap changesOf).foldl changed []
  thresholds : (m.warningMb, m.criticalMb) =
    (past.map Prod.fst).foldl thresholdsAfter (start.warningMb, start.criticalMb)
  historyLimit : m.historyLimit = start.historyLimit
  hasReceiver : m.hasReceiver = start.hasReceiver

namespace IsAfter

variable {start m m' : MemoryManager} {past : List (MemoryCall × MemoryAnswer)} {call : MemoryCall}
  {answer : MemoryAnswer}

theorem append (h : IsAfter start past m)
    (hhistory : m'.history = (samplesOf [call]).foldl (Window.push m.historyLimit) m.history)
    (hcleanups : m'.cleanups = (changesOf (call, answer)).foldl changed m.cleanups)
    (hthresholds : (m'.warningMb, m'.criticalMb) = thresholdsAfter (m.warningMb, m.criticalMb) call)
    (hlimit : m'.historyLimit = m.historyLimit) (hreceiver : m'.hasReceiver = m.hasReceiver) :
    IsAfter start (past ++ [(call, answer)]) m' where
  history := by
    rw [hhistory, h.history, h.historyLimit, Window.foldl_push, List.map_append, samplesOf,
      samplesOf, samplesOf, List.filterMap_append]
    rfl
  cleanups := by
    rw [hcleanups, h.cleanups, List.flatMap_append, List.flatMap_singleton, List.foldl_append]
  thresholds := by
    rw [hthresholds, h.thresholds, List.map_append, List.foldl_append]
    rfl
  historyLimit := hlimit.trans h.historyLimit
  hasReceiver := hreceiver.trans h.hasReceiver

theorem does (h : IsAfter start past m) (hdoes : m.Does call m' answer) :
    IsAfter start (past ++ [(call, answer)]) m' := by
  cases hdoes with
  | register | unavailable | failure | calm => exact h.append rfl rfl rfl rfl rfl
  | @unregister name before behind hfirst hcleanups =>
    refine h.append rfl ?_ rfl rfl rfl
    change before ++ behind = m.cleanups.erase name
    rw [hcleanups, List.erase_append_right _ hfirst, List.erase_cons_head]
  | unknown hname => exact h.append rfl (List.erase_of_not_mem hname).symm rfl rfl rfl
  | critical =>
    have hran := MemoryAnswer.filterMap_cleanup?_append_notice m.cleanups m.hasReceiver noticeText
    refine h.append rfl ?_ rfl rfl rfl
    rw [changesOf, MemoryAnswer.ran, hran]
    rfl
  | high | cleanUp =>
    refine h.append rfl ?_ rfl rfl rfl
    rw [changesOf, MemoryAnswer.ran, MemoryAnswer.filterMap_cleanup?]
    rfl
  | accepted horder => exact h.append rfl rfl (if_neg horder).symm rfl rfl
  | refused horder => exact h.append rfl rfl (if_pos horder).symm rfl rfl

end IsAfter

theorem isAfter_stateAfter (start : MemoryManager) (hcleanups : start.cleanups = [])
    (hhistory : start.history = []) (calls : List MemoryCall) :
    IsAfter start (transcript step start calls) (stateAfter step start calls) := by
  refine transcript_induction step (fun past m call h => h.does (m.does_step call)) ?_ calls
  exact ⟨hhistory.trans (List.rtake_nil _).symm, hcleanups, rfl, rfl, rfl⟩

theorem start_eq_ok {warningMb criticalMb : Float} (hwarning : 0 < warningMb)
    (horder : warningMb ≤ criticalMb) {historyLimit : Int} (hlimit : 0 ≤ historyLimit)
    (hasReceiver : Bool) :
    start warningMb criticalMb historyLimit hasReceiver =
      .ok ⟨warningMb, criticalMb, historyLimit.toNat, hasReceiver, [], []⟩ := by
  have hthresholds : areThresholds warningMb criticalMb = true :=
    areThresholds_iff.2 (not_or.2 ⟨Binary64.not_le_of_lt hwarning, Binary64.not_lt_of_le horder⟩)
  simp only [start, setThresholds, hthresholds, if_true, Window.sizeOf, Int.not_lt.2 hlimit, if_false]

/-- A manager with thresholds in order can be had. After any calls of it, the history has the last of
all samples, the registrations are those that all changes lead to, and the thresholds are the last
in order; and whatever call comes next, it does what it may do at that moment. -/
theorem does_stateAfter {warningMb criticalMb : Float} (hwarning : 0 < warningMb)
    (horder : warningMb ≤ criticalMb) {historyLimit : Int} (hlimit : 0 ≤ historyLimit)
    (hasReceiver : Bool) :
    ∃ m₀, start warningMb criticalMb historyLimit hasReceiver = .ok m₀ ∧
      ∀ calls : List MemoryCall,
        let m := stateAfter step m₀ calls
        m.history = (samplesOf calls).rtake historyLimit.toNat ∧
        m.cleanups = ((transcript step m₀ calls).flatMap changesOf).foldl changed [] ∧
        (m.warningMb, m.criticalMb) = calls.foldl thresholdsAfter (warningMb, criticalMb) ∧
        m.hasReceiver = hasReceiver ∧
        ∀ call, m.Does call (m.step call).1 (m.step call).2 := by
  refine ⟨_, start_eq_ok hwarning horder hlimit hasReceiver, fun calls => ?_⟩
  have hafter := isAfter_stateAfter
    ⟨warningMb, criticalMb, historyLimit.toNat, hasReceiver, [], []⟩ rfl rfl calls
  have hcalls := hafter.history
  have hthresholds := hafter.thresholds
  rw [map_fst_transcript] at hcalls hthresholds
  exact ⟨hcalls, hafter.cleanups, hthresholds, hafter.hasReceiver, does_step _⟩

namespace Usual

/-- The first cleanup takes the second one out, registers another one and fails. -/
def effect (turn : Nat) (_ : String) : CleanupEffect :=
  if turn = 0 then ⟨[.unregister "b", .register "c"], some "x"⟩ else .plain

def calls : List MemoryCall := [.register "a", .register "b", .register "a"]

/-- A sample of 300 MiB. -/
def heavy : MemoryCall := .check effect (.value ⟨314572800, 0, 0⟩)

end Usual

open Usual in
/-- With the usual thresholds all cleanups of the round run. -/
theorem does_stateAfter_usual :
    (0 : Float) < 100 ∧ (100 : Float) ≤ 200 ∧ (0 : Int) ≤ 2 ∧
    ∃ m₀, start 100 200 2 true = .ok m₀ ∧
      let m := stateAfter step m₀ calls
      m.Does heavy (m.step heavy).1 (m.step heavy).2 ∧
      (stateAfter step m₀ (calls ++ [heavy])).history.map MemoryStats.rss = [314572800] ∧
      (m.step heavy).1.cleanups = ["a", "a", "c"] ∧
      (m.step heavy).2.events =
        [.cleanup "a", .cleanup "b", .cleanup "a", .notice noticeText] ∧
      (m.step heavy).2.result = .pressure .critical := by
  have hwarning : (0 : Float) < 100 := by decide +kernel
  have horder : (100 : Float) ≤ 200 := by decide +kernel
  have hlimit : (0 : Int) ≤ 2 := by decide
  obtain ⟨m₀, hstart, hcalls⟩ := does_stateAfter hwarning horder hlimit true
  obtain ⟨-, -, -, -, hdoes⟩ := hcalls calls
  obtain ⟨hhistory, -⟩ := hcalls (calls ++ [heavy])
  obtain rfl := Except.ok.inj (hstart.symm.trans (start_eq_ok hwarning horder hlimit true))
  exact ⟨hwarning, horder, hlimit, _, hstart, hdoes heavy,
    (congrArg (List.map MemoryStats.rss) hhistory).trans rfl, by decide +kernel⟩

end MemoryManager
end DeclScan
