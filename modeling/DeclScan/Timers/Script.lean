import DeclScan.Timers.Host

/-!
# DeclScan.Timers.Script

Timers whose actions are scripts. A script asks something of the timers, goes on with the answer,
asks again, and in the end may fail. What the scripts of a program share beside the timers is the
client's own.

* `TimerScript`: what a script may ask.
* `TimerProgram.perform`: carries out a script.
* `TimerProgram.host`: timers that go off perform the scripts of their actions. A failure is noted
  and has no other effect.

All that happens to the timers and all that is answered goes to a history.
-/

namespace DeclScan

/-- A script for timers with actions `α` and a client `σ`: requests, and how it goes on after the
answers. -/
inductive TimerScript (τ α σ : Type) where
  | done (failure : Option String)
  | recollect (next : σ → TimerScript τ α σ)
  | remember (client : σ) (next : TimerScript τ α σ)
  | now (next : τ → TimerScript τ α σ)
  | schedule (key : String) (delay : τ) (action : α) (next : TimerScript τ α σ)
  | scheduleInterval (key : String) (interval : τ) (action : α) (next : TimerScript τ α σ)
  | cancel (key : String) (next : Bool → TimerScript τ α σ)
  | cancelAll (next : TimerScript τ α σ)
  | isPending (key : String) (next : Bool → TimerScript τ α σ)
  | pendingCount (next : Nat → TimerScript τ α σ)
  | advance (seconds : τ) (next : Nat → TimerScript τ α σ)

/-- Something that happened to timers, or was answered about them.

* `set key time delay repeats action`: a timer was set when the clock showed `time`.
* `fired key time action`: the timer of a key went off.
* `failed key text`: the script of a timer failed.
* `advanced time count`: the clock was advanced to `time`, and so many timers went off.
-/
inductive TimerEvent (τ α : Type) where
  | set (key : String) (time delay : τ) (repeats : Bool) (action : α)
  | cancelled (key : String) (was : Bool)
  | cancelledAll
  | asked (key : String) (pending : Bool)
  | counted (pending : Nat)
  | read (time : τ)
  | fired (key : String) (time : τ) (action : α)
  | failed (key text : String)
  | advanced (time : τ) (count : Nat)
  deriving Repr, DecidableEq

/-- Timers with a client, and what happened so far. -/
structure TimerProgram (τ α σ : Type) where
  timers : Timers τ α
  client : σ
  history : List (TimerEvent τ α)

namespace TimerProgram

variable {τ α σ : Type} [Time τ]

def start (client : σ) : TimerProgram τ α σ := ⟨Timers.start Time.zero, client, []⟩

def note (s : TimerProgram τ α σ) (e : TimerEvent τ α) : TimerProgram τ α σ :=
  { s with history := s.history ++ [e] }

/-- Carries out a script; the clock is advanced by `again`. The answer has the failure of the
script, if it fails. -/
def perform (again : τ → TimerProgram τ α σ → Option (TimerProgram τ α σ × Nat)) :
    TimerScript τ α σ → TimerProgram τ α σ → Option (TimerProgram τ α σ × Option String)
  | .done failure, s => some (s, failure)
  | .recollect next, s => perform again (next s.client) s
  | .remember client next, s => perform again next { s with client := client }
  | .now next, s => perform again (next s.timers.now) (s.note (.read s.timers.now))
  | .schedule key delay action next, s =>
    perform again next ({ s with timers := s.timers.schedule key delay action }.note
      (.set key s.timers.now delay false action))
  | .scheduleInterval key interval action next, s =>
    perform again next ({ s with timers := s.timers.scheduleInterval key interval action }.note
      (.set key s.timers.now interval true action))
  | .cancel key next, s =>
    let was := s.timers.isPending key
    perform again (next was) ({ s with timers := s.timers.cancel key }.note (.cancelled key was))
  | .cancelAll next, s =>
    perform again next ({ s with timers := s.timers.cancelAll }.note .cancelledAll)
  | .isPending key next, s =>
    let pending := s.timers.isPending key
    perform again (next pending) (s.note (.asked key pending))
  | .pendingCount next, s =>
    let pending := s.timers.pendingCount
    perform again (next pending) (s.note (.counted pending))
  | .advance seconds next, s =>
    match again seconds s with
    | none => none
    | some (s, count) => perform again (next count) (s.note (.advanced s.timers.now count))

def noteFailure (s : TimerProgram τ α σ) (key : String) : Option String → TimerProgram τ α σ
  | none => s
  | some text => s.note (.failed key text)

/-- The host of the timers of a program; `behave` tells the scripts of actions. -/
def host (behave : α → TimerScript τ α σ) : Host (TimerProgram τ α σ) τ α where
  timers := TimerProgram.timers
  setTimers s timers := { s with timers := timers }
  run again timer s :=
    (perform again (behave timer.action)
        (s.note (.fired timer.key s.timers.now timer.action))).map fun (s, failure) =>
      s.noteFailure timer.key failure

/-- Advances the clock; the answer has the number of timers that went off. -/
def advance (behave : α → TimerScript τ α σ) (fuel : Nat) (seconds : τ)
    (s : TimerProgram τ α σ) : Option (TimerProgram τ α σ × Nat) :=
  (host behave).advance fuel seconds s

/-- Carries out a script that is not the action of a timer. -/
def carryOut (behave : α → TimerScript τ α σ) (fuel : Nat) (script : TimerScript τ α σ)
    (s : TimerProgram τ α σ) : Option (TimerProgram τ α σ × Option String) :=
  perform (advance behave fuel) script s

/-! ## One round of an advance -/

section Round

variable {behave : α → TimerScript τ α σ} {target : τ} {p : TimerProgram τ α σ}

theorem advanceTo_of_popDue_eq_none (h : p.timers.popDue target = none) (fuel : Nat) :
    (host behave).advanceTo (fuel + 1) target p =
      some ({ p with timers := { p.timers with now := target } }, 0) := by
  rw [Host.advanceTo, show (host behave).timers p = p.timers from rfl, h]
  rfl

/-- One round of the loop: the script of the timer that goes off, then the rest of the loop. -/
theorem advanceTo_of_popDue_eq_some {timer : Timer τ α} {timers : Timers τ α}
    (h : p.timers.popDue target = some (timer, timers)) (fuel : Nat) :
    (host behave).advanceTo (fuel + 1) target p =
      (perform (advance behave fuel) (behave timer.action)
        ({ p with timers := timers }.note (.fired timer.key timers.now timer.action))).bind
        fun (p, failure) =>
          ((host behave).advanceTo fuel target (p.noteFailure timer.key failure)).map
            fun (p, count) => (p, count + 1) := by
  have hrun : (host behave).run (advance behave fuel) timer ((host behave).setTimers p timers) =
      (perform (advance behave fuel) (behave timer.action)
        ({ p with timers := timers }.note (.fired timer.key timers.now timer.action))).map
        fun (p, failure) => p.noteFailure timer.key failure := rfl
  have hagain : (fun seconds s => (host behave).advanceTo fuel
      (((host behave).timers s).now + seconds) s) = advance behave fuel := rfl
  rw [Host.advanceTo, show (host behave).timers p = p.timers from rfl, h]
  simp only [hagain, hrun]
  cases perform (advance behave fuel) (behave timer.action)
    ({ p with timers := timers }.note (.fired timer.key timers.now timer.action)) with
  | none => rfl
  | some performed =>
    obtain ⟨p₁, failure⟩ := performed
    simp only [Option.map_some, Option.bind_some]
    cases (host behave).advanceTo fuel target (p₁.noteFailure timer.key failure) with
    | none => rfl
    | some rest => rfl

theorem advanceTo_of_perform {timer : Timer τ α} {timers : Timers τ α} {fuel count : Nat}
    {p₁ p₂ : TimerProgram τ α σ} {failure : Option String}
    (h : p.timers.popDue target = some (timer, timers))
    (hscript : perform (advance behave fuel) (behave timer.action)
      ({ p with timers := timers }.note (.fired timer.key timers.now timer.action)) =
        some (p₁, failure))
    (hlater : (host behave).advanceTo fuel target (p₁.noteFailure timer.key failure) =
      some (p₂, count)) :
    (host behave).advanceTo (fuel + 1) target p = some (p₂, count + 1) := by
  rw [advanceTo_of_popDue_eq_some h, hscript, Option.bind_some]
  simp only [hlater]
  rfl

end Round

end TimerProgram
end DeclScan
