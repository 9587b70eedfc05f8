import DeclScan.Log
import DeclScan.Text.Quoted
import DeclScan.Timers.Script

/-!
# DeclScan.Timers.Program

Timers whose actions are small programs: a callback leaves its mark, carries out commands on the
timers, and may fail at the end. A failure is logged and has no other effect.
-/

namespace DeclScan

mutual

/-- A command to a table of timers. -/
inductive TimerCommand (τ β : Type) where
  | schedule (key : String) (delay : τ) (callback : TimerCallback τ β)
  | interval (key : String) (seconds : τ) (callback : TimerCallback τ β)
  | advance (seconds : τ)
  | cancel (key : String)
  | cancelAll

/-- What a timer does when it goes off: it leaves a mark, carries out commands, and fails if there
is a text to fail with. -/
inductive TimerCallback (τ β : Type) where
  | mk (mark : β) (commands : List (TimerCommand τ β)) (failure : Option String)

end

/-- A timer that went off: its key, its mark and the time. -/
structure Firing (τ β : Type) where
  key : String
  mark : β
  time : τ

def failureRecord (key text : String) : LogRecord :=
  { LogRecord.error .root s!"Scheduled task {Text.quoted key} failed: {text}" with
    failure := some text }

abbrev CallbackProgram (τ β : Type) := TimerProgram τ (TimerCallback τ β) Unit

namespace CallbackProgram

variable {τ β : Type} [Time τ]

def standardName : String := "dauns-scheduler"

/-- The name of the thread that the timer of a key goes off on, where timers have threads. -/
def threadName (scheduler key : String) : String := s!"{scheduler}:{key}"

def scriptOf (failure : Option String) :
    List (TimerCommand τ β) → TimerScript τ (TimerCallback τ β) Unit
  | [] => .done failure
  | .schedule key delay callback :: rest => .schedule key delay callback (scriptOf failure rest)
  | .interval key seconds callback :: rest =>
    .scheduleInterval key seconds callback (scriptOf failure rest)
  | .advance seconds :: rest => .advance seconds fun _ => scriptOf failure rest
  | .cancel key :: rest => .cancel key fun _ => scriptOf failure rest
  | .cancelAll :: rest => .cancelAll (scriptOf failure rest)

def script : TimerCallback τ β → TimerScript τ (TimerCallback τ β) Unit
  | .mk _ commands failure => scriptOf failure commands

/-- Carries out commands in turn; the clock stands still. -/
def commands (steps : List (TimerCommand τ β)) (s : CallbackProgram τ β) :
    Option (CallbackProgram τ β) :=
  (s.carryOut script 0 (scriptOf none steps)).map Prod.fst

/-- Advances the clock; the answer has the number of timers that went off. -/
def advance (fuel : Nat) (seconds : τ) (s : CallbackProgram τ β) :
    Option (CallbackProgram τ β × Nat) :=
  TimerProgram.advance script fuel seconds s

def fired (s : CallbackProgram τ β) : List (Firing τ β) :=
  s.history.filterMap fun
    | .fired key time (.mk mark _ _) => some ⟨key, mark, time⟩
    | _ => none

def log (s : CallbackProgram τ β) : List LogRecord :=
  s.history.filterMap fun
    | .failed key text => some (failureRecord key text)
    | _ => none

end CallbackProgram
end DeclScan
