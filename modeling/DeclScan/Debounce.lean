import DeclScan.Timers.Program

/-!
# DeclScan.Debounce

Debounced updates: an update of a key waits until no other update of the key has come for a delay,
and then runs once. The timers are shared with others, so a debouncer remembers the keys it set
timers for.
-/

namespace DeclScan

/-- The delay in milliseconds, and the keys that updates were given for. -/
structure Debouncer where
  delayMs : Int
  keys : List String
  deriving Repr, DecidableEq

namespace Debouncer

variable {τ α : Type} [Time τ]

def start (delayMs : Int) : Debouncer := ⟨delayMs, []⟩

def workspaceKey : String := "__workspace_update__"

def addKey (key : String) (keys : List String) : List String :=
  if keys.contains key then keys else keys ++ [key]

theorem mem_addKey {key other : String} {keys : List String} :
    other ∈ addKey key keys ↔ other = key ∨ other ∈ keys := by
  rw [addKey]
  split
  · rename_i h
    have h : key ∈ keys := by simpa using h
    exact ⟨Or.inr, fun e => e.elim (fun e => e ▸ h) id⟩
  · simp [or_comm]

theorem nodup_addKey {key : String} {keys : List String} (h : keys.Nodup) :
    (addKey key keys).Nodup := by
  rw [addKey]
  split
  · exact h
  · rename_i hkey
    have hkey : key ∉ keys := by simpa using hkey
    exact List.nodup_append.2 ⟨h, by simp,
      fun other hother last hlast => by rintro rfl; exact hkey (List.mem_singleton.1 hlast ▸ hother)⟩

/-- Gives an update: it takes the place of the one that waits for the key, and starts its delay
anew. -/
def update (d : Debouncer) (timers : Timers τ α) (key : String) (action : α) :
    Debouncer × Timers τ α :=
  ({ d with keys := addKey key d.keys }, timers.schedule key (Time.ofMillis d.delayMs) action)

def updateRecord (d : Debouncer) (key : String) : LogRecord :=
  .debug .watcher s!"Debounced update for {key} ({d.delayMs}ms)"

/-- Cancels the update of a key. The answer tells whether the key had a timer. -/
def cancel (d : Debouncer) (timers : Timers τ α) (key : String) :
    Debouncer × Timers τ α × Bool :=
  ({ d with keys := d.keys.filter (· ≠ key) }, timers.cancel key, timers.isPending key)

def cancelAll (d : Debouncer) (timers : Timers τ α) : Debouncer × Timers τ α :=
  ({ d with keys := [] }, d.keys.foldl Timers.cancel timers)

def prune (d : Debouncer) (timers : Timers τ α) : Debouncer :=
  { d with keys := d.keys.filter timers.isPending }

def pendingCount (d : Debouncer) (timers : Timers τ α) : Nat := (d.prune timers).keys.length

/-- Why a delay is refused. -/
inductive DelayError where
  | negative
  deriving Repr, DecidableEq

def DelayError.message : DelayError → String
  | .negative => "Debounce delay must be non-negative"

/-- Changes the delay of later updates; updates that wait keep theirs. -/
def setDelay (d : Debouncer) (delayMs : Int) : Except DelayError Debouncer :=
  if delayMs < 0 then .error .negative else .ok { d with delayMs := delayMs }

end Debouncer

/-! ## Updates that are small programs -/

mutual

/-- A command to a debouncer or, for what others set on the same timers, to the timers. -/
inductive UpdateCommand (τ β : Type) where
  | update (key : String) (callback : UpdateCallback τ β)
  | cancel (key : String)
  | cancelAll
  | setDelay (delayMs : Int)
  | countPending
  | advance (seconds : τ)
  | foreign (key : String) (seconds : τ) (mark : β)

/-- What an update does: it leaves a mark, carries out commands, and fails if there is a text to
fail with. -/
inductive UpdateCallback (τ β : Type) where
  | mk (mark : β) (commands : List (UpdateCommand τ β)) (failure : Option String)

end

/-- A debouncer on timers of its own or shared ones, and what was done so far. -/
structure UpdateProgram (τ β : Type) where
  debouncer : Debouncer
  timers : Timers τ (UpdateCallback τ β)
  fired : List (Firing τ β)
  log : List LogRecord

namespace UpdateProgram

variable {τ β : Type} [Time τ]

def start (delayMs : Int) : UpdateProgram τ β :=
  ⟨Debouncer.start delayMs, Timers.start Time.zero, [], []⟩

/-- Puts back a debouncer and timers that were changed together. -/
def setPair (s : UpdateProgram τ β) (p : Debouncer × Timers τ (UpdateCallback τ β)) :
    UpdateProgram τ β :=
  { s with debouncer := p.1, timers := p.2 }

/-- Carries out a command. A refused delay is a failure. -/
def command (again : τ → UpdateProgram τ β → Option (UpdateProgram τ β × Nat)) :
    UpdateCommand τ β → UpdateProgram τ β → Option (UpdateProgram τ β × Option String)
  | .update key callback, s =>
    some ({ s.setPair (s.debouncer.update s.timers key callback) with
      log := s.log ++ [s.debouncer.updateRecord key] }, none)
  | .cancel key, s =>
    let (debouncer, timers, _) := s.debouncer.cancel s.timers key
    some (s.setPair (debouncer, timers), none)
  | .cancelAll, s => some (s.setPair (s.debouncer.cancelAll s.timers), none)
  | .setDelay delayMs, s =>
    match s.debouncer.setDelay delayMs with
    | .ok debouncer => some ({ s with debouncer := debouncer }, none)
    | .error e => some (s, some e.message)
  | .countPending, s => some ({ s with debouncer := s.debouncer.prune s.timers }, none)
  | .advance seconds, s => (again seconds s).map fun (s, _) => (s, none)
  | .foreign key seconds mark, s =>
    some ({ s with timers := s.timers.schedule key seconds (.mk mark [] none) }, none)

/-- Carries out commands in turn, up to the first failure. -/
def commands (again : τ → UpdateProgram τ β → Option (UpdateProgram τ β × Nat)) :
    List (UpdateCommand τ β) → UpdateProgram τ β → Option (UpdateProgram τ β × Option String)
  | [], s => some (s, none)
  | c :: rest, s =>
    match command again c s with
    | none => none
    | some (s, some text) => some (s, some text)
    | some (s, none) => commands again rest s

def run (again : τ → UpdateProgram τ β → Option (UpdateProgram τ β × Nat))
    (timer : Timer τ (UpdateCallback τ β)) (s : UpdateProgram τ β) :
    Option (UpdateProgram τ β) :=
  match timer.action with
  | .mk mark steps failure =>
    let s := { s with fired := s.fired ++ [⟨timer.key, mark, s.timers.now⟩] }
    (commands again steps s).map fun (s, stopped) =>
      match stopped <|> failure with
      | none => s
      | some text => { s with log := s.log ++ [failureRecord timer.key text] }

def host : Host (UpdateProgram τ β) τ (UpdateCallback τ β) where
  timers := UpdateProgram.timers
  setTimers s timers := { s with timers := timers }
  run := run

/-- Advances the clock; the answer has the number of timers that went off. -/
def advance (fuel : Nat) (seconds : τ) (s : UpdateProgram τ β) :
    Option (UpdateProgram τ β × Nat) :=
  host.advance fuel seconds s

/-- Gives up all updates that wait; with `ownsTimers`, all other timers go as well. -/
def dispose (s : UpdateProgram τ β) (ownsTimers : Bool) : UpdateProgram τ β :=
  let s := s.setPair (s.debouncer.cancelAll s.timers)
  if ownsTimers then { s with timers := s.timers.cancelAll } else s

end UpdateProgram
end DeclScan
