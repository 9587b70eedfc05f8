/-!
# DeclScan.Sampler

Sources of measurements. A measurement gives a value, or is unavailable for a reason that is worth
a warning, or breaks off with a failure that nobody expects.
-/

namespace DeclScan

/-- Why a measurement is unavailable: the system refuses it, for a reason, or there is nothing to
tell about the process. -/
inductive Outage where
  | system (reason : String)
  | process
  deriving Repr, DecidableEq

def Outage.reason : Outage → String
  | .system reason => reason
  | .process => ""

/-- What a measurement gives. -/
inductive Sample (α : Type) where
  | value (a : α)
  | unavailable (outage : Outage)
  | failure (text : String)
  deriving Repr, DecidableEq

/-- A source of measurements: the next one, and those to come. The last repeats. -/
structure Sampler (α : Type) where
  next : Sample α
  later : List (Sample α)
  deriving Repr, DecidableEq

namespace Sampler

def constant {α : Type} (a : α) : Sampler α := ⟨.value a, []⟩

/-- The source of a list of measurements; without any, it is the constant one. -/
def ofList {α : Type} (default : α) : List (Sample α) → Sampler α
  | [] => constant default
  | s :: later => ⟨s, later⟩

def take {α : Type} (s : Sampler α) : Sample α × Sampler α :=
  match s.later with
  | [] => (s.next, s)
  | next :: later => (s.next, ⟨next, later⟩)

end Sampler
end DeclScan
